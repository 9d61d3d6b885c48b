/-
  Cluster/Provenance.lean --- where the entries of a gossip come from.

  What a handler writes into the gossip is told by a message, is the member of
  the node, or is the downing of a member.  A handler that does not fail forgets
  no member and brings none back up.  No ring is assumed to be in order here, so
  handlers can fail, and what they sent before counts.
-/
import AurumActors.Cluster.Inversion

set_option autoImplicit false
set_option linter.dupNamespace false

namespace AurumActors.Cluster

open Std
open AurumActors.Core AurumActors.Foundation

/-! ## Entries -/

/-- Where an entry comes from, that a node with the member `own` has after a
message. -/
inductive Source (known : Option Gossip) (msg : Option ClusterMsg) (own m : Member) :
    MachineState → Prop
  | kept (g : Gossip) (s : MachineState) (h : known = some g) (hs : g.states[m]? = some s) :
      Source known msg own m s
  | told (g : Gossip) (s : MachineState) (h : msg = some (.intraMsg (.state g)))
      (hs : g.states[m]? = some s) : Source known msg own m s
  | own (h : m = own) : Source known msg own m .up
  | pinged (h : msg = some (.intraMsg (.ping m))) : Source known msg own m .up
  | downed (g : Gossip) (hmsg : msg = some (.downed m)) (h : known = some g)
      (hs : g.states[m]? = some .up) : Source known msg own m .down

/-- No member is forgotten or brought back up. -/
def Gossip.Keeps (g g' : Gossip) : Prop :=
  ∀ (m : Member) (s : MachineState), g.states[m]? = some s →
    ∃ s', g'.states[m]? = some s' ∧ (s = .down → s' = .down)

theorem Gossip.Keeps.refl (g : Gossip) : g.Keeps g := fun _ s h => ⟨s, h, id⟩

theorem Gossip.Keeps.trans {g g' g'' : Gossip} (h : g.Keeps g') (h' : g'.Keeps g'') :
    g.Keeps g'' := by
  intro m s hs
  obtain ⟨s', hs', hdown⟩ := h m s hs
  obtain ⟨s'', hs'', hdown'⟩ := h' m s' hs'
  exact ⟨s'', hs'', fun hs => hdown' (hdown hs)⟩

/-- A new entry is kept apart from the others. -/
theorem Gossip.Keeps.insert {g g' : Gossip} (h : g.Keeps g') {x : Member} {s : MachineState}
    (hx : ∀ r, g.states[x]? = some r → r = .down → s = .down) :
    g.Keeps ⟨g'.states.insert x s⟩ := by
  intro m r hm
  simp only [getElem?_insert_eq]
  split
  · next heq => exact ⟨s, rfl, fun hr => hx r (heq ▸ hm) hr⟩
  · exact h m r hm

/-- What a handler sends, with the gossip it had then. -/
structure Told (known : Option Gossip) (msg : Option ClusterMsg) (own : Member)
    (gossip : Option Gossip) (out : List Output) : Prop where
  sources : ∀ (g : Gossip) (m : Member) (s : MachineState), gossip = some g →
    g.states[m]? = some s → Source known msg own m s
  tells : Output.Tells own gossip out

/-- What a handler that does not fail makes of the known gossip. -/
structure Traced (known : Option Gossip) (msg : Option ClusterMsg) (own : Member)
    (gossip : Option Gossip) (out : List Output) : Prop
    extends Told known msg own gossip out where
  keeps : ∀ g, known = some g → ∃ g', gossip = some g' ∧ g.Keeps g'

variable {H : RingHash} {o : Oracle} {common common' : NodeState} {ic ic' : InCluster}
  {out : List Output}

/-- Nothing but requests of the node is sent. -/
theorem Told.of_tells {known : Option Gossip} {msg : Option ClusterMsg} {own : Member}
    (htells : Output.Tells own none out) : Told known msg own none out :=
  ⟨nofun, htells⟩

theorem Traced.of_same {known : Option Gossip} {msg : Option ClusterMsg} {own : Member}
    (htells : Output.Tells own known out) : Traced known msg own known out :=
  ⟨⟨fun g _ s hg hs => .kept g s hg hs, htells⟩, fun g hg => ⟨g, hg, .refl g⟩⟩

/-- Nothing changes, and nothing is sent to other nodes. -/
theorem Traced.silent {known : Option Gossip} {msg : Option ClusterMsg} {own : Member}
    (h : ∀ x ∈ out, x.packet? = none) : Traced known msg own known out :=
  .of_same (.of_silent h)

/-! ## The handlers inside the cluster -/

/-- The loop over events changes the gossip only when it removes the node itself,
which goes on as the member with the drawn id. -/
theorem applyEvents_gossip {es : List ClusterEvent} {s s' : Merging}
    (hnew : .removed s.common.member ∈ es →
      ∀ e ∈ es, e.member? ≠ some (s.common.newId (o.id s.drawn)).member)
    (h : InCluster.applyEvents H o s es = .ok s') :
    s'.common.member = s.common.member ∧ s'.ic.gossip = s.ic.gossip ∨
      .removed s.common.member ∈ es ∧
        s'.common.member = (s.common.newId (o.id s.drawn)).member ∧
        s'.ic.gossip = ⟨s.ic.gossip.states.insert (s.common.newId (o.id s.drawn)).member .up⟩ := by
  induction es generalizing s with
  | nil =>
      cases h
      exact .inl ⟨rfl, rfl⟩
  | cons e es ih =>
      obtain ⟨s₁, hstep, hrest⟩ := ok_of_bind h
      -- the cases in which the event is not about the node itself
      have hsame : s₁.common = s.common → s₁.drawn = s.drawn → s₁.ic.gossip = s.ic.gossip →
          s'.common.member = s.common.member ∧ s'.ic.gossip = s.ic.gossip ∨
            .removed s.common.member ∈ e :: es ∧
              s'.common.member = (s.common.newId (o.id s.drawn)).member ∧
              s'.ic.gossip =
                ⟨s.ic.gossip.states.insert (s.common.newId (o.id s.drawn)).member .up⟩ := by
        intro hcommon hdrawn hgossip
        have hrest' := ih (s := s₁) (fun hmem e he => by
          rw [hcommon] at hmem
          rw [hcommon, hdrawn]
          exact hnew (List.mem_cons_of_mem _ hmem) e (List.mem_cons_of_mem _ he)) hrest
        rw [hcommon, hdrawn, hgossip] at hrest'
        exact hrest'.imp_right fun ⟨hmem, hrest'⟩ => ⟨List.mem_cons_of_mem _ hmem, hrest'⟩
      cases e with
      | added m =>
          cases hstep
          exact hsame rfl rfl rfl
      | removed m =>
          simp only [InCluster.applyEvent] at hstep
          split at hstep
          · cases hstep
          · split at hstep
            · split at hstep
              · next hown =>
                  subst hown
                  have hnew' := hnew List.mem_cons_self
                  cases hstep
                  have habsent : .removed (s.common.newId (o.id s.drawn)).member ∉ es :=
                    fun hmem => hnew' _ (List.mem_cons_of_mem _ hmem) rfl
                  rcases ih (fun hmem => absurd hmem habsent) hrest with hkept | ⟨hmem, -⟩
                  · exact .inr ⟨List.mem_cons_self, hkept⟩
                  · exact absurd hmem habsent
              · cases hstep
                exact hsame rfl rfl rfl
            · cases hstep
      | alone m | joined m =>
          cases hstep
          exact hsame rfl rfl rfl
      | left =>
          cases hstep
          exact hsame rfl rfl rfl

/-- A merge of a gossip for which a drawn id is new, and the loop over its events. -/
theorem merged_sources {gossip merged : Gossip} {events : List ClusterEvent} {s : Merging}
    (hfresh : FreshId o common (some ic.gossip) gossip)
    (hmerge : ic.gossip.merge gossip = (merged, events))
    (hloop : InCluster.applyEvents H o ⟨{ ic with gossip := merged }, common, none, 0⟩ events =
      .ok s) :
    ic.gossip.Keeps s.ic.gossip ∧ ∀ (m : Member) (r : MachineState),
      s.ic.gossip.states[m]? = some r →
        Source (some ic.gossip) (some (.intraMsg (.state gossip))) s.common.member m r := by
  have hmerged : ic.gossip.Keeps merged := by
    intro m r hr
    rw [← show (ic.gossip.merge gossip).1 = merged from congrArg Prod.fst hmerge]
    exact Gossip.merge_mono ic.gossip gossip hr
  have hsource : ∀ (m : Member) (r : MachineState), merged.states[m]? = some r →
      Source (some ic.gossip) (some (.intraMsg (.state gossip))) s.common.member m r := by
    intro m r hr
    rw [← show (ic.gossip.merge gossip).1 = merged from congrArg Prod.fst hmerge] at hr
    rcases Gossip.of_merge_getElem? hr with hold | hnew
    · exact .kept ic.gossip r rfl hold
    · exact .told gossip r rfl hnew
  have hevents : (ic.gossip.merge gossip).2 = events := congrArg Prod.snd hmerge
  have hdown : .removed common.member ∈ events → gossip.states[common.member]? = some .down := by
    rw [← hevents]
    exact fun hown => (Gossip.removed_mem_events.mp hown).2
  have hnew : .removed common.member ∈ events →
      ∀ e ∈ events, e.member? ≠ some (common.newId (o.id 0)).member := by
    intro hown e he heq
    rw [← hevents] at he
    exact (hfresh (hdown hown)).1 (Gossip.mem_of_event he heq)
  rcases applyEvents_gossip hnew hloop with ⟨-, hgossip⟩ | ⟨hown, hmember, hgossip⟩
  · rw [hgossip]
    exact ⟨hmerged, hsource⟩
  · rw [hgossip]
    refine ⟨hmerged.insert fun r hr => ?_, fun m r hr => ?_⟩
    · have hnotin := (hfresh (hdown hown)).2 ic.gossip rfl
      rw [ExtTreeMap.mem_iff_isSome_getElem?, hr] at hnotin
      exact absurd rfl hnotin
    · simp only [getElem?_insert_eq] at hr
      split at hr
      · next heq =>
          cases hr
          exact .own (heq.trans hmember.symm)
      · exact hsource m r hr

/-- The gossip round after a merge. -/
theorem tells_round (s : Merging) (events : List ClusterEvent) :
    Output.Tells s.common.member (some s.ic.gossip)
      (if events.isEmpty then [] else s.ic.gossipRound o 0 s.common []) := by
  split
  · exact .of_silent (by simp)
  · exact InCluster.tells_gossipRound _ _ _ _ _

theorem state_traced {gossip : Gossip} (hfresh : FreshId o common (some ic.gossip) gossip)
    (h : ic.process H o common (.state gossip) = .ok (ic', common', out)) :
    Traced (some ic.gossip) (some (.intraMsg (.state gossip))) common'.member (some ic'.gossip)
      out := by
  rcases hmerge : ic.gossip.merge gossip with ⟨merged, events⟩
  simp only [InCluster.process, hmerge] at h
  obtain ⟨s, hloop, h⟩ := ok_of_bind h
  obtain ⟨hkeeps, hsources⟩ := merged_sources hfresh hmerge (ok_of_doing hloop)
  obtain ⟨⟨ic₁, common₁, hbrs⟩, hupdate, h⟩ := ok_of_bind h
  have hsettled := InCluster.settled_of_ok (ok_of_doing hupdate)
  have hnotify := ic₁.notify_member (o := o) common₁ (events ++ s.newSelfMember.toList)
  have hsent := fun own g => ic₁.tells_notify (o := o) common₁
    (events ++ s.newSelfMember.toList) own g
  have hmember : common₁.member = s.common.member := by rw [hsettled.common]
  cases h
  dsimp only
  rw [hnotify, hmember, hsettled.gossip]
  refine ⟨⟨fun g m r hg hr => ?_, ?_⟩, fun g hg => ⟨s.ic.gossip, rfl, ?_⟩⟩
  · cases hg
    exact hsources m r hr
  · exact ((((tells_round s events).cons rfl).append (hsettled.tells _)).append (hsent _ _)).append
      (.cons rfl (.of_silent (by simp)))
  · cases hg
    exact hkeeps

/-- A ping. -/
theorem ping_traced {member : Member}
    (h : ic.process H o common (.ping member) = .ok (ic', common', out)) :
    Traced (some ic.gossip) (some (.intraMsg (.ping member))) common'.member (some ic'.gossip)
      out := by
  simp only [InCluster.process] at h
  split at h
  · next hvacant =>
      obtain ⟨⟨ic₁, common₁, hbrs⟩, hupdate, h⟩ := ok_of_bind h
      have hsettled := InCluster.settled_of_ok hupdate
      have hnotify := ic₁.notify_member (o := o) common₁ [.added member]
      have hsent := fun own g => ic₁.tells_notify (o := o) common₁ [.added member] own g
      have hmember : common₁.member = common.member := by rw [hsettled.common]
      cases h
      have hgossip := hsettled.gossip
      dsimp only
      rw [hnotify, hmember]
      refine ⟨⟨fun g m r hg hr => ?_, ?_⟩, fun g hg => ⟨_, rfl, ?_⟩⟩
      · cases hg
        rw [hgossip] at hr
        simp only [getElem?_insert_eq] at hr
        split at hr
        · next heq =>
            cases hr
            exact .pinged (heq ▸ rfl)
        · exact .kept ic.gossip r rfl hr
      · exact .append (.append (hsettled.tells _) (hsent _ _))
          (InCluster.tells_gossipRound _ _ _ _ _)
      · cases hg
        rw [hgossip]
        refine (Gossip.Keeps.refl ic.gossip).insert fun r hr => ?_
        rw [hvacant] at hr
        cases hr
  · cases h
    exact .of_same (InCluster.tells_gossipRound _ _ _ _ _)

/-- A downing. -/
theorem down_traced {member : Member}
    (h : ic.down H o common member = .ok (ic', common', out)) :
    Traced (some ic.gossip) (some (.downed member)) common'.member (some ic'.gossip) out := by
  unfold InCluster.down at h
  split at h
  · cases h
  · cases h
    exact .silent (by simp)
  · next hup =>
      split at h
      · cases h
      · split at h
        · obtain ⟨⟨ic₁, common₁, hbrs⟩, hupdate, h⟩ := ok_of_bind h
          have hsettled := InCluster.settled_of_ok hupdate
          have hsent := fun own g => ic₁.tells_notify (o := o) common₁ [.removed member] own g
          have hmember : common₁.member = common.member := by rw [hsettled.common]
          cases h
          have hgossip := hsettled.gossip
          dsimp only
          rw [hmember]
          refine ⟨⟨fun g m r hg hr => ?_, ?_⟩, fun g hg => ⟨_, rfl, ?_⟩⟩
          · cases hg
            rw [hgossip] at hr
            simp only [getElem?_insert_eq] at hr
            split at hr
            · next heq =>
                cases hr
                exact .downed ic.gossip (heq ▸ rfl) rfl (heq ▸ hup)
            · exact .kept ic.gossip r rfl hr
          · exact .append (.append (hsettled.tells _) (InCluster.tells_gossipRound _ _ _ _ _))
              (hsent _ _)
          · cases hg
            rw [hgossip]
            exact (Gossip.Keeps.refl ic.gossip).insert fun _ _ _ => rfl
        · cases h

/-! ## The ways into the cluster -/

/-- What a node has and sends that enters the cluster with a gossip. -/
theorem join_gossip {gossip : Gossip} {up : List Member}
    (h : Pinging.join H o common gossip up = .ok (ic', common', out)) :
    ic'.gossip = gossip ∧ common'.member = common.member ∧
      Output.Tells common'.member (some ic'.gossip) out := by
  unfold Pinging.join at h
  obtain ⟨⟨ic₁, common₁, hbrs⟩, hupdate, h⟩ := ok_of_bind h
  have hsettled := InCluster.settled_of_ok (ok_of_doing hupdate)
  have hsent := fun own g => ic₁.tells_notify (o := o) common₁ [.joined common₁.member] own g
  have hmember : common₁.member = common.member := by rw [hsettled.common]
  cases h
  have htells := hsettled.tells (some ic'.gossip)
  rw [← hmember] at htells
  exact ⟨hsettled.gossip, hmember, ((htells.cons rfl).append
    (InCluster.tells_gossipRound _ _ _ _ _)).append (hsent _ _)⟩

/-- Pings are from the node. -/
theorem tells_ping (png : Pinging) (common : NodeState) (gossip : Option Gossip) :
    Output.Tells common.member gossip (png.ping common).2 := by
  intro x hx dest msg hpacket
  rcases List.mem_append.mp hx with hx | hx
  · obtain ⟨s, -, rfl⟩ := List.mem_map.mp hx
    cases hpacket
    exact .inl rfl
  · rw [List.mem_singleton.mp hx] at hpacket
    cases hpacket

theorem pinging_traced {png : Pinging} {msg : IntraClusterMsg} {state : State}
    (h : png.process H o common msg = .ok (state, common', out)) :
    Traced none (some (.intraMsg msg)) common'.member state.gossip? out := by
  cases msg with
  | foo =>
      cases h
      exact .silent (by simp)
  | reqGossip member =>
      cases h
      exact .silent (by simp)
  | reqHeartbeat member id =>
      have hasks : Output.Tells common.member none
          [.udp member.socket (.reqGossip common.member)] := by
        intro x hx dest msg hpacket
        rw [List.mem_singleton.mp hx] at hpacket
        cases hpacket
        exact .inr (.inl rfl)
      simp only [Pinging.process] at h
      split at h
      · cases h
        exact .of_same (hasks.cons rfl)
      · cases h
        exact .of_same hasks
  | state gossip =>
      obtain ⟨common₀, gossip₀, henter, -, -, hstates⟩ :=
        enter_spec (o := o) common gossip
      simp only [Pinging.process, henter] at h
      obtain ⟨⟨ic', common₁, out₁⟩, hjoin, h⟩ := ok_of_bind h
      cases h
      obtain ⟨hgossip, hmember, htells⟩ := join_gossip hjoin
      refine ⟨⟨fun g m s hg hs => ?_, htells⟩, by simp⟩
      cases hg
      rw [hgossip] at hs
      rcases hstates m s hs with hold | ⟨hown, rfl⟩
      · exact .told gossip s rfl hold
      · exact .own (hown.trans hmember.symm)
  | ping member =>
      simp only [Pinging.process] at h
      split at h
      · cases h
        exact .silent (by simp)
      · obtain ⟨⟨ic', common₁, out₁⟩, hjoin, h⟩ := ok_of_bind h
        cases h
        obtain ⟨hgossip, hmember, htells⟩ := join_gossip hjoin
        refine ⟨⟨fun g m s hg hs => ?_, htells⟩, by simp⟩
        cases hg
        rw [hgossip] at hs
        simp only [getElem?_insert_eq, ExtTreeMap.getElem?_empty] at hs
        split at hs
        · next heq =>
            cases hs
            exact .own (heq.trans hmember.symm)
        · split at hs
          · next heq =>
              cases hs
              exact .pinged (heq ▸ rfl)
          · cases hs

/-! ## All messages -/

theorem process_traced {msg : IntraClusterMsg}
    (hfresh : ∀ gossip, msg = .state gossip → FreshId o common (some ic.gossip) gossip)
    (h : ic.process H o common msg = .ok (ic', common', out)) :
    Traced (some ic.gossip) (some (.intraMsg msg)) common'.member (some ic'.gossip) out := by
  cases msg with
  | foo =>
      cases h
      exact .silent (by simp)
  | reqGossip member =>
      cases h
      refine .of_same fun x hx dest msg hpacket => ?_
      rw [List.mem_singleton.mp hx] at hpacket
      cases hpacket
      exact .inr (.inr (.inr ⟨ic.gossip, rfl, rfl⟩))
  | reqHeartbeat member id =>
      simp only [InCluster.process] at h
      split at h
      · cases h
        exact .silent (by simp [Output.packet?, NodeState.heartbeat])
      · cases h
        exact .silent (by simp)
  | state gossip => exact state_traced (hfresh gossip rfl) h
  | ping member => exact ping_traced h

/-! ## Handlers that fail -/

section Failure

variable {f : Failure}

/-- What a failed merge sent: only the round has the gossip. -/
theorem state_failed {gossip : Gossip} (hfresh : FreshId o common (some ic.gossip) gossip)
    (h : ic.process H o common (.state gossip) = .error f) :
    ∃ g, Told (some ic.gossip) (some (.intraMsg (.state gossip))) f.common.member g f.out := by
  rcases state_error_cases h with hout | ⟨s, f₀, hloop, hupdate, hcommon, hout⟩
  · refine ⟨none, .of_tells ?_⟩
    rw [hout]
    exact .of_silent (by simp [Output.packet?])
  · obtain ⟨-, hsources⟩ := merged_sources hfresh rfl hloop
    obtain ⟨hmember, htells⟩ := InCluster.tells_of_error hupdate
    rw [hcommon, hmember, hout]
    refine ⟨some s.ic.gossip, fun g m r hg hr => ?_,
      ((tells_round s _).cons rfl).append (htells _)⟩
    cases hg
    exact hsources m r hr

/-- Other handlers fail before they send the gossip. -/
theorem told_of_update {known : Option Gossip} {msg : Option ClusterMsg}
    (h : ic.updateChargesManagers H common = .error f) :
    Told known msg f.common.member none f.out := by
  obtain ⟨hmember, htells⟩ := InCluster.tells_of_error h
  rw [hmember]
  exact .of_tells (htells none)

theorem join_failed {gossip : Gossip} {up : List Member} {known : Option Gossip}
    {msg : Option ClusterMsg} (h : Pinging.join H o common gossip up = .error f) :
    Told known msg f.common.member none f.out := by
  obtain ⟨ic₁, f₀, hupdate, hcommon, hout⟩ := join_error_cases h
  obtain ⟨hmember, htells⟩ := InCluster.tells_of_error hupdate
  rw [hcommon, hmember, hout]
  exact .of_tells ((htells none).cons rfl)

end Failure

namespace Cluster

/-- Creating a cluster writes the member of the node. -/
theorem createCluster_traced {c : Cluster} (hstate : c.state.gossip? = none)
    (msg : Option ClusterMsg) :
    Traced c.state.gossip? msg (c.createCluster H o).1.common.member
      (c.createCluster H o).1.state.gossip? (c.createCluster H o).2 := by
  have hmember := (InCluster.alone H c.common).notify_member (o := o) c.common
    [.alone c.common.member]
  refine ⟨⟨fun g m s hg hs => ?_, ?_⟩, fun g hg => ?_⟩
  · cases hg
    simp only [InCluster.alone, getElem?_insert_eq] at hs
    split at hs
    · next heq =>
        cases hs
        exact .own (heq.trans hmember.symm)
    · simp at hs
  · exact (InCluster.alone H c.common).tells_notify (o := o) c.common [.alone c.common.member] _ _
  · rw [hstate] at hg
    cases hg

/-- Starting writes the member of the node at most. -/
theorem preStart_traced {c : Cluster} (hstate : c.state = .left) :
    Traced c.state.gossip? none (c.preStart H o).1.common.member
      (c.preStart H o).1.state.gossip? (c.preStart H o).2 := by
  obtain ⟨common, state⟩ := c
  subst hstate
  have htick : Output.Tells common.member none
      [.scheduleHeartbeatTick common.clrConfig.hbInterval] := .of_silent (by simp [Output.packet?])
  unfold preStart
  simp only
  split
  · have htraced := createCluster_traced (H := H) (o := o) (c := ⟨common, .left⟩) rfl none
    exact ⟨⟨htraced.sources, htraced.tells.append (.of_silent (by simp [Output.packet?]))⟩,
      htraced.keeps⟩
  · exact .of_same ((tells_ping _ _ _).append htick)

/-- What a message makes of the gossip of a node, and what the node sends then. -/
theorem recv_traced {c c' : Cluster} {msg : ClusterMsg}
    (hfresh : ∀ gossip, msg = .intraMsg (.state gossip) →
      FreshId o c.common c.state.gossip? gossip)
    (h : c.recv H o msg = .ok (c', out)) :
    Traced c.state.gossip? (some msg) c'.common.member c'.state.gossip? out := by
  cases received_of_ok h with
  | process h => exact process_traced (fun gossip hmsg => hfresh gossip (hmsg ▸ rfl)) h
  | pinging h => exact pinging_traced h
  | subscribe hout =>
      refine .silent fun x hx => ?_
      obtain ⟨update, rfl⟩ := hout x hx
      rfl
  | ping hcount => exact .of_same (tells_ping _ _ _)
  | alone hcount => exact createCluster_traced rfl _
  | @silence common ic =>
      have hasks : Output.Tells common.member (some ic.gossip) (ic.gossipReqs o 1 common) := by
        intro x hx dest msg hpacket
        obtain ⟨m, -, rfl⟩ := List.mem_map.mp hx
        cases hpacket
        exact .inr (.inl rfl)
      exact .of_same (((InCluster.tells_gossipRound _ _ _ _ _).append hasks).append
        (.cons rfl (.of_silent (by simp))))
  | down h => exact down_traced h
  | tick managers =>
      refine .silent fun x hx => ?_
      rcases List.mem_append.mp hx with hx | hx
      · obtain ⟨m, -, rfl⟩ := List.mem_map.mp hx
        rfl
      · rw [List.mem_singleton.mp hx]
        rfl
  | ignored hmsg => exact .silent (by simp)

/-- What a message made the node send that it failed at.  A downing fails before
the gossip is sent. -/
theorem recv_failed {c : Cluster} {msg : ClusterMsg} {f : Failure}
    (hfresh : ∀ gossip, msg = .intraMsg (.state gossip) →
      FreshId o c.common c.state.gossip? gossip)
    (h : c.recv H o msg = .error f) :
    ∃ g, Told c.state.gossip? (some msg) f.common.member g f.out ∧
      ∀ m, msg = .downed m → g = none := by
  rcases recv_error_cases h with ⟨ic, m, hstate, rfl, hfails⟩ |
    ⟨png, m, hstate, rfl, hfails⟩ | ⟨ic, member, hstate, rfl, hfails⟩
  · rw [hstate] at hfresh ⊢
    rcases process_error_cases hfails with ⟨gossip, rfl⟩ | ⟨ic₁, hupdate⟩
    · obtain ⟨g, htold⟩ := state_failed (hfresh gossip rfl) hfails
      exact ⟨g, htold, by simp⟩
    · exact ⟨none, told_of_update hupdate, by simp⟩
  · obtain ⟨common₀, gossip, up, hjoin⟩ := pinging_error_cases hfails
    exact ⟨none, join_failed hjoin, by simp⟩
  · refine ⟨none, ?_, fun _ _ => rfl⟩
    rcases down_error_cases hfails with ⟨-, hout⟩ | ⟨ic₁, hupdate⟩
    · rw [hout]
      exact .of_tells (.of_silent (by simp))
    · exact told_of_update hupdate

end Cluster

end AurumActors.Cluster
