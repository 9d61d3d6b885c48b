/-
  Cluster/Subscriptions.lean --- what the updates tell a subscriber about the node
  itself.

  The events of an update are about other members, or the node was removed among
  them and goes on as another member, which it names last.  The last update has
  the member and the set of members of the node.
-/
import AurumActors.Cluster.Coverage
import AurumActors.Cluster.UpdateStream

set_option autoImplicit false
set_option linter.dupNamespace false

namespace AurumActors.Cluster

open Std
open AurumActors.Core AurumActors.Foundation

/-! ## The events of one handler -/

/-- An event by which another member comes, or any member goes. -/
def ClusterEvent.Moves (U : Set Member) (own : Member) : ClusterEvent → Prop
  | .added m => m ∈ U ∧ m ≠ own
  | .removed m => m ∈ U
  | _ => False

/-- The events tell how the member `own` and the members `nodes` of a node became
those after the handler. -/
inductive Narrates (U : Set Member) (own : Member) (nodes : MemberSet) :
    Member → MemberSet → List ClusterEvent → Prop where
  | stays {nodes' : MemberSet} {events : List ClusterEvent}
      (hmoves : ∀ e ∈ events, e.Moves U own) (hreplay : replay nodes events = some nodes')
      (hown : own ∈ nodes') : Narrates U own nodes own nodes' events
  | replaced {nodes' : MemberSet} {own' : Member} {events : List ClusterEvent}
      (hmoves : ∀ e ∈ events, e.Moves U own) (hreplay : replay nodes events = some nodes')
      (hgone : own ∉ nodes') (hnew : own' ∉ nodes') :
      Narrates U own nodes own' (nodes'.insert own') (events ++ [.joined own'])

theorem Narrates.of_nil {U : Set Member} {own own' : Member} {nodes nodes' : MemberSet}
    (h : Narrates U own nodes own' nodes' []) : own' = own ∧ nodes' = nodes := by
  generalize hevents : ([] : List ClusterEvent) = events at h
  cases h with
  | stays hmoves hreplay hown =>
      subst hevents
      cases hreplay
      exact ⟨rfl, rfl⟩
  | replaced hmoves hreplay hgone hnew =>
      exact absurd hevents.symm (List.append_ne_nil_of_right_ne_nil _ (List.cons_ne_nil _ _))

/-- What a handler inside the cluster tells every subscriber. -/
structure Recounts (U : Set Member) (common : NodeState) (ic : InCluster) (common' : NodeState)
    (ic' : InCluster) (out : List Output) (events : List ClusterEvent) : Prop where
  narrates : Narrates U common.member ic.members common'.member ic'.members events
  notifies : out.filter Output.isNotify = if events = [] then []
    else common.subscribers.map fun s => .notify s ⟨events, ic'.members, ic'.ring⟩

section Handlers

variable {H : RingHash} {o : Oracle} {U : Set Member} {common common' : NodeState}
  {ic ic' : InCluster} {out : List Output}

/-- A handler that tells nothing. -/
theorem Recounts.silent (hsane : Sane H U common ic) (hplain : Output.Plain out) :
    Recounts U common ic common ic out [] :=
  ⟨.stays (by simp) rfl ((hsane.members _).mpr hsane.own), hplain.filter_isNotify⟩

/-- What a subscriber gets from it. -/
theorem Recounts.updates {events : List ClusterEvent}
    (h : Recounts U common ic common' ic' out events) (hnodup : common.subscribers.Nodup)
    (subr : Nat) : out.filterMap (Output.update? subr) =
      if events ≠ [] ∧ subr ∈ common.subscribers then [⟨events, ic'.members, ic'.ring⟩]
      else [] := by
  rw [Output.filterMap_update?, h.notifies]
  by_cases hevents : events = []
  · simp [hevents]
  · rw [if_neg hevents, Output.filterMap_update?_map hnodup]
    simp [hevents]

/-- A merge tells of others, and at last of the new member if the node was
removed. -/
theorem state_recounts (hadm : NodeRing.Admissible H U) (hsane : Sane H U common ic)
    {gossip : Gossip} (hgossip : ∀ m ∈ gossip.states, m ∈ U) (hdrawn : DrawsIn U o common gossip)
    (hfresh : FreshId o common (some ic.gossip) gossip)
    (h : ic.process H o common (.state gossip) = .ok (ic', common', out)) :
    ∃ events, Recounts U common ic common' ic' out events := by
  obtain ⟨nodes, hreplay, hnodes⟩ := Gossip.merge_replay ic.gossip gossip hsane.members
  have hknown : ∀ {m s}, gossip.states[m]? = some s → m ∈ gossip.states := by
    intro m s hs
    rw [ExtTreeMap.mem_iff_isSome_getElem?, hs]
    rfl
  have hmoves : ∀ e ∈ (ic.gossip.merge gossip).2, e.Moves U common.member := by
    intro e he
    rcases Gossip.of_mem_events he with ⟨m, rfl, hnone, hup⟩ | ⟨m, rfl, -, hdown⟩
    · refine ⟨hgossip m (hknown hup), ?_⟩
      rintro rfl
      rw [hsane.own] at hnone
      cases hnone
    · exact hgossip m (hknown hdown)
  have hkind : ∀ e ∈ (ic.gossip.merge gossip).2,
      (∃ m, e = .added m ∧ m ∈ U) ∨ ∃ m, e = .removed m := by
    intro e he
    rcases Gossip.known_of_mem_events he with ⟨m, rfl, hm⟩ | ⟨m, rfl, -⟩
    · exact .inl ⟨m, rfl, hgossip m hm⟩
    · exact .inr ⟨m, rfl⟩
  have hdowned : .removed common.member ∈ (ic.gossip.merge gossip).2 →
      gossip.states[common.member]? = some .down :=
    fun hown => (Gossip.removed_mem_events.mp hown).2
  have hkept : .removed common.member ∉ (ic.gossip.merge gossip).2 →
      (ic.gossip.merge gossip).1.states[common.member]? = some .up :=
    Gossip.merge_up hsane.own
  have habout : ∀ e m, e ∈ (ic.gossip.merge gossip).2 → e.member? = some m →
      m ∈ gossip.states := fun e m he hm => Gossip.mem_of_event he hm
  have hring : NodeRing.Mirrors H U ic.ring ic.members := hsane.ring
  rcases hmerge : ic.gossip.merge gossip with ⟨merged, events⟩
  have hmerged : ∀ m : Member,
      merged.states[m]? = Gossip.combined ic.gossip.states[m]? gossip.states[m]? := by
    intro m
    rw [← Gossip.merge_getElem?, hmerge]
  simp only [hmerge] at hreplay hnodes hmoves hkind hdowned hkept habout
  by_cases hown : .removed common.member ∈ events
  · obtain ⟨hnew, hnew'⟩ := hfresh (hdowned hown)
    obtain ⟨ring, hloop, hring'⟩ := InCluster.applyEvents_of_removed hadm (o := o)
      (s := ⟨{ ic with gossip := merged }, common, none, 0⟩) hring hkind hreplay hown
      (hdrawn (hdowned hown)) fun e he heq => hnew (habout e _ he heq)
    have hgone : common.member ∉ nodes := by
      rw [hnodes, hmerged, hsane.own, hdowned hown]
      simp [Gossip.combined]
    have hnone : (common.newId (o.id 0)).member ∉ nodes := by
      rw [hnodes]
      intro hup
      rw [hmerged, ← Gossip.merge_getElem?] at hup
      rcases Gossip.of_merge_getElem? hup with hup | hup
      · refine hnew' _ rfl ?_
        rw [ExtTreeMap.mem_iff_isSome_getElem?, hup]
        rfl
      · exact hnew (hknown hup)
    have hsane₁ : Sane H U (common.newId (o.id 0)) { ic with
        ring
        members := nodes.insert (common.newId (o.id 0)).member
        gossip := ⟨merged.states.insert (common.newId (o.id 0)).member .up⟩ } := by
      refine ⟨?_, fun m => ?_, hring'⟩
      · simp only [getElem?_insert_eq, if_true]
      · simp only [getElem?_insert_eq, mem_insert_iff, hnodes m]
        split
        · next heq => simp [heq]
        · next hne => simp [hne]
    obtain ⟨common₁, ic₁, out₁, hprocess, houtcome, hmembers, -, hmember⟩ :=
      process_of_loop hadm hmerge hloop hsane₁ rfl rfl rfl
    cases hprocess.symm.trans h
    refine ⟨_, ?_, houtcome.notifies⟩
    rw [hmembers, hmember]
    exact .replaced hmoves hreplay hgone hnone
  · have hup := hkept hown
    obtain ⟨ring, hloop, hring'⟩ := InCluster.applyEvents_of_kept hadm (o := o)
      (s := ⟨{ ic with gossip := merged }, common, none, 0⟩) hring hkind hreplay hown
    obtain ⟨common₁, ic₁, out₁, hprocess, houtcome, hmembers, -, hmember⟩ :=
      process_of_loop hadm hmerge hloop ⟨hup, hnodes, hring'⟩ rfl rfl rfl
    cases hprocess.symm.trans h
    refine ⟨_, ?_, houtcome.notifies⟩
    rw [hmembers, hmember, show events ++ (none : Option ClusterEvent).toList = events from
      List.append_nil events]
    exact .stays hmoves hreplay ((hnodes _).mpr hup)

/-- Every message that is handled inside the cluster, but a subscription. -/
theorem recv_recounts (hadm : NodeRing.Admissible H U) {c c' : Cluster} {msg : ClusterMsg}
    (hrep : c.Represents H U) (hstate : c.state = .inCluster ic) (hadmits : c.Admits U o msg)
    (hdowned : ∀ m, msg = .downed m → m ∈ ic.gossip.states ∧ m ≠ c.common.member)
    (hsubscribed : msg.subscribed? = none) (h : c.recv H o msg = .ok (c', out)) :
    ∃ ic' events, c'.state = .inCluster ic' ∧ Recounts U c.common ic c'.common ic' out events := by
  have hsane := hrep.sane ic hstate
  have hsilent : Output.Plain out → c' = c → ∃ ic' events, c'.state = .inCluster ic' ∧
      Recounts U c.common ic c'.common ic' out events := by
    rintro hplain rfl
    exact ⟨ic, [], hstate, .silent hsane hplain⟩
  cases received_of_ok h with
  | @process common common' ic₀ ic' msg out hprocess =>
      cases hstate
      cases msg with
      | foo =>
          cases hprocess
          exact hsilent plain_nil rfl
      | reqGossip member =>
          cases hprocess
          exact hsilent (by simp [Output.Plain, Output.isHbr, Output.isNotify]) rfl
      | reqHeartbeat member id =>
          simp only [InCluster.process] at hprocess
          split at hprocess
          · cases hprocess
            exact hsilent (by simp [Output.Plain, Output.isHbr, Output.isNotify,
              NodeState.heartbeat]) rfl
          · cases hprocess
            exact hsilent plain_nil rfl
      | state gossip =>
          obtain ⟨events, hrecounts⟩ :=
            state_recounts hadm hsane hadmits.1 hadmits.2.1 hadmits.2.2 hprocess
          exact ⟨ic', events, rfl, hrecounts⟩
      | ping member =>
          by_cases hvacant : ic.gossip.states[member]? = none
          · obtain ⟨common₁, ic₁, out₁, hok, houtcome, hfollows⟩ :=
              ping_ok hadm (o := o) hsane hadmits hvacant
            cases hok.symm.trans hprocess
            have hother : member ≠ common.member := by
              rintro rfl
              rw [hsane.own] at hvacant
              cases hvacant
            have hmember : common'.member = common.member := by
              simp only [InCluster.process, hvacant, if_true] at hprocess
              obtain ⟨⟨ic₁, common₁, hbrs⟩, hupdate, hend⟩ := ok_of_bind hprocess
              cases hend
              rw [InCluster.notify_member, (InCluster.settled_of_ok hupdate).common]
            refine ⟨ic', [.added member], rfl, ?_, houtcome.notifies⟩
            rw [hmember]
            refine .stays (fun e he => ?_) hfollows.replays ?_
            · rw [List.mem_singleton.mp he]
              exact ⟨hadmits, hother⟩
            · exact hmember ▸ (houtcome.sane.members _).mpr houtcome.sane.own
          · simp only [InCluster.process, if_neg hvacant] at hprocess
            cases hprocess
            exact hsilent (ic.plain_gossipRound 0 common [member]) rfl
  | pinging h => cases hstate
  | subscribe hout => cases hsubscribed
  | ping hcount => cases hstate
  | alone hcount => cases hstate
  | @silence common ic₀ =>
      refine hsilent (.append (.append (ic₀.plain_gossipRound 0 common []) ?_) ?_) rfl
      · simp [InCluster.gossipReqs, Output.Plain, Output.isHbr, Output.isNotify]
      · simp [NodeState.scheduleGossipTimeout, Output.Plain, Output.isHbr, Output.isNotify]
  | @down common common' ic₀ ic' member out hdown =>
      cases hstate
      obtain ⟨hknown, hother⟩ := hdowned member rfl
      cases hget : ic.gossip.states[member]? with
      | none =>
          rw [ExtTreeMap.mem_iff_isSome_getElem?, hget] at hknown
          cases hknown
      | some s =>
          cases s with
          | down =>
              simp only [InCluster.down, hget] at hdown
              cases hdown
              exact hsilent plain_nil rfl
          | up =>
              obtain ⟨common₁, ic₁, out₁, hok, houtcome, hfollows⟩ :=
                down_ok hadm (o := o) hsane hget hother
              cases hok.symm.trans hdown
              have hmember : common'.member = common.member := by
                simp only [InCluster.down, hget] at hdown
                split at hdown
                · cases hdown
                · split at hdown
                  · obtain ⟨⟨ic₁, common₁, hbrs⟩, hupdate, hend⟩ := ok_of_bind hdown
                    cases hend
                    rw [InCluster.notify_member, (InCluster.settled_of_ok hupdate).common]
                  · cases hdown
              have hup := (hsane.members member).mpr hget
              refine ⟨ic', [.removed member], rfl, ?_, houtcome.notifies⟩
              rw [hmember]
              refine .stays (fun e he => ?_) hfollows.replays ?_
              · rw [List.mem_singleton.mp he]
                exact hsane.ring.within member hup
              · exact hmember ▸ (houtcome.sane.members _).mpr houtcome.sane.own
  | tick managers =>
      refine hsilent (.append ?_ ?_) rfl
      · simp [NodeState.heartbeat, Output.Plain, Output.isHbr, Output.isNotify]
      · simp [Output.Plain, Output.isHbr, Output.isNotify]
  | ignored hmsg => exact hsilent plain_nil rfl

end Handlers

/-! ## The updates of a node -/

namespace Node

/-- What the updates of a node on the socket tell its subscribers: its members
among the members of the universe, one update after the other, up to now. -/
structure Told (U : Set Member) (socket : Socket) (n : Node) : Prop where
  seated : n.cluster.common.member.socket = socket
  nodup : n.cluster.common.subscribers.Nodup
  outside : n.cluster.state.gossip? = none → ∀ subr, n.updates subr = []
  within : ∀ subr, ∀ u ∈ n.updates subr,
    u.1.socket = socket ∧ u.1 ∈ u.2.nodes ∧ ∀ m ∈ u.2.nodes, m ∈ U
  first : ∀ subr, ∀ u ∈ (n.updates subr).head?,
    u.2.events = [.alone u.1] ∨ u.2.events = [.joined u.1]
  later : ∀ subr, (n.updates subr).IsChain fun u v =>
    Narrates U u.1 u.2.nodes v.1 v.2.nodes v.2.events
  current : ∀ ic, n.cluster.state = .inCluster ic → ∀ subr ∈ n.cluster.common.subscribers,
    ∃ u ∈ (n.updates subr).getLast?, u.1 = n.cluster.common.member ∧ u.2.nodes = ic.members

variable {H : RingHash} {U : Set Member} {socket : Socket} {n : Node} {c : Cluster}
  {out : List Output} {subr? : Option Nat}

/-- A node that is outside the cluster sends nothing. -/
theorem Told.still (htold : n.Told U socket) (hout : n.cluster.state.gossip? = none)
    (hout' : c.state.gossip? = none) (hmember : c.common.member = n.cluster.common.member)
    (hsilent : ∀ subr, out.filterMap (Output.update? subr) = [])
    (hnodup : c.common.subscribers.Nodup) : (after n.log c out).Told U socket := by
  have hnone : ∀ subr, (after n.log c out).updates subr = [] := by
    intro subr
    rw [updates_after, hsilent, htold.outside hout]
    rfl
  refine ⟨hmember ▸ htold.seated, hnodup, fun _ => hnone, fun subr u hu => ?_,
    fun subr u hu => ?_, fun subr => ?_, fun ic hic => ?_⟩
  · rw [hnone] at hu
    cases hu
  · rw [hnone] at hu
    cases hu
  · rw [hnone]
    exact .nil
  · rw [show c.state = .inCluster ic from hic] at hout'
    cases hout'

/-- A node that greets some of those it has sent nothing, and nobody else. -/
theorem Told.greets (htold : n.Told U socket) {ic : InCluster} {common : NodeState}
    {event : ClusterEvent} {G : Nat → Prop} [DecidablePred G]
    (hseated : common.member.socket = socket) (hsane : Sane H U common ic)
    (hnodup : common.subscribers.Nodup)
    (hevent : event = .alone common.member ∨ event = .joined common.member)
    (hupdates : ∀ subr, (after n.log ⟨common, .inCluster ic⟩ out).updates subr =
      if G subr then [(common.member, ⟨[event], ic.members, ic.ring⟩)] else n.updates subr)
    (hrest : ∀ subr ∈ common.subscribers, ¬ G subr →
      ∃ u ∈ (n.updates subr).getLast?, u.1 = common.member ∧ u.2.nodes = ic.members) :
    (after n.log ⟨common, .inCluster ic⟩ out).Told U socket := by
  refine ⟨hseated, hnodup, nofun, fun subr u hu => ?_, fun subr u hu => ?_, fun subr => ?_,
    fun ic' hic subr hsubr => ?_⟩
  · rw [hupdates] at hu
    split at hu
    · rw [List.mem_singleton.mp hu]
      exact ⟨hseated, (hsane.members _).mpr hsane.own, fun m hm => hsane.ring.within m hm⟩
    · exact htold.within subr u hu
  · rw [hupdates] at hu
    split at hu
    · cases hu
      exact hevent.imp (congrArg ([·])) (congrArg ([·]))
    · exact htold.first subr u hu
  · rw [hupdates]
    split
    · exact .singleton _
    · exact htold.later subr
  · cases hic
    rw [hupdates]
    split
    · exact ⟨_, rfl, rfl, rfl⟩
    · next hnot => exact hrest subr hsubr hnot

/-- A node inside the cluster recounts what became of its membership. -/
theorem Told.goes_on (htold : n.Told U socket) {ic ic' : InCluster} {common' : NodeState}
    {events : List ClusterEvent} (hstate : n.cluster.state = .inCluster ic)
    (hseated : common'.member.socket = socket) (hnodup : common'.subscribers.Nodup)
    (hsane : Sane H U common' ic')
    (hrecounts : Recounts U n.cluster.common ic common' ic' out events)
    (hsubrs : common'.subscribers ⊆ n.cluster.common.subscribers) :
    (after n.log ⟨common', .inCluster ic'⟩ out).Told U socket := by
  have hupdates : ∀ subr, (after n.log ⟨common', .inCluster ic'⟩ out).updates subr =
      n.updates subr ++ if events ≠ [] ∧ subr ∈ n.cluster.common.subscribers
        then [(common'.member, ⟨events, ic'.members, ic'.ring⟩)] else [] := by
    intro subr
    rw [updates_after, hrecounts.updates htold.nodup]
    split <;> rfl
  refine ⟨hseated, hnodup, nofun, fun subr u hu => ?_, fun subr u hu => ?_, fun subr => ?_,
    fun ic₁ hic subr hsubr => ?_⟩
  · rw [hupdates] at hu
    rcases List.mem_append.mp hu with hu | hu
    · exact htold.within subr u hu
    · split at hu
      · rw [List.mem_singleton.mp hu]
        exact ⟨hseated, (hsane.members _).mpr hsane.own, fun m hm => hsane.ring.within m hm⟩
      · cases hu
  · rw [hupdates] at hu
    split at hu
    · next hsent =>
        obtain ⟨v, hv, -⟩ := htold.current ic hstate subr hsent.2
        rw [List.head?_append_of_ne_nil _ (List.ne_nil_of_mem (List.mem_of_getLast? hv))] at hu
        exact htold.first subr u hu
    · rw [List.append_nil] at hu
      exact htold.first subr u hu
  · rw [hupdates]
    split
    · next hsent =>
        obtain ⟨v, hv, hmember, hnodes⟩ := htold.current ic hstate subr hsent.2
        refine List.isChain_append.mpr ⟨htold.later subr, .singleton _, fun x hx y hy => ?_⟩
        cases Option.mem_unique hx hv
        cases hy
        rw [hmember, hnodes]
        exact hrecounts.narrates
    · rw [List.append_nil]
      exact htold.later subr
  · cases hic
    have hold := hsubrs hsubr
    rw [hupdates]
    by_cases hevents : events = []
    · obtain ⟨hmember, hmembers⟩ := (hevents ▸ hrecounts.narrates).of_nil
      rw [if_neg (by simp [hevents]), List.append_nil, hmembers]
      obtain ⟨v, hv, hsame, hnodes⟩ := htold.current ic hstate subr hold
      exact ⟨v, hv, hsame.trans hmember.symm, hnodes⟩
    · rw [if_pos ⟨hevents, hold⟩, List.getLast?_append]
      exact ⟨_, rfl, rfl, rfl⟩

/-- However a handler moves the actor, the subscribers are told. -/
theorem Told.of_moved (htold : n.Told U socket) (hrep : n.cluster.Represents H U)
    (hseated : c.common.member.socket = socket)
    (hnew : ∀ subr ∈ subr?, subr ∉ n.cluster.common.subscribers ∧ n.updates subr = [])
    (hrecounts : ∀ ic, n.cluster.state = .inCluster ic → subr? = none →
      ∃ ic' events, c.state = .inCluster ic' ∧
        Recounts U n.cluster.common ic c.common ic' out events)
    (h : Cluster.Moved H U n.cluster subr? c out) : (after n.log c out).Told U socket := by
  cases h with
  | outside state out hout hout' plain => exact htold.still hout hout' rfl plain.updates htold.nodup
  | enters event common' ic' out hout hevent outcome =>
      have hempty := htold.outside hout
      refine htold.greets (G := (· ∈ n.cluster.common.subscribers)) hseated outcome.sane
        (htold.nodup.sublist outcome.subscribers) hevent (fun subr => ?_)
        fun subr hsubr hnot => absurd (outcome.subscribers.subset hsubr) hnot
      rw [updates_after, hempty, outcome.updates htold.nodup]
      split <;> simp_all
  | inside ic _ common' ic' out hstate outcome _ =>
      obtain ⟨ic₁, events, hic₁, hrecounts⟩ := hrecounts ic hstate rfl
      cases hic₁
      exact htold.goes_on hstate hseated (htold.nodup.sublist outcome.subscribers)
        outcome.sane hrecounts outcome.subscribers.subset
  | subscribes subr out hout =>
      obtain ⟨hnotin, hnone⟩ := hnew subr rfl
      have hnodup : (n.cluster.common.subscribers ++ [subr]).Nodup := by
        refine List.nodup_append.mpr ⟨htold.nodup, by simp, ?_⟩
        rintro x hx y hy rfl
        exact hnotin (List.mem_singleton.mp hy ▸ hx)
      rcases hout with ⟨hstate, rfl⟩ | ⟨ic, event, hic, hevent, rfl⟩
      · exact htold.still hstate hstate rfl (fun _ => rfl) hnodup
      · obtain ⟨hown, hmembers, hring⟩ := hrep.sane ic hic
        rw [hic]
        refine htold.greets (G := (· = subr)) hseated ⟨hown, hmembers, hring⟩ hnodup hevent
          (fun subr' => ?_) fun subr' hsubr hne => ?_
        · rw [updates_after]
          split
          · next heq => simp [heq, hnone, Output.update?]
          · next hne => simp [Ne.symm hne, Output.update?]
        · rcases List.mem_append.mp hsubr with hsubr | hsubr
          · exact htold.current ic hic subr' hsubr
          · exact absurd (List.mem_singleton.mp hsubr) hne

/-- A member that a receiver reports is known and is not the node. -/
theorem Inv.known_of_reports (hinv : n.Inv H U) {m : Member} (hreports : n.Reports (.downed m))
    {ic : InCluster} (hic : n.cluster.state = .inCluster ic) :
    m ∈ ic.gossip.states ∧ m ≠ n.cluster.common.member := by
  obtain ⟨⟨own, x⟩, he, hcharge⟩ := hreports
  cases x with
  | spawn hbr charge req =>
      cases hcharge
      obtain ⟨ic', hic', hacc⟩ := hinv.spawns own hbr m req he
      cases hic.symm.trans hic'
      exact ⟨hacc.known, hacc.other⟩
  | _ => cases hcharge

end Node

/-! ## The updates in a network -/

/-- Updates that tell of the membership, up to one that introduces the node or
goes on from the last one. -/
structure Tells (U : Set Member) (us : List (Member × ClusterUpdate)) (u : Member × ClusterUpdate) :
    Prop where
  first : us = [] → u.2.events = [.alone u.1] ∨ u.2.events = [.joined u.1]
  later : ∀ v ∈ us.getLast?, v.1 ∈ U ∧ (∀ m ∈ v.2.nodes, m ∈ U) ∧
    Narrates U v.1 v.2.nodes u.1 u.2.nodes u.2.events
  within : ∀ m ∈ u.2.nodes, m ∈ U

/-- The updates that a subscriber was sent. -/
def Site.updates (s : Site) (subr : Nat) : List (Member × ClusterUpdate) :=
  s.log.filterMap fun e => (e.2.update? subr).map fun update => (e.1, update)

namespace Detection

variable {ι : Type}

/-- The updates that a subscriber of a node was sent. -/
def updates (w : Detection ι) (i : ι) (subr : Nat) : List (Member × ClusterUpdate) :=
  match w.site i with
  | some s => s.updates subr
  | none => []

/-- Every node starts at its place, and every subscription has a number of its
own. -/
def Seated (place : ι → Socket) (w : Detection ι) : Move ι × Oracle → Prop
  | (.start i socket _ subrs _ _, _) => socket = place i ∧ subrs.Nodup
  | (.local i msg, _) => ∀ e ∈ w.running? i, Node.Subscribes ⟨e.2, e.1.log⟩ msg
  | _ => True

instance (place : ι → Socket) (w : Detection ι) :
    DecidablePred (w.Seated place)
  | (.start _ _ _ _ _ _, _) => inferInstanceAs (Decidable (_ ∧ _))
  | (.local i msg, _) => inferInstanceAs (Decidable
      (∀ e ∈ w.running? i, Node.Subscribes ⟨e.2, e.1.log⟩ msg))
  | (.deliver .., _) | (.report _, _) | (.heartbeat .., _) | (.timeout .., _) | (.term .., _) =>
      isTrue trivial

theorem running?_of_site {w : Detection ι} {i : ι} {s : Site} {c : Cluster}
    (hs : w.site i = some s) (hc : s.actor = .running c) : w.running? i = some (s, c) := by
  simp [running?, hs, Site.cluster?, hc]

variable [DecidableEq ι] {H : RingHash} {U : Set Member} {checks : Bool}
  {durationPhi : IntervalStorage → Except Trap Nat} {place : ι → Socket} {w : Detection ι}

/-- Updates that were sent stay, and more come after them. -/
theorem updates_of_next {w' : Detection ι} {mv : Move ι × Oracle}
    (h : w.next H checks durationPhi mv = some w') (i : ι) (subr : Nat) :
    w.updates i subr <+: w'.updates i subr := by
  have hafter : ∀ {j : ι} {s₀ : Site} {a : Actor} {out : List Output},
      (∀ s, w.site j = some s → s.log = s₀.log) →
      w.updates i subr <+: (w.after j s₀ a out).updates i subr := by
    intro j s₀ a out h₀
    unfold updates
    by_cases hi : i = j
    · subst hi
      rw [site_after_eq]
      cases hs : w.site i with
      | none => exact List.nil_prefix
      | some s =>
          simp only [Site.updates, Site.after, List.filterMap_append, h₀ s hs]
          exact List.prefix_append _ _
    · rw [site_after_ne w hi]
  have hwatched : ∀ {j : ι} {s₀ : Site} {k : Nat} {x : Watcher}
      {outs : List HeartbeatReceiver.Output}, w.site j = some s₀ →
      w.updates i subr <+: (w.watched j s₀ k x outs).updates i subr := by
    intro j s₀ k x outs h₀
    unfold updates
    by_cases hi : i = j
    · subst hi
      rw [show (w.watched i s₀ k x outs).site i = some (s₀.watched k x outs) from
        Function.update_self .., h₀]
      exact List.prefix_rfl
    · rw [watched_of_ne hi]
  have hsame : ∀ {j : ι} {s₀ : Site}, w.site j = some s₀ →
      ∀ s, w.site j = some s → s.log = s₀.log := by
    intro j s₀ h₀ s hs
    rw [Option.some.inj (hs.symm.trans h₀)]
  cases moved_of_next h with
  | start hfree =>
      refine hafter fun s hs => ?_
      rw [hfree] at hs
      cases hs
  | handle hrunning htakes =>
      have hs := (running_of_running? hrunning).1
      have hlog := hsame hs
      rw [← htakes.log_eq] at hlog
      unfold Detection.handle
      split
      · exact hafter hlog
      · exact hafter hlog
  | heartbeat hlive _ | timeout hlive | term hlive _ => exact hwatched (live_of_live? hlive).1

/-- The first updates stay the first ones. -/
theorem take_updates_of_next {w' : Detection ι} {mv : Move ι × Oracle}
    (h : w.next H checks durationPhi mv = some w') {i : ι} {subr k : Nat}
    (hk : k ≤ (w.updates i subr).length) :
    (w'.updates i subr).take k = (w.updates i subr).take k ∧ k ≤ (w'.updates i subr).length := by
  obtain ⟨rest, hrest⟩ := updates_of_next h i subr
  rw [← hrest, List.length_append]
  exact ⟨List.take_append_of_le_length hk, hk.trans (Nat.le_add_right ..)⟩

/-- In every run the subscribers of every node are told of its membership. -/
theorem told_of_reachable (hadm : NodeRing.Admissible H U)
    (h : ((system H checks durationPhi U).restrict (Seated place)).Reachable w) {i : ι} {s : Site}
    {c : Cluster} (hs : w.site i = some s) (hc : s.actor = .running c) :
    Node.Told U (place i) ⟨c, s.log⟩ := by
  refine (node_invariant (P := fun i n => (∃ config, n.cluster.Configured (place i, config)) ∧
    n.Told U (place i)) hadm (fun w i socket id subrs clrConfig hbrConfig o hseated hown => ?_)
    (fun w i s s₀ c mv msg o c' out hrunning htakes hseated hadmits hinv hold hrecv hmoved => ?_)
    h hs hc).2
  · obtain ⟨rfl, hnodup⟩ := hseated
    have hstarted := preStart_configured (H := H) (o := o)
      (c := .new (place i) id subrs clrConfig) rfl
    have hleft : ∀ ic, (Cluster.new (place i) id subrs clrConfig).state ≠ .inCluster ic := by
      intro ic hic
      cases hic
    have hnew : Node.Told U (place i) ⟨.new (place i) id subrs clrConfig, []⟩ :=
      ⟨rfl, hnodup, fun _ _ => rfl, fun _ => by simp [Node.updates],
        fun _ => by simp [Node.updates], fun _ => .nil, fun ic hic => absurd hic (hleft ic)⟩
    have hrep : Cluster.Represents H U (.new (place i) id subrs clrConfig) :=
      ⟨hown, fun ic hic => absurd hic (hleft ic), fun ic hic => absurd hic (hleft ic)⟩
    exact ⟨⟨_, hstarted⟩, hnew.of_moved hrep (congrArg Prod.fst hstarted.fixed) (by simp)
      (fun ic hic => absurd hic (hleft ic)) (Cluster.preStart_moved hadm rfl hown)⟩
  · obtain ⟨⟨config, hconfigured⟩, htold⟩ := hold
    have hconfigured' := recv_configured hconfigured hrecv
    refine ⟨⟨config, hconfigured'⟩, htold.of_moved hinv.represents
      (congrArg Prod.fst hconfigured'.fixed) (fun subr hsubr => ?_) (fun ic hic hnone => ?_) hmoved⟩
    · cases htakes with
      | «local» htimer =>
          have hsubscribes := hseated (s, c) hrunning
          cases msg with
          | subscribe subr' =>
              cases hsubr
              exact hsubscribes
          | _ => cases hsubr
      | deliver | report => cases hsubr
    · refine recv_recounts hadm hinv.represents hic hadmits.1 (fun m hm => ?_) hnone hrecv
      subst hm
      exact hinv.known_of_reports hadmits.2 hic

/-- A node that entered the cluster is at its place. -/
theorem Entered.seated (hadm : NodeRing.Admissible H U)
    (h : ((system H checks durationPhi U).restrict (Seated place)).Reachable w) {i : ι} {m : Member}
    {s : Site} {c : Cluster} {ic : InCluster} (hentered : w.Entered i m s c ic) :
    m.socket = place i := by
  rw [← hentered.own]
  exact (told_of_reachable hadm h hentered.site hentered.running).seated

/-- The last update of a subscriber of a node that entered the cluster is from its
member and has its members. -/
theorem Entered.last_update (hadm : NodeRing.Admissible H U)
    (h : ((system H checks durationPhi U).restrict (Seated place)).Reachable w) {i : ι} {m : Member}
    {s : Site} {c : Cluster} {ic : InCluster} (hentered : w.Entered i m s c ic) {subr : Nat}
    (hsubr : subr ∈ c.common.subscribers) :
    ∃ u ∈ (w.updates i subr).getLast?, u.1 = m ∧ u.2.nodes = ic.members := by
  obtain ⟨u, hu, hmember, hnodes⟩ := (told_of_reachable hadm h hentered.site
    hentered.running).current ic hentered.state subr hsubr
  unfold updates
  rw [hentered.site]
  exact ⟨u, hu, hmember.trans hentered.own, hnodes⟩

/-- A node that sent an update runs, and has it in its log. -/
theorem running_of_updates (hadm : NodeRing.Admissible H U)
    (h : (system H checks durationPhi U).Reachable w) {i : ι} {subr : Nat}
    {u : Member × ClusterUpdate} (hu : u ∈ w.updates i subr) :
    ∃ s c, w.site i = some s ∧ s.actor = .running c ∧
      w.updates i subr = Node.updates ⟨c, s.log⟩ subr := by
  unfold updates at hu ⊢
  cases hs : w.site i with
  | none =>
      rw [hs] at hu
      cases hu
  | some s =>
      obtain ⟨c, hsound, -⟩ := (inv_of_reachable hadm h).sites i s hs
      exact ⟨s, c, rfl, hsound.running, rfl⟩

/-- The updates up to one of a run tell of the membership, and the last of them is
from the member of the node. -/
theorem tells_of_reachable (hadm : NodeRing.Admissible H U)
    (h : ((system H checks durationPhi U).restrict (Seated place)).Reachable w) {i : ι}
    {subr k : Nat} {u : Member × ClusterUpdate} (hu : (w.updates i subr)[k]? = some u) :
    Tells U ((w.updates i subr).take k) u ∧ u.1.socket = place i ∧ u.1 ∈ u.2.nodes := by
  obtain ⟨s, c, hs, hc, hupdates⟩ :=
    running_of_updates hadm h.of_restrict (List.mem_of_getElem? hu)
  have htold := told_of_reachable hadm h hs hc
  have hwithin := hupdates ▸ htold.within subr
  have hsplit : w.updates i subr =
      (w.updates i subr).take k ++ u :: (w.updates i subr).drop (k + 1) := by
    obtain ⟨hlt, rfl⟩ := List.getElem?_eq_some_iff.mp hu
    rw [← List.drop_eq_getElem_cons, List.take_append_drop]
  have hchain := hupdates ▸ htold.later subr
  rw [hsplit] at hchain
  have hlater := (List.isChain_append.mp hchain).2.2
  obtain ⟨hsocket, hown, hU⟩ := hwithin u (List.mem_of_getElem? hu)
  refine ⟨⟨fun hnil => ?_, fun v hv => ?_, hU⟩, hsocket, hown⟩
  · refine htold.first subr u ?_
    rw [← hupdates, hsplit, hnil]
    rfl
  · obtain ⟨-, hmem, hU'⟩ := hwithin v (List.mem_of_mem_take (List.mem_of_getLast? hv))
    exact ⟨hU' _ hmem, hU', hlater v hv u rfl⟩

/-! ## The rings of the updates -/

/-- An update has the members and the ring of the node that sends it. -/
theorem ring_of_moved {c c' : Cluster} {subr? : Option Nat} {out : List Output} {subr : Nat}
    {update : ClusterUpdate} (h : Cluster.Moved H U c subr? c' out)
    (hupdate : update ∈ out.filterMap (Output.update? subr)) :
    ∃ ic', c'.state = .inCluster ic' ∧ update.nodes = ic'.members ∧ update.ring = ic'.ring := by
  rw [Output.filterMap_update?] at hupdate
  have htold : ∀ {events : List ClusterEvent} {ic' : InCluster} {subrs : List Nat},
      (out.filter Output.isNotify = if events = [] then []
        else subrs.map fun s => .notify s ⟨events, ic'.members, ic'.ring⟩) →
      update.nodes = ic'.members ∧ update.ring = ic'.ring := by
    intro events ic' subrs hsent
    rw [hsent] at hupdate
    split at hupdate
    · cases hupdate
    · obtain ⟨x, hx, hx'⟩ := List.mem_filterMap.mp hupdate
      obtain ⟨s, -, rfl⟩ := List.mem_map.mp hx
      simp only [Output.update?] at hx'
      split at hx'
      · cases hx'
        exact ⟨rfl, rfl⟩
      · cases hx'
  cases h with
  | outside state out hout hout' plain =>
      rw [plain.filter_isNotify] at hupdate
      cases hupdate
  | enters event common' ic' out hout hevent outcome =>
      exact ⟨ic', rfl, htold outcome.notifies⟩
  | inside ic events common' ic' out hstate outcome follows =>
      exact ⟨ic', rfl, htold outcome.notifies⟩
  | subscribes subr' out hout =>
      rcases hout with ⟨-, rfl⟩ | ⟨ic, event, hic, -, rfl⟩
      · cases hupdate
      · have hsent : [Output.notify subr' ⟨[event], ic.members, ic.ring⟩].filter Output.isNotify =
            if [event] = [] then []
            else [subr'].map fun s => .notify s ⟨[event], ic.members, ic.ring⟩ := rfl
        exact ⟨ic, hic, htold hsent⟩

/-- The rings of the updates of a node are those of their members, with one
replication factor. -/
def Rings (H : RingHash) (rep : UInt64) (us : List (Member × ClusterUpdate)) : Prop :=
  ∀ u ∈ us, u.2.ring.repFactor = rep ∧ NodeRing.Holds H u.2.ring {m | m ∈ u.2.nodes}

/-- What a node sends keeps it so. -/
theorem Rings.of_moved {n : Node} {c' : Cluster} {subr? : Option Nat} {out : List Output}
    {subr : Nat} {seat : Socket × ClusterConfig}
    (hrings : Rings H seat.2.replicationFactor (n.updates subr))
    (hrep : n.cluster.Represents H U) (hconfigured : c'.Configured seat)
    (h : Cluster.Moved H U n.cluster subr? c' out) :
    Rings H seat.2.replicationFactor ((Node.after n.log c' out).updates subr) := by
  intro u hu
  rw [Node.updates_after] at hu
  rcases List.mem_append.mp hu with hu | hu
  · exact hrings u hu
  · obtain ⟨update, hupdate, rfl⟩ := List.mem_map.mp hu
    obtain ⟨ic', hic', hnodes, hring⟩ := ring_of_moved h hupdate
    have hsane := (h.represents hrep).sane ic' hic'
    simp only [hnodes, hring]
    exact ⟨hconfigured.ring ic' hic', hsane.ring.holds⟩

/-- The rings of all updates of a run have the replication factor of the node's
configuration. -/
theorem rings_of_reachable (hadm : NodeRing.Admissible H U)
    (h : ((system H checks durationPhi U).restrict (Seated place)).Reachable w) {i : ι} {s : Site}
    {c : Cluster} (hs : w.site i = some s) (hc : s.actor = .running c) (subr : Nat) :
    Rings H c.common.clrConfig.replicationFactor (w.updates i subr) := by
  have hkept : ∃ seat : Socket × ClusterConfig, c.Configured seat ∧
      Rings H seat.2.replicationFactor (s.updates subr) := by
    refine node_invariant (P := fun _ n => ∃ seat : Socket × ClusterConfig,
      n.cluster.Configured seat ∧ Rings H seat.2.replicationFactor (n.updates subr)) hadm
      (fun w i socket id subrs clrConfig hbrConfig o hseated hown => ?_)
      (fun w i s s₀ c mv msg o c' out hrunning htakes hseated hadmits hinv hold hrecv hmoved => ?_)
      h hs hc
    · have hstarted := preStart_configured (H := H) (o := o)
        (c := .new socket id subrs clrConfig) rfl
      have hrep : Cluster.Represents H U (.new socket id subrs clrConfig) := by
        refine ⟨hown, fun ic hic => ?_, fun ic hic => ?_⟩
        · cases hic
        · cases hic
      refine ⟨_, hstarted, Rings.of_moved (n := ⟨.new socket id subrs clrConfig, []⟩)
        (fun u hu => ?_) hrep hstarted (Cluster.preStart_moved hadm rfl hown)⟩
      cases hu
    · obtain ⟨seat, hconfigured, hrings⟩ := hold
      have hconfigured' := recv_configured hconfigured hrecv
      exact ⟨seat, hconfigured',
        Rings.of_moved (n := ⟨c, s.log⟩) hrings hinv.represents hconfigured' hmoved⟩
  obtain ⟨seat, hconfigured, hrings⟩ := hkept
  unfold updates
  rwa [hs, show c.common.clrConfig = seat.2 from congrArg Prod.snd hconfigured.fixed]

end Detection

end AurumActors.Cluster
