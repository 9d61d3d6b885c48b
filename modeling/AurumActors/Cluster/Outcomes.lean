/-
  Cluster/Outcomes.lean --- what a handler of the clustering actor makes of one
  membership.

  The gossip, the set of members and the ring name the same members; the charges
  and managers are the neighbours of the node in the ring.  Every handler keeps
  this and fails at no `unwrap`, and its events lead from the members before it
  to those after it.  The members that can ever occur are a universe with
  distinct ring keys, and a drawn id is new.
-/
import AurumActors.Cluster.Handlers

set_option autoImplicit false
set_option linter.dupNamespace false

namespace AurumActors.Cluster

open Std
open AurumActors.Core AurumActors.Foundation

/-! ## The invariant -/

/-- The members of the gossip that are up are the members of the set and of the
ring, and the node is one of them. -/
structure Sane (H : RingHash) (U : Set Member) (common : NodeState) (ic : InCluster) : Prop where
  own : ic.gossip.states[common.member]? = some .up
  members : ∀ m, m ∈ ic.members ↔ ic.gossip.states[m]? = some .up
  ring : NodeRing.Mirrors H U ic.ring ic.members

/-- The charges and managers are those of the node in the ring. -/
structure Neighbours (H : RingHash) (common : NodeState) (ic : InCluster) : Prop where
  charges : ∃ cs, ic.ring.charges H common.member = some cs ∧ ∀ m, m ∈ ic.charges ↔ m ∈ cs
  managers : ic.ring.nodeManagers H false common.member = .ok (some ic.managers)

/-- What the outputs of a handler say, which found the receivers `charges` and
left the state `ic'`, about the events `events`. -/
structure Outcome (H : RingHash) (U : Set Member) (common : NodeState) (charges : Charges)
    (events : List ClusterEvent) (common' : NodeState) (ic' : InCluster) (out : List Output) :
    Prop where
  sane : Sane H U common' ic'
  neighbours : Neighbours H common' ic'
  numbers : ∃ k, common'.spawned = common.spawned + k ∧
    out.filterMap Output.spawned? = List.range' common.spawned k
  kept : ∀ (m : Member) (hbr : Nat), charges[m]? = some hbr →
    ic'.charges[m]? = some hbr ∨ .term hbr ∈ out
  spawns : ∀ (hbr : Nat) (m : Member) (req : IntraClusterMsg), .spawn hbr m req ∈ out →
    ic'.charges[m]? = some hbr
  notifies : out.filter Output.isNotify =
    if events = [] then []
    else common.subscribers.map fun s => .notify s ⟨events, ic'.members, ic'.ring⟩
  subscribers : common'.subscribers.Sublist common.subscribers

/-- The events lead from the members of one state to those of the next.  The
gossip forgets no member, and an id the node takes is new to it. -/
structure Follows (common : NodeState) (ic : InCluster) (events : List ClusterEvent)
    (common' : NodeState) (ic' : InCluster) : Prop where
  replays : replay ic.members events = some ic'.members
  joined : ∀ m, .joined m ∈ events → m = common'.member
  grows : ∀ m, m ∈ ic.gossip.states → m ∈ ic'.gossip.states
  own : common'.member = common.member ∨ common'.member ∉ ic.gossip.states

variable {H : RingHash} {o : Oracle} {U : Set Member} {common common' : NodeState}
  {ic ic' : InCluster}

theorem Follows.refl (common : NodeState) (ic : InCluster) : Follows common ic [] common ic :=
  ⟨rfl, by simp, fun _ h => h, .inl rfl⟩

/-- A handler that changes nothing and whose outputs are plain. -/
theorem Outcome.quiet (hsane : Sane H U common ic) (hneigh : Neighbours H common ic)
    {out : List Output} (hplain : Output.Plain out) :
    Outcome H U common ic.charges [] common ic out where
  sane := hsane
  neighbours := hneigh
  numbers := by
    refine ⟨0, rfl, ?_⟩
    rw [List.range'_zero, List.filterMap_eq_nil_iff]
    intro x hx
    cases x with
    | spawn hbr charge req => exact absurd (hplain _ hx).1 (by simp [Output.isHbr])
    | _ => rfl
  kept m hbr h := .inl h
  spawns hbr m req h := absurd (hplain _ h).1 (by simp [Output.isHbr])
  notifies := hplain.filter_isNotify
  subscribers := List.Sublist.refl _

/-- Plain outputs at the end make no difference. -/
theorem Outcome.append_plain {charges : Charges} {events : List ClusterEvent}
    {out out' : List Output} (h : Outcome H U common charges events common' ic' out)
    (hplain : Output.Plain out') : Outcome H U common charges events common' ic' (out ++ out') := by
  refine ⟨h.sane, h.neighbours, ?_, fun m hbr hold => ?_, fun hbr m req hmem => ?_, ?_,
    h.subscribers⟩
  · rw [Output.filterMap_spawned?, List.filter_append, hplain.filter_isHbr, List.append_nil,
      ← Output.filterMap_spawned?]
    exact h.numbers
  · exact (h.kept m hbr hold).imp_right (List.mem_append_left _)
  · rcases List.mem_append.mp hmem with hmem | hmem
    · exact h.spawns hbr m req hmem
    · exact absurd (hplain _ hmem).1 (by simp [Output.isHbr])
  · rw [List.filter_append, hplain.filter_isNotify, List.append_nil]
    exact h.notifies

/-- In a sane state the charges and managers can be brought up to date. -/
theorem Sane.update (hadm : NodeRing.Admissible H U) (h : Sane H U common ic) :
    ∃ ic' common' hbrs, ic.updateChargesManagers H common = .ok (ic', common', hbrs) ∧
      InCluster.Settled ic common ic' common' hbrs ∧ Sane H U common' ic' ∧
      Neighbours H common' ic' ∧
      ∃ cs, InCluster.Updated cs ic common ic' common' hbrs ∧ common.member ∉ cs ∧
        ∀ m ∈ cs, m ∈ ic.members := by
  have hown : common.member ∈ ic.members := (h.members _).mpr h.own
  obtain ⟨cs, ms, hcs, hnodup, hself, hcharges, hms⟩ := h.ring.neighbours hadm hown
  obtain ⟨ic', common', hbrs, hok, hmanagers, hupdated⟩ :=
    InCluster.updateChargesManagers_ok hcs hnodup hms
  have hsettled := InCluster.settled_of_ok hok
  have hmember : common'.member = common.member := by rw [hsettled.common]
  refine ⟨ic', common', hbrs, hok, hsettled, ⟨?_, ?_, ?_⟩, ⟨⟨cs, ?_, hupdated.charges⟩, ?_⟩, cs,
    hupdated, hself, hcharges⟩
  · rw [hsettled.gossip, hmember]
    exact h.own
  · rw [hsettled.gossip, hsettled.members]
    exact h.members
  · rw [hsettled.ring, hsettled.members]
    exact h.ring
  · rw [hsettled.ring, hmember]
    exact hcs
  · rw [hsettled.ring, hmember, hmanagers]
    exact hms

/-- A handler that brings the charges and managers up to date and notifies the
subscribers. -/
theorem Outcome.of_update {ic₁ : InCluster} {common₁ common₂ : NodeState} {hbrs out : List Output}
    {cs : List Member} {events : List ClusterEvent} {charges : Charges}
    (hsettled : InCluster.Settled ic₁ common₁ ic' common₂ hbrs)
    (hsane : Sane H U common₂ ic') (hneigh : Neighbours H common₂ ic')
    (hupdated : InCluster.Updated cs ic₁ common₁ ic' common₂ hbrs)
    (hcharges : ic₁.charges = charges) (hcommon : common₁.spawned = common.spawned)
    (hsubs : common₁.subscribers = common.subscribers)
    (hhbrs : out.filter Output.isHbr = hbrs)
    (hsent : out.filter Output.isNotify = (ic'.notify o common₂ events).2) :
    Outcome H U common charges events (ic'.notify o common₂ events).1 ic' out := by
  have hmember := ic'.notify_member (o := o) common₂ events
  have hsubs₂ : common₂.subscribers = common.subscribers := by rw [hsettled.common, ← hsubs]
  have hmem : ∀ x : Output, x.isHbr = true → (x ∈ out ↔ x ∈ hbrs) := by
    intro x hx
    rw [← hhbrs, List.mem_filter, and_iff_left hx]
  refine ⟨⟨?_, hsane.members, hsane.ring⟩, ⟨?_, ?_⟩, ?_, fun m hbr hold => ?_,
    fun hbr m req h => ?_, ?_, ?_⟩
  · rw [hmember]
    exact hsane.own
  · rw [hmember]
    exact hneigh.charges
  · rw [hmember]
    exact hneigh.managers
  · rw [InCluster.notify_spawned, ← hcommon, Output.filterMap_spawned?, hhbrs]
    exact hupdated.numbers
  · rw [hmem (.term hbr) rfl]
    exact hupdated.kept m hbr (hcharges ▸ hold)
  · exact hupdated.spawns hbr m req ((hmem _ rfl).mp h)
  · rw [hsent, InCluster.notify_out, hsubs₂]
  · rw [← hsubs₂]
    exact ic'.notify_subscribers common₂ events

/-! ## The handlers inside the cluster -/

/-- Replacing the order of the outputs around the receivers and the subscribers. -/
theorem filter_outputs {pre mid post hbrs sent : List Output} (hpre : Output.Plain pre)
    (hmid : Output.Plain mid) (hpost : Output.Plain post) (hhbrs : ∀ x ∈ hbrs, x.isHbr = true)
    (hsent : sent.filter Output.isHbr = [] ∧ sent.filter Output.isNotify = sent) :
    (pre ++ hbrs ++ mid ++ sent ++ post).filter Output.isHbr = hbrs ∧
      (pre ++ hbrs ++ mid ++ sent ++ post).filter Output.isNotify = sent := by
  obtain ⟨hself, hnone⟩ := Output.filter_of_isHbr hhbrs
  simp only [List.filter_append, hpre.filter_isHbr, hpre.filter_isNotify, hmid.filter_isHbr,
    hmid.filter_isNotify, hpost.filter_isHbr, hpost.filter_isNotify, hself, hnone, hsent.1, hsent.2,
    List.nil_append, List.append_nil, and_self]

theorem plain_nil : Output.Plain [] := fun _ h => nomatch h

/-- A ping of a new member adds it. -/
theorem ping_ok (hadm : NodeRing.Admissible H U) (hsane : Sane H U common ic)
    {member : Member} (hm : member ∈ U) (hvacant : ic.gossip.states[member]? = none) :
    ∃ common' ic' out, ic.process H o common (.ping member) = .ok (ic', common', out) ∧
      Outcome H U common ic.charges [.added member] common' ic' out ∧
      Follows common ic [.added member] common' ic' := by
  have hnew : member ∉ ic.members := by
    rw [hsane.members, hvacant]
    exact nofun
  have hsane₁ : Sane H U common { ic with
      gossip := ⟨ic.gossip.states.insert member .up⟩
      ring := ic.ring.insert H member
      members := ic.members.insert member } := by
    refine ⟨?_, fun m => ?_, hsane.ring.insert hadm hm⟩
    · simp only [getElem?_insert_eq]
      split
      · rfl
      · exact hsane.own
    · simp only [getElem?_insert_eq, mem_insert_iff, hsane.members m]
      split
      · next heq => simp [heq]
      · next hne => simp [hne]
  obtain ⟨ic', common', hbrs, hok, hsettled, hsane', hneigh, cs, hupdated, -, -⟩ :=
    hsane₁.update hadm
  have hfilter := filter_outputs plain_nil plain_nil
    (ic'.plain_gossipRound (o := o) 0 (ic'.notify o common' [.added member]).1 [member])
    hsettled.hbrs (ic'.notify_filter (o := o) common' [.added member])
  rw [List.nil_append, List.append_nil] at hfilter
  refine ⟨_, ic', _, ?_, .of_update hsettled hsane' hneigh hupdated rfl rfl rfl hfilter.1
    hfilter.2, ?_⟩
  · simp only [InCluster.process, hvacant, if_true, hok]
    rfl
  · refine ⟨?_, by simp, fun m hmem => ?_, .inl ?_⟩
    · simp only [replay, if_neg hnew, hsettled.members]
    · rw [hsettled.gossip, ExtTreeMap.mem_insert]
      exact .inr hmem
    · rw [InCluster.notify_member, hsettled.common]

/-- The downing of a member that is up removes it. -/
theorem down_ok (hadm : NodeRing.Admissible H U) (hsane : Sane H U common ic)
    {member : Member} (hup : ic.gossip.states[member]? = some .up)
    (hother : member ≠ common.member) :
    ∃ common' ic' out, ic.down H o common member = .ok (ic', common', out) ∧
      Outcome H U common ic.charges [.removed member] common' ic' out ∧
      Follows common ic [.removed member] common' ic' := by
  have hmem : member ∈ ic.members := (hsane.members member).mpr hup
  obtain ⟨ring, hremove, hring⟩ := hsane.ring.remove hadm hmem
  have hsane₁ : Sane H U common { ic with
      gossip := ⟨ic.gossip.states.insert member .down⟩
      ring
      members := ic.members.erase member } := by
    refine ⟨?_, fun m => ?_, hring⟩
    · simp only [getElem?_insert_eq, if_neg (Ne.symm hother)]
      exact hsane.own
    · simp only [getElem?_insert_eq, mem_erase_iff, hsane.members m]
      split
      · next heq => simp [heq]
      · next hne => simp [hne]
  obtain ⟨ic', common', hbrs, hok, hsettled, hsane', hneigh, cs, hupdated, -, -⟩ :=
    hsane₁.update hadm
  have hfilter := filter_outputs plain_nil
    (ic'.plain_gossipRound (o := o) 0 common' [member]) plain_nil hsettled.hbrs
    (ic'.notify_filter (o := o) common' [.removed member])
  rw [List.nil_append, List.append_nil] at hfilter
  refine ⟨_, ic', _, ?_, .of_update hsettled hsane' hneigh hupdated rfl rfl rfl hfilter.1
    hfilter.2, ?_⟩
  · simp only [InCluster.down, hup, hremove, if_pos hmem, hok]
    rfl
  · refine ⟨?_, by simp, fun m hm => ?_, .inl ?_⟩
    · simp only [replay, if_pos hmem, hsettled.members]
    · rw [hsettled.gossip, ExtTreeMap.mem_insert]
      exact .inr hm
    · rw [InCluster.notify_member, hsettled.common]

/-- What follows the loop over the events is the same whether the node was removed
or not. -/
theorem process_of_loop (hadm : NodeRing.Admissible H U) {gossip merged : Gossip}
    {events : List ClusterEvent} (hmerge : ic.gossip.merge gossip = (merged, events))
    {s : Merging} (hloop : InCluster.applyEvents H o
      ⟨{ ic with gossip := merged }, common, none, 0⟩ events = .ok s)
    (hsane : Sane H U s.common s.ic) (hcharges : s.ic.charges = ic.charges)
    (hspawned : s.common.spawned = common.spawned)
    (hsubs : s.common.subscribers = common.subscribers) :
    ∃ common' ic' out, ic.process H o common (.state gossip) = .ok (ic', common', out) ∧
      Outcome H U common ic.charges (events ++ s.newSelfMember.toList) common' ic' out ∧
      ic'.members = s.ic.members ∧ ic'.gossip = s.ic.gossip ∧
      common'.member = s.common.member := by
  obtain ⟨ic', common', hbrs, hok, hsettled, hsane', hneigh, cs, hupdated, -, -⟩ :=
    hsane.update hadm
  have hpre : Output.Plain (.abortGossipTimeout ::
      if events.isEmpty then [] else s.ic.gossipRound o 0 s.common []) := by
    intro x hx
    rcases List.mem_cons.mp hx with rfl | hx
    · exact ⟨rfl, rfl⟩
    · split at hx
      · cases hx
      · exact InCluster.plain_gossipRound _ _ _ _ x hx
  have hpost : Output.Plain
      [(ic'.notify o common' (events ++ s.newSelfMember.toList)).1.scheduleGossipTimeout] := by
    intro x hx
    rw [List.mem_singleton.mp hx]
    exact ⟨rfl, rfl⟩
  have hfilter := filter_outputs hpre plain_nil hpost hsettled.hbrs
    (ic'.notify_filter (o := o) common' (events ++ s.newSelfMember.toList))
  rw [List.append_nil] at hfilter
  refine ⟨_, ic', _, ?_, .of_update hsettled hsane' hneigh hupdated hcharges hspawned hsubs
    hfilter.1 hfilter.2, hsettled.members, hsettled.gossip, ?_⟩
  · unfold InCluster.process
    simp only [hmerge, hloop, hok, doing_ok, Except.bind, bind]
    rfl
  · rw [InCluster.notify_member, hsettled.common]

/-- A gossip is merged; if it knows the node as down, the node goes on under a
new id. -/
theorem state_ok (hadm : NodeRing.Admissible H U) (hsane : Sane H U common ic) {gossip : Gossip}
    (hgossip : ∀ m ∈ gossip.states, m ∈ U) (hdrawn : DrawsIn U o common gossip)
    (hfresh : FreshId o common (some ic.gossip) gossip) :
    ∃ events common' ic' out, ic.process H o common (.state gossip) = .ok (ic', common', out) ∧
      Outcome H U common ic.charges events common' ic' out ∧
      Follows common ic events common' ic' := by
  obtain ⟨nodes, hreplay, hnodes⟩ := Gossip.merge_replay ic.gossip gossip hsane.members
  have hevents : ∀ e ∈ (ic.gossip.merge gossip).2, (∃ m, e = .added m ∧ m ∈ gossip.states) ∨
      ∃ m, e = .removed m ∧ m ∈ gossip.states := fun e he => Gossip.known_of_mem_events he
  have habout : ∀ e m, e ∈ (ic.gossip.merge gossip).2 → e.member? = some m →
      m ∈ gossip.states := fun e m he hm => Gossip.mem_of_event he hm
  have hgrows : ∀ m ∈ ic.gossip.states, m ∈ (ic.gossip.merge gossip).1.states :=
    fun m hm => Gossip.mem_merge_left hm
  have hdown : .removed common.member ∈ (ic.gossip.merge gossip).2 →
      gossip.states[common.member]? = some .down := fun h => (Gossip.removed_mem_events.mp h).2
  have hup : .removed common.member ∉ (ic.gossip.merge gossip).2 →
      (ic.gossip.merge gossip).1.states[common.member]? = some .up := Gossip.merge_up hsane.own
  rcases hmerge : ic.gossip.merge gossip with ⟨merged, events⟩
  simp only [hmerge] at hreplay hnodes hevents habout hgrows hdown hup
  have hkind : ∀ e ∈ events, (∃ m, e = .added m ∧ m ∈ U) ∨ ∃ m, e = .removed m := by
    intro e he
    rcases hevents e he with ⟨m, rfl, hm⟩ | ⟨m, rfl, hm⟩
    · exact .inl ⟨m, rfl, hgossip m hm⟩
    · exact .inr ⟨m, rfl⟩
  have hring : NodeRing.Mirrors H U ic.ring ic.members := hsane.ring
  have hjoined : ∀ m, .joined m ∉ events := by
    intro m hm
    rcases hkind _ hm with ⟨x, hx, -⟩ | ⟨x, hx⟩ <;> cases hx
  by_cases hown : .removed common.member ∈ events
  · obtain ⟨hfresh, hfresh'⟩ := hfresh (hdown hown)
    have hnew : ∀ e ∈ events, e.member? ≠ some (common.newId (o.id 0)).member :=
      fun e he heq => hfresh (habout e _ he heq)
    obtain ⟨ring, hloop, hring'⟩ := InCluster.applyEvents_of_removed hadm (o := o)
      (s := ⟨{ ic with gossip := merged }, common, none, 0⟩) hring hkind hreplay hown
      (hdrawn (hdown hown)) hnew
    have hsane₁ : Sane H U (common.newId (o.id 0)) { ic with
        ring
        members := nodes.insert (common.newId (o.id 0)).member
        gossip := ⟨merged.states.insert (common.newId (o.id 0)).member .up⟩ } := by
      refine ⟨?_, fun m => ?_, hring'⟩
      · simp only [getElem?_insert_eq, if_true]
      · simp only [getElem?_insert_eq, mem_insert_iff, hnodes m]
        split
        · next heq => simp [heq]
        · next hne => simp [hne]
    obtain ⟨common', ic', out, hprocess, houtcome, hmembers, hgossip', hmember⟩ :=
      process_of_loop hadm hmerge hloop hsane₁ rfl rfl rfl
    refine ⟨_, common', ic', out, hprocess, houtcome, ⟨?_, fun m hm => ?_, fun m hm => ?_, ?_⟩⟩
    · rw [replay_append, hreplay, hmembers]
      rfl
    · rcases List.mem_append.mp hm with hm | hm
      · exact absurd hm (hjoined m)
      · simp only [Option.toList_some, List.mem_singleton, ClusterEvent.joined.injEq] at hm
        rw [hm, hmember]
    · rw [hgossip', ExtTreeMap.mem_insert]
      exact .inr (hgrows m hm)
    · rw [hmember]
      exact .inr (hfresh' ic.gossip rfl)
  · obtain ⟨ring, hloop, hring'⟩ := InCluster.applyEvents_of_kept hadm (o := o)
      (s := ⟨{ ic with gossip := merged }, common, none, 0⟩) hring hkind hreplay hown
    obtain ⟨common', ic', out, hprocess, houtcome, hmembers, hgossip', hmember⟩ :=
      process_of_loop hadm hmerge hloop ⟨hup hown, hnodes, hring'⟩ rfl rfl rfl
    refine ⟨_, common', ic', out, hprocess, houtcome, ⟨?_, fun m hm => ?_, fun m hm => ?_, ?_⟩⟩
    · rw [replay_append, hreplay, hmembers]
      rfl
    · rcases List.mem_append.mp hm with hm | hm
      · exact absurd hm (hjoined m)
      · cases hm
    · rw [hgossip']
      exact hgrows m hm
    · exact .inl hmember

/-! ## The ways into the cluster -/

/-- Outcomes do not depend on the member that the node had. -/
theorem Outcome.congr {common₀ : NodeState} {charges : Charges} {events : List ClusterEvent}
    {out : List Output} (h : Outcome H U common₀ charges events common' ic' out)
    (hspawned : common₀.spawned = common.spawned)
    (hsubs : common₀.subscribers = common.subscribers) :
    Outcome H U common charges events common' ic' out :=
  ⟨h.sane, h.neighbours, hspawned ▸ h.numbers, h.kept, h.spawns, hsubs ▸ h.notifies,
    hsubs ▸ h.subscribers⟩

/-- A node enters the cluster of a gossip in which it is up. -/
theorem join_ok (hadm : NodeRing.Admissible H U) (common : NodeState) {gossip : Gossip}
    {up : List Member} (hup : ∀ m, m ∈ up ↔ gossip.states[m]? = some .up) (hU : ∀ m ∈ up, m ∈ U)
    (hown : gossip.states[common.member]? = some .up) :
    ∃ common' ic' out, Pinging.join H o common gossip up = .ok (ic', common', out) ∧
      Outcome H U common ∅ [.joined common'.member] common' ic' out := by
  have hmem : ∀ m, m ∈ up.foldl (fun (set : MemberSet) m => set.insert m) ∅ ↔ m ∈ up := by
    intro m
    rw [mem_foldl_insert (fun m => m)]
    simp
  have hsane : Sane H U common {
      charges := ∅
      managers := []
      gossip
      members := up.foldl (fun set m => set.insert m) ∅
      ring := up.foldl (fun ring m => ring.insert H m)
        (NodeRing.new common.clrConfig.replicationFactor) } :=
    ⟨hown, fun m => (hmem m).trans (hup m), .of_list hadm _ hU⟩
  obtain ⟨ic', common', hbrs, hok, hsettled, hsane', hneigh, cs, hupdated, -, -⟩ :=
    hsane.update hadm
  have hmember : common'.member = common.member := by rw [hsettled.common]
  have hpre : Output.Plain [common'.scheduleGossipTimeout] := by
    intro x hx
    rw [List.mem_singleton.mp hx]
    exact ⟨rfl, rfl⟩
  have hfilter := filter_outputs hpre (ic'.plain_gossipRound (o := o) 0 common' []) plain_nil
    hsettled.hbrs (ic'.notify_filter (o := o) common' [.joined common'.member])
  rw [List.append_nil] at hfilter
  have hnotify := ic'.notify_member (o := o) common' [.joined common'.member]
  refine ⟨(ic'.notify o common' [.joined common'.member]).1, ic',
    [common'.scheduleGossipTimeout] ++ hbrs ++ ic'.gossipRound o 0 common' [] ++
      (ic'.notify o common' [.joined common'.member]).2, ?_, ?_⟩
  · unfold Pinging.join
    simp only [hok, doing_ok, Except.bind, bind]
    rfl
  · rw [hnotify]
    exact .of_update hsettled hsane' hneigh hupdated rfl rfl rfl hfilter.1 hfilter.2

/-- A node that creates a cluster is alone in it. -/
theorem create_ok (hadm : NodeRing.Admissible H U) (common : NodeState) (state : State)
    (hown : common.member ∈ U) :
    ∃ common' ic' out,
      Cluster.createCluster H o ⟨common, state⟩ = (⟨common', .inCluster ic'⟩, out) ∧
      Outcome H U common ∅ [.alone common'.member] common' ic' out := by
  have hring : NodeRing.Mirrors H U (InCluster.alone H common).ring
      (InCluster.alone H common).members :=
    .of_list hadm _ fun m hm => List.mem_singleton.mp hm ▸ hown
  have hmem : ∀ m, m ∈ (InCluster.alone H common).members ↔ m = common.member := by
    intro m
    simp only [InCluster.alone, mem_insert_iff]
    simp
  have hsane : Sane H U common (InCluster.alone H common) := by
    refine ⟨?_, fun m => ?_, hring⟩
    · simp only [InCluster.alone, getElem?_insert_eq, if_true]
    · rw [hmem]
      simp only [InCluster.alone, getElem?_insert_eq]
      split
      · next heq => simp [heq]
      · next hne => simp [hne]
  have hneigh : Neighbours H common (InCluster.alone H common) := by
    obtain ⟨cs, ms, hcs, -, hself, hcharges, hms⟩ :=
      hring.neighbours hadm ((hmem _).mpr rfl)
    have hnone : cs = [] := by
      rw [List.eq_nil_iff_forall_not_mem]
      intro x hx
      exact hself ((hmem x).mp (hcharges x hx) ▸ hx)
    refine ⟨⟨cs, hcs, fun m => by simp [InCluster.alone, hnone]⟩, ?_⟩
    -- only the node itself is in the ring, and it is dropped
    have hholds : NodeRing.Holds H (InCluster.alone H common).ring {m | m ∈ [common.member]} := by
      have hset : {m | m ∈ (InCluster.alone H common).members} = {m | m ∈ [common.member]} := by
        ext m
        simp only [Set.mem_ofPred_eq, hmem, List.mem_singleton]
      exact hset ▸ hring.holds
    have hlen := NodeRing.length_managers hholds (H.hashCode common.member)
      ((InCluster.alone H common).ring.repFactor + 1)
    rw [NodeRing.nodeManagers_false hholds (x := common.member) (by simp)]
    have hone : [common.member].toFinset.card = 1 := rfl
    rw [hone] at hlen
    refine congrArg (fun managers => Except.ok (some managers)) (List.drop_eq_nil_of_le ?_)
    omega
  have hmember := (InCluster.alone H common).notify_member (o := o) common [.alone common.member]
  refine ⟨((InCluster.alone H common).notify o common [.alone common.member]).1,
    InCluster.alone H common,
    ((InCluster.alone H common).notify o common [.alone common.member]).2, rfl, ?_⟩
  rw [hmember]
  have hsettled : InCluster.Settled (InCluster.alone H common) common (InCluster.alone H common)
      common [] := ⟨rfl, rfl, rfl, fun _ => .of_silent (by simp), rfl, by simp⟩
  have hupdated : InCluster.Updated [] (InCluster.alone H common) common
      (InCluster.alone H common) common [] :=
    ⟨fun m => by simp [InCluster.alone], ⟨0, rfl, rfl⟩, fun m hbr h => .inl h, by simp⟩
  have hfilter := (InCluster.alone H common).notify_filter (o := o) common [.alone common.member]
  exact .of_update hsettled hsane hneigh hupdated rfl rfl rfl hfilter.1 hfilter.2

/-- A pinging node that gets a gossip joins the members in it. -/
theorem pinging_state_ok (hadm : NodeRing.Admissible H U) (hown : common.member ∈ U)
    (png : Pinging) {gossip : Gossip} (hgossip : ∀ m ∈ gossip.states, m ∈ U)
    (hdrawn : DrawsIn U o common gossip) :
    ∃ common' ic' out,
      png.process H o common (.state gossip) = .ok (.inCluster ic', common', out) ∧
      Outcome H U common ∅ [.joined common'.member] common' ic' out := by
  obtain ⟨common₀, gossip₀, henter, hup₀, hcommon₀, hstates⟩ :=
    enter_spec (o := o) common gossip
  have hmem : ∀ m, m ∈ (gossip₀.states.toList.filter fun e => e.2 = .up).map (·.1) ↔
      gossip₀.states[m]? = some .up := by
    intro m
    simp only [List.mem_map, List.mem_filter, decide_eq_true_eq, Prod.exists, exists_and_right,
      exists_eq_right, ExtTreeMap.mem_toList_iff_getElem?_eq_some]
  have hown₀ : common₀.member ∈ U := by
    rcases hcommon₀ with ⟨rfl, -⟩ | ⟨rfl, hdown⟩
    · exact hown
    · exact hdrawn hdown
  have hU : ∀ m ∈ (gossip₀.states.toList.filter fun e => e.2 = .up).map (·.1), m ∈ U := by
    intro m hm
    rcases hstates m .up ((hmem m).mp hm) with h | ⟨rfl, -⟩
    · refine hgossip m ?_
      rw [ExtTreeMap.mem_iff_isSome_getElem?, h]
      rfl
    · exact hown₀
  obtain ⟨common', ic', out, hjoin, houtcome⟩ := join_ok hadm (o := o) common₀ hmem hU hup₀
  refine ⟨common', ic', out, ?_, ?_⟩
  · simp only [Pinging.process, henter, hjoin, Except.bind, bind]
    rfl
  · rcases hcommon₀ with ⟨rfl, -⟩ | ⟨rfl, -⟩
    · exact houtcome
    · exact houtcome.congr rfl rfl

/-- A pinging node that is pinged by a seed makes a cluster with it. -/
theorem pinging_ping_ok (hadm : NodeRing.Admissible H U) (hown : common.member ∈ U)
    (png : Pinging) {member : Member} (hm : member ∈ U)
    (hseed : member.socket ∈ common.clrConfig.seedNodes) :
    ∃ common' ic' out,
      png.process H o common (.ping member) = .ok (.inCluster ic', common', out) ∧
      Outcome H U common ∅ [.joined common'.member] common' ic' out := by
  let gossip : Gossip := ⟨((∅ : States).insert member .up).insert common.member .up⟩
  have hget : ∀ m, gossip.states[m]? =
      if m = common.member then some .up else if m = member then some .up else none := by
    intro m
    simp only [gossip, getElem?_insert_eq, ExtTreeMap.getElem?_empty]
  have hkeys : ∀ m, m ∈ gossip.states.keys ↔ gossip.states[m]? = some .up := by
    intro m
    rw [ExtTreeMap.mem_keys, ExtTreeMap.mem_iff_isSome_getElem?, hget]
    split
    · simp
    · split <;> simp
  have hU : ∀ m ∈ gossip.states.keys, m ∈ U := by
    intro m hmem
    rw [hkeys, hget] at hmem
    split at hmem
    · next heq => exact heq ▸ hown
    · split at hmem
      · next heq => exact heq ▸ hm
      · cases hmem
  obtain ⟨common', ic', out, hjoin, houtcome⟩ :=
    join_ok hadm (o := o) common hkeys hU (by rw [hget, if_pos rfl])
  refine ⟨common', ic', out, ?_, houtcome⟩
  simp only [Pinging.process, not_not.mpr hseed, if_false, gossip] at hjoin ⊢
  simp only [hjoin, Except.bind, bind]
  rfl

/-! ## All messages -/

/-- The new subscriber of a message. -/
def ClusterMsg.subscribed? : ClusterMsg → Option Nat
  | .subscribe subr => some subr
  | _ => none

namespace Cluster

/-- The parts of the state represent one membership. -/
structure Represents (H : RingHash) (U : Set Member) (c : Cluster) : Prop where
  own : c.common.member ∈ U
  sane : ∀ ic, c.state = .inCluster ic → Sane H U c.common ic
  neighbours : ∀ ic, c.state = .inCluster ic → Neighbours H c.common ic

/-- The members a message brings in are in the universe, and the id drawn for it
is new. -/
def Admits (U : Set Member) (o : Oracle) (c : Cluster) : ClusterMsg → Prop
  | .intraMsg (.state gossip) =>
      (∀ m ∈ gossip.states, m ∈ U) ∧ DrawsIn U o c.common gossip ∧
        FreshId o c.common c.state.gossip? gossip
  | .intraMsg (.ping member) => member ∈ U
  | _ => True

/-- The ways a handler can move the actor, with the subscriber that is new. -/
inductive Moved (H : RingHash) (U : Set Member) (c : Cluster) :
    Option Nat → Cluster → List Output → Prop
  /-- it stays outside the cluster -/
  | outside (state : State) (out : List Output) (h : c.state.gossip? = none)
      (h' : state.gossip? = none) (plain : Output.Plain out) :
      Moved H U c none ⟨c.common, state⟩ out
  /-- it enters the cluster -/
  | enters (event : ClusterEvent) (common' : NodeState) (ic' : InCluster) (out : List Output)
      (h : c.state.gossip? = none)
      (hevent : event = .alone common'.member ∨ event = .joined common'.member)
      (outcome : Outcome H U c.common ∅ [event] common' ic' out) :
      Moved H U c none ⟨common', .inCluster ic'⟩ out
  /-- it changes its membership, or nothing -/
  | inside (ic : InCluster) (events : List ClusterEvent) (common' : NodeState)
      (ic' : InCluster) (out : List Output) (h : c.state = .inCluster ic)
      (outcome : Outcome H U c.common ic.charges events common' ic' out)
      (follows : Follows c.common ic events common' ic') :
      Moved H U c none ⟨common', .inCluster ic'⟩ out
  /-- it has a new subscriber, and greets it inside the cluster -/
  | subscribes (subr : Nat) (out : List Output)
      (hout : c.state.gossip? = none ∧ out = [] ∨ ∃ ic event, c.state = .inCluster ic ∧
        (event = .alone c.common.member ∨ event = .joined c.common.member) ∧
        out = [.notify subr ⟨[event], ic.members, ic.ring⟩]) :
      Moved H U c (some subr)
        ⟨{ c.common with subscribers := c.common.subscribers ++ [subr] }, c.state⟩ out

/-- Starting moves the actor. -/
theorem preStart_moved (hadm : NodeRing.Admissible H U) {c : Cluster} (hstate : c.state = .left)
    (hown : c.common.member ∈ U) : Moved H U c none (c.preStart H o).1 (c.preStart H o).2 := by
  obtain ⟨common, state⟩ := c
  subst hstate
  have htick : Output.Plain [.scheduleHeartbeatTick common.clrConfig.hbInterval] := by
    simp [Output.Plain, Output.isHbr, Output.isNotify]
  unfold preStart
  simp only
  split
  · obtain ⟨common', ic', out, hok, houtcome⟩ :=
      create_ok hadm (o := o) common .left hown
    rw [hok]
    exact .enters _ _ _ _ rfl (.inl rfl) (houtcome.append_plain htick)
  · refine .outside _ _ rfl rfl (.append ?_ htick)
    simp [Pinging.ping, Output.Plain, Output.isHbr, Output.isNotify, or_imp, forall_and]

/-- Outside the cluster, without a gossip to ask for. -/
theorem recv_left_ok {c : Cluster} (hstate : c.state = .left) (msg : ClusterMsg) :
    ∃ c' out, c.recv H o msg = .ok (c', out) ∧ Moved H U c msg.subscribed? c' out := by
  obtain ⟨common, state⟩ := c
  subst hstate
  have hout : ∀ {out : List Output}, Output.Plain out →
      Moved H U ⟨common, .left⟩ none ⟨common, .left⟩ out := fun h => .outside _ _ rfl rfl h
  cases msg with
  | intraMsg msg => exact ⟨_, _, rfl, hout plain_nil⟩
  | subscribe subr => exact ⟨_, _, rfl, .subscribes subr [] (.inl ⟨rfl, rfl⟩)⟩
  | pingTimeout => exact ⟨_, _, rfl, hout plain_nil⟩
  | gossipTimeout => exact ⟨_, _, rfl, hout plain_nil⟩
  | downed member => exact ⟨_, _, rfl, hout plain_nil⟩
  | heartbeatTick =>
      refine ⟨_, _, rfl, hout ?_⟩
      simp [Output.Plain, Output.isHbr, Output.isNotify]

theorem recv_pinging_ok (hadm : NodeRing.Admissible H U) {c : Cluster} {png : Pinging}
    (hstate : c.state = .pinging png) (hown : c.common.member ∈ U) {msg : ClusterMsg}
    (hmsg : c.Admits U o msg) :
    ∃ c' out, c.recv H o msg = .ok (c', out) ∧ Moved H U c msg.subscribed? c' out := by
  obtain ⟨common, state⟩ := c
  subst hstate
  have hout : ∀ (png' : Pinging) {out : List Output}, Output.Plain out →
      Moved H U ⟨common, .pinging png⟩ none ⟨common, .pinging png'⟩ out :=
    fun _ _ h => .outside _ _ rfl rfl h
  cases msg with
  | intraMsg msg =>
      cases msg with
      | foo => exact ⟨_, _, rfl, hout png plain_nil⟩
      | reqGossip member => exact ⟨_, _, rfl, hout png plain_nil⟩
      | reqHeartbeat member id =>
          simp only [recv, Pinging.process]
          split
          · refine ⟨_, _, rfl, hout png ?_⟩
            simp [Output.Plain, Output.isHbr, Output.isNotify, NodeState.heartbeat]
          · refine ⟨_, _, rfl, hout png ?_⟩
            simp [Output.Plain, Output.isHbr, Output.isNotify]
      | state gossip =>
          obtain ⟨hgossip, hdrawn, -⟩ := hmsg
          obtain ⟨common', ic', out, hok, houtcome⟩ :=
            pinging_state_ok hadm (o := o) hown png hgossip hdrawn
          refine ⟨_, _, ?_, .enters _ common' ic' out rfl (.inr rfl) houtcome⟩
          simp only [recv, hok, Except.bind, bind]
          rfl
      | ping member =>
          by_cases hseed : member.socket ∈ common.clrConfig.seedNodes
          · obtain ⟨common', ic', out, hok, houtcome⟩ :=
              pinging_ping_ok hadm (o := o) hown png hmsg hseed
            refine ⟨_, _, ?_, .enters _ common' ic' out rfl (.inr rfl) houtcome⟩
            simp only [recv, hok, Except.bind, bind]
            rfl
          · refine ⟨_, _, ?_, hout png plain_nil⟩
            simp only [recv, Pinging.process, if_pos hseed]
            rfl
  | subscribe subr => exact ⟨_, _, rfl, .subscribes subr [] (.inl ⟨rfl, rfl⟩)⟩
  | pingTimeout =>
      simp only [recv]
      split
      · refine ⟨_, _, rfl, hout _ ?_⟩
        simp [Pinging.ping, Output.Plain, Output.isHbr, Output.isNotify, or_imp, forall_and]
      · obtain ⟨common', ic', out, hok, houtcome⟩ :=
          create_ok hadm (o := o) common (.pinging png) hown
        exact ⟨_, _, congrArg Except.ok hok, .enters _ common' ic' out rfl (.inl rfl) houtcome⟩
  | gossipTimeout => exact ⟨_, _, rfl, hout png plain_nil⟩
  | downed member => exact ⟨_, _, rfl, hout png plain_nil⟩
  | heartbeatTick =>
      refine ⟨_, _, rfl, hout png ?_⟩
      simp [Output.Plain, Output.isHbr, Output.isNotify]

theorem recv_inCluster_ok (hadm : NodeRing.Admissible H U) {c : Cluster}
    (hstate : c.state = .inCluster ic) (hsane : Sane H U c.common ic)
    (hneigh : Neighbours H c.common ic) {msg : ClusterMsg} (hmsg : c.Admits U o msg)
    (hdowned : ∀ m, msg = .downed m → m ∈ ic.gossip.states ∧ m ≠ c.common.member) :
    ∃ c' out, c.recv H o msg = .ok (c', out) ∧ Moved H U c msg.subscribed? c' out := by
  obtain ⟨common, state⟩ := c
  subst hstate
  have hquiet : ∀ {out : List Output}, Output.Plain out →
      Moved H U ⟨common, .inCluster ic⟩ none ⟨common, .inCluster ic⟩ out := fun h =>
    .inside ic [] common ic _ rfl (.quiet hsane hneigh h) (.refl common ic)
  cases msg with
  | intraMsg msg =>
      cases msg with
      | foo => exact ⟨_, _, rfl, hquiet plain_nil⟩
      | reqGossip member =>
          refine ⟨_, _, rfl, hquiet ?_⟩
          simp [Output.Plain, Output.isHbr, Output.isNotify]
      | reqHeartbeat member id =>
          simp only [recv, InCluster.process]
          split
          · refine ⟨_, _, rfl, hquiet ?_⟩
            simp [Output.Plain, Output.isHbr, Output.isNotify, NodeState.heartbeat]
          · exact ⟨_, _, rfl, hquiet plain_nil⟩
      | state gossip =>
          obtain ⟨hgossip, hdrawn, hfresh⟩ := hmsg
          obtain ⟨events, common', ic', out, hok, houtcome, hfollows⟩ :=
            state_ok hadm hsane hgossip hdrawn hfresh
          refine ⟨_, _, ?_, .inside ic events common' ic' out rfl houtcome hfollows⟩
          simp only [recv, hok, Except.bind, bind]
          rfl
      | ping member =>
          by_cases hvacant : ic.gossip.states[member]? = none
          · obtain ⟨common', ic', out, hok, houtcome, hfollows⟩ :=
              ping_ok hadm (o := o) hsane hmsg hvacant
            refine ⟨_, _, ?_, .inside ic _ common' ic' out rfl houtcome hfollows⟩
            simp only [recv, hok, Except.bind, bind]
            rfl
          · refine ⟨_, _, ?_, hquiet (ic.plain_gossipRound (o := o) 0 common [member])⟩
            simp only [recv, InCluster.process, if_neg hvacant]
            rfl
  | subscribe subr =>
      refine ⟨_, _, rfl, .subscribes subr _ (.inr ⟨ic, _, rfl, ?_, rfl⟩)⟩
      split
      · exact .inl rfl
      · exact .inr rfl
  | pingTimeout => exact ⟨_, _, rfl, hquiet plain_nil⟩
  | gossipTimeout =>
      refine ⟨_, _, rfl, hquiet (.append (.append (ic.plain_gossipRound 0 common []) ?_) ?_)⟩
      · simp [InCluster.gossipReqs, Output.Plain, Output.isHbr, Output.isNotify]
      · simp [NodeState.scheduleGossipTimeout, Output.Plain, Output.isHbr, Output.isNotify]
  | downed member =>
      obtain ⟨hknown, hother⟩ := hdowned member rfl
      rcases hget : ic.gossip.states[member]? with _ | s
      · rw [ExtTreeMap.mem_iff_isSome_getElem?, hget] at hknown
        cases hknown
      · cases s with
        | up =>
            obtain ⟨common', ic', out, hok, houtcome, hfollows⟩ :=
              down_ok hadm (o := o) hsane hget hother
            refine ⟨_, _, ?_, .inside ic _ common' ic' out rfl houtcome hfollows⟩
            simp only [recv, hok, Except.bind, bind]
            rfl
        | down =>
            refine ⟨_, _, ?_, hquiet plain_nil⟩
            simp only [recv, InCluster.down, hget]
            rfl
  | heartbeatTick =>
      refine ⟨_, _, rfl, hquiet (.append ?_ ?_)⟩
      · simp [NodeState.heartbeat, Output.Plain, Output.isHbr, Output.isNotify]
      · simp [Output.Plain, Output.isHbr, Output.isNotify]

/-- Every message is handled, if a downed member is known and is not the node. -/
theorem recv_ok (hadm : NodeRing.Admissible H U) {c : Cluster} (hinv : c.Represents H U)
    {msg : ClusterMsg} (hmsg : c.Admits U o msg)
    (hdowned : ∀ m ic, msg = .downed m → c.state = .inCluster ic →
      m ∈ ic.gossip.states ∧ m ≠ c.common.member) :
    ∃ c' out, c.recv H o msg = .ok (c', out) ∧ Moved H U c msg.subscribed? c' out := by
  cases hstate : c.state with
  | left => exact recv_left_ok hstate msg
  | pinging png => exact recv_pinging_ok hadm hstate hinv.own hmsg
  | inCluster ic =>
      exact recv_inCluster_ok hadm hstate (hinv.sane ic hstate) (hinv.neighbours ic hstate) hmsg
        fun m hm => hdowned m ic hm hstate

/-- A moved actor still represents one membership. -/
theorem Moved.represents {c c' : Cluster} {subr : Option Nat} {out : List Output}
    (h : Moved H U c subr c' out) (hinv : c.Represents H U) : c'.Represents H U := by
  have hin : ∀ {common₀ : NodeState} {charges : Charges} {events : List ClusterEvent}
      {common' : NodeState} {ic' : InCluster} {out : List Output},
      Outcome H U common₀ charges events common' ic' out →
        Represents H U ⟨common', .inCluster ic'⟩ := by
    intro common₀ charges events common' ic' out houtcome
    refine ⟨houtcome.sane.ring.within _ ((houtcome.sane.members _).mpr houtcome.sane.own),
      fun ic hic => ?_, fun ic hic => ?_⟩
    · cases hic
      exact houtcome.sane
    · cases hic
      exact houtcome.neighbours
  cases h with
  | outside state out h h' plain =>
      refine ⟨hinv.own, fun ic hic => ?_, fun ic hic => ?_⟩
      · rw [show state = .inCluster ic from hic] at h'
        cases h'
      · rw [show state = .inCluster ic from hic] at h'
        cases h'
  | enters event common' ic' out h hevent outcome => exact hin outcome
  | inside ic events common' ic' out h outcome follows => exact hin outcome
  | subscribes subr out hout =>
      refine ⟨hinv.own, fun ic hic => ?_, fun ic hic => ?_⟩
      · exact ⟨(hinv.sane ic hic).own, (hinv.sane ic hic).members, (hinv.sane ic hic).ring⟩
      · exact ⟨(hinv.neighbours ic hic).charges, (hinv.neighbours ic hic).managers⟩

end Cluster

end AurumActors.Cluster
