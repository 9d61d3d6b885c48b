/-
  Cluster/HeartbeatReceivers.lean --- the receivers of the charges, from
  `cluster/heartbeat_receiver.rs` and `InCluster::update_charges_managers`.

  The clustering actor spawns a receiver for every new charge, under a name made
  of its own name and the id of the charge, and sends `Term` to the receivers it
  does not keep.  A handler's spawns and signals happen one by one, among the
  steps of the receivers and of the registry.  What a receiver does with
  heartbeats and timeouts changes neither its registration nor its mailbox.
-/
import AurumActors.Cluster.Provenance
import AurumActors.Cluster.Representation
import AurumActors.Core.Renewal

set_option autoImplicit false
set_option linter.dupNamespace false

namespace AurumActors.Cluster

open Std
open AurumActors.Core AurumActors.Foundation

attribute [local instance] lexOrd

/-! ## What a handler does to the receivers -/

/-- The receivers of the charges after a handler with the outputs `out`: they are
old ones or spawned with the next numbers, and those of the charges that are left
get `Term`. -/
structure Rewatched (charges : Charges) (spawned : Nat) (charges' : Charges) (spawned' : Nat)
    (out : List Output) : Prop where
  numbers : ∃ k, spawned' = spawned + k ∧
    out.filterMap Output.spawned? = List.range' spawned k
  held : ∀ (m : Member) (hbr : Nat), charges'[m]? = some hbr →
    charges[m]? = some hbr ∨ ∃ req, .spawn hbr m req ∈ out
  termed : ∀ hbr, .term hbr ∈ out → ∃ m, charges[m]? = some hbr ∧ m ∉ charges'

theorem Rewatched.of_filter {charges charges' : Charges} {spawned spawned' : Nat}
    {hbrs out : List Output} (h : Rewatched charges spawned charges' spawned' hbrs)
    (hout : out.filter Output.isHbr = hbrs) : Rewatched charges spawned charges' spawned' out := by
  have hmem : ∀ x : Output, x.isHbr = true → (x ∈ hbrs ↔ x ∈ out) := by
    intro x hx
    rw [← hout, List.mem_filter, and_iff_left hx]
  refine ⟨?_, fun m hbr hget => ?_, fun hbr hterm => h.termed hbr ((hmem _ rfl).mpr hterm)⟩
  · rw [Output.filterMap_spawned?, hout]
    exact h.numbers
  · refine (h.held m hbr hget).imp_right fun ⟨req, hspawn⟩ => ?_
    exact ⟨req, (hmem _ rfl).mp hspawn⟩

/-- A handler that neither spawns nor stops a receiver. -/
theorem rewatched_quiet (charges : Charges) (spawned : Nat) {out : List Output}
    (hout : out.filter Output.isHbr = []) : Rewatched charges spawned charges spawned out :=
  .of_filter ⟨⟨0, rfl, rfl⟩, fun _ _ h => .inl h, by simp⟩ hout

section Handlers

variable {H : RingHash} {o : Oracle} {common common' : NodeState} {ic ic' : InCluster}
  {out : List Output}

/-- The loop over the new charges, which may repeat. -/
theorem takeCharges_held (own : Member) (ms : List Member) (charges newCharges : Charges)
    (spawned : Nat) :
    ∃ old new n out, InCluster.takeCharges own ms charges newCharges spawned = (old, new, n, out) ∧
      (∃ k, n = spawned + k ∧ out.filterMap Output.spawned? = List.range' spawned k) ∧
      (∀ (m : Member) (hbr : Nat), new[m]? = some hbr →
        newCharges[m]? = some hbr ∨ charges[m]? = some hbr ∨ ∃ req, .spawn hbr m req ∈ out) ∧
      (∀ (m : Member) (hbr : Nat), old[m]? = some hbr → charges[m]? = some hbr ∧ m ∉ ms) ∧
      (∀ m, m ∈ new → m ∈ newCharges ∨ m ∈ ms) ∧ ∀ x ∈ out, ∃ n, x.spawned? = some n := by
  induction ms generalizing charges newCharges spawned with
  | nil =>
      refine ⟨charges, newCharges, spawned, [], rfl, ⟨0, rfl, rfl⟩, fun _ _ h => .inl h,
        fun _ _ h => ⟨h, List.not_mem_nil⟩, fun _ h => .inl h, by simp⟩
  | cons m ms ih =>
      have hkeys : ∀ (hbr : Nat) (x : Member), x ∈ newCharges.insert m hbr ∨ x ∈ ms →
          x ∈ newCharges ∨ x ∈ m :: ms := by
        intro hbr x hx
        rw [ExtTreeMap.mem_insert, Std.compare_eq_iff_eq] at hx
        rw [List.mem_cons]
        tauto
      unfold InCluster.takeCharges
      rcases hget : charges[m]? with _ | hbr
      · obtain ⟨old, new, n, out, heq, ⟨k, hn, hrange⟩, hnew, hold, hmem, hspawns⟩ :=
          ih charges (newCharges.insert m spawned) (spawned + 1)
        refine ⟨old, new, n, .spawn spawned m (.reqHeartbeat own m.id) :: out, by simp [heq],
          ⟨k + 1, by omega, ?_⟩, fun x hbr hx => ?_, fun x hbr hx => ?_,
          fun x hx => hkeys _ x (hmem x hx), ?_⟩
        · rw [List.filterMap_cons, List.range'_succ, hrange]
          rfl
        · rcases hnew x hbr hx with hx | hx | ⟨req, hx⟩
          · rw [getElem?_insert_eq] at hx
            split at hx
            · next hxm =>
                cases hx
                subst hxm
                exact .inr (.inr ⟨_, List.mem_cons_self⟩)
            · exact .inl hx
          · exact .inr (.inl hx)
          · exact .inr (.inr ⟨req, List.mem_cons_of_mem _ hx⟩)
        · obtain ⟨hx', hms⟩ := hold x hbr hx
          refine ⟨hx', fun hxm => ?_⟩
          rcases List.mem_cons.mp hxm with rfl | hxm
          · rw [hget] at hx'
            cases hx'
          · exact hms hxm
        · intro x hx
          rcases List.mem_cons.mp hx with rfl | hx
          · exact ⟨spawned, rfl⟩
          · exact hspawns x hx
      · obtain ⟨old, new, n, out, heq, hnumbers, hnew, hold, hmem, hspawns⟩ :=
          ih (charges.erase m) (newCharges.insert m hbr) spawned
        refine ⟨old, new, n, out, heq, hnumbers, fun x hbr' hx => ?_, fun x hbr' hx => ?_,
          fun x hx => hkeys _ x (hmem x hx), hspawns⟩
        · rcases hnew x hbr' hx with hx | hx | hx
          · rw [getElem?_insert_eq] at hx
            split at hx
            · next hxm =>
                cases hx
                exact .inr (.inl (hxm ▸ hget))
            · exact .inl hx
          · rw [getElem?_erase_eq] at hx
            split at hx
            · cases hx
            · exact .inr (.inl hx)
          · exact .inr (.inr hx)
        · obtain ⟨hx', hms⟩ := hold x hbr' hx
          rw [getElem?_erase_eq] at hx'
          split at hx'
          · cases hx'
          · next hne =>
              refine ⟨hx', fun hxm => ?_⟩
              exact (List.mem_cons.mp hxm).elim hne hms

theorem rewatched_of_update
    (h : ic.updateChargesManagers H common = .ok (ic', common', out)) :
    Rewatched ic.charges common.spawned ic'.charges common'.spawned out := by
  unfold InCluster.updateChargesManagers at h
  split at h
  · cases h
  · next cs hcs =>
      obtain ⟨old, new, n, spawns, heq, ⟨k, hn, hrange⟩, hnew, hold, hmem, hspawns⟩ :=
        takeCharges_held common.member cs ic.charges ∅ common.spawned
      simp only [heq] at h
      split at h
      · cases h
        have hterms : (old.toList.map fun e => Output.term e.2).filterMap Output.spawned? = [] := by
          rw [List.filterMap_eq_nil_iff]
          intro x hx
          obtain ⟨e, -, rfl⟩ := List.mem_map.mp hx
          rfl
        refine ⟨⟨k, hn, ?_⟩, fun m hbr hget => ?_, fun hbr hterm => ?_⟩
        · rw [List.filterMap_append, hrange, hterms, List.append_nil]
        · rcases hnew m hbr hget with hget | hget | ⟨req, hspawn⟩
          · simp at hget
          · exact .inl hget
          · exact .inr ⟨req, List.mem_append_left _ hspawn⟩
        · rcases List.mem_append.mp hterm with hterm | hterm
          · obtain ⟨n, hn⟩ := hspawns _ hterm
            cases hn
          · obtain ⟨⟨m, hbr'⟩, he, heq'⟩ := List.mem_map.mp hterm
            cases heq'
            obtain ⟨hget, hms⟩ := hold m hbr' (ExtTreeMap.mem_toList_iff_getElem?_eq_some.mp he)
            exact ⟨m, hget, fun hm => (hmem m hm).elim (by simp) hms⟩
      · cases h

/-- The loop over events leaves the receivers alone. -/
theorem applyEvents_receivers {es : List ClusterEvent} {s s' : Merging}
    (h : InCluster.applyEvents H o s es = .ok s') :
    s'.ic.charges = s.ic.charges ∧ s'.common.spawned = s.common.spawned := by
  induction es generalizing s with
  | nil =>
      cases h
      exact ⟨rfl, rfl⟩
  | cons e es ih =>
      obtain ⟨s₁, hstep, hrest⟩ := ok_of_bind h
      obtain ⟨hcharges, hspawned⟩ := ih hrest
      rw [hcharges, hspawned]
      cases e with
      | removed m =>
          simp only [InCluster.applyEvent] at hstep
          split at hstep
          · cases hstep
          · split at hstep
            · split at hstep <;> cases hstep <;> exact ⟨rfl, rfl⟩
            · cases hstep
      | _ =>
          cases hstep
          exact ⟨rfl, rfl⟩

theorem filter_gossipRound (n : Nat) (ic : InCluster) (common : NodeState) (ms : List Member) :
    (ic.gossipRound o n common ms).filter Output.isHbr = [] :=
  (InCluster.plain_gossipRound n ic common ms).filter_isHbr

/-- An update of the charges, with other outputs around it. -/
theorem rewatched_of_settled (pre : List Output) {post : List Output}
    (events : List ClusterEvent) {ic₁ : InCluster} {common₁ : NodeState} {hbrs : List Output}
    (hupdate : ic.updateChargesManagers H common = .ok (ic₁, common₁, hbrs))
    (hpre : pre.filter Output.isHbr = []) (hpost : post.filter Output.isHbr = []) :
    Rewatched ic.charges common.spawned ic₁.charges (ic₁.notify o common₁ events).1.spawned
      (pre ++ hbrs ++ post) := by
  rw [InCluster.notify_spawned]
  refine (rewatched_of_update hupdate).of_filter ?_
  have hhbrs := (Output.filter_of_isHbr (InCluster.settled_of_ok hupdate).hbrs).1
  rw [List.filter_append, List.filter_append, hpre, hhbrs, hpost, List.nil_append, List.append_nil]

theorem process_rewatched {msg : IntraClusterMsg}
    (h : ic.process H o common msg = .ok (ic', common', out)) :
    Rewatched ic.charges common.spawned ic'.charges common'.spawned out := by
  cases msg with
  | foo =>
      cases h
      exact rewatched_quiet _ _ rfl
  | reqGossip member =>
      cases h
      exact rewatched_quiet _ _ rfl
  | reqHeartbeat member id =>
      simp only [InCluster.process] at h
      split at h <;> cases h <;> exact rewatched_quiet _ _ rfl
  | state gossip =>
      rcases hmerge : ic.gossip.merge gossip with ⟨merged, events⟩
      simp only [InCluster.process, hmerge] at h
      obtain ⟨s, hloop, h⟩ := ok_of_bind h
      obtain ⟨hcharges, hspawned⟩ := applyEvents_receivers (ok_of_doing hloop)
      obtain ⟨⟨ic₁, common₁, hbrs⟩, hupdate, h⟩ := ok_of_bind h
      have hpre : (.abortGossipTimeout :: if events.isEmpty then []
          else s.ic.gossipRound o 0 s.common []).filter Output.isHbr = [] := by
        rw [List.filter_cons_of_neg (by simp [Output.isHbr])]
        split
        · rfl
        · exact filter_gossipRound ..
      have hpost : ((ic₁.notify o common₁ (events ++ s.newSelfMember.toList)).2 ++
          [(ic₁.notify o common₁
            (events ++ s.newSelfMember.toList)).1.scheduleGossipTimeout]).filter
              Output.isHbr = [] := by
        rw [List.filter_append, (ic₁.notify_filter common₁ _).1]
        rfl
      have hall := rewatched_of_settled (o := o) _ (events ++ s.newSelfMember.toList)
        (ok_of_doing hupdate) hpre hpost
      rw [hcharges, hspawned, ← List.append_assoc] at hall
      cases h
      exact hall
  | ping member =>
      simp only [InCluster.process] at h
      split at h
      · obtain ⟨⟨ic₁, common₁, hbrs⟩, hupdate, h⟩ := ok_of_bind h
        have hpost : ((ic₁.notify o common₁ [.added member]).2 ++
            ic₁.gossipRound o 0 (ic₁.notify o common₁ [.added member]).1 [member]).filter
              Output.isHbr = [] := by
          rw [List.filter_append, (ic₁.notify_filter common₁ _).1, filter_gossipRound]
          rfl
        have hall := rewatched_of_settled (o := o) [] [.added member] hupdate rfl hpost
        rw [List.nil_append, ← List.append_assoc] at hall
        cases h
        exact hall
      · cases h
        exact rewatched_quiet _ _ (filter_gossipRound ..)

theorem down_rewatched {member : Member}
    (h : ic.down H o common member = .ok (ic', common', out)) :
    Rewatched ic.charges common.spawned ic'.charges common'.spawned out := by
  unfold InCluster.down at h
  split at h
  · cases h
  · cases h
    exact rewatched_quiet _ _ rfl
  · split at h
    · cases h
    · split at h
      · obtain ⟨⟨ic₁, common₁, hbrs⟩, hupdate, h⟩ := ok_of_bind h
        have hpost : (ic₁.gossipRound o 0 common₁ [member] ++
            (ic₁.notify o common₁ [.removed member]).2).filter Output.isHbr = [] := by
          rw [List.filter_append, (ic₁.notify_filter common₁ _).1, filter_gossipRound]
          rfl
        have hall := rewatched_of_settled (o := o) [] [.removed member] hupdate rfl hpost
        rw [List.nil_append, ← List.append_assoc] at hall
        cases h
        exact hall
      · cases h

theorem join_rewatched {gossip : Gossip} {up : List Member}
    (h : Pinging.join H o common gossip up = .ok (ic', common', out)) :
    Rewatched ∅ common.spawned ic'.charges common'.spawned out := by
  unfold Pinging.join at h
  obtain ⟨⟨ic₁, common₁, hbrs⟩, hupdate, h⟩ := ok_of_bind h
  have hpost : (ic₁.gossipRound o 0 common₁ [] ++
      (ic₁.notify o common₁ [.joined common₁.member]).2).filter Output.isHbr = [] := by
    rw [List.filter_append, (ic₁.notify_filter common₁ _).1, filter_gossipRound]
    rfl
  have hall := rewatched_of_settled (o := o) [common₁.scheduleGossipTimeout]
    [.joined common₁.member] (ok_of_doing hupdate) rfl hpost
  rw [← List.append_assoc] at hall
  cases h
  exact hall

/-- The receivers that a state holds. -/
def State.charges : State → Charges
  | .inCluster ic => ic.charges
  | .pinging _ | .left => ∅

theorem filter_ping (png : Pinging) (common : NodeState) :
    (png.ping common).2.filter Output.isHbr = [] := by
  rw [List.filter_eq_nil_iff]
  intro x hx
  rcases List.mem_append.mp hx with hx | hx
  · obtain ⟨s, -, rfl⟩ := List.mem_map.mp hx
    exact Bool.false_ne_true
  · rw [List.mem_singleton.mp hx]
    exact Bool.false_ne_true

theorem pinging_rewatched {png : Pinging} {msg : IntraClusterMsg} {state : State}
    (h : png.process H o common msg = .ok (state, common', out)) :
    Rewatched ∅ common.spawned state.charges common'.spawned out := by
  cases msg with
  | foo =>
      cases h
      exact rewatched_quiet _ _ rfl
  | reqGossip member =>
      cases h
      exact rewatched_quiet _ _ rfl
  | reqHeartbeat member id =>
      simp only [Pinging.process] at h
      split at h <;> cases h <;> exact rewatched_quiet _ _ rfl
  | state gossip =>
      obtain ⟨common₀, gossip₀, henter, -, hcommon, -⟩ := enter_spec (o := o) common gossip
      simp only [Pinging.process, henter] at h
      obtain ⟨⟨ic', common₁, out₁⟩, hjoin, h⟩ := ok_of_bind h
      cases h
      have hspawned : common₀.spawned = common.spawned := by
        rcases hcommon with ⟨rfl, -⟩ | ⟨rfl, -⟩ <;> rfl
      rw [← hspawned]
      exact join_rewatched hjoin
  | ping member =>
      simp only [Pinging.process] at h
      split at h
      · cases h
        exact rewatched_quiet _ _ rfl
      · obtain ⟨⟨ic', common₁, out₁⟩, hjoin, h⟩ := ok_of_bind h
        cases h
        exact join_rewatched hjoin

theorem createCluster_rewatched {c : Cluster} (hcharges : c.state.charges = ∅) :
    Rewatched c.state.charges c.common.spawned (c.createCluster H o).1.state.charges
      (c.createCluster H o).1.common.spawned (c.createCluster H o).2 := by
  have hnotify := (InCluster.alone H c.common).notify_spawned (o := o) c.common
    [.alone c.common.member]
  have hfilter := ((InCluster.alone H c.common).notify_filter (o := o) c.common
    [.alone c.common.member]).1
  rw [hcharges, show (c.createCluster H o).1.common.spawned = _ from hnotify]
  exact rewatched_quiet _ _ hfilter

theorem preStart_rewatched {c : Cluster} (hstate : c.state = .left) :
    Rewatched ∅ c.common.spawned (c.preStart H o).1.state.charges
      (c.preStart H o).1.common.spawned (c.preStart H o).2 := by
  obtain ⟨common, state⟩ := c
  subst hstate
  unfold Cluster.preStart
  simp only
  split
  · have hfilter := ((InCluster.alone H common).notify_filter (o := o) common
      [.alone common.member]).1
    have hspawned := (InCluster.alone H common).notify_spawned (o := o) common
      [.alone common.member]
    rw [show (((⟨common, .left⟩ : Cluster).createCluster H o).1.common.spawned = _) from hspawned]
    refine rewatched_quiet _ _ ?_
    rw [List.filter_append, show (((⟨common, .left⟩ : Cluster).createCluster H o).2.filter
      Output.isHbr = []) from hfilter]
    rfl
  · refine rewatched_quiet _ _ ?_
    rw [List.filter_append, filter_ping]
    rfl

/-- What any message does to the receivers. -/
theorem recv_rewatched {c c' : Cluster} {msg : ClusterMsg} (h : c.recv H o msg = .ok (c', out)) :
    Rewatched c.state.charges c.common.spawned c'.state.charges c'.common.spawned out := by
  cases received_of_ok h with
  | process h => exact process_rewatched h
  | pinging h => exact pinging_rewatched h
  | subscribe hout =>
      refine rewatched_quiet _ _ ?_
      rw [List.filter_eq_nil_iff]
      intro x hx
      obtain ⟨update, rfl⟩ := hout x hx
      exact Bool.false_ne_true
  | ping hcount => exact rewatched_quiet _ _ (filter_ping ..)
  | alone hcount => exact createCluster_rewatched rfl
  | @silence common ic =>
      refine rewatched_quiet _ _ ?_
      have hreqs : (ic.gossipReqs o 1 common).filter Output.isHbr = [] := by
        rw [List.filter_eq_nil_iff]
        intro x hx
        obtain ⟨m, -, rfl⟩ := List.mem_map.mp hx
        exact Bool.false_ne_true
      rw [List.filter_append, List.filter_append, filter_gossipRound, hreqs]
      rfl
  | down h => exact down_rewatched h
  | tick managers =>
      refine rewatched_quiet _ _ ?_
      rw [List.filter_append, List.filter_eq_nil_iff.mpr fun x hx => ?_]
      · rfl
      · obtain ⟨m, -, rfl⟩ := List.mem_map.mp hx
        exact Bool.false_ne_true
  | ignored hmsg => exact rewatched_quiet _ _ rfl

end Handlers

/-! ## The receivers among the steps of the handlers -/

inductive HeartbeatReceiverMsg where
  /-- `Heartbeat(Duration, u32)`, in nanoseconds -/
  | heartbeat (dur : Nat) (cnt : UInt32)
  deriving DecidableEq

/-- `HeartbeatReceiver::from_clr` -/
def fromClr (clr : String) (id : UInt64) : String := clr ++ "-" ++ toString id.toNat

/-- The `ActorId` under which the receiver of a charge registers, for the variant
of `HeartbeatReceiverMsg` and the name of the clustering actor. -/
def receiverId {U : Type} (variant : U) (clr : String) (charge : Member) : ActorId U :=
  ⟨variant, fromClr clr charge.id⟩

/-- The clustering actor, the outputs of its handler that are still to come, and
its receivers with the registry. -/
structure Watch (U : Type) [Ord U] where
  cluster : Cluster
  todo : List Output
  tasks : NodeTasks U HeartbeatReceiverMsg

namespace Watch

variable {U : Type} [Ord U] [TransOrd U]

inductive Move where
  /-- the clustering actor handles a message -/
  | cluster (msg : ClusterMsg) (o : Oracle)
  /-- the next output of the handler -/
  | act
  /-- a receiver takes a step -/
  | run (task : Nat)
  /-- a heartbeat for a receiver arrives -/
  | heartbeat (msgBuilder : MessageBuilder)
  /-- the registry handles a message -/
  | handle

/-- A message of a peer, not a signal. -/
def isHeartbeat : ActorMsg HeartbeatReceiverMsg → Bool
  | .serial (some (.msg _)) => true
  | _ => false

section Steps

variable (H : RingHash) (serde : Serde U HeartbeatReceiverMsg) (variant : U) (clr : String)

/-- A receiver is spawned or signalled, `signal` ignoring a closed mailbox. -/
def perform (w : NodeTasks U HeartbeatReceiverMsg) : Output → NodeTasks U HeartbeatReceiverMsg
  | .spawn _ charge _ =>
      { w with tasks := w.tasks ++ [⟨receiverId variant clr charge, true, .spawned, []⟩] }
  | .term hbr => (w.send hbr (.msg .term)).getD w
  | _ => w

/-- After `Cluster::pre_start` -/
def start (o : Oracle) (c : Cluster) : Watch U :=
  ⟨(c.preStart H o).1, (c.preStart H o).2, .start⟩

def next (s : Watch U) : Move → Option (Watch U)
  | .cluster msg o =>
      if s.todo = [] then
        match s.cluster.recv H o msg with
        | .ok (cluster, out) => some { s with cluster, todo := out }
        | .error _ => none
      else none
  | .act =>
      match s.todo with
      | [] => none
      | x :: todo => some { s with todo, tasks := perform variant clr s.tasks x }
  | .run task => (s.tasks.next serde (.run task)).map fun tasks => { s with tasks }
  | .heartbeat mb => (s.tasks.next serde (.forward mb)).map fun tasks => { s with tasks }
  | .handle => (s.tasks.next serde .handle).map fun tasks => { s with tasks }

/-- Messages from the network are read as heartbeats where they go. -/
def Arrives (_ : Watch U) : Move → Prop
  | .heartbeat mb => ∃ dest ∈ NodeTasks.destinationOf serde mb,
      isHeartbeat (NodeTasks.serialOf serde dest mb) = true
  | _ => True

instance (s : Watch U) (mv : Move) : Decidable (Arrives serde s mv) :=
  match mv with
  | .heartbeat _ => inferInstanceAs (Decidable (∃ _ ∈ NodeTasks.destinationOf .., _))
  | .cluster .. | .act | .run _ | .handle => .isTrue trivial

/-- When a receiver is spawned, every earlier receiver of its name has sent its
`Deregister`. -/
def RenewsOutput (tasks : List (Core.Task U HeartbeatReceiverMsg)) : Output → Prop
  | .spawn _ charge _ => ∀ t ∈ tasks, t.name = receiverId variant clr charge → t.Gone
  | _ => True

instance [DecidableEq U] (tasks : List (Core.Task U HeartbeatReceiverMsg)) (x : Output) :
    Decidable (RenewsOutput variant clr tasks x) :=
  match x with
  | .spawn .. => inferInstanceAs (Decidable (∀ t ∈ tasks, _ → _))
  | .udp .. | .heartbeat .. | .term _ | .notify .. | .schedulePingTimeout _
  | .scheduleGossipTimeout _ | .scheduleHeartbeatTick _ | .abortGossipTimeout => .isTrue trivial

/-- The condition on a step. -/
def Renews (s : Watch U) : Move → Prop
  | .act => ∀ x ∈ s.todo.head?, RenewsOutput variant clr s.tasks.tasks x
  | _ => True

instance [DecidableEq U] (s : Watch U) (mv : Move) : Decidable (Renews variant clr s mv) :=
  match mv with
  | .act => inferInstanceAs (Decidable (∀ x ∈ s.todo.head?, _))
  | .cluster .. | .run _ | .heartbeat _ | .handle => .isTrue trivial

/-- The actor from its start, its receivers and the registry, in any order of
steps. -/
def system (o : Oracle) (c : Cluster) : System (Watch U) Move :=
  (System.ofNext (start H o c) (next H serde variant clr)).restrict (Arrives serde)

end Steps

/-! ## What is kept -/

/-- No receiver is refused by the registry, and the receiver of a charge is about
to start, waits for the registry, or runs and is in the register. -/
structure Watched (variant : U) (clr : String) (s : Watch U) : Prop where
  registers : ∀ t ∈ s.tasks.tasks, t.pc ≠ .refused ∧ t.pc ≠ .panicked
  charges : ∀ (m : Member) (hbr : Nat), s.cluster.state.charges[m]? = some hbr →
    (∃ req, .spawn hbr m req ∈ s.todo) ∨
      ∃ t, s.tasks.tasks[hbr]? = some t ∧ t.name = receiverId variant clr m ∧
        (t.pc = .spawned ∨ t.pc = .registering ∨
          (t.pc = .confirmed ∨ t.pc = .loop) ∧
            ∃ reg, s.tasks.registry = some reg ∧ reg.register[t.name]? = some hbr)

/-- A receiver that nobody has told to stop. -/
structure Running (t : Core.Task U HeartbeatReceiverMsg) : Prop where
  pc : t.pc = .spawned ∨ t.pc = .registering ∨ t.pc = .confirmed ∨ t.pc = .loop
  mailbox : ∀ msg ∈ t.mailbox, isHeartbeat msg = true

structure Kept (serde : Serde U HeartbeatReceiverMsg) (variant : U) (clr : String)
    (s : Watch U) : Prop where
  renewed : NodeTasks.Renewed serde s.tasks
  arrives : ∀ mb, RegistryMsg.forward mb ∈ s.tasks.queue →
    ∃ dest ∈ NodeTasks.destinationOf serde mb,
      isHeartbeat (NodeTasks.serialOf serde dest mb) = true
  numbers : ∃ k, s.cluster.common.spawned = s.tasks.tasks.length + k ∧
    s.todo.filterMap Output.spawned? = List.range' s.tasks.tasks.length k
  /-- the receiver of a charge is not told to stop -/
  held : ∀ (m : Member) (hbr : Nat), s.cluster.state.charges[m]? = some hbr →
    .term hbr ∉ s.todo ∧ ((∃ req, .spawn hbr m req ∈ s.todo) ∨
      ∃ t, s.tasks.tasks[hbr]? = some t ∧ t.name = receiverId variant clr m ∧ Running t)
  distinct : ∀ (m m' : Member) (hbr : Nat), s.cluster.state.charges[m]? = some hbr →
    s.cluster.state.charges[m']? = some hbr → m = m'

variable {H : RingHash} {serde : Serde U HeartbeatReceiverMsg} {variant : U} {clr : String}
  {s s' : Watch U}

theorem readable_of_isHeartbeat {msg : ActorMsg HeartbeatReceiverMsg}
    (h : isHeartbeat msg = true) : Core.Task.Readable msg := by
  unfold isHeartbeat at h
  split at h
  · trivial
  · cases h

theorem Kept.watched (h : Kept serde variant clr s) : Watched variant clr s := by
  constructor
  · intro t ht
    obtain ⟨i, hi⟩ := List.getElem?_of_mem ht
    exact (h.renewed.sound i t hi).confirmed
  · intro m hbr hget
    refine (h.held m hbr hget).2.imp_right fun ⟨t, ht, hname, hrunning⟩ => ⟨t, ht, hname, ?_⟩
    rcases hrunning.pc with hpc | hpc | hpc | hpc
    · exact .inl hpc
    · exact .inr (.inl hpc)
    all_goals
      have hp : t.Present := ⟨(h.renewed.sound hbr t ht).register, by simp [hpc]⟩
      exact .inr (.inr ⟨by simp [hpc], h.renewed.inv.reached hbr t ht hp⟩)

/-- Two spawns have different numbers. -/
theorem spawn_unique {out : List Output} {n k : Nat}
    (hrange : out.filterMap Output.spawned? = List.range' n k) {hbr : Nat} {m m' : Member}
    {req req' : IntraClusterMsg} (hm : .spawn hbr m req ∈ out) (hm' : .spawn hbr m' req' ∈ out) :
    m = m' := by
  have hnodup : (out.filterMap Output.spawned?).Pairwise (· ≠ ·) := by
    rw [hrange]
    exact List.nodup_range'
  rw [List.pairwise_filterMap] at hnodup
  by_contra hne
  have hsymm : Std.Symm fun x y : Output => ∀ a, x.spawned? = some a →
      ∀ b, y.spawned? = some b → a ≠ b := ⟨fun _ _ h a ha b hb => (h b hb a ha).symm⟩
  refine hnodup.forall hm hm' ?_ hbr rfl hbr rfl rfl
  exact fun heq => hne (by cases heq; rfl)

/-- The receivers after a handler, all of whose outputs are still to come. -/
theorem Kept.of_rewatched (hrenewed : NodeTasks.Renewed serde s.tasks)
    (harrives : ∀ mb, RegistryMsg.forward mb ∈ s.tasks.queue →
      ∃ dest ∈ NodeTasks.destinationOf serde mb,
        isHeartbeat (NodeTasks.serialOf serde dest mb) = true)
    (charges : Charges) (hheld : ∀ (m : Member) (hbr : Nat), charges[m]? = some hbr →
      ∃ t, s.tasks.tasks[hbr]? = some t ∧ t.name = receiverId variant clr m ∧ Running t)
    (hdistinct : ∀ (m m' : Member) (hbr : Nat), charges[m]? = some hbr →
      charges[m']? = some hbr → m = m')
    (h : Rewatched charges s.tasks.tasks.length s.cluster.state.charges
      s.cluster.common.spawned s.todo) : Kept serde variant clr s := by
  obtain ⟨k, hspawned, hrange⟩ := h.numbers
  have hold : ∀ (m : Member) (hbr : Nat), charges[m]? = some hbr →
      hbr < s.tasks.tasks.length := by
    intro m hbr hget
    obtain ⟨t, ht, -⟩ := hheld m hbr hget
    exact (List.getElem?_eq_some_iff.mp ht).1
  have hnew : ∀ (m : Member) (hbr : Nat) (req : IntraClusterMsg), .spawn hbr m req ∈ s.todo →
      s.tasks.tasks.length ≤ hbr := by
    intro m hbr req hmem
    have : hbr ∈ s.todo.filterMap Output.spawned? := List.mem_filterMap.mpr ⟨_, hmem, rfl⟩
    rw [hrange] at this
    exact (List.mem_range'_1.mp this).1
  refine ⟨hrenewed, harrives, ⟨k, hspawned, hrange⟩, fun m hbr hget => ⟨fun hterm => ?_, ?_⟩,
    fun m m' hbr hget hget' => ?_⟩
  · obtain ⟨m', hget', habsent⟩ := h.termed hbr hterm
    rcases h.held m hbr hget with hkept | ⟨req, hspawn⟩
    · have hm := hdistinct m m' hbr hkept hget'
      subst hm
      refine habsent ?_
      rw [ExtTreeMap.mem_iff_isSome_getElem?, hget]
      rfl
    · exact absurd (hold m' hbr hget') (Nat.not_lt.mpr (hnew m hbr req hspawn))
  · exact (h.held m hbr hget).symm.imp_right (hheld m hbr)
  · rcases h.held m hbr hget with hm | ⟨req, hm⟩ <;>
      rcases h.held m' hbr hget' with hm' | ⟨req', hm'⟩
    · exact hdistinct m m' hbr hm hm'
    · exact absurd (hold m hbr hm) (Nat.not_lt.mpr (hnew m' hbr req' hm'))
    · exact absurd (hold m' hbr hm') (Nat.not_lt.mpr (hnew m hbr req hm))
    · exact spawn_unique hrange hm hm'

/-! ## The steps -/

omit [TransOrd U] in
/-- A step of a receiver that nobody has told to stop. -/
theorem run_running {w w' : NodeTasks U HeartbeatReceiverMsg} (halive : w.registry.isSome = true)
    {task : Nat} {t : Core.Task U HeartbeatReceiverMsg} (ht : w.tasks[task]? = some t)
    (hregister : t.register = true) (hrunning : Running t) (hrun : w.run task t = some w') :
    ∃ t', w'.tasks[task]? = some t' ∧ t'.name = t.name ∧ Running t' := by
  have hset : ∀ u : Core.Task U HeartbeatReceiverMsg, (w.tasks.set task u)[task]? = some u :=
    fun u => getElem?_set_of_some u ht
  rcases hrunning.pc with hpc | hpc | hpc | hpc
  · simp only [NodeTasks.run, hpc, if_pos hregister, Option.some.injEq] at hrun
    rw [NodeTasks.tell_of_alive] at hrun
    · subst hrun
      exact ⟨_, hset _, rfl, .inr (.inl rfl), hrunning.mailbox⟩
    · exact halive
  · simp [NodeTasks.run, hpc] at hrun
  · simp only [NodeTasks.run, hpc, Option.some.injEq] at hrun
    subst hrun
    exact ⟨_, hset _, rfl, .inr (.inr (.inr rfl)), hrunning.mailbox⟩
  · simp only [NodeTasks.run, hpc] at hrun
    have htake : ∀ msg mailbox, t.mailbox = msg :: mailbox → isHeartbeat msg = true ∧
        ∀ x ∈ mailbox, isHeartbeat x = true := by
      intro msg mailbox hmailbox
      have hall := hrunning.mailbox
      rw [hmailbox] at hall
      exact List.forall_mem_cons.mp hall
    split at hrun
    · cases hrun
    · next hmailbox =>
        cases hrun
        exact ⟨_, hset _, rfl, .inr (.inr (.inr rfl)), (htake _ _ hmailbox).2⟩
    · next hmailbox =>
        cases hrun
        exact ⟨_, hset _, rfl, .inr (.inr (.inr rfl)), (htake _ _ hmailbox).2⟩
    all_goals next hmailbox => exact absurd (htake _ _ hmailbox).1 (by simp [isHeartbeat])

section Runs

variable [LawfulEqOrd U] [DecidableEq U]

omit [LawfulEqOrd U] [DecidableEq U] in
/-- The tasks move, and the receivers that run go on. -/
theorem Kept.of_tasks (h : Kept serde variant clr s) {tasks : NodeTasks U HeartbeatReceiverMsg}
    (hrenewed : NodeTasks.Renewed serde tasks)
    (harrives : ∀ mb, RegistryMsg.forward mb ∈ tasks.queue →
      ∃ dest ∈ NodeTasks.destinationOf serde mb,
        isHeartbeat (NodeTasks.serialOf serde dest mb) = true)
    (hlength : tasks.tasks.length = s.tasks.tasks.length)
    (hrunning : ∀ (i : Nat) (t : Core.Task U HeartbeatReceiverMsg),
      s.tasks.tasks[i]? = some t → Running t →
        ∃ t', tasks.tasks[i]? = some t' ∧ t'.name = t.name ∧ Running t') :
    Kept serde variant clr { s with tasks } := by
  refine ⟨hrenewed, harrives, ?_, fun m hbr hget => ?_, h.distinct⟩
  · rw [hlength]
    exact h.numbers
  · refine (h.held m hbr hget).imp_right fun hheld => hheld.imp_right fun ⟨t, ht, hname, hr⟩ => ?_
    obtain ⟨t', ht', hname', hr'⟩ := hrunning hbr t ht hr
    exact ⟨t', ht', hname'.trans hname, hr'⟩

theorem Kept.run (h : Kept serde variant clr s) {task : Nat}
    {tasks : NodeTasks U HeartbeatReceiverMsg}
    (hnext : s.tasks.next serde (.run task) = some tasks) :
    Kept serde variant clr { s with tasks } := by
  have hrenewed := h.renewed.next (.run task) trivial hnext
  have halive := Option.isSome_iff_exists.mpr h.renewed.alive
  obtain ⟨t, ht, hrun⟩ := Option.bind_eq_some_iff.mp hnext
  obtain ⟨⟨u, htasks, -⟩, hforward⟩ := NodeTasks.run_tasks halive hrun
  refine h.of_tasks hrenewed (fun mb hmem => h.arrives mb (hforward mb hmem))
    (by rw [htasks, List.length_set]) fun i v hv hr => ?_
  by_cases hi : i = task
  · subst hi
    cases ht.symm.trans hv
    exact run_running halive ht (h.renewed.sound i t ht).register hr hrun
  · refine ⟨v, ?_, rfl, hr⟩
    rw [htasks, List.getElem?_set_ne (Ne.symm hi)]
    exact hv

theorem Kept.handle (h : Kept serde variant clr s) {tasks : NodeTasks U HeartbeatReceiverMsg}
    (hnext : s.tasks.next serde .handle = some tasks) :
    Kept serde variant clr { s with tasks } := by
  obtain ⟨hlength, hqueue⟩ := NodeTasks.handle_frame hnext
  refine h.of_tasks (h.renewed.next .handle trivial hnext)
    (fun mb hmem => h.arrives mb (hqueue _ hmem)) hlength fun i t ht hr => ?_
  obtain ⟨t', ht', hname, hpc, hmailbox⟩ := h.renewed.handle_tasks hnext ht
  refine ⟨t', ht', hname, ?_, fun msg hmsg => ?_⟩
  · rcases hpc with hpc | ⟨-, hpc⟩
    · rw [hpc]
      exact hr.pc
    · exact .inr (.inr (.inl hpc))
  · rcases hmailbox msg hmsg with hold | ⟨mb, dest, hmem, hdest, rfl⟩
    · exact hr.mailbox msg hold
    · obtain ⟨dest', hdest', hheartbeat⟩ := h.arrives mb hmem
      cases hdest.symm.trans hdest'
      exact hheartbeat

theorem Kept.heartbeat (h : Kept serde variant clr s) {mb : MessageBuilder}
    {tasks : NodeTasks U HeartbeatReceiverMsg} (harrives : Arrives serde s (.heartbeat mb))
    (hnext : s.tasks.next serde (.forward mb) = some tasks) :
    Kept serde variant clr { s with tasks } := by
  obtain ⟨dest, hdest, hheartbeat⟩ := harrives
  have hrenewed := h.renewed.next (.forward mb)
    ⟨dest, hdest, readable_of_isHeartbeat hheartbeat⟩ hnext
  cases hnext
  rw [NodeTasks.tell_of_alive _ (Option.isSome_iff_exists.mpr h.renewed.alive)] at hrenewed ⊢
  refine h.of_tasks hrenewed (fun mb' hmem => ?_) rfl fun i t ht hr => ⟨t, ht, rfl, hr⟩
  rcases List.mem_append.mp hmem with hmem | hmem
  · exact h.arrives mb' hmem
  · cases List.mem_singleton.mp hmem
    exact ⟨dest, hdest, hheartbeat⟩

/-- A receiver is spawned. -/
theorem Kept.spawn (h : Kept serde variant clr s) {hbr : Nat} {charge : Member}
    {req : IntraClusterMsg} {todo : List Output} (htodo : s.todo = .spawn hbr charge req :: todo)
    (hgone : ∀ t ∈ s.tasks.tasks, t.name = receiverId variant clr charge → t.Gone) :
    Kept serde variant clr
      { s with todo, tasks := perform variant clr s.tasks (.spawn hbr charge req) } := by
  obtain ⟨k, hspawned, hrange⟩ := h.numbers
  rw [htodo, List.filterMap_cons] at hrange
  -- the spawn has the number of the new task
  obtain ⟨k, rfl, rfl, hrest⟩ : ∃ k', k = k' + 1 ∧ hbr = s.tasks.tasks.length ∧
      todo.filterMap Output.spawned? = List.range' (s.tasks.tasks.length + 1) k' := by
    cases k with
    | zero => cases hrange
    | succ k =>
        rw [List.range'_succ] at hrange
        injection hrange with hhead htail
        exact ⟨k, rfl, hhead, htail⟩
  refine ⟨h.renewed.spawn hgone, h.arrives, ⟨k, ?_, ?_⟩, fun m hbr hget => ?_, h.distinct⟩
  · simp only [perform, List.length_append, List.length_singleton]
    omega
  · simp only [perform, List.length_append, List.length_singleton]
    exact hrest
  · obtain ⟨hterm, hheld⟩ := h.held m hbr hget
    rw [htodo] at hterm hheld
    refine ⟨fun hmem => hterm (List.mem_cons_of_mem _ hmem), ?_⟩
    rcases hheld with ⟨req', hmem⟩ | ⟨t, ht, hname, hr⟩
    · rcases List.mem_cons.mp hmem with heq | hmem
      · cases heq
        refine .inr ⟨⟨receiverId variant clr charge, true, .spawned, []⟩, ?_, rfl, .inl rfl,
          by simp⟩
        simp [perform]
      · exact .inl ⟨req', hmem⟩
    · exact .inr ⟨t, getElem?_concat_of_some _ ht, hname, hr⟩

omit [LawfulEqOrd U] [DecidableEq U] in
/-- A receiver that is not kept gets `Term`. -/
theorem Kept.term (h : Kept serde variant clr s) {hbr : Nat} {todo : List Output}
    (htodo : s.todo = .term hbr :: todo) :
    Kept serde variant clr { s with todo, tasks := perform variant clr s.tasks (.term hbr) } := by
  have htail : Kept serde variant clr { s with todo } := by
    refine ⟨h.renewed, h.arrives, ?_, fun m hbr' hget => ?_, h.distinct⟩
    · obtain ⟨k, hspawned, hrange⟩ := h.numbers
      rw [htodo] at hrange
      exact ⟨k, hspawned, hrange⟩
    · obtain ⟨hterm, hheld⟩ := h.held m hbr' hget
      rw [htodo] at hterm hheld
      refine ⟨fun hmem => hterm (List.mem_cons_of_mem _ hmem), hheld.imp_left fun ⟨req, hmem⟩ => ?_⟩
      exact ⟨req, (List.mem_cons.mp hmem).resolve_left (by simp)⟩
  simp only [perform]
  rcases hsend : s.tasks.send hbr (.msg .term) with _ | tasks
  · exact htail
  · have hrenewed := h.renewed.send (.msg .term) trivial hsend
    unfold NodeTasks.send at hsend
    split at hsend
    · cases hsend
    · split at hsend
      · cases hsend
      · cases hsend
        refine ⟨hrenewed, h.arrives, ?_, fun m hbr' hget => ?_, h.distinct⟩
        · simp only [Option.getD_some, List.length_modify]
          exact htail.numbers
        · have hne : hbr ≠ hbr' := by
            rintro rfl
            exact (h.held _ _ hget).1 (htodo ▸ List.mem_cons_self)
          refine (htail.held m hbr' hget).imp_right fun hheld =>
            hheld.imp_right fun ⟨t, ht, hname, hr⟩ => ⟨t, ?_, hname, hr⟩
          simp only [Option.getD_some, List.getElem?_modify_ne _ _ hne]
          exact ht

omit [LawfulEqOrd U] [DecidableEq U] in
/-- An output that is not about receivers. -/
theorem Kept.skip (h : Kept serde variant clr s) {x : Output} {todo : List Output}
    (htodo : s.todo = x :: todo) (hx : x.isHbr = false) :
    Kept serde variant clr { s with todo, tasks := perform variant clr s.tasks x } := by
  have hnone : x.spawned? = none ∧ perform variant clr s.tasks x = s.tasks ∧
      (∀ hbr m req, x ≠ .spawn hbr m req) := by
    cases x <;> first | exact ⟨rfl, rfl, by simp⟩ | cases hx
  obtain ⟨hspawned?, hperform, hne⟩ := hnone
  rw [hperform]
  refine ⟨h.renewed, h.arrives, ?_, fun m hbr hget => ?_, h.distinct⟩
  · obtain ⟨k, hspawned, hrange⟩ := h.numbers
    rw [htodo, List.filterMap_cons_none hspawned?] at hrange
    exact ⟨k, hspawned, hrange⟩
  · obtain ⟨hterm, hheld⟩ := h.held m hbr hget
    rw [htodo] at hterm hheld
    refine ⟨fun hmem => hterm (List.mem_cons_of_mem _ hmem), hheld.imp_left fun ⟨req, hmem⟩ => ?_⟩
    exact ⟨req, (List.mem_cons.mp hmem).resolve_left (hne hbr m req).symm⟩

/-- Any step that meets the condition. -/
theorem Kept.next (h : Kept serde variant clr s) {mv : Move} (harrives : Arrives serde s mv)
    (hmv : Renews variant clr s mv) (hnext : next H serde variant clr s mv = some s') :
    Kept serde variant clr s' := by
  cases mv with
  | cluster msg o =>
      simp only [Watch.next] at hnext
      split at hnext
      · next htodo =>
          split at hnext
          · next cluster out hok =>
              cases hnext
              have hrewatched := recv_rewatched hok
              obtain ⟨k, hspawned, hrange⟩ := h.numbers
              obtain rfl : k = 0 := by
                rw [htodo] at hrange
                cases k with
                | zero => rfl
                | succ k => cases hrange
              rw [hspawned] at hrewatched
              refine .of_rewatched h.renewed h.arrives _ (fun m hbr hget => ?_) h.distinct
                hrewatched
              refine (h.held m hbr hget).2.resolve_left fun ⟨req, hmem⟩ => ?_
              rw [htodo] at hmem
              cases hmem
          · cases hnext
      · cases hnext
  | act =>
      simp only [Watch.next] at hnext
      split at hnext
      · cases hnext
      · next x todo htodo =>
          cases hnext
          cases x with
          | spawn hbr charge req =>
              exact h.spawn htodo (hmv (.spawn hbr charge req) (by rw [htodo]; rfl))
          | term hbr => exact h.term htodo
          | _ => exact h.skip htodo rfl
  | run task =>
      obtain ⟨tasks, htasks, rfl⟩ := Option.map_eq_some_iff.mp hnext
      exact h.run htasks
  | heartbeat mb =>
      cases hnext
      exact h.heartbeat harrives rfl
  | handle =>
      obtain ⟨tasks, htasks, rfl⟩ := Option.map_eq_some_iff.mp hnext
      exact h.handle htasks

omit [LawfulEqOrd U] [DecidableEq U] in
theorem kept_start (o : Oracle) {c : Cluster} (hstate : c.state = .left)
    (hspawned : c.common.spawned = 0) : Kept serde variant clr (start H o c) := by
  refine .of_rewatched NodeTasks.renewed_start (by simp [start, NodeTasks.start]) ∅
    (by simp) (by simp) ?_
  have h := preStart_rewatched (H := H) (o := o) hstate
  rw [hspawned] at h
  exact h

/-- Every charge is watched in every run in which a receiver is spawned only
after all earlier receivers of its name have sent their `Deregister`: no receiver
is refused, and the receiver of a charge starts or is live and registered. -/
theorem watched_of_renews (H : RingHash) (serde : Serde U HeartbeatReceiverMsg) (variant : U)
    (clr : String) (socket : Socket) (id : UInt64) (subrs : List Nat) (clrConfig : ClusterConfig)
    (o : Oracle) (s : Watch U)
    (h : ((system H serde variant clr o (.new socket id subrs clrConfig)).restrict
      (Renews variant clr)).Reachable s) : Watched variant clr s := by
  have hkept : Kept serde variant clr s := by
    refine h.invariant (fun s hs => ?_) fun s mv s' _ hkept hst =>
      hkept.next hst.1.2 hst.2 hst.1.1
    rw [show s = start H o _ from hs]
    exact kept_start o rfl rfl
  exact hkept.watched

end Runs

/-! ### A charge that comes back -/

section Comeback

/-- No message from the network is read. -/
def silent : Serde Nat HeartbeatReceiverMsg where
  destination _ := none
  deserializeAs _ _ _ _ := none

/-- A node that creates a cluster with one manager for each member. -/
def creator : Cluster :=
  .new (Socket.localhost 10) 5 [] { ClusterConfig.default with replicationFactor := 1 }

/-- Member 2 becomes a charge and its receiver runs; then member 3 takes its
place. -/
def replaceCharge : List Move :=
  [.act, .cluster (.intraMsg (.ping (Node.seat 12 2))) Node.firstChoices, .act, .act, .run 0,
    .handle, .run 0, .cluster (.intraMsg (.ping (Node.seat 13 3))) Node.firstChoices, .act, .act,
    .act, .act]

/-- Member 3 is downed, so that member 2 is a charge again. -/
def comeBack : List Move :=
  [.cluster (.downed (Node.seat 13 3)) Node.firstChoices, .act, .act, .act, .act]

theorem watched_of_renews_comeBack :
    ∃ s : Watch Nat, ((system RingHash.byId silent 1 "clr" Node.firstChoices creator).restrict
        (Renews 1 "clr")).Reachable s ∧
      s.cluster.state.charges[Node.seat 12 2]? = some 2 ∧ Watched 1 "clr" s := by
  -- the first receiver of member 2 is told to stop, and does so in time
  obtain ⟨s, hs, hcharge⟩ : ∃ s ∈ System.execWhere
      (fun s mv => Arrives silent s mv ∧ Renews 1 "clr" s mv) (next RingHash.byId silent 1 "clr")
      (start RingHash.byId Node.firstChoices creator)
      (replaceCharge ++ [.run 0, .run 0] ++ comeBack ++ [.run 2, .handle, .handle, .run 2]),
      s.cluster.state.charges[Node.seat 12 2]? = some 2 := by decide
  have h := (System.reachable_of_execWhere _ (.of_init rfl) hs).restrict_restrict
  exact ⟨s, h, hcharge, watched_of_renews RingHash.byId silent 1 "clr" (Socket.localhost 10) 5 []
    _ Node.firstChoices s h⟩

/-- The first receiver of member 2 has not taken its `Term` when the second one
registers.  The second one panics, and it is the receiver of the charge. -/
theorem charge_unwatched :
    ∃ s : Watch Nat, (system RingHash.byId silent 1 "clr" Node.firstChoices creator).Reachable s ∧
      ¬ Watched 1 "clr" s ∧ s.cluster.state.charges[Node.seat 12 2]? = some 2 ∧
      ∃ t, s.tasks.tasks[2]? = some t ∧ t.pc = .panicked := by
  obtain ⟨s, hs, hcharge, t, ht, hpc⟩ : ∃ s ∈ System.execWhere (Arrives silent)
      (next RingHash.byId silent 1 "clr") (start RingHash.byId Node.firstChoices creator)
      (replaceCharge ++ comeBack ++ [.run 2, .handle, .run 2]),
      s.cluster.state.charges[Node.seat 12 2]? = some 2 ∧
        ∃ t ∈ s.tasks.tasks[2]?, t.pc = .panicked := by decide
  refine ⟨s, System.reachable_of_execWhere _ (.of_init rfl) hs, fun hwatched => ?_, hcharge, t, ht,
    hpc⟩
  exact (hwatched.registers t (List.mem_of_getElem? ht)).2 hpc

end Comeback

end Watch

end AurumActors.Cluster
