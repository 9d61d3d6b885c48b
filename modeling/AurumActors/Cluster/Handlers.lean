/-
  Cluster/Handlers.lean --- what the handlers of the clustering actor can do,
  read once.

  Every change of the membership ends the same way: the charges and managers are
  brought up to date and the subscribers are notified.
-/
import AurumActors.Cluster.Cluster
import AurumActors.Cluster.RingNeighbours

set_option autoImplicit false
set_option linter.dupNamespace false

namespace AurumActors.Cluster

open Std
open AurumActors.Core AurumActors.Foundation

/-! ## Drawn ids -/

/-- The id drawn for a gossip that has the node as down is new to that gossip and
to what is known. -/
def FreshId (o : Oracle) (common : NodeState) (known : Option Gossip) (gossip : Gossip) : Prop :=
  gossip.states[common.member]? = some .down →
    (common.newId (o.id 0)).member ∉ gossip.states ∧
      ∀ g ∈ known, (common.newId (o.id 0)).member ∉ g.states

instance (o : Oracle) (common : NodeState) (known : Option Gossip) (gossip : Gossip) :
    Decidable (FreshId o common known gossip) :=
  inferInstanceAs (Decidable (_ = _ → _ ∉ _ ∧ ∀ g ∈ known, _ ∉ g.states))

/-- The id drawn for such a gossip gives a member of the universe. -/
def DrawsIn (U : Set Member) (o : Oracle) (common : NodeState) (gossip : Gossip) : Prop :=
  gossip.states[common.member]? = some .down → (common.newId (o.id 0)).member ∈ U

instance (U : Set Member) [DecidablePred (· ∈ U)] (o : Oracle) (common : NodeState)
    (gossip : Gossip) : Decidable (DrawsIn U o common gossip) :=
  inferInstanceAs (Decidable (_ = _ → _ ∈ U))

/-- The gossip of a node inside the cluster. -/
def State.gossip? : State → Option Gossip
  | .inCluster ic => some ic.gossip
  | _ => none

/-! ## Kinds of outputs -/

namespace Output

/-- Outputs about heartbeat receivers. -/
def isHbr : Output → Bool
  | .spawn .. | .term .. => true
  | _ => false

/-- Outputs to subscribers. -/
def isNotify : Output → Bool
  | .notify .. => true
  | _ => false

/-- The number of the receiver that an output spawns. -/
def spawned? : Output → Option Nat
  | .spawn hbr _ _ => some hbr
  | _ => none

/-- The message that an output sends to the cluster at a socket: a receiver sends
the request it is spawned with. -/
def packet? : Output → Option (Socket × IntraClusterMsg)
  | .udp dest msg => some (dest, msg)
  | .spawn _ charge req => some (charge.socket, req)
  | _ => none

/-- The messages to other nodes are requests of a node with that member, or have
that gossip. -/
def Tells (own : Member) (gossip : Option Gossip) (out : List Output) : Prop :=
  ∀ x ∈ out, ∀ (dest : Socket) (msg : IntraClusterMsg), x.packet? = some (dest, msg) →
    msg = .ping own ∨ msg = .reqGossip own ∨ (∃ id, msg = .reqHeartbeat own id) ∨
      ∃ g, gossip = some g ∧ msg = .state g

theorem Tells.append {own : Member} {gossip : Option Gossip} {out out' : List Output}
    (h : Tells own gossip out) (h' : Tells own gossip out') : Tells own gossip (out ++ out') := by
  intro x hx
  rcases List.mem_append.mp hx with hx | hx
  · exact h x hx
  · exact h' x hx

theorem Tells.cons {own : Member} {gossip : Option Gossip} {x : Output} {out : List Output}
    (hx : x.packet? = none) (h : Tells own gossip out) : Tells own gossip (x :: out) := by
  intro y hy dest msg hpacket
  rcases List.mem_cons.mp hy with rfl | hy
  · rw [hx] at hpacket
    cases hpacket
  · exact h y hy dest msg hpacket

/-- Outputs that send no message to other nodes. -/
theorem Tells.of_silent {own : Member} {gossip : Option Gossip} {out : List Output}
    (h : ∀ x ∈ out, x.packet? = none) : Tells own gossip out := by
  intro x hx dest msg hpacket
  rw [h x hx] at hpacket
  cases hpacket

/-- Outputs that start and stop no receiver and notify nobody. -/
def Plain (out : List Output) : Prop := ∀ x ∈ out, x.isHbr = false ∧ x.isNotify = false

theorem Plain.append {out out' : List Output} (h : Plain out) (h' : Plain out') :
    Plain (out ++ out') := by
  intro x hx
  rcases List.mem_append.mp hx with hx | hx
  · exact h x hx
  · exact h' x hx

theorem Plain.filter_isHbr {out : List Output} (h : Plain out) : out.filter isHbr = [] := by
  rw [List.filter_eq_nil_iff]
  intro x hx
  simp [(h x hx).1]

theorem Plain.filter_isNotify {out : List Output} (h : Plain out) : out.filter isNotify = [] := by
  rw [List.filter_eq_nil_iff]
  intro x hx
  simp [(h x hx).2]

/-- A list of outputs about receivers. -/
theorem filter_of_isHbr {out : List Output} (h : ∀ x ∈ out, x.isHbr = true) :
    out.filter isHbr = out ∧ out.filter isNotify = [] := by
  refine ⟨List.filter_eq_self.mpr h, ?_⟩
  rw [List.filter_eq_nil_iff]
  intro x hx
  have hhbr := h x hx
  cases x with
  | notify subr update => cases hhbr
  | _ => exact Bool.false_ne_true

theorem filterMap_spawned? (out : List Output) :
    out.filterMap spawned? = (out.filter isHbr).filterMap spawned? := by
  induction out with
  | nil => rfl
  | cons x out ih =>
      rw [List.filterMap_cons, List.filter_cons, ih]
      cases x <;> rfl

end Output

namespace InCluster

variable {H : RingHash} {o : Oracle}

theorem plain_gossipRound (n : Nat) (ic : InCluster) (common : NodeState) (ms : List Member) :
    Output.Plain (ic.gossipRound o n common ms) := by
  intro x hx
  obtain ⟨m, -, rfl⟩ := List.mem_map.mp hx
  exact ⟨rfl, rfl⟩

theorem tells_notify (ic : InCluster) (common : NodeState) (events : List ClusterEvent)
    (own : Member) (gossip : Option Gossip) :
    Output.Tells own gossip (ic.notify o common events).2 := by
  refine .of_silent fun x hx => ?_
  unfold notify at hx
  split at hx
  · cases hx
  · obtain ⟨s, -, rfl⟩ := List.mem_map.mp hx
    rfl

theorem tells_gossipRound (n : Nat) (ic : InCluster) (common : NodeState) (ms : List Member)
    (own : Member) : Output.Tells own (some ic.gossip) (ic.gossipRound o n common ms) := by
  intro x hx dest msg hpacket
  obtain ⟨m, -, rfl⟩ := List.mem_map.mp hx
  cases hpacket
  exact .inr (.inr (.inr ⟨ic.gossip, rfl, rfl⟩))

/-! ## Notifications -/

theorem notify_member (ic : InCluster) (common : NodeState) (events : List ClusterEvent) :
    (ic.notify o common events).1.member = common.member := by
  unfold notify
  split <;> rfl

theorem notify_spawned (ic : InCluster) (common : NodeState) (events : List ClusterEvent) :
    (ic.notify o common events).1.spawned = common.spawned := by
  unfold notify
  split <;> rfl

theorem notify_subscribers (ic : InCluster) (common : NodeState) (events : List ClusterEvent) :
    (ic.notify o common events).1.subscribers.Sublist common.subscribers := by
  unfold notify
  split
  · exact List.Sublist.refl _
  · exact List.filter_sublist

theorem notify_out (ic : InCluster) (common : NodeState) (events : List ClusterEvent) :
    (ic.notify o common events).2 = if events = [] then []
      else common.subscribers.map fun s => .notify s ⟨events, ic.members, ic.ring⟩ := by
  unfold notify
  cases events <;> rfl

/-- Notifications are all that `notify` sends. -/
theorem notify_filter (ic : InCluster) (common : NodeState) (events : List ClusterEvent) :
    (ic.notify o common events).2.filter Output.isHbr = [] ∧
      (ic.notify o common events).2.filter Output.isNotify = (ic.notify o common events).2 := by
  rw [notify_out]
  split
  · exact ⟨rfl, rfl⟩
  · rw [List.filter_eq_nil_iff, List.filter_eq_self]
    simp [Output.isHbr, Output.isNotify]

/-! ## Charges and managers -/

/-- What the loop over the new charges makes of the old ones. -/
structure Taken (own : Member) (ms : List Member) (charges newCharges : Charges) (spawned : Nat)
    (old new : Charges) (n : Nat) (out : List Output) : Prop where
  old_eq : ∀ m, old[m]? = if m ∈ ms then none else charges[m]?
  new_mem : ∀ m, m ∈ new ↔ m ∈ newCharges ∨ m ∈ ms
  kept : ∀ (m : Member) (hbr : Nat), m ∈ ms → charges[m]? = some hbr → new[m]? = some hbr
  passed : ∀ m, m ∉ ms → new[m]? = newCharges[m]?
  numbers : ∃ k, n = spawned + k ∧ out.filterMap Output.spawned? = List.range' spawned k
  spawns : ∀ x ∈ out, ∃ (hbr : Nat) (m : Member),
    x = .spawn hbr m (.reqHeartbeat own m.id) ∧ new[m]? = some hbr

theorem takeCharges_spec (own : Member) {ms : List Member} (hnodup : ms.Nodup)
    (charges newCharges : Charges) (spawned : Nat) :
    ∃ old new n out, takeCharges own ms charges newCharges spawned = (old, new, n, out) ∧
      Taken own ms charges newCharges spawned old new n out := by
  induction ms generalizing charges newCharges spawned with
  | nil =>
      refine ⟨charges, newCharges, spawned, [], rfl, ?_⟩
      exact ⟨by simp, by simp, by simp, by simp, ⟨0, rfl, rfl⟩, by simp⟩
  | cons m ms ih =>
      obtain ⟨hm, hnodup⟩ := List.nodup_cons.mp hnodup
      have hmem : ∀ (hbr : Nat) (x : Member),
          (x ∈ newCharges.insert m hbr ∨ x ∈ ms) ↔ x ∈ newCharges ∨ x ∈ m :: ms := by
        intro hbr x
        rw [ExtTreeMap.mem_insert, Std.compare_eq_iff_eq, List.mem_cons]
        tauto
      unfold takeCharges
      rcases hget : charges[m]? with _ | hbr
      · obtain ⟨old, new, n, out, heq, h⟩ := ih hnodup charges (newCharges.insert m spawned)
          (spawned + 1)
        have hself : new[m]? = some spawned := by
          rw [h.passed m hm, getElem?_insert_eq, if_pos rfl]
        refine ⟨old, new, n, .spawn spawned m (.reqHeartbeat own m.id) :: out, by simp [heq], ?_⟩
        refine ⟨fun x => ?_, fun x => ?_, fun x hbr hx hold => ?_, fun x hx => ?_, ?_, ?_⟩
        · rw [h.old_eq x]
          rcases eq_or_ne x m with rfl | hne
          · simp [hm, hget]
          · simp [hne]
        · rw [h.new_mem x]
          exact hmem spawned x
        · rcases List.mem_cons.mp hx with rfl | hx
          · rw [hget] at hold
            cases hold
          · exact h.kept x hbr hx hold
        · rw [List.mem_cons, not_or] at hx
          rw [h.passed x hx.2, getElem?_insert_eq, if_neg hx.1]
        · obtain ⟨k, hn, hrange⟩ := h.numbers
          refine ⟨k + 1, by omega, ?_⟩
          rw [List.filterMap_cons, List.range'_succ, hrange]
          rfl
        · intro x hx
          rcases List.mem_cons.mp hx with rfl | hx
          · exact ⟨spawned, m, rfl, hself⟩
          · exact h.spawns x hx
      · obtain ⟨old, new, n, out, heq, h⟩ := ih hnodup (charges.erase m)
          (newCharges.insert m hbr) spawned
        have hself : new[m]? = some hbr := by
          rw [h.passed m hm, getElem?_insert_eq, if_pos rfl]
        refine ⟨old, new, n, out, heq, ?_⟩
        refine ⟨fun x => ?_, fun x => ?_, fun x hbr' hx hold => ?_, fun x hx => ?_, h.numbers,
          h.spawns⟩
        · rw [h.old_eq x, getElem?_erase_eq]
          rcases eq_or_ne x m with rfl | hne
          · simp
          · simp [hne]
        · rw [h.new_mem x]
          exact hmem hbr x
        · rcases List.mem_cons.mp hx with rfl | hx
          · rw [hget] at hold
            cases hold
            exact hself
          · refine h.kept x hbr' hx ?_
            rw [getElem?_erase_eq, if_neg (show x ≠ m from fun heq => hm (heq ▸ hx))]
            exact hold
        · rw [List.mem_cons, not_or] at hx
          rw [h.passed x hx.2, getElem?_insert_eq, if_neg hx.1]

theorem of_mem_takeCharges (own : Member) (ms : List Member) (charges newCharges : Charges)
    (spawned : Nat) :
    ∀ x ∈ (takeCharges own ms charges newCharges spawned).2.2.2, ∃ (hbr : Nat) (m : Member),
      x = .spawn hbr m (.reqHeartbeat own m.id) := by
  induction ms generalizing charges newCharges spawned with
  | nil => simp [takeCharges]
  | cons m ms ih =>
      unfold takeCharges
      split
      · exact ih _ _ _
      · intro x hx
        rcases List.mem_cons.mp hx with rfl | hx
        · exact ⟨spawned, m, rfl⟩
        · exact ih _ _ _ x hx

/-- The receivers are spawned with requests of the node. -/
theorem tells_hbrs (own : Member) (ms : List Member) (charges newCharges : Charges) (spawned : Nat)
    (old : Charges) (gossip : Option Gossip) :
    Output.Tells own gossip ((takeCharges own ms charges newCharges spawned).2.2.2 ++
      old.toList.map fun e => .term e.2) := by
  intro x hx dest msg hpacket
  rcases List.mem_append.mp hx with hx | hx
  · obtain ⟨hbr, m, rfl⟩ := of_mem_takeCharges _ _ _ _ _ x hx
    cases hpacket
    exact .inr (.inr (.inl ⟨m.id, rfl⟩))
  · obtain ⟨e, -, rfl⟩ := List.mem_map.mp hx
    cases hpacket

/-- What an update of the charges and managers leaves alone. -/
structure Settled (ic : InCluster) (common : NodeState) (ic' : InCluster) (common' : NodeState)
    (out : List Output) : Prop where
  gossip : ic'.gossip = ic.gossip
  members : ic'.members = ic.members
  ring : ic'.ring = ic.ring
  tells : ∀ gossip, Output.Tells common.member gossip out
  common : common' = { common with spawned := common'.spawned }
  hbrs : ∀ x ∈ out, x.isHbr = true

theorem settled_of_ok {ic ic' : InCluster} {common common' : NodeState} {out : List Output}
    (h : ic.updateChargesManagers H common = .ok (ic', common', out)) :
    Settled ic common ic' common' out := by
  unfold updateChargesManagers at h
  split at h
  · cases h
  · next cs hcs =>
      simp only at h
      split at h
      · next managers hmanagers =>
          cases h
          refine ⟨rfl, rfl, rfl, fun gossip => tells_hbrs _ _ _ _ _ _ gossip, rfl, fun x hx => ?_⟩
          rcases List.mem_append.mp hx with hx | hx
          · obtain ⟨hbr, m, rfl⟩ := of_mem_takeCharges _ _ _ _ _ x hx
            rfl
          · obtain ⟨e, -, rfl⟩ := List.mem_map.mp hx
            rfl
      · cases h

/-- What was done when the charges or managers are not in the ring. -/
theorem tells_of_error {ic : InCluster} {common : NodeState} {f : Failure}
    (h : ic.updateChargesManagers H common = .error f) :
    f.common.member = common.member ∧ ∀ gossip, Output.Tells common.member gossip f.out := by
  unfold updateChargesManagers at h
  split at h
  · cases h
    exact ⟨rfl, fun _ => .of_silent (by simp)⟩
  · simp only at h
    split at h
    · cases h
    · cases h
      exact ⟨rfl, fun gossip => tells_hbrs _ _ _ _ _ _ gossip⟩

/-- The charges are those of the ring, and a receiver is kept, spawned with the
next number, or terminated. -/
structure Updated (cs : List Member) (ic : InCluster) (common : NodeState) (ic' : InCluster)
    (common' : NodeState) (out : List Output) : Prop where
  charges : ∀ m, m ∈ ic'.charges ↔ m ∈ cs
  numbers : ∃ k, common'.spawned = common.spawned + k ∧
    out.filterMap Output.spawned? = List.range' common.spawned k
  kept : ∀ (m : Member) (hbr : Nat), ic.charges[m]? = some hbr →
    ic'.charges[m]? = some hbr ∨ .term hbr ∈ out
  spawns : ∀ (hbr : Nat) (m : Member) (req : IntraClusterMsg), .spawn hbr m req ∈ out →
    ic'.charges[m]? = some hbr

theorem updateChargesManagers_ok {ic : InCluster} {common : NodeState} {cs ms : List Member}
    (hcs : ic.ring.charges H common.member = some cs) (hnodup : cs.Nodup)
    (hms : ic.ring.nodeManagers H false common.member = .ok (some ms)) :
    ∃ ic' common' out, ic.updateChargesManagers H common = .ok (ic', common', out) ∧
      ic'.managers = ms ∧ Updated cs ic common ic' common' out := by
  obtain ⟨old, new, n, spawns, heq, h⟩ :=
    takeCharges_spec common.member hnodup ic.charges ∅ common.spawned
  have hok : ic.updateChargesManagers H common = .ok ({ ic with charges := new, managers := ms },
      { common with spawned := n }, spawns ++ old.toList.map fun e => .term e.2) := by
    simp only [updateChargesManagers, hcs, heq, hms]
  refine ⟨_, _, _, hok, rfl, ?_⟩
  refine ⟨fun m => ?_, ?_, fun m hbr hold => ?_, fun hbr m req hmem => ?_⟩
  · rw [h.new_mem m]
    simp
  · obtain ⟨k, hn, hrange⟩ := h.numbers
    refine ⟨k, hn, ?_⟩
    have hterms : (old.toList.map fun e => Output.term e.2).filterMap Output.spawned? = [] := by
      rw [List.filterMap_eq_nil_iff]
      intro x hx
      obtain ⟨e, -, rfl⟩ := List.mem_map.mp hx
      rfl
    rw [List.filterMap_append, hrange, hterms, List.append_nil]
  · by_cases hm : m ∈ cs
    · exact .inl (h.kept m hbr hm hold)
    · refine .inr (List.mem_append_right _ (List.mem_map.mpr ⟨(m, hbr), ?_, rfl⟩))
      rw [ExtTreeMap.mem_toList_iff_getElem?_eq_some, h.old_eq m, if_neg hm]
      exact hold
  · rcases List.mem_append.mp hmem with hmem | hmem
    · obtain ⟨hbr', m', heq', hnew⟩ := h.spawns _ hmem
      cases heq'
      exact hnew
    · obtain ⟨e, -, heq'⟩ := List.mem_map.mp hmem
      cases heq'

end InCluster

/-! ## Entering with a gossip -/

/-- The node is up in the gossip it enters with, under a new id if it was down. -/
theorem enter_spec {o : Oracle} (common : NodeState) (gossip : Gossip) :
    ∃ common₀ gossip₀, Pinging.enter o common gossip = (common₀, gossip₀) ∧
      gossip₀.states[common₀.member]? = some .up ∧
      (common₀ = common ∧ gossip.states[common.member]? ≠ some .down ∨
        common₀ = common.newId (o.id 0) ∧ gossip.states[common.member]? = some .down) ∧
      ∀ (m : Member) (s : MachineState), gossip₀.states[m]? = some s →
        gossip.states[m]? = some s ∨ m = common₀.member ∧ s = .up := by
  have hinsert : ∀ (x m : Member) (s : MachineState),
      (gossip.states.insert x .up)[m]? = some s →
        gossip.states[m]? = some s ∨ m = x ∧ s = .up := by
    intro x m s h
    rw [getElem?_insert_eq] at h
    split at h
    · next heq => exact .inr ⟨heq, (Option.some.inj h).symm⟩
    · exact .inl h
  unfold Pinging.enter
  rcases hme : gossip.states[common.member]? with _ | s
  · refine ⟨common, ⟨gossip.states.insert common.member .up⟩, rfl, ?_, .inl ⟨rfl, nofun⟩,
      hinsert _⟩
    simp only [getElem?_insert_eq, if_true]
  · cases s with
    | up => exact ⟨common, gossip, rfl, hme, .inl ⟨rfl, nofun⟩, fun _ _ h => .inl h⟩
    | down =>
        refine ⟨common.newId (o.id 0), ⟨gossip.states.insert (common.newId (o.id 0)).member .up⟩,
          rfl, ?_, .inr ⟨rfl, rfl⟩, hinsert _⟩
        simp only [getElem?_insert_eq, if_true]

/-! ## The ring of a set of members -/

/-- The ring holds exactly the members of a set inside a universe of members. -/
structure NodeRing.Mirrors (H : RingHash) (U : Set Member) (r : NodeRing) (nodes : MemberSet) :
    Prop where
  holds : NodeRing.Holds H r {m | m ∈ nodes}
  within : ∀ m ∈ nodes, m ∈ U

namespace NodeRing.Mirrors

variable {H : RingHash} {U : Set Member} {r : NodeRing} {nodes : MemberSet}

theorem insert (h : Mirrors H U r nodes) (hadm : NodeRing.Admissible H U) {m : Member}
    (hm : m ∈ U) : Mirrors H U (r.insert H m) (nodes.insert m) := by
  have hset : {x | x ∈ nodes.insert m} = Set.insert m {x | x ∈ nodes} := by
    ext x
    exact mem_insert_iff nodes m x
  have hwithin : ∀ x ∈ nodes.insert m, x ∈ U := by
    intro x hx
    rcases (mem_insert_iff nodes m x).mp hx with rfl | hx
    · exact hm
    · exact h.within x hx
  refine ⟨?_, hwithin⟩
  rw [hset]
  refine NodeRing.insert_holds h.holds (hadm.mono ?_)
  rw [← hset]
  exact hwithin

theorem remove (h : Mirrors H U r nodes) (hadm : NodeRing.Admissible H U) {m : Member}
    (hm : m ∈ nodes) :
    ∃ r', r.remove H m = (r', .ok ()) ∧ Mirrors H U r' (nodes.erase m) := by
  have hadm' : NodeRing.Admissible H {x | x ∈ nodes} := hadm.mono h.within
  have hok := NodeRing.remove_ok h.holds hadm' hm
  refine ⟨(r.remove H m).1, by rw [← hok], ?_, fun x hx => ?_⟩
  · have hset : {x | x ∈ nodes.erase m} = {x | x ∈ nodes} \ {m} := by
      ext x
      rw [Set.mem_ofPred_eq, mem_erase_iff]
      exact and_comm
    rw [hset]
    have hinsert : Set.insert m {x | x ∈ nodes} = {x | x ∈ nodes} := Set.insert_eq_of_mem hm
    refine NodeRing.remove_holds m h.holds ?_
    rw [hinsert]
    exact hadm'
  · exact h.within x ((mem_erase_iff nodes m x).mp hx).2

/-- The ring built from a list mirrors the set built from it. -/
theorem of_list (hadm : NodeRing.Admissible H U) (repFactor : UInt64) {ms : List Member}
    (hms : ∀ m ∈ ms, m ∈ U) :
    Mirrors H U (ms.foldl (fun r m => r.insert H m) (NodeRing.new repFactor))
      (ms.foldl (fun set m => set.insert m) ∅) := by
  have hset : ∀ m, m ∈ ms.foldl (fun (set : MemberSet) m => set.insert m) ∅ ↔ m ∈ ms := by
    intro m
    rw [mem_foldl_insert (fun m => m)]
    simp
  refine ⟨?_, fun m hm => hms m ((hset m).mp hm)⟩
  simp only [hset]
  exact NodeRing.ofMembers_holds repFactor (hadm.mono hms)

/-- A member of the ring has charges and managers there. -/
theorem neighbours (h : Mirrors H U r nodes) (hadm : NodeRing.Admissible H U) {m : Member}
    (hm : m ∈ nodes) :
    ∃ cs ms, r.charges H m = some cs ∧ cs.Nodup ∧ m ∉ cs ∧ (∀ x ∈ cs, x ∈ nodes) ∧
      r.nodeManagers H false m = .ok (some ms) := by
  obtain ⟨cs, hcs, hnodup, hmem⟩ :=
    NodeRing.charges_spec h.holds (hadm.mono h.within) (m := m) hm
  have hms := NodeRing.nodeManagers_false h.holds (x := m) hm
  exact ⟨cs, _, hcs, hnodup, fun hself => ((hmem m).mp hself).2.1 rfl,
    fun x hx => ((hmem x).mp hx).1, hms⟩

end NodeRing.Mirrors

namespace InCluster

variable {H : RingHash} {o : Oracle} {U : Set Member}

/-! ## The events of a merge -/

/-- The loop over events that can be replayed, while the node itself is not
removed. -/
theorem applyEvents_of_kept (hadm : NodeRing.Admissible H U) {es : List ClusterEvent}
    {s : Merging} {nodes : MemberSet} (hring : NodeRing.Mirrors H U s.ic.ring s.ic.members)
    (hkind : ∀ e ∈ es, (∃ m, e = .added m ∧ m ∈ U) ∨ ∃ m, e = .removed m)
    (hreplay : replay s.ic.members es = some nodes) (hown : .removed s.common.member ∉ es) :
    ∃ ring, applyEvents H o s es = .ok { s with ic := { s.ic with ring, members := nodes } } ∧
      NodeRing.Mirrors H U ring nodes := by
  induction es generalizing s with
  | nil =>
      cases hreplay
      exact ⟨s.ic.ring, rfl, hring⟩
  | cons e es ih =>
      have hkind' := fun e' he' => hkind e' (List.mem_cons_of_mem e he')
      have hown' : .removed s.common.member ∉ es := fun h => hown (List.mem_cons_of_mem _ h)
      rcases hkind e List.mem_cons_self with ⟨m, rfl, hm⟩ | ⟨m, rfl⟩
      · simp only [replay] at hreplay
        split at hreplay
        · cases hreplay
        · exact ih (s := { s with ic := { s.ic with
            ring := s.ic.ring.insert H m, members := s.ic.members.insert m } })
            (hring.insert hadm hm) hkind' hreplay hown'
      · simp only [replay] at hreplay
        split at hreplay
        · next hm =>
            obtain ⟨ring, hremove, hring'⟩ := hring.remove hadm hm
            have hne : m ≠ s.common.member := by
              rintro rfl
              exact hown List.mem_cons_self
            have hstep : applyEvent H o s (.removed m) = .ok { s with ic := { s.ic with
                ring, members := s.ic.members.erase m } } := by
              simp only [applyEvent, hremove, if_pos hm, if_neg hne]
            unfold applyEvents
            rw [hstep]
            exact ih (s := { s with ic := { s.ic with ring, members := s.ic.members.erase m } })
              hring' hkind' hreplay hown'
        · cases hreplay

/-- The loop over events that remove the node itself: it goes on as the member
with the drawn id. -/
theorem applyEvents_of_removed (hadm : NodeRing.Admissible H U) {es : List ClusterEvent}
    {s : Merging} {nodes : MemberSet} (hring : NodeRing.Mirrors H U s.ic.ring s.ic.members)
    (hkind : ∀ e ∈ es, (∃ m, e = .added m ∧ m ∈ U) ∨ ∃ m, e = .removed m)
    (hreplay : replay s.ic.members es = some nodes) (hown : .removed s.common.member ∈ es)
    (hdrawn : (s.common.newId (o.id s.drawn)).member ∈ U)
    (hfresh : ∀ e ∈ es, e.member? ≠ some (s.common.newId (o.id s.drawn)).member) :
    ∃ ring, applyEvents H o s es = .ok {
        ic := { s.ic with
          ring
          members := nodes.insert (s.common.newId (o.id s.drawn)).member
          gossip := ⟨s.ic.gossip.states.insert (s.common.newId (o.id s.drawn)).member .up⟩ }
        common := s.common.newId (o.id s.drawn)
        newSelfMember := some (.joined (s.common.newId (o.id s.drawn)).member)
        drawn := s.drawn + 1 } ∧
      NodeRing.Mirrors H U ring (nodes.insert (s.common.newId (o.id s.drawn)).member) := by
  induction es generalizing s with
  | nil => cases hown
  | cons e es ih =>
      have hkind' := fun e' he' => hkind e' (List.mem_cons_of_mem e he')
      have hfresh' := fun e' he' => hfresh e' (List.mem_cons_of_mem e he')
      rcases hkind e List.mem_cons_self with ⟨m, rfl, hm⟩ | ⟨m, rfl⟩
      · simp only [replay] at hreplay
        split at hreplay
        · cases hreplay
        · have hown' : .removed s.common.member ∈ es := by simpa using hown
          exact ih (s := { s with ic := { s.ic with
            ring := s.ic.ring.insert H m, members := s.ic.members.insert m } })
            (hring.insert hadm hm) hkind' hreplay hown' hdrawn hfresh'
      · simp only [replay] at hreplay
        split at hreplay
        · next hm =>
            obtain ⟨ring, hremove, hring'⟩ := hring.remove hadm hm
            rcases eq_or_ne m s.common.member with rfl | hne
            · -- the rest of the events is about others
              have hstep : applyEvent H o s (.removed s.common.member) = .ok {
                  ic := { s.ic with
                    ring := ring.insert H (s.common.newId (o.id s.drawn)).member
                    members := (s.ic.members.erase s.common.member).insert
                      (s.common.newId (o.id s.drawn)).member
                    gossip := ⟨s.ic.gossip.states.insert
                      (s.common.newId (o.id s.drawn)).member .up⟩ }
                  common := s.common.newId (o.id s.drawn)
                  newSelfMember := some (.joined (s.common.newId (o.id s.drawn)).member)
                  drawn := s.drawn + 1 } := by
                simp only [applyEvent, hremove, if_pos hm, if_true]
              have hnotOwn : .removed (s.common.newId (o.id s.drawn)).member ∉ es := by
                intro hmem
                exact hfresh' _ hmem rfl
              unfold applyEvents
              rw [hstep]
              refine applyEvents_of_kept hadm (hring'.insert hadm hdrawn) hkind' ?_ hnotOwn
              rw [replay_insert _ hfresh', hreplay]
              rfl
            · have hstep : applyEvent H o s (.removed m) = .ok { s with ic := { s.ic with
                  ring, members := s.ic.members.erase m } } := by
                simp only [applyEvent, hremove, if_pos hm, if_neg hne]
              have hown' : .removed s.common.member ∈ es := by
                rcases List.mem_cons.mp hown with heq | hmem
                · cases heq
                  exact absurd rfl hne
                · exact hmem
              unfold applyEvents
              rw [hstep]
              exact ih (s := { s with ic := { s.ic with
                ring, members := s.ic.members.erase m } }) hring' hkind' hreplay hown' hdrawn
                hfresh'
        · cases hreplay

end InCluster

end AurumActors.Cluster
