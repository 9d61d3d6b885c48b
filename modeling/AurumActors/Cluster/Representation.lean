/-
  Cluster/Representation.lean --- the clustering actor represents one membership
  in every run.

  A run is any order of messages whose members are in a universe with distinct
  ring keys and whose drawn ids are new.  Everything a handler does is recorded,
  so that spawned receivers can be accounted for.
-/
import AurumActors.Cluster.Outcomes
import AurumActors.Cluster.RingHistory
import AurumActors.Foundation.Run

set_option autoImplicit false
set_option linter.dupNamespace false

namespace AurumActors.Cluster

open Std
open AurumActors.Core AurumActors.Foundation

/-- The charge of a spawned receiver. -/
def Output.charge? : Output → Option Member
  | .spawn _ charge _ => some charge
  | _ => none

/-- The actor, and what it did so far, each with its member after the handler. -/
structure Node where
  cluster : Cluster
  log : List (Member × Output)

namespace Node

/-! ## Runs -/

/-- A handler ends. -/
def after (log : List (Member × Output)) (c : Cluster) (out : List Output) : Node :=
  ⟨c, log ++ out.map fun x => (c.common.member, x)⟩

/-- The actor starts. -/
def start (H : RingHash) (o : Oracle) (c : Cluster) : Node :=
  after [] (c.preStart H o).1 (c.preStart H o).2

/-- The actor handles a message. -/
def next (H : RingHash) (n : Node) (mv : ClusterMsg × Oracle) : Option Node :=
  match n.cluster.recv H mv.2 mv.1 with
  | .ok (c, out) => some (after n.log c out)
  | .error _ => none

/-- Receivers report their own charges as down. -/
def Reports (n : Node) : ClusterMsg → Prop
  | .downed m => ∃ e ∈ n.log, e.2.charge? = some m
  | _ => True

/-- The messages of the runs. -/
def Admitted (U : Set Member) (n : Node) (mv : ClusterMsg × Oracle) : Prop :=
  n.cluster.Admits U mv.2 mv.1 ∧ n.Reports mv.1

/-- The runs of an actor that starts with the oracle `o`. -/
def system (H : RingHash) (U : Set Member) (o : Oracle) (c : Cluster) :
    System Node (ClusterMsg × Oracle) :=
  (System.ofNext (start H o c) (next H)).restrict (Admitted U)

variable {H : RingHash} {U : Set Member} {o : Oracle} {n : Node}

theorem mem_after {log : List (Member × Output)} {c : Cluster} {out : List Output}
    {own : Member} {x : Output} :
    (own, x) ∈ (after log c out).log ↔ (own, x) ∈ log ∨ own = c.common.member ∧ x ∈ out := by
  simp only [after, List.mem_append, List.mem_map, Prod.mk.injEq]
  constructor
  · rintro (h | ⟨y, hy, rfl, rfl⟩)
    · exact .inl h
    · exact .inr ⟨rfl, hy⟩
  · rintro (h | ⟨rfl, hx⟩)
    · exact .inl h
    · exact .inr ⟨x, hx, rfl, rfl⟩

/-! ## The invariant -/

/-- A spawned receiver is for another known member, and is kept or terminated. -/
structure Accounted (n : Node) (hbr : Nat) (m : Member) (ic : InCluster) : Prop where
  known : m ∈ ic.gossip.states
  other : m ≠ n.cluster.common.member
  kept : ic.charges[m]? = some hbr ∨ ∃ own, (own, .term hbr) ∈ n.log

structure Inv (H : RingHash) (U : Set Member) (n : Node) : Prop where
  represents : n.cluster.Represents H U
  numbers : n.log.filterMap (fun e => e.2.spawned?) = List.range' 0 n.cluster.common.spawned
  spawns : ∀ (own : Member) (hbr : Nat) (m : Member) (req : IntraClusterMsg),
    (own, .spawn hbr m req) ∈ n.log →
      ∃ ic, n.cluster.state = .inCluster ic ∧ n.Accounted hbr m ic

/-- Charges are members other than the node. -/
theorem mem_charges (hadm : NodeRing.Admissible H U) {common : NodeState} {ic : InCluster}
    (hsane : Sane H U common ic) (hneigh : Neighbours H common ic) {m : Member}
    (hm : m ∈ ic.charges) : m ∈ ic.members ∧ m ≠ common.member := by
  obtain ⟨cs, hcs, hmem⟩ := hneigh.charges
  obtain ⟨cs', ms, hcs', -, hself, hsub, -⟩ :=
    hsane.ring.neighbours hadm ((hsane.members _).mpr hsane.own)
  rw [hcs, Option.some.injEq] at hcs'
  subst hcs'
  rw [hmem] at hm
  refine ⟨hsub m hm, ?_⟩
  rintro rfl
  exact hself hm

theorem filterMap_after (log : List (Member × Output)) (c : Cluster) (out : List Output) :
    (after log c out).log.filterMap (fun e => e.2.spawned?) =
      log.filterMap (fun e => e.2.spawned?) ++ out.filterMap Output.spawned? := by
  simp only [after, List.filterMap_append, List.filterMap_map]
  rfl

/-- A handler ends inside the cluster: the old receivers stay accounted for if the
handler knew them as its charges. -/
theorem Inv.of_outcome (hadm : NodeRing.Admissible H U) (hinv : Inv H U n)
    {charges : Charges} {events : List ClusterEvent} {common' : NodeState} {ic' : InCluster}
    {out : List Output} (hrep : Cluster.Represents H U ⟨common', .inCluster ic'⟩)
    (houtcome : Outcome H U n.cluster.common charges events common' ic' out)
    (hold : ∀ (hbr : Nat) (m : Member) (ic : InCluster), n.cluster.state = .inCluster ic →
      n.Accounted hbr m ic → m ∈ ic'.gossip.states ∧ m ≠ common'.member ∧
        (ic.charges[m]? = some hbr → charges[m]? = some hbr)) :
    Inv H U (after n.log ⟨common', .inCluster ic'⟩ out) := by
  refine ⟨hrep, ?_, ?_⟩
  · obtain ⟨k, hspawned, hrange⟩ := houtcome.numbers
    have hjoin := @List.range'_append_1 0 n.cluster.common.spawned k
    rw [Nat.zero_add] at hjoin
    rw [filterMap_after, hinv.numbers, hrange, hjoin]
    exact congrArg (List.range' 0) hspawned.symm
  · intro own hbr m req hmem
    refine ⟨ic', rfl, ?_⟩
    rcases mem_after.mp hmem with hmem | ⟨-, hmem⟩
    · obtain ⟨ic, hic, hacc⟩ := hinv.spawns own hbr m req hmem
      obtain ⟨hknown, hother, hcharge⟩ := hold hbr m ic hic hacc
      refine ⟨hknown, hother, ?_⟩
      rcases hacc.kept with hget | ⟨own', hterm⟩
      · rcases houtcome.kept m hbr (hcharge hget) with hget' | hterm
        · exact .inl hget'
        · exact .inr ⟨_, mem_after.mpr (.inr ⟨rfl, hterm⟩)⟩
      · exact .inr ⟨own', mem_after.mpr (.inl hterm)⟩
    · have hget := houtcome.spawns hbr m req hmem
      have hcharge : m ∈ ic'.charges := by
        rw [ExtTreeMap.mem_iff_isSome_getElem?, hget]
        rfl
      obtain ⟨hmember, hother⟩ :=
        mem_charges hadm houtcome.sane houtcome.neighbours hcharge
      refine ⟨?_, hother, .inl hget⟩
      rw [ExtTreeMap.mem_iff_isSome_getElem?, (houtcome.sane.members m).mp hmember]
      rfl

/-- A handler that spawns nothing and leaves the members alone. -/
theorem Inv.of_silent (hinv : Inv H U n) {c : Cluster} {out : List Output}
    (hrep : c.Represents H U) (hspawned : c.common.spawned = n.cluster.common.spawned)
    (hmember : c.common.member = n.cluster.common.member)
    (hstate : ∀ ic, n.cluster.state = .inCluster ic → c.state = .inCluster ic)
    (hout : ∀ x ∈ out, x.spawned? = none) : Inv H U (after n.log c out) := by
  refine ⟨hrep, ?_, ?_⟩
  · rw [filterMap_after, hinv.numbers, List.filterMap_eq_nil_iff.mpr hout, List.append_nil]
    exact congrArg (List.range' 0) hspawned.symm
  · intro own hbr m req hmem
    rcases mem_after.mp hmem with hmem | ⟨-, hmem⟩
    · obtain ⟨ic, hic, hacc⟩ := hinv.spawns own hbr m req hmem
      refine ⟨ic, hstate ic hic, hacc.known, ?_, ?_⟩
      · rw [show (after n.log c out).cluster.common.member = _ from hmember]
        exact hacc.other
      · exact hacc.kept.imp_right fun ⟨own', h⟩ => ⟨own', mem_after.mpr (.inl h)⟩
    · exact absurd (hout _ hmem) (by simp [Output.spawned?])

/-- However a handler moves the actor, the invariant is kept. -/
theorem Inv.of_moved (hadm : NodeRing.Admissible H U) (hinv : Inv H U n) {subr : Option Nat}
    {c : Cluster} {out : List Output} (h : Cluster.Moved H U n.cluster subr c out) :
    Inv H U (after n.log c out) := by
  have hrep := h.represents hinv.represents
  cases h with
  | outside state out h h' plain =>
      refine hinv.of_silent hrep rfl rfl (fun ic hic => ?_) fun x hx => ?_
      · rw [hic] at h
        cases h
      · cases x with
        | spawn hbr charge req => exact absurd (plain _ hx).1 (by simp [Output.isHbr])
        | _ => rfl
  | enters event common' ic' out h hevent outcome =>
      refine hinv.of_outcome hadm hrep outcome fun hbr m ic hic => ?_
      rw [hic] at h
      cases h
  | inside ic events common' ic' out h outcome follows =>
      refine hinv.of_outcome hadm hrep outcome fun hbr m ic₁ hic hacc => ?_
      rw [h] at hic
      cases hic
      refine ⟨follows.grows m hacc.known, ?_, id⟩
      rintro rfl
      rcases follows.own with heq | hnew
      · exact hacc.other heq
      · exact hnew hacc.known
  | subscribes subr out hout =>
      refine hinv.of_silent hrep rfl rfl (fun ic hic => hic) fun x hx => ?_
      rcases hout with ⟨-, rfl⟩ | ⟨ic, event, -, -, rfl⟩
      · cases hx
      · rw [List.mem_singleton.mp hx]
        rfl

/-- An admitted message is handled. -/
theorem Inv.next_ok (hadm : NodeRing.Admissible H U) (hinv : Inv H U n)
    {mv : ClusterMsg × Oracle} (hmv : n.Admitted U mv) :
    ∃ c out, n.next H mv = some (after n.log c out) ∧
      Cluster.Moved H U n.cluster mv.1.subscribed? c out := by
  obtain ⟨msg, o⟩ := mv
  obtain ⟨hmsg, hreports⟩ := hmv
  obtain ⟨c, out, hok, hmoved⟩ := Cluster.recv_ok hadm (o := o) hinv.represents hmsg
    fun m ic hm hic => by
      subst hm
      obtain ⟨⟨own, x⟩, he, hcharge⟩ := hreports
      cases x with
      | spawn hbr charge req =>
          cases hcharge
          obtain ⟨ic', hic', hacc⟩ := hinv.spawns own hbr m req he
          rw [hic] at hic'
          cases hic'
          exact ⟨hacc.known, hacc.other⟩
      | _ => cases hcharge
  exact ⟨c, out, by simp only [next, hok], hmoved⟩

theorem inv_of_reachable (hadm : NodeRing.Admissible H U) {c : Cluster} (hstate : c.state = .left)
    (hspawned : c.common.spawned = 0) (hown : c.common.member ∈ U)
    (h : (system H U o c).Reachable n) : Inv H U n := by
  refine h.invariant (fun n hn => ?_) fun n mv n' _ hinv hst => ?_
  · rw [show n = start H o c from hn]
    have hnew : Inv H U ⟨c, []⟩ := by
      refine ⟨⟨hown, fun ic hic => ?_, fun ic hic => ?_⟩, ?_, by simp⟩
      · rw [hstate] at hic
        cases hic
      · rw [hstate] at hic
        cases hic
      · simp only [hspawned]
        rfl
    exact hnew.of_moved hadm (Cluster.preStart_moved hadm (o := o) hstate hown)
  · obtain ⟨hnext, hmv⟩ := hst
    obtain ⟨c', out, hok, hmoved⟩ := hinv.next_ok hadm hmv
    cases hok.symm.trans hnext
    exact hinv.of_moved hadm hmoved

/-! ## The representation -/

/-- The parts of the state inside the cluster represent one membership. -/
structure Represented (H : RingHash) (own : Member) (ic : InCluster) : Prop where
  own_up : ic.gossip.states[own]? = some .up
  members : ∀ m, m ∈ ic.members ↔ ic.gossip.states[m]? = some .up
  /-- the ring maps exactly the keys of the members -/
  holds : NodeRing.Holds H ic.ring {m | m ∈ ic.members}
  ring : ∀ m, m ∈ ic.members ↔ ∃ (k : UInt64) (first : Bool), ic.ring.ring[k]? = some (first, m)
  charges : ∃ cs, ic.ring.charges H own = some cs ∧ ∀ m, m ∈ ic.charges ↔ m ∈ cs
  managers : ic.ring.nodeManagers H false own = .ok (some ic.managers)

/-- Every spawned receiver has its own number, and is a charge or terminated. -/
structure ReceiversKept (n : Node) : Prop where
  numbers : (n.log.filterMap fun e => e.2.spawned?).Nodup
  kept : ∀ (own : Member) (hbr : Nat) (m : Member) (req : IntraClusterMsg),
    (own, .spawn hbr m req) ∈ n.log →
      (∃ ic, n.cluster.state = .inCluster ic ∧ ic.charges[m]? = some hbr) ∨
        ∃ own', (own', .term hbr) ∈ n.log

theorem Represented.of_sane {common : NodeState} {ic : InCluster} (hsane : Sane H U common ic)
    (hneigh : Neighbours H common ic) : Represented H common.member ic :=
  ⟨hsane.own, hsane.members, hsane.ring.holds, NodeRing.mem_iff_of_holds hsane.ring.holds,
    hneigh.charges, hneigh.managers⟩

/-- Two nodes that agree on the members that are up have one ring, which answers
their queries alike. -/
theorem Represented.sameAnswers {own own' : Member} {ic ic' : InCluster}
    (h : Represented H own ic) (h' : Represented H own' ic')
    (hrep : ic.ring.repFactor = ic'.ring.repFactor)
    (hup : ∀ m : Member, ic.gossip.states[m]? = some .up ↔ ic'.gossip.states[m]? = some .up) :
    ic.ring = ic'.ring ∧ NodeRing.SameAnswers H ic.ring ic'.ring := by
  have hmembers : {m | m ∈ ic'.members} = {m | m ∈ ic.members} := by
    ext m
    exact (h'.members m).trans ((hup m).symm.trans (h.members m).symm)
  have hring : ic.ring = ic'.ring := NodeRing.eq_of_holds h.holds (hmembers ▸ h'.holds) hrep
  exact ⟨hring, hring ▸ .refl H ic.ring⟩

/-- In every run of the clustering actor, between messages, the parts of the state
inside the cluster represent one membership, every receiver ever spawned is a
charge or was terminated, and every message of a run is handled without a failed
`unwrap`. -/
theorem representation (hadm : NodeRing.Admissible H U) (socket : Socket) (id : UInt64)
    (subrs : List Nat) (clrConfig : ClusterConfig)
    (hown : (Cluster.new socket id subrs clrConfig).common.member ∈ U)
    (h : (system H U o (Cluster.new socket id subrs clrConfig)).Reachable n) :
    (∀ ic, n.cluster.state = .inCluster ic → Represented H n.cluster.common.member ic) ∧
      ReceiversKept n ∧ ∀ mv, n.Admitted U mv → ∃ n', n.next H mv = some n' := by
  have hinv := inv_of_reachable hadm rfl rfl hown h
  refine ⟨fun ic hic => ?_, ⟨?_, ?_⟩, fun mv hmv => ?_⟩
  · exact .of_sane (hinv.represents.sane ic hic) (hinv.represents.neighbours ic hic)
  · rw [hinv.numbers]
    exact List.nodup_range'
  · intro own hbr m req hmem
    obtain ⟨ic, hic, hacc⟩ := hinv.spawns own hbr m req hmem
    exact hacc.kept.imp_left fun hget => ⟨ic, hic, hget⟩
  · obtain ⟨c, out, hok, -⟩ := hinv.next_ok hadm hmv
    exact ⟨_, hok⟩

/-! ### A node that is downed and goes on -/

section Rejoin

instance (U : Set Member) [DecidablePred (· ∈ U)] (n : Node) : DecidablePred (n.Admitted U) :=
  fun mv =>
    have hadmits : Decidable (n.cluster.Admits U mv.2 mv.1) :=
      match mv.1 with
      | .intraMsg (.state gossip) =>
          have hkeys : Decidable (∀ m ∈ gossip.states, m ∈ U) :=
            decidable_of_iff (∀ m ∈ gossip.states.keys, m ∈ U) (by simp only [ExtTreeMap.mem_keys])
          inferInstanceAs (Decidable (_ ∧ DrawsIn U mv.2 n.cluster.common gossip ∧
            FreshId mv.2 n.cluster.common n.cluster.state.gossip? gossip))
      | .intraMsg (.ping member) => inferInstanceAs (Decidable (member ∈ U))
      | .intraMsg .foo | .intraMsg (.reqHeartbeat ..) | .intraMsg (.reqGossip _)
      | .subscribe _ | .pingTimeout | .gossipTimeout | .downed _ | .heartbeatTick => isTrue trivial
    have hreports : Decidable (n.Reports mv.1) :=
      match mv.1 with
      | .downed m => inferInstanceAs (Decidable (∃ e ∈ n.log, e.2.charge? = some m))
      | .intraMsg _ | .subscribe _ | .pingTimeout | .gossipTimeout | .heartbeatTick =>
          isTrue trivial
    inferInstanceAs (Decidable (_ ∧ _))

/-- The member with that id at a port. -/
def seat (port : UInt16) (id : UInt64) : Member := ⟨Socket.localhost port, id, 1⟩

/-- The members of the runs below. -/
def seats : List Member := [seat 10 1, seat 11 2, seat 12 3, seat 10 5]

/-- Draws id 5 and picks the first members; subscribers stay. -/
def firstChoices : Oracle := ⟨fun _ => 5, fun _ ms n => ms.take n, fun _ => true⟩

/-- A node at port 10 that has a seed node, and one subscriber. -/
def seeded : Cluster :=
  .new (Socket.localhost 10) 1 [0] { ClusterConfig.default with
    seedNodes := (∅ : ExtTreeSet Socket compare).insert (Socket.localhost 11) }

/-- A gossip with the given states. -/
def gossipOf (states : List (Member × MachineState)) : Gossip :=
  ⟨states.foldl (fun states e => states.insert e.1 e.2) ∅⟩

/-- The node joins members 2 and 3, is downed, and downs member 2. -/
def rejoin : List (ClusterMsg × Oracle) :=
  [(.intraMsg (.state (gossipOf [(seat 11 2, .up), (seat 12 3, .up)])), firstChoices),
    (.subscribe 1, firstChoices),
    (.intraMsg (.state (gossipOf [(seat 10 1, .down)])), firstChoices),
    (.downed (seat 11 2), firstChoices)]

theorem representation_rejoin :
    ∃ n : Node, (system RingHash.byId {m | m ∈ seats} firstChoices seeded).Reachable n ∧
      n.cluster.common.member = seat 10 5 ∧
      (∃ gossip ∈ n.cluster.state.gossip?, gossip.states[seat 11 2]? = some .down) ∧
      (∀ ic, n.cluster.state = .inCluster ic →
        Represented RingHash.byId n.cluster.common.member ic) ∧ ReceiversKept n := by
  have hadm : NodeRing.Admissible RingHash.byId {m | m ∈ seats} :=
    NodeRing.admissible_of_nodup (by decide) (by decide)
  obtain ⟨n, hn, hown, hdown⟩ : ∃ n ∈ System.execWhere (Admitted {m | m ∈ seats})
      (next RingHash.byId) (start RingHash.byId firstChoices seeded) rejoin,
      n.cluster.common.member = seat 10 5 ∧
        ∃ gossip ∈ n.cluster.state.gossip?, gossip.states[seat 11 2]? = some .down := by decide
  have h := System.reachable_of_execWhere rejoin (.of_init rfl) hn
  obtain ⟨hrep, hkept, -⟩ := representation hadm (Socket.localhost 10) 1 [0] _ (by decide) h
  exact ⟨n, h, hown, hdown, hrep, hkept⟩

end Rejoin

end Node

end AurumActors.Cluster
