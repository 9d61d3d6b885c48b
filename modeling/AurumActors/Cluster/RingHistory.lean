/-
  Cluster/RingHistory.lean --- the histories of a ring.

  A ring that members entered and left in any order is the one that holds the
  members now present.  What a history did before does not show.
-/
import AurumActors.Cluster.NodeRing
import AurumActors.Foundation.Maps
import AurumActors.Foundation.Run

set_option autoImplicit false

namespace AurumActors.Cluster.NodeRing

open Std
open AurumActors.Foundation

/-! ## Histories -/

/-- A change of the members of a ring. -/
inductive RingOp where
  | insert (item : Member)
  | remove (item : Member)
  deriving DecidableEq

/-- The member a change is about. -/
def RingOp.item : RingOp → Member
  | .insert m | .remove m => m

/-- A ring, beside the members that are present. -/
structure Tracked where
  ring : NodeRing
  members : MemberSet
  deriving DecidableEq

/-- A member is inserted only while it is absent.  Any member may be removed. -/
def Tracked.next (H : RingHash) (t : Tracked) : RingOp → Option Tracked
  | .insert m =>
      if m ∈ t.members then none else some ⟨t.ring.insert H m, t.members.insert m⟩
  | .remove m => some ⟨(t.ring.remove H m).1, t.members.erase m⟩

/-- The histories over the members of `U`, from an empty ring. -/
def histories (H : RingHash) (U : Set Member) (repFactor : UInt64) : System Tracked RingOp :=
  (System.ofNext ⟨.new repFactor, ∅⟩ (Tracked.next H)).restrict fun _ op => op.item ∈ U

variable {H : RingHash} {U S : Set Member} {r r' : NodeRing} {m : Member} {repFactor : UInt64}

/-! ## Keys and members -/

/-- A ring is determined by the members it holds. -/
theorem eq_of_holds (h : Holds H r S) (h' : Holds H r' S) (hrep : r.repFactor = r'.repFactor) :
    r = r' := by
  obtain ⟨ring, rep⟩ := r
  obtain ⟨ring', rep'⟩ := r'
  simp only [mk.injEq]
  refine ⟨ExtTreeMap.ext_getElem? fun k => Option.ext fun e => ?_, hrep⟩
  obtain ⟨first, x⟩ := e
  exact (h k first x).trans (h' k first x).symm

theorem notMem_ring_of_absent (h : Holds H r S) (hadm : Admissible H (Set.insert m S))
    (hm : m ∉ S) : ∀ k ∈ ringKeys H m, k ∉ r.ring := by
  intro k hk hmem
  rw [ExtTreeMap.mem_iff_isSome_getElem?, Option.isSome_iff_exists] at hmem
  obtain ⟨⟨first, x⟩, hget⟩ := hmem
  obtain ⟨hx, hkx, -⟩ := (h k first x).mp hget
  have hmx : m = x := hadm.eq_of_mem (.inl rfl) (.inr hx) hk hkx
  exact hm (hmx ▸ hx)

/-- Removing keys that are not there changes nothing and counts none. -/
theorem removeKeys_absent {ring : ExtTreeMap UInt64 (Bool × Member) compare} {ks : List UInt64}
    (h : ∀ k ∈ ks, k ∉ ring) : removeKeys ring ks = (ring, 0) := by
  induction ks with
  | nil => rfl
  | cons k ks ih =>
      have herase : ring.erase k = ring := by
        refine ExtTreeMap.ext_getElem? fun k' => ?_
        rw [getElem?_erase_eq]
        split
        · next hk' =>
            rw [hk', ExtTreeMap.getElem?_eq_none (h k List.mem_cons_self)]
        · rfl
      rw [removeKeys, herase, ih fun k' hk' => h k' (List.mem_cons_of_mem _ hk'),
        if_neg (h k List.mem_cons_self)]

theorem remove_eq (H : RingHash) (r : NodeRing) (m : Member) : r.remove H m =
    ({ r with ring := (removeKeys r.ring (ringKeys H m)).1 },
      if (removeKeys r.ring (ringKeys H m)).2 = m.vnodes.toNat then .ok ()
      else .error (removeKeys r.ring (ringKeys H m)).2) := rfl

/-- A removal that finds none of the keys fails with no key removed. -/
theorem remove_absent (hpos : 0 < m.vnodes.toNat) (h : ∀ k ∈ ringKeys H m, k ∉ r.ring) :
    r.remove H m = (r, .error 0) := by
  rw [remove_eq, removeKeys_absent h, if_neg (Nat.ne_of_lt hpos)]

/-! ## What a history keeps -/

/-- The ring holds the present members, all of which are in `U`. -/
structure Tracked.Inv (H : RingHash) (U : Set Member) (repFactor : UInt64) (t : Tracked) :
    Prop where
  holds : Holds H t.ring {m | m ∈ t.members}
  within : ∀ m ∈ t.members, m ∈ U
  repFactor_eq : t.ring.repFactor = repFactor

namespace Tracked

variable {t t' : Tracked}

theorem Inv.init (H : RingHash) (U : Set Member) (repFactor : UInt64) :
    Inv H U repFactor ⟨.new repFactor, ∅⟩ := by
  refine ⟨?_, fun m hm => ?_, rfl⟩
  · have hempty : {m : Member | m ∈ (∅ : MemberSet)} = ∅ := by
      ext m
      simp
    rw [hempty]
    exact holds_new repFactor
  · simp at hm

theorem Inv.admissible (h : Inv H U repFactor t) (hadm : Admissible H U) (hm : m ∈ U) :
    Admissible H (Set.insert m {x | x ∈ t.members}) := by
  refine hadm.mono ?_
  rintro x (rfl | hx)
  · exact hm
  · exact h.within x hx

theorem Inv.step (h : Inv H U repFactor t) (hadm : Admissible H U) {op : RingOp}
    (hop : op.item ∈ U) (hst : t.next H op = some t') : Inv H U repFactor t' := by
  cases op with
  | insert m =>
      simp only [next] at hst
      split at hst
      · cases hst
      · cases hst
        have hset : {x | x ∈ t.members.insert m} = Set.insert m {x | x ∈ t.members} := by
          ext x
          exact mem_insert_iff t.members m x
        refine ⟨?_, fun x hx => ?_, h.repFactor_eq⟩
        · simp only [hset]
          exact insert_holds h.holds (h.admissible hadm hop)
        · rcases (mem_insert_iff _ _ _).mp hx with rfl | hx
          · exact hop
          · exact h.within x hx
  | remove m =>
      cases hst
      have hset : {x | x ∈ t.members.erase m} = {x | x ∈ t.members} \ {m} := by
        ext x
        exact (mem_erase_iff t.members m x).trans and_comm
      refine ⟨?_, fun x hx => h.within x ((mem_erase_iff _ _ _).mp hx).2, h.repFactor_eq⟩
      simp only [hset]
      exact remove_holds m h.holds (h.admissible hadm hop)

theorem inv_of_reachable (hadm : Admissible H U) (h : (histories H U repFactor).Reachable t) :
    Inv H U repFactor t := by
  refine h.invariant ?_ fun s op s' _ hinv hst => hinv.step hadm hst.2 hst.1
  rintro s rfl
  exact .init H U repFactor

end Tracked

/-! ## The ring of a member set -/

/-- Two rings answer every query alike. -/
def SameAnswers (H : RingHash) (r r' : NodeRing) : Prop :=
  (∀ key num, r.managers key num = r'.managers key num) ∧
    (∀ checks m, r.nodeManagers H checks m = r'.nodeManagers H checks m) ∧
      ∀ m, r.charges H m = r'.charges H m

theorem SameAnswers.refl (H : RingHash) (r : NodeRing) : SameAnswers H r r :=
  ⟨fun _ _ => rfl, fun _ _ => rfl, fun _ => rfl⟩

/-- Removing a present member deletes exactly its keys, and removing an absent
one fails with none removed. -/
def RemovesExactly (H : RingHash) (t : Tracked) (m : Member) : Prop :=
  (m ∈ t.members → (t.ring.remove H m).2 = .ok () ∧
    ∀ k : UInt64, (t.ring.remove H m).1.ring[k]? =
      Option.filter (fun e : Bool × Member => e.2 ≠ m) t.ring.ring[k]?) ∧
  (m ∉ t.members → t.ring.remove H m = (t.ring, .error 0))

/-- A key that a ring maps to `m` is one of the keys of `m`, and the other way
around. -/
theorem filter_ne (h : Holds H r S) (hm : m ∈ S) (k : UInt64) :
    Option.filter (fun e : Bool × Member => e.2 ≠ m) r.ring[k]? =
      if k ∈ ringKeys H m then none else r.ring[k]? := by
  by_cases hk : k ∈ ringKeys H m
  · rw [if_pos hk, (h k _ m).mpr ⟨hm, hk, rfl⟩]
    simp
  · rw [if_neg hk]
    rcases hget : r.ring[k]? with _ | ⟨first, x⟩
    · rfl
    · obtain ⟨-, hkx, -⟩ := (h k first x).mp hget
      have hne : x ≠ m := fun hx => hk (hx ▸ hkx)
      simp [Option.filter, hne]

theorem Tracked.Inv.removesExactly {t : Tracked} (h : Inv H U repFactor t)
    (hadm : Admissible H U) (hm : m ∈ U) : RemovesExactly H t m := by
  have hpresent : Admissible H {x | x ∈ t.members} := hadm.mono h.within
  refine ⟨fun hmem => ⟨remove_ok h.holds hpresent hmem, fun k => ?_⟩, fun hnot => ?_⟩
  · rw [getElem?_remove, filter_ne h.holds hmem]
  · exact remove_absent (hadm.vnodes_pos m hm)
      (notMem_ring_of_absent h.holds (h.admissible hadm hm) hnot)

/-- The ring is a function of the member set: two histories over members with
distinct keys that end with the same members end with the same ring, which
answers every query alike, and every removal deletes exactly the keys of a
present member. -/
theorem ring_of_members (hadm : Admissible H U) {s t : Tracked}
    (hs : (histories H U repFactor).Reachable s) (ht : (histories H U repFactor).Reachable t) :
    (s.members = t.members → s.ring = t.ring ∧ SameAnswers H s.ring t.ring) ∧
      ∀ m ∈ U, RemovesExactly H s m := by
  have hinv := Tracked.inv_of_reachable hadm hs
  refine ⟨fun hsame => ?_, fun m hm => hinv.removesExactly hadm hm⟩
  have hinv' := Tracked.inv_of_reachable hadm ht
  have hring : s.ring = t.ring :=
    eq_of_holds hinv.holds (hsame ▸ hinv'.holds)
      (hinv.repFactor_eq.trans hinv'.repFactor_eq.symm)
  exact ⟨hring, hring ▸ .refl H s.ring⟩

/-! ### Two histories of one ring -/

/-- Two members of a concrete ring. -/
def early : Member := ⟨Core.Socket.localhost 5000, 10, 1⟩

/-- The other one, with two virtual nodes. -/
def late : Member := ⟨Core.Socket.localhost 5001, 20, 2⟩

instance : DecidablePred (· ∈ {m : Member | m ∈ [early, late]}) := fun m =>
  inferInstanceAs (Decidable (m ∈ [early, late]))

/-- One node sees the late member first and is told twice of a removal; the other
one sees the members in their order. -/
theorem ring_of_members_two :
    ∃ s t : Tracked,
      (histories RingHash.byId {m | m ∈ [early, late]} 3).Reachable s ∧
      (histories RingHash.byId {m | m ∈ [early, late]} 3).Reachable t ∧
      early ∈ s.members ∧ late ∈ s.members ∧
      (s.ring = t.ring ∧ SameAnswers RingHash.byId s.ring t.ring) ∧
      RemovesExactly RingHash.byId s late := by
  have hadm : Admissible RingHash.byId {m | m ∈ [early, late]} :=
    admissible_of_nodup (by decide) (by decide)
  let first : List RingOp :=
    [.insert late, .insert early, .remove late, .remove late, .insert late]
  let second : List RingOp := [.insert early, .insert late]
  obtain ⟨s, hs, hearly, hlate, hmembers⟩ :
      ∃ s ∈ System.execWhere (fun _ op => op.item ∈ {m | m ∈ [early, late]})
          (Tracked.next RingHash.byId) ⟨.new 3, ∅⟩ first,
        early ∈ s.members ∧ late ∈ s.members ∧
          s.members = ((∅ : MemberSet).insert early).insert late := by decide
  obtain ⟨t, ht, hmembers'⟩ :
      ∃ t ∈ System.execWhere (fun _ op => op.item ∈ {m | m ∈ [early, late]})
          (Tracked.next RingHash.byId) ⟨.new 3, ∅⟩ second,
        t.members = ((∅ : MemberSet).insert early).insert late := by decide
  have hs := System.reachable_of_execWhere first (.of_init rfl) hs
  have ht := System.reachable_of_execWhere second (.of_init rfl) ht
  obtain ⟨hring, hremoves⟩ := ring_of_members hadm hs ht
  exact ⟨s, t, hs, ht, hearly, hlate, hring (hmembers.trans hmembers'.symm),
    hremoves late (by decide)⟩

/-! ## Inserting and removing one member -/

/-- Inserting and then removing `m` succeeds and restores the ring, and in between
`charges` examines exactly the keys that were inserted, each once. -/
structure OperationsAgree (H : RingHash) (r : NodeRing) (m : Member) : Prop where
  restores : (r.insert H m).remove H m = (r, .ok ())
  examines : (r.insert H m).charges H m =
    some ((vnodeKeys H m).flatMap ((r.insert H m).chargesAt m))
  keys : ∀ k, k ∈ vnodeKeys H m ↔ k ∈ (r.insert H m).ring ∧ k ∉ r.ring
  nodup : (vnodeKeys H m).Nodup

theorem mem_ring_insert (hnodup : (ringKeys H m).Nodup) (k : UInt64) :
    k ∈ (r.insert H m).ring ↔ k ∈ ringKeys H m ∨ k ∈ r.ring := by
  rw [ExtTreeMap.mem_iff_isSome_getElem?, ExtTreeMap.mem_iff_isSome_getElem?,
    getElem?_insert r m hnodup]
  by_cases hk : k ∈ ringKeys H m
  · simp [hk]
  · simp [hk]

/-- Removing fresh keys that were just inserted restores the ring, and counts all
of them. -/
theorem remove_insert (hnodup : (ringKeys H m).Nodup) (hfresh : ∀ k ∈ ringKeys H m, k ∉ r.ring) :
    (r.insert H m).remove H m =
      (r, if max 1 m.vnodes.toNat = m.vnodes.toNat then .ok ()
        else .error (max 1 m.vnodes.toNat)) := by
  have hcount : (removeKeys (r.insert H m).ring (ringKeys H m)).2 = max 1 m.vnodes.toNat := by
    rw [removeKeys_count hnodup fun k hk => (mem_ring_insert hnodup k).mpr (.inl hk), ringKeys,
      List.length_iterate]
  have hring : (removeKeys (r.insert H m).ring (ringKeys H m)).1 = r.ring := by
    refine ExtTreeMap.ext_getElem? fun k => ?_
    rw [getElem?_removeKeys, getElem?_insert r m hnodup]
    split
    · next hk => rw [ExtTreeMap.getElem?_eq_none (hfresh k hk)]
    · rfl
  rw [remove_eq, hcount, hring]
  rfl

/-- In every ring, for every absent member with distinct keys, the operations
agree on its positions exactly when it has a virtual node. -/
theorem operationsAgree_iff (H : RingHash) (r : NodeRing) (m : Member)
    (hnodup : (ringKeys H m).Nodup) (hfresh : ∀ k ∈ ringKeys H m, k ∉ r.ring) :
    OperationsAgree H r m ↔ 0 < m.vnodes.toNat := by
  have hremove := remove_insert hnodup hfresh
  constructor
  · intro h
    have hok := (Prod.mk.inj (hremove.symm.trans h.restores)).2
    split at hok
    · next hmax => omega
    · cases hok
  · intro hpos
    have hmax : max 1 m.vnodes.toNat = m.vnodes.toNat := Nat.max_eq_right hpos
    refine ⟨by rw [hremove, if_pos hmax], ?_, fun k => ?_, ?_⟩
    · have hget : (r.insert H m).ring[H.hashCode m]? = some (true, m) := by
        rw [getElem?_insert r m hnodup, if_pos (hashCode_mem_ringKeys H m)]
        simp
      have hcontains : (r.insert H m).contains H m = true := by
        simp [NodeRing.contains, hget]
      rw [charges, if_pos hcontains]
    · rw [vnodeKeys_eq_ringKeys H hpos, mem_ring_insert hnodup]
      constructor
      · exact fun hk => ⟨.inl hk, hfresh k hk⟩
      · rintro ⟨hk | hk, hnot⟩
        · exact hk
        · exact absurd hk hnot
    · rw [vnodeKeys_eq_ringKeys H hpos]
      exact hnodup

theorem operationsAgree_iff_late :
    OperationsAgree RingHash.byId ((NodeRing.new 3).insert RingHash.byId early) late ↔
      0 < late.vnodes.toNat := by
  have hfresh : (ringKeys RingHash.byId late).all
      fun k => k ∉ ((NodeRing.new 3).insert RingHash.byId early).ring := by decide
  exact operationsAgree_iff RingHash.byId _ late (by decide) fun k hk =>
    of_decide_eq_true (List.all_eq_true.mp hfresh k hk)

/-- A member without virtual nodes is inserted at one key, which its removal
deletes and reports as an error. -/
theorem operations_disagree_without_vnodes :
    ¬ ∀ (H : RingHash) (r : NodeRing) (m : Member), (ringKeys H m).Nodup →
      (∀ k ∈ ringKeys H m, k ∉ r.ring) → OperationsAgree H r m := by
  intro h
  have hagree := h RingHash.byId (.new 3) ⟨Core.Socket.localhost 5000, 10, 0⟩ (by decide)
    fun k _ => ExtTreeMap.not_mem_empty
  have hremove : (((NodeRing.new 3).insert RingHash.byId
      ⟨Core.Socket.localhost 5000, 10, 0⟩).remove RingHash.byId
      ⟨Core.Socket.localhost 5000, 10, 0⟩).2 = .error 1 := by decide
  rw [hagree.restores] at hremove
  cases hremove

end AurumActors.Cluster.NodeRing
