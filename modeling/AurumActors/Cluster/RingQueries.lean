/-
  Cluster/RingQueries.lean --- the members that the walks of a ring list.

  Removing a member takes it out of every walk and leaves the order of the
  others alone.  `is_manager` counts the positions of a walk where
  `node_managers` counts its members.
-/
import AurumActors.Cluster.RingNeighbours
import Mathlib.Data.List.Sort

set_option autoImplicit false

namespace AurumActors.Cluster.NodeRing

open Std
open AurumActors.Foundation

variable {H : RingHash} {checks : Bool} {r : NodeRing} {S : Set Member} {ms : List Member}
  {m t x : Member}

/-! ## The ring without a member -/

/-- The walk over the members of a ring, each once. -/
def walk (r : NodeRing) (key : UInt64) : List Member :=
  ((r.clockwise key).map (·.2.2)).eraseDups

theorem managers_eq_take (r : NodeRing) (key num : UInt64) :
    r.managers key num = (r.walk key).take num.toNat := rfl

theorem nodup_walk (r : NodeRing) (key : UInt64) : (r.walk key).Nodup := nodup_eraseDups _

theorem toList_remove (h : Holds H r S) (hadm : Admissible H S) (hx : x ∈ S) :
    (r.remove H x).1.ring.toList = r.ring.toList.filter fun e => e.2.2 ≠ x := by
  have hins : Set.insert x S ⊆ S := Set.insert_subset hx fun _ => id
  have hrest := remove_holds x h (hadm.mono hins)
  have hirrefl : Std.Irrefl fun a b : RingEntry => a.1 < b.1 := ⟨fun a => UInt64.lt_irrefl a.1⟩
  have hantisymm : Std.Antisymm fun a b : RingEntry => a.1 < b.1 :=
    ⟨fun a b hab hba => absurd hba (UInt64.lt_asymm hab)⟩
  refine (toList_ascending _).eq_of_mem_iff ((toList_ascending r).filter _) fun e => ?_
  rw [mem_toList_of_holds hrest, List.mem_filter, mem_toList_of_holds h, Set.mem_sdiff,
    Set.mem_singleton_iff, decide_eq_true_eq]
  tauto

theorem clockwise_remove (h : Holds H r S) (hadm : Admissible H S) (hx : x ∈ S) (key : UInt64) :
    (r.remove H x).1.clockwise key = (r.clockwise key).filter fun e => e.2.2 ≠ x := by
  simp only [clockwise, toList_remove h hadm hx, List.filter_append, List.filter_filter,
    Bool.and_comm]

/-- A removal takes the member out of every walk. -/
theorem walk_remove (h : Holds H r S) (hadm : Admissible H S) (hx : x ∈ S) (key : UInt64) :
    (r.remove H x).1.walk key = (r.walk key).filter (· ≠ x) := by
  have hmap : ((r.clockwise key).filter fun e => e.2.2 ≠ x).map (·.2.2) =
      ((r.clockwise key).map (·.2.2)).filter (· ≠ x) := by
    rw [List.filter_map]
    rfl
  rw [walk, clockwise_remove h hadm hx, hmap, eraseDups_filter, walk]

/-- In the ring `r'` without `x`, the first managers of a key are those it had
before, without `x` and with the next member of the walk if `x` was one of them. -/
def MinimallyDisrupted (r r' : NodeRing) (x : Member) (key num : UInt64) : Prop :=
  r'.managers key num =
      (((r.walk key).take (num.toNat + 1)).filter (· ≠ x)).take num.toNat ∧
    (num.toNat + 1 < UInt64.size →
      r'.managers key num = ((r.managers key (num + 1)).filter (· ≠ x)).take num.toNat)

theorem minimallyDisrupted_remove (h : Holds H r S) (hadm : Admissible H S) (hx : x ∈ S)
    (key num : UInt64) : MinimallyDisrupted r (r.remove H x).1 x key num := by
  have hmanagers : (r.remove H x).1.managers key num =
      (((r.walk key).take (num.toNat + 1)).filter (· ≠ x)).take num.toNat := by
    rw [managers_eq_take, walk_remove h hadm hx, take_filter_ne (nodup_walk r key)]
  refine ⟨hmanagers, fun hnum => ?_⟩
  have hsucc : (num + 1).toNat = num.toNat + 1 := by
    rw [UInt64.toNat_add]
    exact Nat.mod_eq_of_lt hnum
  rw [hmanagers, managers_eq_take, hsucc]

/-- Removing a member disrupts the managers of every item no more than it has to,
and a list of managers has no duplicates and as many members as were asked for,
or all. -/
theorem managers_of_remove (H : RingHash) (repFactor : UInt64) (ms : List Member)
    (hnodup : ms.Nodup) (hpos : ∀ m ∈ ms, 0 < m.vnodes.toNat)
    (hkeys : (ms.flatMap (ringKeys H)).Nodup) (key num : UInt64) :
    (∀ x ∈ ms, MinimallyDisrupted (ofMembers H repFactor ms)
        ((ofMembers H repFactor ms).remove H x).1 x key num) ∧
      ((ofMembers H repFactor ms).managers key num).Nodup ∧
      ((ofMembers H repFactor ms).managers key num).length = min num.toNat ms.length := by
  have hadm := admissible_of_nodup hpos hkeys
  have h := ofMembers_holds repFactor hadm
  refine ⟨fun x hx => minimallyDisrupted_remove h hadm hx key num, nodup_managers _ _ _, ?_⟩
  rw [length_managers h, List.toFinset_card_of_nodup hnodup]

/-- Three members, the second with two virtual nodes. -/
def trio : List Member :=
  [⟨Core.Socket.localhost 5000, 10, 1⟩, ⟨Core.Socket.localhost 5001, 20, 2⟩,
    ⟨Core.Socket.localhost 5002, 1500, 1⟩]

/-- Without the second member, the first one is followed by the third. -/
theorem managers_of_remove_trio :
    ((ofMembers RingHash.byId 1 trio).remove RingHash.byId
        ⟨Core.Socket.localhost 5001, 20, 2⟩).1.managers 5 2 =
      [⟨Core.Socket.localhost 5000, 10, 1⟩, ⟨Core.Socket.localhost 5002, 1500, 1⟩] := by
  have hdisrupted := (managers_of_remove RingHash.byId 1 trio (by decide) (by decide) (by decide)
    5 2).1 ⟨Core.Socket.localhost 5001, 20, 2⟩ (by decide)
  rw [hdisrupted.2 (by decide)]
  decide

/-! ## `is_manager` and `node_managers` -/

/-- The two queries return and give the same answer about `m` and `t`. -/
def QueriesAgree (H : RingHash) (checks : Bool) (r : NodeRing) (m t : Member) : Prop :=
  ∃ ns, r.nodeManagers H checks t = .ok (some ns) ∧ (r.isManager H m t = true ↔ m ∈ ns)

/-- The positions after the primary one of `t`, up to the next one of `m`. -/
def between (H : RingHash) (r : NodeRing) (m t : Member) : List RingEntry :=
  ((r.clockwise (H.hashCode t)).drop 1).takeWhile fun e => e.2.2 ≠ m

/-- The repeated members of the walk from `t` decide nothing about `m`.  For `t`
itself: `rep_factor + 1` fits or wraps, and `t` has one position, or the other ones
are out of reach.  For another member: `rep_factor + 1` fits, and the next position
of `m` is in reach, or too many distinct members, `t` among them, stand before it. -/
def RepeatsHarmless (H : RingHash) (checks : Bool) (r : NodeRing) (m t : Member) : Prop :=
  (m = t → (checks = true → r.repFactor.toNat + 1 < UInt64.size) ∧
      (t.vnodes.toNat = 1 ∨ r.repFactor.toNat ≤ (between H r m t).length)) ∧
    (m ≠ t → r.repFactor.toNat + 1 < UInt64.size ∧
      ((between H r m t).length < r.repFactor.toNat ∨
        r.repFactor.toNat < (insert t (distinct (between H r m t))).card))

/-- `is_manager` looks for the member among the next `rep_factor` positions. -/
theorem isManager_iff (H : RingHash) (r : NodeRing) (m t : Member) :
    r.isManager H m t = true ↔
      (∃ e ∈ (r.clockwise (H.hashCode t)).drop 1, e.2.2 = m) ∧
        (between H r m t).length < r.repFactor.toNat := by
  have hbetween : ((r.clockwise (H.hashCode t)).drop 1).takeWhile (fun e => !(e.2.2 == m)) =
      between H r m t := by
    unfold between
    congr 1
    funext e
    by_cases he : e.2.2 = m <;> simp [he]
  rw [isManager, any_take_iff, hbetween]
  simp only [List.any_eq_true, beq_iff_eq]

/-- Another member of the ring stands on the walk behind the primary position. -/
theorem exists_behind (h : Holds H r S) (hm : m ∈ S) (ht : t ∈ S) (hmt : m ≠ t) :
    ∃ e ∈ (r.clockwise (H.hashCode t)).drop 1, e.2.2 = m := by
  obtain ⟨rest, hrest⟩ := clockwise_hashCode h ht
  obtain ⟨e, he, hem⟩ := exists_entry h hm (H.hashCode t)
  rw [hrest] at he ⊢
  rcases List.mem_cons.mp he with rfl | he
  · exact absurd hem.symm hmt
  · exact ⟨e, he, hem⟩

/-- A member stands behind its own primary position if it has another one. -/
theorem exists_behind_self_iff (h : Holds H r S) (hadm : Admissible H S) (ht : t ∈ S) :
    (∃ e ∈ (r.clockwise (H.hashCode t)).drop 1, e.2.2 = t) ↔ t.vnodes.toNat ≠ 1 := by
  obtain ⟨rest, hrest⟩ := clockwise_hashCode h ht
  have hnodup := nodup_clockwise r (H.hashCode t)
  have hkeys := hadm.nodup t ht
  have hpos := hadm.vnodes_pos t ht
  rw [hrest, List.nodup_cons] at hnodup
  rw [ringKeys_eq_cons, List.nodup_cons] at hkeys
  have hmem : ∀ e : RingEntry, e ∈ rest → e.2.2 = t → e.1 ∈ ringKeys H t ∧
      e.1 ≠ H.hashCode t := by
    intro e he het
    obtain ⟨-, hkey, hfirst⟩ := (mem_clockwise_of_holds h (H.hashCode t) e).mp
      (hrest ▸ List.mem_cons_of_mem _ he)
    rw [het] at hkey hfirst
    refine ⟨hkey, fun hprimary => hnodup.1 ?_⟩
    have heq : e = (H.hashCode t, true, t) := by
      rw [decide_eq_true hprimary] at hfirst
      exact Prod.ext hprimary (Prod.ext hfirst het)
    rwa [← heq]
  rw [hrest, List.drop_succ_cons, List.drop_zero]
  constructor
  · rintro ⟨e, he, het⟩ hone
    obtain ⟨hkey, hne⟩ := hmem e he het
    rw [ringKeys_eq_cons, hone] at hkey
    simp [hne] at hkey
  · intro hmany
    obtain ⟨k, hk⟩ : ∃ k,
        k ∈ List.iterate H.wyrng (H.wyrng (H.hashCode t)) (t.vnodes.toNat - 1) := by
      refine List.exists_mem_of_length_pos ?_
      rw [List.length_iterate]
      omega
    have hne : k ≠ H.hashCode t := fun heq => hkeys.1 (heq ▸ hk)
    have hentry : (k, false, t) ∈ r.clockwise (H.hashCode t) := by
      refine (mem_clockwise_of_holds h _ _).mpr ⟨ht, ?_, by simp [hne]⟩
      rw [ringKeys_eq_cons]
      exact List.mem_cons_of_mem _ hk
    rw [hrest, List.mem_cons] at hentry
    refine ⟨(k, false, t), hentry.resolve_left ?_, rfl⟩
    simp

/-- While `rep_factor + 1` fits, the other managers of `t` are those with at most
`rep_factor` distinct members before them. -/
theorem mem_nodeManagers_iff (h : Holds H r S) (hm : m ∈ S) (ht : t ∈ S)
    (hrep : r.repFactor.toNat + 1 < UInt64.size) :
    m ∈ (r.managers (H.hashCode t) (r.repFactor + 1)).drop 1 ↔
      m ≠ t ∧ (insert t (distinct (between H r m t))).card ≤ r.repFactor.toNat := by
  have hnum : (r.repFactor + 1).toNat = r.repFactor.toNat + 1 := by
    rw [UInt64.toNat_add]
    exact Nat.mod_eq_of_lt hrep
  have hnodup := nodup_managers r (H.hashCode t) (r.repFactor + 1)
  obtain ⟨tail, htail⟩ := managers_eq_cons h ht hnum
  rw [htail, List.nodup_cons] at hnodup
  have hns : m ∈ (r.managers (H.hashCode t) (r.repFactor + 1)).drop 1 ↔
      m ≠ t ∧ m ∈ r.managers (H.hashCode t) (r.repFactor + 1) := by
    rw [htail]
    simp only [List.drop_succ_cons, List.drop_zero, List.mem_cons]
    constructor
    · exact fun hmem => ⟨fun hmt => hnodup.1 (hmt ▸ hmem), .inr hmem⟩
    · rintro ⟨hmt, hmem⟩
      exact hmem.resolve_left hmt
  rw [hns]
  refine and_congr_right fun hmt => ?_
  obtain ⟨rest, hrest⟩ := clockwise_hashCode h ht
  obtain ⟨e, he, hem⟩ := exists_behind h hm ht hmt
  have hsplit : r.clockwise (H.hashCode t) =
      ((H.hashCode t, true, t) :: between H r m t) ++ rest.dropWhile fun e => e.2.2 ≠ m := by
    rw [between, hrest, List.drop_succ_cons, List.drop_zero, List.cons_append,
      List.takeWhile_append_dropWhile]
  rw [hrest, List.drop_succ_cons, List.drop_zero] at he
  obtain ⟨f, after, hf⟩ : ∃ f after, (rest.dropWhile fun e => e.2.2 ≠ m) = f :: after := by
    refine List.exists_cons_of_ne_nil fun hnil => ?_
    have hall := List.dropWhile_eq_nil_iff.mp hnil e he
    simp [hem] at hall
  have hfm : f.2.2 = m := by
    have hne : (rest.dropWhile fun e => e.2.2 ≠ m) ≠ [] := by
      rw [hf]
      exact List.cons_ne_nil _ _
    have hhead := List.head_dropWhile_not (fun e : RingEntry => decide (e.2.2 ≠ m)) hne
    simp only [hf, List.head_cons] at hhead
    simpa using hhead
  rw [hf] at hsplit
  rw [mem_managers_of_split hsplit hfm ?_ hnum]
  · simp [distinct]
  · intro e' he'
    rcases List.mem_cons.mp he' with rfl | he'
    · exact hmt.symm
    · simpa using List.mem_takeWhile_imp he'

/-- A ring has no more positions than there are keys. -/
theorem length_clockwise_le (r : NodeRing) (key : UInt64) :
    (r.clockwise key).length ≤ UInt64.size := by
  have hkeys : (r.ring.toList.map fun e => e.1.toNat).Nodup := by
    rw [List.nodup_iff_pairwise_ne, List.pairwise_map]
    exact (toList_ascending r).imp fun {_ _} hlt => Nat.ne_of_lt (UInt64.lt_iff_toNat_lt.mp hlt)
  have hsub : (r.ring.toList.map fun e => e.1.toNat).toFinset ⊆ Finset.range UInt64.size := by
    intro n hn
    obtain ⟨e, -, rfl⟩ := List.mem_map.mp (List.mem_toFinset.mp hn)
    exact Finset.mem_range.mpr e.1.toNat_lt
  have hcard := Finset.card_le_card hsub
  rw [List.toFinset_card_of_nodup hkeys, List.length_map, Finset.card_range] at hcard
  rwa [← (isRotated_clockwise r key).perm.length_eq]

theorem length_between_lt (h : Holds H r S) (hm : m ∈ S) (ht : t ∈ S) (hmt : m ≠ t) :
    (between H r m t).length + 1 < UInt64.size := by
  obtain ⟨rest, hrest⟩ := clockwise_hashCode h ht
  obtain ⟨e, he, hem⟩ := exists_behind h hm ht hmt
  have hlen := length_clockwise_le r (H.hashCode t)
  rw [hrest, List.length_cons] at hlen
  rw [hrest, List.drop_succ_cons, List.drop_zero] at he
  have hlt : (between H r m t).length < rest.length := by
    have hfirst := (any_take_iff (fun e : RingEntry => e.2.2 = m) rest rest.length).mp
      (by rw [List.take_length, List.any_eq_true]; exact ⟨e, he, by simpa using hem⟩)
    rw [between, hrest, List.drop_succ_cons, List.drop_zero]
    simpa using hfirst.2
  omega

/-- While `rep_factor + 1` fits, the queries agree exactly when the repeated members
decide nothing. -/
theorem agrees_of_lt (h : Holds H r S) (hadm : Admissible H S) (hm : m ∈ S) (ht : t ∈ S)
    (hrep : r.repFactor.toNat + 1 < UInt64.size) :
    (r.isManager H m t = true ↔ m ∈ (r.managers (H.hashCode t) (r.repFactor + 1)).drop 1) ↔
      RepeatsHarmless H checks r m t := by
  unfold RepeatsHarmless
  rw [isManager_iff, mem_nodeManagers_iff h hm ht hrep]
  by_cases hmt : m = t
  · -- `t` is never a manager of itself
    subst hmt
    simp only [exists_behind_self_iff h hadm hm, hrep, ne_eq, not_true_eq_false, false_and,
      iff_false, true_implies, implies_true, true_and, false_implies, and_true, not_and_or,
      not_not, Nat.not_lt]
  · have hbehind := exists_behind h hm ht hmt
    have hcard : (insert t (distinct (between H r m t))).card ≤
        (between H r m t).length + 1 := by
      refine (Finset.card_insert_le _ _).trans (Nat.succ_le_succ ?_)
      rw [distinct]
      exact (List.toFinset_card_le _).trans (List.length_map _).le
    simp only [hbehind, true_and, hmt, ne_eq, not_false_eq_true, false_implies, true_implies, hrep]
    omega

/-- Where `rep_factor + 1` wraps, only a member with one position agrees with the
empty list of managers, about itself. -/
theorem agrees_of_max (h : Holds H r S) (hadm : Admissible H S) (hm : m ∈ S) (ht : t ∈ S)
    (hmax : r.repFactor.toNat + 1 = UInt64.size) :
    (r.isManager H m t = true ↔ m ∈ ([] : List Member)) ↔ RepeatsHarmless H false r m t := by
  have hrep : ¬ r.repFactor.toNat + 1 < UInt64.size := Nat.not_lt.mpr hmax.ge
  unfold RepeatsHarmless
  rw [isManager_iff]
  by_cases hmt : m = t
  · subst hmt
    simp only [exists_behind_self_iff h hadm hm, ne_eq, not_true_eq_false, List.not_mem_nil,
      iff_false, true_implies, Bool.false_eq_true, false_implies, true_and, and_true, not_and_or,
      not_not, Nat.not_lt]
  · have hshort := length_between_lt h hm ht hmt
    simp only [exists_behind h hm ht hmt, true_and, List.not_mem_nil, iff_false, hmt, ne_eq,
      not_false_eq_true, false_implies, true_implies, hrep, false_and]
    omega

/-- In every ring of members with distinct keys, `is_manager` and `node_managers`
return and agree about two members exactly when the repeated members of the walk
decide nothing. -/
theorem queriesAgree_iff (H : RingHash) (checks : Bool) (repFactor : UInt64)
    (ms : List Member) (hpos : ∀ m ∈ ms, 0 < m.vnodes.toNat)
    (hkeys : (ms.flatMap (ringKeys H)).Nodup) (hm : m ∈ ms) (ht : t ∈ ms) :
    QueriesAgree H checks (ofMembers H repFactor ms) m t ↔
      RepeatsHarmless H checks (ofMembers H repFactor ms) m t := by
  have hadm := admissible_of_nodup hpos hkeys
  have h := ofMembers_holds repFactor hadm
  generalize ofMembers H repFactor ms = r at h
  unfold QueriesAgree
  by_cases hrep : r.repFactor.toNat + 1 < UInt64.size
  · rw [nodeManagers_eq h ht fun _ => hrep]
    simp only [Except.ok.injEq, Option.some.injEq, exists_eq_left']
    exact agrees_of_lt h hadm hm ht hrep
  · have hmax : r.repFactor.toNat + 1 = UInt64.size :=
      Nat.le_antisymm r.repFactor.toNat_lt (Nat.le_of_not_lt hrep)
    cases checks with
    | false =>
        rw [nodeManagers_of_max h hmax ht]
        simp only [Except.ok.injEq, Option.some.injEq, exists_eq_left']
        exact agrees_of_max h hadm hm ht hmax
    | true =>
        rw [nodeManagers_overflows h ht hmax]
        unfold RepeatsHarmless
        by_cases hmt : m = t
        · simp [hmt, hrep]
        · simp [hmt, hrep]

/-- The second of the three members is a manager of the first by both queries. -/
theorem queriesAgree_iff_trio :
    QueriesAgree RingHash.byId true (ofMembers RingHash.byId 1 trio)
      ⟨Core.Socket.localhost 5001, 20, 2⟩ ⟨Core.Socket.localhost 5000, 10, 1⟩ := by
  refine (queriesAgree_iff RingHash.byId true 1 trio (by decide) (by decide) (by decide)
    (by decide)).mpr ⟨fun hself => ?_, fun _ => ⟨by decide, .inl (by decide)⟩⟩
  exact absurd hself (by decide)

/-- Two positions of the second member stand between the first and the third,
which `node_managers` lists and `is_manager` does not reach. -/
theorem queries_disagree :
    ¬ ∀ (H : RingHash) (checks : Bool) (repFactor : UInt64) (ms : List Member),
      (∀ m ∈ ms, 0 < m.vnodes.toNat) → (ms.flatMap (ringKeys H)).Nodup →
      ∀ m ∈ ms, ∀ t ∈ ms, QueriesAgree H checks (ofMembers H repFactor ms) m t := by
  intro h
  obtain ⟨ns, hns, hagree⟩ := h RingHash.byId true 2 trio (by decide) (by decide)
    ⟨Core.Socket.localhost 5002, 1500, 1⟩ (by decide) ⟨Core.Socket.localhost 5000, 10, 1⟩
    (by decide)
  have hmanager : (ofMembers RingHash.byId 2 trio).isManager RingHash.byId
      ⟨Core.Socket.localhost 5002, 1500, 1⟩ ⟨Core.Socket.localhost 5000, 10, 1⟩ = false := by
    decide
  have hlisted : (ofMembers RingHash.byId 2 trio).nodeManagers RingHash.byId true
      ⟨Core.Socket.localhost 5000, 10, 1⟩ = .ok (some
        [⟨Core.Socket.localhost 5001, 20, 2⟩, ⟨Core.Socket.localhost 5002, 1500, 1⟩]) := by decide
  rw [hlisted] at hns
  cases hns
  have htrue := hagree.mpr (by decide)
  rw [hmanager] at htrue
  cases htrue

end AurumActors.Cluster.NodeRing
