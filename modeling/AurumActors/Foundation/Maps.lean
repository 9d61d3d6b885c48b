/-
  Foundation/Maps.lean --- lookups in ordered maps whose comparison decides
  equality.
-/
import Std.Data.ExtTreeMap
import Std.Data.ExtTreeSet

set_option autoImplicit false

namespace AurumActors.Foundation

open Std

variable {κ : Type} {β : Type} [Ord κ] [TransOrd κ] [LawfulEqOrd κ]

/-! ## Sets -/

theorem mem_insert_iff (set : ExtTreeSet κ compare) (key k : κ) :
    k ∈ set.insert key ↔ k = key ∨ k ∈ set := by
  rw [ExtTreeSet.mem_insert, Std.compare_eq_iff_eq, eq_comm]

theorem mem_erase_iff (set : ExtTreeSet κ compare) (key k : κ) :
    k ∈ set.erase key ↔ k ≠ key ∧ k ∈ set := by
  rw [ExtTreeSet.mem_erase, ne_eq, Std.compare_eq_iff_eq, eq_comm, ne_eq]

theorem mem_foldl_insert {ι : Type} (f : ι → κ) (items : List ι)
    (set : ExtTreeSet κ compare) (k : κ) :
    k ∈ items.foldl (fun set i => set.insert (f i)) set ↔ k ∈ set ∨ ∃ i ∈ items, f i = k := by
  induction items generalizing set with
  | nil => simp
  | cons i items ih =>
      rw [List.foldl_cons, ih, mem_insert_iff]
      simp only [List.mem_cons, exists_eq_or_imp]
      constructor
      · rintro ((h | h) | h)
        · exact .inr (.inl h.symm)
        · exact .inl h
        · exact .inr (.inr h)
      · rintro (h | h | h)
        · exact .inl (.inr h)
        · exact .inl (.inl h.symm)
        · exact .inr h

/-! ## Maps -/

variable [DecidableEq κ]

theorem getElem?_insert_eq (map : ExtTreeMap κ β compare) (key : κ) (e : β) (k : κ) :
    (map.insert key e)[k]? = if k = key then some e else map[k]? := by
  by_cases h : k = key
  · simp [h]
  · simp [ExtTreeMap.getElem?_insert, h, Ne.symm h]

theorem getElem?_erase_eq (map : ExtTreeMap κ β compare) (key k : κ) :
    (map.erase key)[k]? = if k = key then none else map[k]? := by
  by_cases h : k = key
  · simp [h]
  · simp [ExtTreeMap.getElem?_erase, h, Ne.symm h]

/-- Writing what a key has already changes nothing. -/
theorem insert_eq_self {map : ExtTreeMap κ β compare} {key : κ} {e : β}
    (h : map[key]? = some e) : map.insert key e = map := by
  apply ExtTreeMap.ext_getElem?
  intro k
  rw [getElem?_insert_eq]
  split
  · next hk => rw [hk, h]
  · rfl

/-- What a map holds that was filled from a list. -/
theorem of_getElem?_foldl_insert {ι : Type} (f : ι → κ) (g : ι → β) (items : List ι)
    (map : ExtTreeMap κ β compare) {k : κ} {e : β}
    (h : (items.foldl (fun map i => map.insert (f i) (g i)) map)[k]? = some e) :
    map[k]? = some e ∨ ∃ i ∈ items, f i = k ∧ g i = e := by
  induction items generalizing map with
  | nil => exact .inl h
  | cons i items ih =>
      rw [List.foldl_cons] at h
      rcases ih _ h with h | ⟨j, hj, hk, he⟩
      · rw [getElem?_insert_eq] at h
        split at h
        · next hk => exact .inr ⟨i, List.mem_cons_self, hk.symm, Option.some.inj h⟩
        · exact .inl h
      · exact .inr ⟨j, List.mem_cons_of_mem _ hj, hk, he⟩

theorem isSome_getElem?_foldl_insert {ι : Type} (f : ι → κ) (g : ι → β) (items : List ι)
    (map : ExtTreeMap κ β compare) {k : κ}
    (h : map[k]?.isSome = true ∨ ∃ i ∈ items, f i = k) :
    (items.foldl (fun map i => map.insert (f i) (g i)) map)[k]?.isSome = true := by
  induction items generalizing map with
  | nil =>
      rcases h with h | ⟨i, hi, -⟩
      · exact h
      · simp at hi
  | cons i items ih =>
      rw [List.foldl_cons]
      apply ih
      rw [getElem?_insert_eq]
      rcases h with h | ⟨j, hj, hk⟩
      · refine .inl ?_
        split
        · rfl
        · exact h
      · rcases List.mem_cons.mp hj with rfl | hj
        · exact .inl (by rw [if_pos hk.symm]; rfl)
        · exact .inr ⟨j, hj, hk⟩

/-- Filling a map leaves the keys outside the list alone. -/
theorem getElem?_foldl_insert_of_notMem {ι : Type} (f : ι → κ) (g : ι → β) (items : List ι)
    (map : ExtTreeMap κ β compare) {k : κ} (h : ∀ i ∈ items, f i ≠ k) :
    (items.foldl (fun map i => map.insert (f i) (g i)) map)[k]? = map[k]? := by
  induction items generalizing map with
  | nil => rfl
  | cons i items ih =>
      rw [List.foldl_cons, ih _ fun j hj => h j (List.mem_cons_of_mem _ hj), getElem?_insert_eq,
        if_neg (Ne.symm (h i List.mem_cons_self))]

/-- A map filled from a list with distinct keys has every item of the list. -/
theorem getElem?_foldl_insert_of_mem {ι : Type} (f : ι → κ) (g : ι → β) {items : List ι}
    (hdistinct : items.Pairwise fun i j => f i ≠ f j) (map : ExtTreeMap κ β compare) {i : ι}
    (hi : i ∈ items) :
    (items.foldl (fun map i => map.insert (f i) (g i)) map)[f i]? = some (g i) := by
  induction items generalizing map with
  | nil => cases hi
  | cons j items ih =>
      obtain ⟨hj, hrest⟩ := List.pairwise_cons.mp hdistinct
      rw [List.foldl_cons]
      rcases List.mem_cons.mp hi with rfl | hi
      · rw [getElem?_foldl_insert_of_notMem f g items _ fun k hk => (hj k hk).symm,
          getElem?_insert_eq, if_pos rfl]
      · exact ih hrest _ hi

/-! ## Entries in order -/

/-- In an ordered list, the first `n` values are those with fewer than `n` values
before them. -/
theorem mem_take_iff_of_pairwise {α : Type} {R : α → α → Prop} [DecidableRel R]
    (hasymm : ∀ a b, R a b → ¬ R b a) {l : List α} (hl : l.Pairwise R) {a : α} (ha : a ∈ l)
    (n : Nat) : a ∈ l.take n ↔ (l.filter fun b => R b a).length < n := by
  induction l generalizing n with
  | nil => cases ha
  | cons b l ih =>
      obtain ⟨hb, hrest⟩ := List.pairwise_cons.mp hl
      by_cases hba : a = b
      · subst hba
        have hnone : ((a :: l).filter fun b => R b a) = [] := by
          rw [List.filter_eq_nil_iff]
          intro c hc
          rcases List.mem_cons.mp hc with rfl | hc
          · simpa using fun h => hasymm c c h h
          · simpa using hasymm a c (hb c hc)
        rw [hnone]
        cases n <;> simp
      · have hmem := (List.mem_cons.mp ha).resolve_left hba
        have hbefore : R b a := hb a hmem
        cases n with
        | zero => simp
        | succ n =>
            rw [List.take_succ_cons, List.mem_cons, or_iff_right hba, ih hrest hmem n,
              List.filter_cons, if_pos (by simpa using hbefore), List.length_cons,
              Nat.succ_lt_succ_iff]

/-! ## Unions -/

/-- One entry of a union: what both maps have is combined. -/
def combineAt (f : β → β → β) (map : ExtTreeMap κ β compare) (e : κ × β) :
    ExtTreeMap κ β compare :=
  match map[e.1]? with
  | some x => map.insert e.1 (f x e.2)
  | none => map.insert e.1 e.2

/-- The union of two maps, where `f` combines what both have. -/
def unionWith (f : β → β → β) (map other : ExtTreeMap κ β compare) : ExtTreeMap κ β compare :=
  other.toList.foldl (combineAt f) map

theorem getElem?_combineAt (f : β → β → β) (map : ExtTreeMap κ β compare) (e : κ × β) (k : κ) :
    (combineAt f map e)[k]? = if k = e.1 then Option.merge f map[k]? (some e.2) else map[k]? := by
  unfold combineAt
  by_cases hk : k = e.1
  · subst hk
    rw [if_pos rfl]
    split
    · next x hx => rw [getElem?_insert_eq, if_pos rfl, hx, Option.merge_some_some]
    · next hx => rw [getElem?_insert_eq, if_pos rfl, hx, Option.merge_none_left]
  · rw [if_neg hk]
    split <;> rw [getElem?_insert_eq, if_neg hk]

theorem getElem?_foldl_combineAt_of_notMem (f : β → β → β) (entries : List (κ × β))
    (map : ExtTreeMap κ β compare) {k : κ} (h : ∀ e ∈ entries, e.1 ≠ k) :
    (entries.foldl (combineAt f) map)[k]? = map[k]? := by
  induction entries generalizing map with
  | nil => rfl
  | cons e entries ih =>
      rw [List.foldl_cons, ih _ fun e' he' => h e' (List.mem_cons_of_mem _ he'),
        getElem?_combineAt, if_neg (Ne.symm (h e List.mem_cons_self))]

theorem getElem?_foldl_combineAt_of_mem (f : β → β → β) {entries : List (κ × β)}
    (hdistinct : entries.Pairwise fun e e' => e.1 ≠ e'.1) (map : ExtTreeMap κ β compare)
    {e : κ × β} (he : e ∈ entries) :
    (entries.foldl (combineAt f) map)[e.1]? = Option.merge f map[e.1]? (some e.2) := by
  induction entries generalizing map with
  | nil => cases he
  | cons head entries ih =>
      obtain ⟨hhead, hrest⟩ := List.pairwise_cons.mp hdistinct
      rw [List.foldl_cons]
      rcases List.mem_cons.mp he with rfl | he
      · rw [getElem?_foldl_combineAt_of_notMem f entries _ fun e' he' => (hhead e' he').symm,
          getElem?_combineAt, if_pos rfl]
      · rw [ih hrest _ he, getElem?_combineAt, if_neg (Ne.symm (hhead e he))]

theorem getElem?_unionWith (f : β → β → β) (map other : ExtTreeMap κ β compare) (k : κ) :
    (unionWith f map other)[k]? = Option.merge f map[k]? other[k]? := by
  unfold unionWith
  cases hk : other[k]? with
  | none =>
      rw [Option.merge_none_right]
      apply getElem?_foldl_combineAt_of_notMem
      rintro e he rfl
      rw [ExtTreeMap.mem_toList_iff_getElem?_eq_some.mp he] at hk
      cases hk
  | some x =>
      have hdistinct : other.toList.Pairwise fun e e' => e.1 ≠ e'.1 := by
        refine other.distinct_keys_toList.imp fun hne heq => hne ?_
        rw [Std.compare_eq_iff_eq]
        exact heq
      exact getElem?_foldl_combineAt_of_mem f hdistinct map
        (ExtTreeMap.mem_toList_iff_getElem?_eq_some.mpr hk)

/-! ### The laws of a union are those of the values -/

section Laws

variable {f : β → β → β} (a b c : ExtTreeMap κ β compare)

theorem unionWith_comm [Std.Commutative f] : unionWith f a b = unionWith f b a := by
  refine ExtTreeMap.ext_getElem? fun k => ?_
  rw [getElem?_unionWith, getElem?_unionWith]
  exact Std.Commutative.comm _ _

theorem unionWith_assoc [Std.Associative f] :
    unionWith f (unionWith f a b) c = unionWith f a (unionWith f b c) := by
  refine ExtTreeMap.ext_getElem? fun k => ?_
  simp only [getElem?_unionWith]
  exact Std.Associative.assoc _ _ _

theorem unionWith_self [Std.IdempotentOp f] : unionWith f a a = a := by
  refine ExtTreeMap.ext_getElem? fun k => ?_
  rw [getElem?_unionWith]
  exact Std.IdempotentOp.idempotent _

theorem unionWith_empty : unionWith f a ∅ = a := by
  refine ExtTreeMap.ext_getElem? fun k => ?_
  rw [getElem?_unionWith, ExtTreeMap.getElem?_empty, Option.merge_none_right]

theorem empty_unionWith : unionWith f ∅ a = a := by
  refine ExtTreeMap.ext_getElem? fun k => ?_
  rw [getElem?_unionWith, ExtTreeMap.getElem?_empty, Option.merge_none_left]

end Laws

end AurumActors.Foundation
