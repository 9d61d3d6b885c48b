/-
  Foundation/Blocks.lean --- blocks of equal neighbours in a list.

  A list whose entries stand in one block each changes once less often than it
  has distinct entries.  Any list in which a block comes back changes more
  often.
-/
import Mathlib.Data.List.Dedup

set_option autoImplicit false

namespace AurumActors.Foundation

variable {α : Type*}

/-! ## Entries that come back -/

/-- Some entry comes back after a different one. -/
def Interleaved (l : List α) : Prop := ∃ a b, a ≠ b ∧ [a, b, a].Sublist l

theorem not_interleaved_singleton (a : α) : ¬ Interleaved [a] := by
  rintro ⟨b, c, -, h⟩
  have := h.length_le
  simp at this

theorem Interleaved.cons {l : List α} (h : Interleaved l) (a : α) : Interleaved (a :: l) := by
  obtain ⟨b, c, hne, hsub⟩ := h
  exact ⟨b, c, hne, hsub.cons a⟩

/-- A new entry in front does not come back. -/
theorem interleaved_cons_of_notMem {a : α} {l : List α} (ha : a ∉ l) :
    Interleaved (a :: l) ↔ Interleaved l := by
  constructor
  · rintro ⟨b, c, hne, hsub⟩
    cases hsub with
    | cons _ hsub => exact ⟨b, c, hne, hsub⟩
    | cons_cons _ hsub => exact absurd (hsub.subset (by simp)) ha
  · exact fun h => h.cons a

/-- An entry in front of an equal one changes nothing. -/
theorem interleaved_cons_self (a : α) (l : List α) :
    Interleaved (a :: a :: l) ↔ Interleaved (a :: l) := by
  constructor
  · rintro ⟨b, c, hne, hsub⟩
    cases hsub with
    | cons _ hsub => exact ⟨b, c, hne, hsub⟩
    | cons_cons _ hsub =>
        refine ⟨a, c, hne, ?_⟩
        cases hsub with
        | cons _ hsub => exact hsub.cons_cons a
        | cons_cons _ hsub => exact absurd rfl hne
  · exact fun h => h.cons a

/-- An entry in front of a different one comes back if it is there. -/
theorem interleaved_cons_of_mem {a b : α} {l : List α} (hne : a ≠ b) (ha : a ∈ b :: l) :
    Interleaved (a :: b :: l) := by
  refine ⟨a, b, hne, (List.Sublist.cons_cons b ?_).cons_cons a⟩
  rcases List.mem_cons.mp ha with rfl | ha
  · exact absurd rfl hne
  · exact List.singleton_sublist.mpr ha

/-! ## Changes -/

variable [DecidableEq α]

/-- The number of neighbours in a list that are not equal. -/
def changesIn (l : List α) : Nat := (l.zip l.tail).countP fun p => p.1 ≠ p.2

@[simp] theorem changesIn_nil : changesIn ([] : List α) = 0 := rfl

@[simp] theorem changesIn_singleton (a : α) : changesIn [a] = 0 := rfl

theorem changesIn_cons_cons (a b : α) (l : List α) :
    changesIn (a :: b :: l) = changesIn (b :: l) + if a ≠ b then 1 else 0 := by
  simp [changesIn, List.countP_cons]

/-- One more entry in front, compared with the one that was there. -/
theorem changesIn_cons (a : α) (l : List α) :
    changesIn (a :: l) = changesIn l + if l.head?.any (· ≠ a) then 1 else 0 := by
  cases l with
  | nil => rfl
  | cons b l =>
      have hne : a ≠ b ↔ b ≠ a := ne_comm
      simp only [changesIn_cons_cons, List.head?_cons, Option.any_some, decide_eq_true_eq, hne]

/-- One more entry at the back, compared with the one that was there. -/
theorem changesIn_concat (l : List α) (a : α) :
    changesIn (l ++ [a]) = changesIn l + if l.getLast?.any (· ≠ a) then 1 else 0 := by
  induction l with
  | nil => rfl
  | cons b l ih =>
      cases l with
      | nil => simp [changesIn_cons_cons]
      | cons c l =>
          rw [List.cons_append, List.cons_append, changesIn_cons_cons, changesIn_cons_cons,
            ← List.cons_append, ih, List.getLast?_cons_cons]
          omega

theorem changesIn_le (l : List α) : changesIn l ≤ l.length - 1 := by
  have h := List.countP_le_length (p := fun p => p.1 ≠ p.2) (l := l.zip l.tail)
  rw [List.length_zip, List.length_tail] at h
  exact Nat.le_trans h (Nat.min_le_right _ _)

/-- The distinct entries of a list that is not empty are at most one more than
its changes, and exactly one more unless an entry comes back. -/
theorem length_dedup_blocks (l : List α) (hne : l ≠ []) :
    l.dedup.length ≤ changesIn l + 1 ∧
      (changesIn l + 1 = l.dedup.length ↔ ¬ Interleaved l) := by
  induction l with
  | nil => exact absurd rfl hne
  | cons a l ih =>
      cases l with
      | nil => simpa using not_interleaved_singleton a
      | cons b l =>
          obtain ⟨hle, hiff⟩ := ih (List.cons_ne_nil b l)
          by_cases hab : a = b
          · subst hab
            rw [changesIn_cons_cons, if_neg (not_not.mpr rfl),
              List.dedup_cons_of_mem List.mem_cons_self, interleaved_cons_self]
            exact ⟨hle, hiff⟩
          · rw [changesIn_cons_cons, if_pos hab]
            by_cases ha : a ∈ b :: l
            · -- a change, but no new entry
              rw [List.dedup_cons_of_mem ha]
              refine ⟨by omega, fun h => by omega, fun h => ?_⟩
              exact absurd (interleaved_cons_of_mem hab ha) h
            · rw [List.dedup_cons_of_notMem ha, List.length_cons,
                interleaved_cons_of_notMem ha, ← hiff]
              omega

end AurumActors.Foundation
