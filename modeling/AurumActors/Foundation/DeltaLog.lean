/-
  Foundation/DeltaLog.lean --- versions of a growing value and the deltas
  between them.

  A value only grows in a join semilattice, and every version is the join of the
  version before it and one delta.  Someone who has version `lo` or more gets
  version `hi` from the deltas after `lo`; deltas that everybody has may be
  dropped from the front.
-/
import AurumActors.Foundation.Pools
import Mathlib.Order.Lattice
import Mathlib.Order.BoundedOrder.Lattice
import Mathlib.Tactic.Common

set_option autoImplicit false

namespace AurumActors.Foundation

variable {α : Type*} [SemilatticeSup α]

/-- `deltas` lead from version `lo` of the history to version `hi`. -/
structure DeltaLog (hist : Nat → α) (lo hi : Nat) (deltas : List α) : Prop where
  length : lo + deltas.length = hi
  covers : ∀ (k : Nat) (d : α), deltas[k]? = some d → hist (lo + k + 1) ≤ hist (lo + k) ⊔ d

namespace DeltaLog

variable {hist : Nat → α} {lo hi : Nat} {deltas : List α}

theorem nil (hist : Nat → α) (lo : Nat) : DeltaLog hist lo lo [] where
  length := rfl
  covers k d h := by simp at h

theorem le (h : DeltaLog hist lo hi deltas) : lo ≤ hi := by
  have := h.length
  omega

/-- A new version goes to the back. -/
theorem push (h : DeltaLog hist lo hi deltas) {d : α}
    (hd : hist (hi + 1) ≤ hist hi ⊔ d) : DeltaLog hist lo (hi + 1) (deltas ++ [d]) where
  length := by
    have := h.length
    simp
    omega
  covers := by
    intro k e he
    rcases getElem?_concat_cases he with he | ⟨rfl, rfl⟩
    · exact h.covers k e he
    · rw [h.length]
      exact hd

/-- The oldest versions are dropped. -/
theorem drop (h : DeltaLog hist lo hi deltas) {n : Nat} (hn : n ≤ deltas.length) :
    DeltaLog hist (lo + n) hi (deltas.drop n) where
  length := by
    have := h.length
    simp
    omega
  covers := by
    intro k d hd
    rw [List.getElem?_drop] at hd
    have := h.covers (n + k) d hd
    rwa [← Nat.add_assoc] at this

/-- Only the versions of the log matter. -/
theorem congr (h : DeltaLog hist lo hi deltas) {hist' : Nat → α}
    (heq : ∀ k ≤ hi, hist' k = hist k) : DeltaLog hist' lo hi deltas where
  length := h.length
  covers := by
    intro k d hd
    have hk : k < deltas.length := (List.getElem?_eq_some_iff.mp hd).1
    have := h.length
    rw [heq _ (by omega), heq _ (by omega)]
    exact h.covers k d hd

/-- The join of a version and of the deltas after it is above the last version. -/
theorem le_foldl (h : DeltaLog hist lo hi deltas) (a : α) (ha : hist lo ≤ a) :
    hist hi ≤ deltas.foldl (· ⊔ ·) a := by
  induction deltas generalizing lo a with
  | nil =>
      rw [← h.length]
      exact ha
  | cons d deltas ih =>
      have hd := h.covers 0 d rfl
      have hnext : hist (lo + 1) ≤ a ⊔ d := hd.trans (sup_le_sup_right ha d)
      exact ih (h.drop (n := 1) (by simp)) (a ⊔ d) hnext

theorem foldl_sup_left (deltas : List α) (a b : α) :
    deltas.foldl (· ⊔ ·) (a ⊔ b) = a ⊔ deltas.foldl (· ⊔ ·) b := by
  induction deltas generalizing b with
  | nil => rfl
  | cons d deltas ih => rw [List.foldl_cons, List.foldl_cons, sup_assoc, ih]

/-- Whoever has version `lo` has version `hi` after joining the deltas. -/
theorem le_sup_foldl [OrderBot α] (h : DeltaLog hist lo hi deltas) {a : α} (ha : hist lo ≤ a) :
    hist hi ≤ a ⊔ deltas.foldl (· ⊔ ·) ⊥ := by
  have := h.le_foldl a ha
  rwa [← foldl_sup_left, sup_bot_eq]

end DeltaLog

end AurumActors.Foundation
