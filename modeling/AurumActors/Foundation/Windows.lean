/-
  Foundation/Windows.lean --- buffers that hold the newest entries of a history.

  Entries come in at the front.  A loop evicts at the back until there is room
  for one more.
-/
import AurumActors.Foundation.While
import Mathlib.Algebra.BigOperators.Fin
import Mathlib.Algebra.Order.Chebyshev

set_option autoImplicit false

namespace AurumActors.Foundation

/-- A loop that evicts while `cap` entries or more are there leaves the newest
`cap - 1`. -/
theorem whileLoop_evict {ε σ α : Type*} {cond : σ → Bool} {body : σ → Except ε σ}
    {items : σ → List α} {I : σ → Prop} {cap : Nat} (hcap : 1 ≤ cap)
    (hcond : ∀ s, I s → (cond s = true ↔ cap ≤ (items s).length))
    (hbody : ∀ s, I s → items s ≠ [] →
      ∃ t, body s = .ok t ∧ I t ∧ items t = (items s).dropLast)
    {s : σ} (hs : I s) :
    ∃ t, whileLoop cond body (items s).length s = some (.ok t) ∧ I t ∧
      items t = (items s).take (cap - 1) := by
  -- the invariant: what is left is a prefix that is not too short
  have hstep : ∀ t, (I t ∧ items t = (items s).take (items t).length ∧
      min (cap - 1) (items s).length ≤ (items t).length) → cond t = true →
      ∃ u, body t = .ok u ∧ (I u ∧ items u = (items s).take (items u).length ∧
        min (cap - 1) (items s).length ≤ (items u).length) ∧
        (items u).length < (items t).length := by
    rintro t ⟨hI, htake, hmin⟩ hc
    have hle : cap ≤ (items t).length := (hcond t hI).mp hc
    have hne : items t ≠ [] := List.ne_nil_of_length_pos (by omega)
    obtain ⟨u, hu, hIu, hitems⟩ := hbody t hI hne
    have hlen : (items u).length = (items t).length - 1 := by
      rw [hitems, List.length_dropLast]
    refine ⟨u, hu, ⟨hIu, ?_, by omega⟩, by omega⟩
    rw [hlen, hitems, List.dropLast_eq_take]
    calc (items t).take ((items t).length - 1)
        = ((items s).take (items t).length).take ((items t).length - 1) :=
          congrArg (List.take _) htake
      _ = (items s).take ((items t).length - 1) := by
          rw [List.take_take, Nat.min_eq_left (Nat.sub_le _ _)]
  have hloop := whileLoop_total hstep ⟨hs, by simp, by omega⟩ (Nat.le_refl (items s).length)
  obtain ⟨t, ht, ⟨hI, htake, hmin⟩, hc⟩ := hloop
  refine ⟨t, ht, hI, ?_⟩
  have hlt : ¬ cap ≤ (items t).length := fun h => by
    rw [(hcond t hI).mpr h] at hc
    cases hc
  have hlen : (items t).length ≤ (items s).length := by
    rw [htake, List.length_take]
    omega
  rw [htake]
  apply List.take_eq_take_iff.mpr
  omega

/-- The square of a sum is at most the number of the summands times the sum of
their squares. -/
theorem sum_sq_le_length_mul (xs : List Nat) :
    xs.sum ^ 2 ≤ xs.length * (xs.map (· ^ 2)).sum := by
  have h := sq_sum_le_card_mul_sum_sq (s := Finset.univ) (f := fun i : Fin xs.length => xs[i])
  rw [Finset.card_univ, Fintype.card_fin] at h
  have hsum : ∑ i : Fin xs.length, xs[i] = xs.sum := Fin.sum_univ_getElem xs
  have hsq : ∑ i : Fin xs.length, xs[i] ^ 2 = (xs.map (· ^ 2)).sum :=
    Fin.sum_univ_fun_getElem xs (· ^ 2)
  rw [hsum, hsq] at h
  exact h

/-- At most `c` summands of which `c` times each is below a bound. -/
theorem sum_lt_of_mul_lt {c bound : Nat} (hbound : 0 < bound) (f : Nat → Nat) {xs : List Nat}
    (hlen : xs.length ≤ c) (hlt : ∀ x ∈ xs, c * f x < bound) : (xs.map f).sum < bound := by
  have hmul : c * (xs.map f).sum ≤ xs.length * (bound - 1) := by
    clear hlen
    induction xs with
    | nil => simp
    | cons x xs ih =>
        have hx := hlt x (List.mem_cons_self ..)
        have hxs := ih fun y hy => hlt y (List.mem_cons_of_mem _ hy)
        rw [List.map_cons, List.sum_cons, List.length_cons, Nat.mul_add, Nat.succ_mul]
        omega
  have hle : c * (xs.map f).sum ≤ c * (bound - 1) :=
    Nat.le_trans hmul (Nat.mul_le_mul_right _ hlen)
  rcases Nat.eq_zero_or_pos c with hc | hc
  · have hnil : xs = [] := List.length_eq_zero_iff.mp (by omega)
    simpa [hnil] using hbound
  · have := Nat.le_of_mul_le_mul_left hle hc
    omega

end AurumActors.Foundation
