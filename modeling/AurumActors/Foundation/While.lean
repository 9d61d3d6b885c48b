/-
  Foundation/While.lean --- loops whose body may fail.

  A loop runs with fuel: it has no result when the fuel ends before the
  condition does.  What some fuel computes, more fuel computes as well, so that
  a loop returns a value when some fuel does, and runs forever when none does.
-/
import Mathlib.Tactic.TypeStar

set_option autoImplicit false

namespace AurumActors.Foundation

variable {ε σ β : Type*}

theorem bind_eq_ok_iff {α : Type*} {x : Except ε α} {f : α → Except ε β} {b : β} :
    x.bind f = .ok b ↔ ∃ a, x = .ok a ∧ f a = .ok b := by
  cases x with
  | error e =>
      constructor
      · intro h
        cases h
      · rintro ⟨a, h, -⟩
        cases h
  | ok a =>
      constructor
      · exact fun h => ⟨a, rfl, h⟩
      · rintro ⟨a', h, hb⟩
        cases h
        exact hb

theorem bind_of_ok {α : Type*} {x : Except ε α} {a : α} (h : x = .ok a)
    (f : α → Except ε β) : x.bind f = f a := by
  rw [h]
  rfl

/-- `while cond { body }`, for at most as many rounds as there is fuel. -/
def whileLoop (cond : σ → Bool) (body : σ → Except ε σ) : Nat → σ → Option (Except ε σ)
  | 0, s => if cond s then none else some (.ok s)
  | fuel + 1, s =>
      if cond s then
        match body s with
        | .error e => some (.error e)
        | .ok t => whileLoop cond body fuel t
      else some (.ok s)

/-- A loop and what comes after it. -/
def whileThen (cond : σ → Bool) (body : σ → Except ε σ) (rest : σ → Except ε β) (fuel : Nat)
    (s : σ) : Option (Except ε β) :=
  (whileLoop cond body fuel s).map fun r => r.bind rest

/-- Some fuel gives the value `b`. -/
def Returns (f : Nat → Option (Except ε β)) (b : β) : Prop := ∃ fuel, f fuel = some (.ok b)

section Loop

variable {cond : σ → Bool} {body : σ → Except ε σ}

theorem whileLoop_of_not {s : σ} (h : cond s = false) (fuel : Nat) :
    whileLoop cond body fuel s = some (.ok s) := by
  cases fuel with
  | zero => simp [whileLoop, h]
  | succ fuel => simp [whileLoop, h]

theorem whileLoop_of_error {s : σ} {e : ε} (h : cond s = true) (hbody : body s = .error e)
    (fuel : Nat) : whileLoop cond body (fuel + 1) s = some (.error e) := by
  simp [whileLoop, h, hbody]

theorem whileLoop_of_ok {s t : σ} (h : cond s = true) (hbody : body s = .ok t) (fuel : Nat) :
    whileLoop cond body (fuel + 1) s = whileLoop cond body fuel t := by
  simp [whileLoop, h, hbody]

theorem whileLoop_succ {fuel : Nat} {s : σ} {r : Except ε σ}
    (h : whileLoop cond body fuel s = some r) : whileLoop cond body (fuel + 1) s = some r := by
  induction fuel generalizing s with
  | zero =>
      cases hcond : cond s with
      | true => simp [whileLoop, hcond] at h
      | false => rw [← h, whileLoop_of_not hcond, whileLoop_of_not hcond]
  | succ fuel ih =>
      cases hcond : cond s with
      | true =>
          cases hbody : body s with
          | error e => rw [← h, whileLoop_of_error hcond hbody, whileLoop_of_error hcond hbody]
          | ok t =>
              rw [whileLoop_of_ok hcond hbody] at h ⊢
              exact ih h
      | false => rw [← h, whileLoop_of_not hcond, whileLoop_of_not hcond]

theorem whileLoop_add {fuel : Nat} {s : σ} {r : Except ε σ}
    (h : whileLoop cond body fuel s = some r) (more : Nat) :
    whileLoop cond body (fuel + more) s = some r := by
  induction more with
  | zero => exact h
  | succ more ih => exact whileLoop_succ ih

/-- A loop has one result, whatever the fuel. -/
theorem whileLoop_unique {fuel fuel' : Nat} {s : σ} {r r' : Except ε σ}
    (h : whileLoop cond body fuel s = some r) (h' : whileLoop cond body fuel' s = some r') :
    r = r' := by
  have hadd := whileLoop_add h fuel'
  rw [Nat.add_comm, whileLoop_add h' fuel] at hadd
  exact Option.some.inj hadd.symm

/-- Total correctness: an invariant under which the body succeeds, and a variant
that it lowers. -/
theorem whileLoop_total {I : σ → Prop} {v : σ → Nat}
    (hbody : ∀ s, I s → cond s = true → ∃ t, body s = .ok t ∧ I t ∧ v t < v s) {fuel : Nat}
    {s : σ} (hs : I s) (hfuel : v s ≤ fuel) :
    ∃ t, whileLoop cond body fuel s = some (.ok t) ∧ I t ∧ cond t = false := by
  induction fuel generalizing s with
  | zero =>
      cases hcond : cond s with
      | true =>
          obtain ⟨t, -, -, hv⟩ := hbody s hs hcond
          omega
      | false => exact ⟨s, whileLoop_of_not hcond 0, hs, hcond⟩
  | succ fuel ih =>
      cases hcond : cond s with
      | true =>
          obtain ⟨t, ht, hI, hv⟩ := hbody s hs hcond
          rw [whileLoop_of_ok hcond ht]
          exact ih hI (by omega)
      | false => exact ⟨s, whileLoop_of_not hcond (fuel + 1), hs, hcond⟩

/-- A loop that its body never leads out of runs forever. -/
theorem whileLoop_eq_none {I : σ → Prop}
    (hbody : ∀ s, I s → cond s = true ∧ ∃ t, body s = .ok t ∧ I t) {s : σ} (hs : I s)
    (fuel : Nat) : whileLoop cond body fuel s = none := by
  induction fuel generalizing s with
  | zero => simp [whileLoop, (hbody s hs).1]
  | succ fuel ih =>
      obtain ⟨hcond, t, ht, hI⟩ := hbody s hs
      rw [whileLoop_of_ok hcond ht]
      exact ih hI

/-- What comes after the loop starts where the loop ends. -/
theorem returns_whileThen_iff {rest : σ → Except ε β} {fuel : Nat} {s t : σ}
    (h : whileLoop cond body fuel s = some (.ok t)) (b : β) :
    Returns (whileThen cond body rest · s) b ↔ rest t = .ok b := by
  constructor
  · rintro ⟨fuel', h'⟩
    simp only [whileThen, Option.map_eq_some_iff] at h'
    obtain ⟨r, hr, hb⟩ := h'
    have heq : r = .ok t := whileLoop_unique hr h
    rw [heq] at hb
    exact hb
  · intro hb
    refine ⟨fuel, ?_⟩
    simp only [whileThen, h, Option.map_some]
    exact congrArg some hb

theorem returns_whileThen_unique {rest : σ → Except ε β} {s : σ} {b b' : β}
    (h : Returns (whileThen cond body rest · s) b)
    (h' : Returns (whileThen cond body rest · s) b') : b = b' := by
  obtain ⟨fuel, h⟩ := h
  obtain ⟨fuel', h'⟩ := h'
  simp only [whileThen, Option.map_eq_some_iff] at h h'
  obtain ⟨r, hr, hb⟩ := h
  obtain ⟨r', hr', hb'⟩ := h'
  obtain rfl : r = r' := whileLoop_unique hr hr'
  rw [hb] at hb'
  exact Except.ok.inj hb'

/-- A loop whose condition stays true has no value. -/
theorem not_returns_whileThen {I : σ → Prop} (hcond : ∀ s, I s → cond s = true)
    (hbody : ∀ s t, I s → body s = .ok t → I t) {rest : σ → Except ε β} {s : σ} (hs : I s)
    (b : β) : ¬ Returns (whileThen cond body rest · s) b := by
  rintro ⟨fuel, h⟩
  simp only [whileThen, Option.map_eq_some_iff] at h
  obtain ⟨r, hr, hb⟩ := h
  induction fuel generalizing s with
  | zero => simp [whileLoop, hcond s hs] at hr
  | succ fuel ih =>
      cases ht : body s with
      | error e =>
          rw [whileLoop_of_error (hcond s hs) ht] at hr
          obtain rfl := Option.some.inj hr
          cases hb
      | ok t =>
          rw [whileLoop_of_ok (hcond s hs) ht] at hr
          exact ih (hbody s t hs ht) hr

end Loop

end AurumActors.Foundation
