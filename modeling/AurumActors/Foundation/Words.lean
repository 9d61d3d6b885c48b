/-
  Foundation/Words.lean --- arithmetic on machine words.

  Whether an operation that leaves the range of its words panics or keeps the
  low bits depends on the build, which is a parameter.
-/
import Mathlib.Algebra.Group.Nat.Defs
import Mathlib.Tactic.TypeStar

set_option autoImplicit false

namespace AurumActors.Foundation

/-- What makes a task panic. -/
inductive Trap where
  /-- a result out of the range of its words, in a build that checks for it -/
  | overflow
  /-- `unwrap` of a `None` -/
  | unwrapNone
  /-- a buffer larger than the address space allows -/
  | capacityOverflow
  /-- a slice that ends behind its buffer -/
  | sliceOutOfBounds
  deriving DecidableEq, Repr

namespace Word

variable {w : Nat}

/-- An operation whose exact result may not fit its words. -/
def checked {α : Type*} (checks : Bool) (fits : Prop) [Decidable fits] (r : α) :
    Except Trap α :=
  if checks = true ∧ ¬ fits then .error .overflow else .ok r

/-- `a + b` -/
def add (checks : Bool) (a b : BitVec w) : Except Trap (BitVec w) :=
  checked checks (a.toNat + b.toNat < 2 ^ w) (a + b)

/-- `a - b` -/
def sub (checks : Bool) (a b : BitVec w) : Except Trap (BitVec w) :=
  checked checks (b.toNat ≤ a.toNat) (a - b)

/-- `a * b` -/
def mul (checks : Bool) (a b : BitVec w) : Except Trap (BitVec w) :=
  checked checks (a.toNat * b.toNat < 2 ^ w) (a * b)

theorem checked_eq_ok_iff {α : Type*} {checks : Bool} {fits : Prop} [Decidable fits] {r s : α} :
    checked checks fits r = .ok s ↔ (checks = true → fits) ∧ r = s := by
  unfold checked
  split
  · next h =>
      constructor
      · intro hr
        cases hr
      · rintro ⟨hfits, -⟩
        exact absurd (hfits h.1) h.2
  · next h =>
      rw [Except.ok.injEq]
      constructor
      · intro hr
        exact ⟨fun hc => Classical.not_not.mp fun hn => h ⟨hc, hn⟩, hr⟩
      · exact fun hr => hr.2

/-- An operation succeeds with the words' own result, if a build that checks
finds its exact result in range. -/
theorem add_eq_ok {checks : Bool} {a b : BitVec w}
    (h : checks = true → a.toNat + b.toNat < 2 ^ w) : add checks a b = .ok (a + b) :=
  checked_eq_ok_iff.mpr ⟨h, rfl⟩

theorem sub_eq_ok {checks : Bool} {a b : BitVec w} (h : checks = true → b.toNat ≤ a.toNat) :
    sub checks a b = .ok (a - b) :=
  checked_eq_ok_iff.mpr ⟨h, rfl⟩

theorem mul_eq_ok {checks : Bool} {a b : BitVec w}
    (h : checks = true → a.toNat * b.toNat < 2 ^ w) : mul checks a b = .ok (a * b) :=
  checked_eq_ok_iff.mpr ⟨h, rfl⟩

theorem toNat_mul_of_lt {a b : BitVec w} (h : a.toNat * b.toNat < 2 ^ w) :
    (a * b).toNat = a.toNat * b.toNat := by
  rw [BitVec.toNat_mul, Nat.mod_eq_of_lt h]

end Word

end AurumActors.Foundation
