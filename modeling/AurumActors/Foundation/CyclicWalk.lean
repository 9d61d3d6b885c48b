/-
  Foundation/CyclicWalk.lean --- walks around a cyclic list.

  A cyclic list is a list up to rotation.  This file collects what a walk around
  it needs: the distinct values a prefix meets, the first occurrence of a value,
  and the fact that a duplicate-free cyclic list is determined by where the walk
  starts.
-/
import Mathlib.Data.Finset.Dedup
import Mathlib.Data.Finset.Card
import Mathlib.Data.List.Rotate

set_option autoImplicit false

namespace AurumActors.Foundation

/-! ## First occurrences -/

section FirstOccurrences

variable {α : Type} [DecidableEq α]

theorem nodup_eraseDups : ∀ l : List α, l.eraseDups.Nodup
  | [] => by simp
  | a :: l => by
      rw [List.eraseDups_cons, List.nodup_cons]
      refine ⟨?_, nodup_eraseDups _⟩
      simp [List.mem_eraseDups]
termination_by l => l.length
decreasing_by exact Nat.lt_succ_of_le (List.length_filter_le _ _)

/-- `eraseDups` keeps one copy of each value. -/
theorem length_eraseDups (l : List α) : l.eraseDups.length = l.toFinset.card := by
  rw [← List.toFinset_card_of_nodup (nodup_eraseDups l)]
  congr 1
  ext a
  simp [List.mem_eraseDups]

/-- A value that first occurs after `before` is among the first `n` distinct
values exactly when `before` holds fewer than `n` of them. -/
theorem mem_take_eraseDups {before after : List α} {a : α} (ha : a ∉ before) (n : Nat) :
    a ∈ ((before ++ a :: after).eraseDups).take n ↔ before.toFinset.card < n := by
  have hrest : (a :: after).removeAll before = a :: after.removeAll before := by
    simp [List.removeAll, ha]
  rw [List.eraseDups_append, hrest, List.eraseDups_cons, List.take_append,
    List.mem_append, length_eraseDups]
  have hbefore : a ∉ before.eraseDups.take n := fun h =>
    ha (List.mem_eraseDups.mp (List.mem_of_mem_take h))
  constructor
  · rintro (h | h)
    · exact absurd h hbefore
    · by_contra hn
      rw [Nat.sub_eq_zero_of_le (Nat.le_of_not_lt hn)] at h
      simp at h
  · intro h
    refine Or.inr ?_
    obtain ⟨k, hk⟩ : ∃ k, n - before.toFinset.card = k + 1 :=
      ⟨n - before.toFinset.card - 1, by omega⟩
    rw [hk, List.take_succ_cons]
    exact List.mem_cons_self

/-- The distinct values without some of them. -/
theorem eraseDups_filter (p : α → Bool) : ∀ l : List α,
    (l.filter p).eraseDups = l.eraseDups.filter p
  | [] => rfl
  | a :: l => by
      have ih := eraseDups_filter p (l.filter fun b => !b == a)
      rw [List.filter_cons, List.eraseDups_cons, List.filter_cons]
      split
      · rw [List.eraseDups_cons, ← ih, List.filter_filter, List.filter_filter]
        simp only [Bool.and_comm]
      · next ha =>
          have hskip : (l.filter fun b => !b == a).filter p = l.filter p := by
            rw [List.filter_filter]
            refine List.filter_congr fun b _ => ?_
            by_cases hb : b = a
            · simp [hb, ha]
            · simp [hb]
          rw [← ih, hskip]
termination_by l => l.length
decreasing_by exact Nat.lt_succ_of_le (List.length_filter_le _ _)

/-- The first `n` values other than `x` are among the first `n + 1` values. -/
theorem take_filter_ne {l : List α} (hnodup : l.Nodup) (x : α) (n : Nat) :
    (l.filter (· ≠ x)).take n = ((l.take (n + 1)).filter (· ≠ x)).take n := by
  induction l generalizing n with
  | nil => simp
  | cons a l ih =>
      obtain ⟨ha, hl⟩ := List.nodup_cons.mp hnodup
      by_cases hx : a = x
      · subst hx
        have hall : ∀ k, (l.take k).filter (· ≠ a) = l.take k := by
          intro k
          rw [List.filter_eq_self]
          intro b hb
          have hne : b ≠ a := fun h => ha (h ▸ List.mem_of_mem_take hb)
          simpa using hne
        have hself : l.filter (· ≠ a) = l := by
          have h := hall l.length
          rwa [List.take_length] at h
        have hhead : (decide (a ≠ a)) = false := by simp
        rw [List.take_succ_cons, List.filter_cons, List.filter_cons, hhead]
        simp only [Bool.false_eq_true, if_false]
        rw [hself, hall, List.take_take, Nat.min_self]
      · cases n with
        | zero => rfl
        | succ n =>
            simp only [List.take_succ_cons, List.filter_cons, hx, ne_eq, not_false_eq_true,
              decide_true, if_true, List.cons.injEq, true_and]
            exact ih hl n

end FirstOccurrences

section FirstSplit

variable {α β : Type}

/-- A prefix holds a marked value if the first one stands in it. -/
theorem any_take_iff (mark : β → Bool) (l : List β) (n : Nat) :
    (l.take n).any mark = true ↔
      l.any mark = true ∧ (l.takeWhile fun b => !mark b).length < n := by
  induction l generalizing n with
  | nil => simp
  | cons a l ih =>
      cases n with
      | zero => simp
      | succ n =>
          cases ha : mark a with
          | true => simp [ha]
          | false => simp [ha, ih]

/-- The part before the first occurrence of a value is determined. -/
theorem append_cons_inj_of_notMem {f : β → α} {u u' v v' : List β} {e e' : β}
    (h : u ++ e :: v = u' ++ e' :: v') (hu : ∀ b ∈ u, f b ≠ f e) (hu' : ∀ b ∈ u', f b ≠ f e')
    (he : f e = f e') : u = u' ∧ e = e' ∧ v = v' := by
  induction u generalizing u' with
  | nil =>
      cases u' with
      | nil => simpa using h
      | cons b u' =>
          have hb : e = b := by simpa using (List.cons.inj h).1
          exact absurd (by rw [← hb, he]) (hu' b List.mem_cons_self)
  | cons a u ih =>
      cases u' with
      | nil =>
          have ha : a = e' := by simpa using (List.cons.inj h).1
          exact absurd (by rw [ha, he]) (hu a List.mem_cons_self)
      | cons b u' =>
          obtain ⟨hab, htail⟩ := List.cons.inj h
          obtain ⟨h1, h2, h3⟩ := ih htail (fun b hb => hu b (List.mem_cons_of_mem _ hb))
            (fun b hb => hu' b (List.mem_cons_of_mem _ hb))
          exact ⟨by rw [hab, h1], h2, h3⟩

/-- A list that contains the value `a` splits at its first occurrence. -/
theorem exists_first_split {f : β → α} {l : List β} {a : α}
    (h : ∃ b ∈ l, f b = a) : ∃ u e v, l = u ++ e :: v ∧ f e = a ∧ ∀ b ∈ u, f b ≠ a := by
  induction l with
  | nil => simp at h
  | cons b l ih =>
      by_cases hb : f b = a
      · exact ⟨[], b, l, rfl, hb, by simp⟩
      · obtain ⟨c, hc, hfc⟩ := h
        have hcl : c ∈ l := by
          rcases List.mem_cons.mp hc with rfl | hc
          · exact absurd hfc hb
          · exact hc
        obtain ⟨u, e, v, rfl, he, hu⟩ := ih ⟨c, hcl, hfc⟩
        refine ⟨b :: u, e, v, rfl, he, ?_⟩
        intro c hc
        rcases List.mem_cons.mp hc with rfl | hc
        · exact hb
        · exact hu c hc

/-- A marked entry of `a :: l` is `a` itself or a marked entry of `l`. -/
theorem exists_split_cons (mark : β → Prop) (upTo : List β → Prop) (a : β) (l : List β) :
    (∃ u e v, a :: l = u ++ e :: v ∧ mark e ∧ upTo (u ++ [e])) ↔
      (mark a ∧ upTo [a]) ∨ ∃ u e v, l = u ++ e :: v ∧ mark e ∧ upTo (a :: (u ++ [e])) := by
  constructor
  · rintro ⟨u, e, v, hl, he, hup⟩
    cases u with
    | nil =>
        obtain ⟨rfl, rfl⟩ := List.cons.inj hl
        exact Or.inl ⟨he, hup⟩
    | cons b u =>
        obtain ⟨rfl, htail⟩ := List.cons.inj hl
        exact Or.inr ⟨u, e, v, htail, he, hup⟩
  · rintro (⟨ha, hup⟩ | ⟨u, e, v, rfl, he, hup⟩)
    · exact ⟨[], a, l, rfl, ha, hup⟩
    · exact ⟨a :: u, e, v, rfl, he, hup⟩

end FirstSplit

/-! ## Rotations -/

section Rotations

variable {α : Type}

/-- Two rotations of a duplicate-free list that start at the same value are
equal. -/
theorem eq_of_isRotated_cons {a : α} {s t : List α} (hnodup : (a :: s).Nodup)
    (hrot : (a :: s) ~r (a :: t)) : s = t := by
  obtain ⟨n, hn⟩ := hrot
  have hlen : 0 < (a :: s).length := by simp
  have hget : (a :: s)[n % (a :: s).length]? = (a :: s)[0]? := by
    have h0 : ((a :: s).rotate n)[0]? = some a := by simp [hn]
    rw [List.getElem?_rotate hlen, Nat.zero_add] at h0
    exact h0
  have hmod : n % (a :: s).length = 0 :=
    (List.getElem?_inj (Nat.mod_lt _ hlen) hnodup).mp hget
  rw [← List.rotate_mod, hmod, List.rotate_zero] at hn
  exact (List.cons.inj hn).2

/-- Walking on from another entry of a cyclic list. -/
theorem walk_from {e : α} {w u v rest : List α} (hnodup : w.Nodup)
    (hw : w = u ++ e :: v) (hrot : w ~r (e :: rest)) : rest = v ++ u := by
  have hself : w ~r (e :: (v ++ u)) := by
    rw [hw, ← List.cons_append]
    exact List.isRotated_append
  have hnd : (e :: (v ++ u)).Nodup := hself.nodup_iff.mp hnodup
  exact (eq_of_isRotated_cons hnd (hself.symm.trans hrot)).symm

end Rotations

end AurumActors.Foundation
