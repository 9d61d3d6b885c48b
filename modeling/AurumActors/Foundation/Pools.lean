/-
  Foundation/Pools.lean --- lists whose elements are known by their positions.

  A pool gets new elements at its end and changes the old ones in place.  Two
pools of one length make a table.
-/
import Mathlib.Data.List.Forall2

set_option autoImplicit false

namespace AurumActors.Foundation

variable {α : Type*} {pool : List α} {i n : Nat} {a t u v : α}

/-! ## A new element -/

theorem getElem?_concat_of_some (a : α) (h : pool[n]? = some v) : (pool ++ [a])[n]? = some v :=
  (List.getElem?_append_left (List.getElem?_eq_some_iff.mp h).1).trans h

theorem getElem?_concat_cases (h : (pool ++ [a])[n]? = some v) :
    pool[n]? = some v ∨ n = pool.length ∧ v = a := by
  rw [List.getElem?_append] at h
  split at h
  · exact .inl h
  · have hlt := (List.getElem?_eq_some_iff.mp h).1
    rw [List.length_singleton] at hlt
    exact .inr ⟨by omega, List.mem_singleton.mp (List.mem_of_getElem? h)⟩

theorem mem_takeWhile_concat {p : α → Bool} (h : v ∈ (pool ++ [a]).takeWhile p) :
    v ∈ pool.takeWhile p ∨ v = a ∧ ∀ y ∈ pool, p y = true := by
  induction pool with
  | nil =>
      rw [List.nil_append, List.takeWhile_cons] at h
      split at h
      · exact .inr ⟨List.mem_singleton.mp h, nofun⟩
      · cases h
  | cons y pool ih =>
      rw [List.cons_append, List.takeWhile_cons] at h
      split at h
      · next hy =>
          rw [List.takeWhile_cons, if_pos hy]
          rcases List.mem_cons.mp h with rfl | h
          · exact .inl List.mem_cons_self
          · refine (ih h).imp (List.mem_cons_of_mem _) fun hl => ⟨hl.1, fun z hz => ?_⟩
            rcases List.mem_cons.mp hz with rfl | hz
            · exact hy
            · exact hl.2 z hz
      · cases h

/-! ## An element changes -/

theorem getElem?_set_of_some (u : α) (h : pool[i]? = some t) : (pool.set i u)[i]? = some u :=
  List.getElem?_set_self (List.getElem?_eq_some_iff.mp h).1

theorem getElem?_set_cases (ht : pool[i]? = some t) (hv : (pool.set i u)[n]? = some v) :
    n = i ∧ v = u ∨ n ≠ i ∧ pool[n]? = some v := by
  by_cases hi : n = i
  · subst hi
    rw [getElem?_set_of_some u ht] at hv
    exact .inl ⟨rfl, (Option.some.inj hv).symm⟩
  · rw [List.getElem?_set_ne (Ne.symm hi)] at hv
    exact .inr ⟨hi, hv⟩

theorem modify_of_some (f : α → α) (h : pool[i]? = some t) :
    pool.modify i f = pool.set i (f t) := by
  rw [List.modify_eq_set_getElem?, h]
  rfl

/-! ## All elements change

The relation of the elements before and after is `List.Forall₂`. -/

variable {R : α → α → Prop} {pool' : List α}

theorem exists_after (h : List.Forall₂ R pool pool') (hv : pool[n]? = some v) :
    ∃ v', pool'[n]? = some v' ∧ R v v' := by
  induction h generalizing n with
  | nil => cases hv
  | cons hR _ ih =>
      cases n with
      | zero =>
          cases hv
          exact ⟨_, rfl, hR⟩
      | succ n => exact ih hv

theorem exists_before (h : List.Forall₂ R pool pool') (hv : pool'[n]? = some v) :
    ∃ u, pool[n]? = some u ∧ R u v :=
  exists_after (R := fun v u => R u v) h.flip hv

theorem forall₂_modify (hrefl : ∀ v, R v v) {f : α → α} (hf : ∀ v, R v (f v)) (pool : List α)
    (i : Nat) : List.Forall₂ R pool (pool.modify i f) := by
  induction pool generalizing i with
  | nil =>
      rw [List.modify_nil]
      exact .nil
  | cons v pool ih =>
      cases i with
      | zero => exact .cons (hf v) (List.forall₂_same.mpr fun w _ => hrefl w)
      | succ i => exact .cons (hrefl v) (ih i)

theorem forall₂_set (hrefl : ∀ v, R v v) (ht : pool[i]? = some t) (hR : R t u) :
    List.Forall₂ R pool (pool.set i u) := by
  induction pool generalizing i with
  | nil => cases ht
  | cons v pool ih =>
      cases i with
      | zero =>
          cases ht
          exact .cons hR (List.forall₂_same.mpr fun w _ => hrefl w)
      | succ i => exact .cons (hrefl v) (ih ht)

/-! ## Pairs -/

/-- In a list of pairs whose keys are distinct, a key is looked up where it is. -/
theorem lookup_zip {β : Type*} [BEq α] [LawfulBEq α] {keys : List α} (hkeys : keys.Nodup)
    {values : List β} {b : β} (ha : keys[i]? = some a) (hb : values[i]? = some b) :
    (keys.zip values).lookup a = some b := by
  induction keys generalizing values i with
  | nil => cases ha
  | cons key keys ih =>
      obtain ⟨hkey, hkeys⟩ := List.nodup_cons.mp hkeys
      cases values with
      | nil => cases hb
      | cons value values =>
          cases i with
          | zero =>
              cases ha
              cases hb
              exact List.lookup_cons_self
          | succ i =>
              rw [List.getElem?_cons_succ] at ha hb
              have hne : a ≠ key := fun h => hkey (h ▸ List.mem_of_getElem? ha)
              rw [List.zip_cons_cons, List.lookup_cons, beq_eq_false_iff_ne.mpr hne]
              exact ih hkeys ha hb

end AurumActors.Foundation
