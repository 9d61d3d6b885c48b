/-
  Foundation/Run.lean --- labelled transition systems and their runs.

  A system has initial states and a step relation whose labels say which move
  was made.  A run records the labels in order.  The rules below turn a fact
  about one step into a fact about every run, every reachable state, or every
  run whose steps meet a side condition.
-/
import Mathlib.Tactic.TypeStar

set_option autoImplicit false

namespace AurumActors.Foundation

/-- A labelled transition system. -/
structure System (σ α : Type*) where
  init : σ → Prop
  step : σ → α → σ → Prop

namespace System

variable {σ α : Type*}

/-- `Run S s as t`: the moves `as` lead from `s` to `t`. -/
inductive Run (S : System σ α) (s : σ) : List α → σ → Prop
  | nil : Run S s [] s
  | snoc {as : List α} {a : α} {t u : σ} :
      Run S s as t → S.step t a u → Run S s (as ++ [a]) u

/-- The states a run from an initial state ends in. -/
def Reachable (S : System σ α) (t : σ) : Prop :=
  ∃ s as, S.init s ∧ S.Run s as t

/-- A run leads from `s` through `u` to `t`. -/
def Through (S : System σ α) (s u t : σ) : Prop :=
  (∃ as, S.Run s as u) ∧ ∃ bs, S.Run u bs t

/-- The system whose moves all meet a condition on the state before them. -/
def restrict (S : System σ α) (C : σ → α → Prop) : System σ α where
  init := S.init
  step s a t := S.step s a t ∧ C s a

/-- The system of a partial function that makes a move, from one state. -/
def ofNext (start : σ) (next : σ → α → Option σ) : System σ α where
  init s := s = start
  step s a t := next s a = some t

/-- The state after a list of moves, if all of them can be made. -/
def exec (next : σ → α → Option σ) (s : σ) : List α → Option σ
  | [] => some s
  | a :: as => (next s a).bind fun t => exec next t as

/-- `exec` of moves that meet a condition. -/
def execWhere (C : σ → α → Prop) [∀ s, DecidablePred (C s)] (next : σ → α → Option σ) (s : σ)
    (as : List α) : Option σ :=
  exec (fun s a => if C s a then next s a else none) s as

variable {S : System σ α}

/-- What every step keeps, a run keeps. -/
theorem Run.invariant {I : σ → Prop} (hstep : ∀ s a t, I s → S.step s a t → I t)
    {s t : σ} {as : List α} (h : S.Run s as t) (hs : I s) : I t := by
  induction h with
  | nil => exact hs
  | snoc _ hst ih => exact hstep _ _ _ ih hst

/-- A reflexive and transitive relation that holds across every step holds
across every run. -/
theorem Run.relates {R : σ → σ → Prop} (hrefl : ∀ s, R s s)
    (htrans : ∀ s t u, R s t → R t u → R s u) (hstep : ∀ s a t, S.step s a t → R s t)
    {s t : σ} {as : List α} (h : S.Run s as t) : R s t := by
  induction h with
  | nil => exact hrefl s
  | snoc _ hst ih => exact htrans _ _ _ ih (hstep _ _ _ hst)

theorem Run.eq_of_nil {s t : σ} (h : S.Run s [] t) : s = t := by
  generalize has : ([] : List α) = as at h
  cases h with
  | nil => rfl
  | snoc _ _ => exact absurd has.symm (List.append_ne_nil_of_right_ne_nil _ (List.cons_ne_nil _ _))

theorem Run.of_snoc {s u : σ} (as : List α) {a : α} (h : S.Run s (as ++ [a]) u) :
    ∃ t, S.Run s as t ∧ S.step t a u := by
  generalize has : as ++ [a] = bs at h
  cases h with
  | nil => exact absurd has (List.append_ne_nil_of_right_ne_nil _ (List.cons_ne_nil _ _))
  | snoc hrun hst =>
      obtain ⟨rfl, hlast⟩ := List.append_inj' has rfl
      cases hlast
      exact ⟨_, hrun, hst⟩

/-- Where a move leads to one state at most, so do the moves of a run. -/
theorem Run.unique (hstep : ∀ s a t t', S.step s a t → S.step s a t' → t = t') {s t t' : σ}
    {as : List α} (h : S.Run s as t) (h' : S.Run s as t') : t = t' := by
  induction h generalizing t' with
  | nil => exact h'.eq_of_nil
  | snoc _ hst ih =>
      obtain ⟨u, hrun, hst'⟩ := Run.of_snoc _ h'
      obtain rfl := ih hrun
      exact hstep _ _ _ _ hst hst'

/-- A relation that every step of one system keeps, for some step of another one
with the same move, is kept by the runs with the same moves. -/
theorem Run.simulates {τ : Type*} {T : System τ α} {R : σ → τ → Prop}
    (hstep : ∀ s a s' t, R s t → S.step s a s' → ∃ t', T.step t a t' ∧ R s' t')
    {s s' : σ} {t : τ} {as : List α} (h : S.Run s as s') (hR : R s t) :
    ∃ t', T.Run t as t' ∧ R s' t' := by
  induction h with
  | nil => exact ⟨t, .nil, hR⟩
  | snoc _ hst ih =>
      obtain ⟨u, hrun, hu⟩ := ih
      obtain ⟨t', hst', ht'⟩ := hstep _ _ _ _ hu hst
      exact ⟨t', .snoc hrun hst', ht'⟩

theorem Run.append {s t u : σ} {as bs : List α} (h : S.Run s as t) (h' : S.Run t bs u) :
    S.Run s (as ++ bs) u := by
  induction h' with
  | nil => simpa using h
  | snoc _ hst ih =>
      rw [← List.append_assoc]
      exact .snoc ih hst

/-- A run splits at every cut point of its moves. -/
theorem Run.split {s u : σ} (as bs : List α) (h : S.Run s (as ++ bs) u) :
    ∃ t, S.Run s as t ∧ S.Run t bs u := by
  generalize hcs : as ++ bs = cs at h
  induction h generalizing bs with
  | nil =>
      obtain ⟨rfl, rfl⟩ := List.append_eq_nil_iff.mp hcs
      exact ⟨s, .nil, .nil⟩
  | @snoc cs c v u hrun hst ih =>
      rcases List.eq_nil_or_concat bs with rfl | ⟨bs', b, rfl⟩
      · rw [List.append_nil] at hcs
        exact ⟨u, hcs ▸ .snoc hrun hst, .nil⟩
      · rw [List.concat_eq_append] at hcs ⊢
        rw [← List.append_assoc] at hcs
        obtain ⟨hinit, hlast⟩ := List.append_inj' hcs rfl
        cases hlast
        obtain ⟨t, hbefore, hafter⟩ := ih bs' hinit
        exact ⟨t, hbefore, .snoc hafter hst⟩

/-- A run of a system whose steps another system can make is a run of that one. -/
theorem Run.mono {T : System σ α} (hstep : ∀ s a t, S.step s a t → T.step s a t) {s t : σ}
    {as : List α} (h : S.Run s as t) : T.Run s as t := by
  induction h with
  | nil => exact .nil
  | snoc _ hst ih => exact .snoc ih (hstep _ _ _ hst)

theorem Run.of_restrict {C : σ → α → Prop} {s t : σ} {as : List α}
    (h : (S.restrict C).Run s as t) : S.Run s as t :=
  h.mono fun _ _ _ => And.left

theorem Through.snoc {s u t v : σ} {a : α} (h : S.Through s u t) (hst : S.step t a v) :
    S.Through s u v := by
  obtain ⟨hbefore, bs, hafter⟩ := h
  exact ⟨hbefore, bs ++ [a], .snoc hafter hst⟩

theorem Reachable.mono {T : System σ α} (hinit : ∀ s, S.init s → T.init s)
    (hstep : ∀ s a t, S.step s a t → T.step s a t) {t : σ} (h : S.Reachable t) :
    T.Reachable t := by
  obtain ⟨s, as, hs, hrun⟩ := h
  exact ⟨s, as, hinit s hs, hrun.mono hstep⟩

theorem Reachable.of_restrict {C : σ → α → Prop} {t : σ} (h : (S.restrict C).Reachable t) :
    S.Reachable t :=
  h.mono (S := S.restrict C) (T := S) (fun _ => id) fun _ _ _ => And.left

/-- Two conditions can be met one after the other. -/
theorem Reachable.restrict_restrict {C D : σ → α → Prop} {t : σ}
    (h : (S.restrict fun s a => C s a ∧ D s a).Reachable t) :
    ((S.restrict C).restrict D).Reachable t :=
  h.mono (S := S.restrict fun s a => C s a ∧ D s a) (T := (S.restrict C).restrict D)
    (fun _ => id) fun _ _ _ hst => ⟨⟨hst.1, hst.2.1⟩, hst.2.2⟩

theorem Reachable.of_init {s : σ} (h : S.init s) : S.Reachable s := ⟨s, [], h, .nil⟩

theorem Reachable.step {s t : σ} {a : α} (h : S.Reachable s) (hst : S.step s a t) :
    S.Reachable t := by
  obtain ⟨s₀, as, h₀, hrun⟩ := h
  exact ⟨s₀, as ++ [a], h₀, .snoc hrun hst⟩

theorem Reachable.run {s t : σ} {as : List α} (h : S.Reachable s) (hrun : S.Run s as t) :
    S.Reachable t := by
  obtain ⟨s₀, bs, h₀, hrun₀⟩ := h
  exact ⟨s₀, bs ++ as, h₀, hrun₀.append hrun⟩

/-- The invariant rule: what holds initially and is kept by the steps from
reachable states holds in every reachable state. -/
theorem Reachable.invariant {I : σ → Prop} (hinit : ∀ s, S.init s → I s)
    (hstep : ∀ s a t, S.Reachable s → I s → S.step s a t → I t) {t : σ}
    (h : S.Reachable t) : I t := by
  obtain ⟨s, as, hs, hrun⟩ := h
  induction hrun with
  | nil => exact hinit s hs
  | snoc hrun hst ih => exact hstep _ _ _ ⟨s, _, hs, hrun⟩ ih hst

/-- The projection rule: a system whose steps, seen through a map, are steps of
another one or none reaches only what the other one reaches. -/
theorem Reachable.project {τ β : Type*} {T : System τ β} (f : σ → τ)
    (hinit : ∀ s, S.init s → T.init (f s))
    (hstep : ∀ s a t, S.Reachable s → S.step s a t → f t = f s ∨ ∃ b, T.step (f s) b (f t))
    {t : σ} (h : S.Reachable t) : T.Reachable (f t) := by
  refine h.invariant (I := fun s => T.Reachable (f s)) (fun s hs => .of_init (hinit s hs))
    fun s a t hreach hs hst => ?_
  rcases hstep s a t hreach hst with hsame | ⟨b, hb⟩
  · exact hsame ▸ hs
  · exact hs.step hb

/-- A list of moves that a function makes is a run, if the function makes steps. -/
theorem run_of_exec {next : σ → α → Option σ}
    (hnext : ∀ s a t, next s a = some t → S.step s a t) (as : List α) {s t : σ}
    (h : exec next s as = some t) : S.Run s as t := by
  induction as generalizing s with
  | nil =>
      cases h
      exact .nil
  | cons a as ih =>
      obtain ⟨u, hu, hexec⟩ := Option.bind_eq_some_iff.mp h
      exact (Run.snoc .nil (hnext s a u hu)).append (ih hexec)

/-- A list of moves that can be made leads to a reachable state. -/
theorem reachable_of_exec {start : σ} {next : σ → α → Option σ} (as : List α) :
    ∀ {s t : σ}, (ofNext start next).Reachable s → exec next s as = some t →
      (ofNext start next).Reachable t := by
  induction as with
  | nil =>
      intro s t h hexec
      cases hexec
      exact h
  | cons a as ih =>
      intro s t h hexec
      obtain ⟨u, hu, hexec⟩ := Option.bind_eq_some_iff.mp hexec
      exact ih (h.step hu) hexec

theorem reachable_of_execWhere {start : σ} {C : σ → α → Prop} [∀ s, DecidablePred (C s)]
    {next : σ → α → Option σ} (as : List α) :
    ∀ {s t : σ}, ((ofNext start next).restrict C).Reachable s →
      execWhere C next s as = some t → ((ofNext start next).restrict C).Reachable t := by
  induction as with
  | nil =>
      intro s t h hexec
      cases hexec
      exact h
  | cons a as ih =>
      intro s t h hexec
      obtain ⟨u, hu, hexec⟩ := Option.bind_eq_some_iff.mp hexec
      simp only at hu
      split at hu
      · next hC => exact ih (h.step ⟨hu, hC⟩) hexec
      · cases hu

end System

end AurumActors.Foundation
