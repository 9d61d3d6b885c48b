/-
  Crdt/DisperseTimers.lean --- how many dispersal timers are pending at once.

  A handled timeout that finds a peer behind starts the next timer, and one that
  finds none ends its timer.  An operation, a delta or an update that disperses
  starts one more, whatever is pending already.
-/
import AurumActors.Crdt.Dispersal
import AurumActors.Crdt.Dissemination

set_option autoImplicit false

namespace AurumActors.Crdt

open Std
open AurumActors.Cluster AurumActors.Core AurumActors.Foundation

attribute [local instance] lexOrd

namespace Timed

variable {S : Type} [CRDT S] [DecidableEq S]

/-! ## The timers of a step -/

omit [CRDT S] [DecidableEq S] in
/-- Sends and publications start no timer. -/
theorem timers_eq_zero {out : List (Output S)}
    (h : ∀ o ∈ out, (∃ dest m, o = .send dest m) ∨ ∃ data, o = .publish data) :
    timers out = 0 := by
  refine List.countP_eq_zero.mpr fun o ho => ?_
  rcases h o ho with ⟨dest, m, rfl⟩ | ⟨data, rfl⟩ <;> exact Bool.false_ne_true

/-- A handler that disperses starts one timer. -/
theorem timers_of_dispersing {a a' : CausalDisperse S} {msg : CausalMsg S}
    {out : List (Output S)} {ic : InCluster S} (h : a.dispersing msg = some ic)
    (hrecv : a.recv msg = .ok (a', out)) : timers out = 1 := by
  obtain ⟨before, after, hbefore, hafter, heq⟩ := CausalDisperse.recv_of_dispersing h
  rw [heq] at hrecv
  cases hsent : ic.disperse a.preference with
  | error e => rw [hsent] at hrecv; cases hrecv
  | ok sent =>
      rw [hsent] at hrecv
      cases hrecv
      have hone := timers_disperse hsent
      have hno : timers before = 0 := timers_eq_zero fun o ho => .inl (hbefore o ho)
      have hno' : timers after = 0 := timers_eq_zero fun o ho => .inr ⟨_, hafter o ho⟩
      rw [timers_append, timers_append, hno, hone, hno']

/-- A handler that does not disperse starts none. -/
theorem timers_of_not_dispersing {a a' : CausalDisperse S} {msg : CausalMsg S}
    {out : List (Output S)} (h : a.dispersing msg = none)
    (hrecv : a.recv msg = .ok (a', out)) : timers out = 0 := by
  obtain ⟨p, state⟩ := a
  cases state with
  | waiting w =>
      cases msg with
      | mutate op => cases hrecv; rfl
      | setDispersalPreference p' => cases hrecv; rfl
      | intra m => cases hrecv; rfl
      | disperseTimeout => cases hrecv; rfl
      | update u =>
          simp only [CausalDisperse.recv] at hrecv
          split at hrecv <;> cases hrecv <;> rfl
  | inCluster ic =>
      cases msg with
      | setDispersalPreference p' => cases hrecv; rfl
      | mutate op =>
          simp only [CausalDisperse.dispersing] at h
          split at h
          · next hempty =>
              simp only [CausalDisperse.recv, InCluster.op, hempty, if_true] at hrecv
              cases hrecv
              rfl
          · cases h
      | intra m =>
          cases m with
          | ack id clock =>
              simp only [CausalDisperse.recv] at hrecv
              cases hack : ic.ack id clock <;> rw [hack] at hrecv <;> cases hrecv
              rfl
          | delta delta id clock =>
              simp only [CausalDisperse.dispersing] at h
              simp only [CausalDisperse.recv, InCluster.delta] at hrecv
              split at hrecv
              · cases hrecv
                rfl
              · next member cnt hget =>
                  split at hrecv
                  · cases hrecv
                    rfl
                  · next hne => simp [hget, hne] at h
      | update u =>
          simp only [CausalDisperse.dispersing] at h
          simp only [CausalDisperse.recv, InCluster.update] at hrecv
          cases hev : ic.events false u.events with
          | error e => rw [hev] at hrecv; cases hrecv
          | ok r =>
              obtain ⟨ic', disperse⟩ := r
              rw [hev] at h hrecv
              cases disperse with
              | true => cases h
              | false => cases hrecv; rfl
      | disperseTimeout =>
          simp only [CausalDisperse.dispersing] at h
          split at h
          · cases h
          · next hidle =>
              simp only [CausalDisperse.recv, if_neg hidle] at hrecv
              cases hrecv
              rfl

/-- A step takes the timeout that it handles, and adds one if it disperses. -/
theorem pending_of_next {t t' : Timed S} {msg : CausalMsg S} (h : t.next msg = some t') :
    taken msg ≤ t.pending ∧
      t'.pending = t.pending - taken msg + if (t.actor.dispersing msg).isSome then 1 else 0 := by
  obtain ⟨out, hrecv, hle, hpending⟩ := next_cases h
  refine ⟨hle, ?_⟩
  cases hdisp : t.actor.dispersing msg with
  | none => rw [hpending, timers_of_not_dispersing hdisp hrecv]; rfl
  | some ic => rw [hpending, timers_of_dispersing hdisp hrecv]; rfl

/-! ## A slow peer -/

/-- Inside the cluster, with peers, and dispersals succeed. -/
structure Slow (t : Timed S) (ic : InCluster S) : Prop where
  state : t.actor.state = .inCluster ic
  indexed : ic.Indexed
  known : ic.PriorityKnown t.actor.preference
  minOrd_le : ic.minOrd ≤ ic.clock
  peers : ¬ ic.acks.isEmpty

theorem Slow.next {t : Timed S} {ic ic' : InCluster S} (h : Slow t ic) {msg : CausalMsg S}
    (hdisp : t.actor.dispersing msg = some ic') (hind : ic'.Indexed)
    (hacks : ic'.acks = ic.acks) (htaken : taken msg ≤ t.pending) :
    t.next msg = some ⟨⟨t.actor.preference, .inCluster ic'⟩, t.pending - taken msg + 1⟩ := by
  have hknown : ic'.PriorityKnown t.actor.preference := fun m hm => hacks ▸ h.known m hm
  obtain ⟨before, after, -, -, hrecv⟩ := CausalDisperse.recv_of_dispersing hdisp
  rw [hind.disperse_eq hknown] at hrecv
  simp only [Timed.next, hrecv, Except.map, Nat.not_lt.mpr htaken, if_false]
  rw [timers_of_dispersing hdisp hrecv]

/-- An operation starts a timer, and its timeout starts it again. -/
theorem Slow.round {preference : DispersalPreference} {t : Timed S} {ic : InCluster S}
    (h : Slow t ic) (hreach : (system preference).Reachable t) {op : CRDT.Delta S}
    (hop : ∀ data : S, CRDT.empty (CRDT.apply op data) = false) :
    ∃ (t' : Timed S) (ic' : InCluster S), Slow t' ic' ∧
      (system preference).Reachable t' ∧ t'.pending = t.pending + 1 := by
  obtain ⟨⟨p, state⟩, pending⟩ := t
  obtain rfl : state = .inCluster ic := h.state
  let grown := ic.grow (CRDT.join ic.data (CRDT.apply op ic.data)) (CRDT.apply op ic.data)
  have hop₁ : (⟨p, .inCluster ic⟩ : CausalDisperse S).dispersing (.mutate op) = some grown := by
    simp only [CausalDisperse.dispersing, hop, Bool.false_eq_true, if_false]
    rfl
  have hst₁ := h.next hop₁ (h.indexed.grow _ _) rfl (Nat.zero_le _)
  have hslow : Slow ⟨⟨p, .inCluster grown⟩, pending + 1⟩ grown :=
    ⟨rfl, h.indexed.grow _ _, h.known, Nat.le_succ_of_le h.minOrd_le, h.peers⟩
  have hbehind : grown.minOrd ≠ grown.clock := by
    have hle : grown.minOrd ≤ ic.clock := h.minOrd_le
    have hclock : grown.clock = ic.clock + 1 := rfl
    omega
  have htimeout : (⟨p, .inCluster grown⟩ : CausalDisperse S).dispersing .disperseTimeout =
      some grown := if_pos ⟨hbehind, h.peers⟩
  have hst₂ := hslow.next htimeout hslow.indexed rfl (Nat.le_add_left 1 pending)
  exact ⟨_, grown, ⟨rfl, hslow.indexed, hslow.known, hslow.minOrd_le, hslow.peers⟩,
    (hreach.step hst₁).step hst₂, rfl⟩

/-- A peer that acknowledges nothing leaves one more timer pending for every
operation. -/
theorem Slow.rounds {preference : DispersalPreference} {t : Timed S} {ic : InCluster S}
    (h : Slow t ic) (hreach : (system preference).Reachable t) {op : CRDT.Delta S}
    (hop : ∀ data : S, CRDT.empty (CRDT.apply op data) = false) (n : Nat) :
    ∃ (t' : Timed S) (ic' : InCluster S), Slow t' ic' ∧
      (system preference).Reachable t' ∧ t'.pending = t.pending + n := by
  induction n with
  | zero => exact ⟨t, ic, h, hreach, rfl⟩
  | succ n ih =>
      obtain ⟨t₁, ic₁, h₁, hreach₁, hpending₁⟩ := ih
      obtain ⟨t₂, ic₂, h₂, hreach₂, hpending₂⟩ := h₁.round hreach₁ hop
      exact ⟨t₂, ic₂, h₂, hreach₂, by omega⟩

/-! ## The bound -/

/-- What is counted of the messages an actor handles: the changes that make it
disperse, which are operations, deltas and updates, and the silences, which are
timeouts that find nobody behind. -/
structure Tally (S : Type) [CRDT S] where
  actor : CausalDisperse S
  changes : Nat
  silences : Nat

/-- One more message is handled. -/
def Tally.handle (y : Tally S) (msg : CausalMsg S) : Tally S :=
  match y.actor.recv msg with
  | .error _ => y
  | .ok (actor, _) =>
      if (y.actor.dispersing msg).isSome then
        { y with actor, changes := y.changes + (1 - taken msg) }
      else { y with actor, silences := y.silences + taken msg }

/-- The changes and the silences among the messages a new actor handles. -/
def tally (preference : DispersalPreference) (msgs : List (CausalMsg S)) : Tally S :=
  msgs.foldl Tally.handle ⟨.new preference, 0, 0⟩

theorem tally_snoc (preference : DispersalPreference) (msgs : List (CausalMsg S))
    (msg : CausalMsg S) :
    tally preference (msgs ++ [msg]) = (tally preference msgs).handle msg :=
  List.foldl_concat _ _ _ _

/-- Every change leaves one more timeout pending and every silence one fewer. -/
theorem pending_of_run {preference : DispersalPreference} {msgs : List (CausalMsg S)}
    {t : Timed S} (h : (system preference).Run ⟨.new preference, 0⟩ msgs t) :
    (tally preference msgs).actor = t.actor ∧
      t.pending + (tally preference msgs).silences = (tally preference msgs).changes := by
  induction h with
  | nil => exact ⟨rfl, rfl⟩
  | @snoc msgs msg t t' hrun hst ih =>
      obtain ⟨hactor, hcount⟩ := ih
      obtain ⟨hle, hpending⟩ := pending_of_next hst
      have htaken : taken msg ≤ 1 := by cases msg <;> simp [taken]
      obtain ⟨out, hrecv, -, -⟩ := next_cases hst
      rw [tally_snoc]
      simp only [Tally.handle, hactor, hrecv]
      by_cases hdisp : (t.actor.dispersing msg).isSome
      · rw [if_pos hdisp] at hpending ⊢
        exact ⟨rfl, by simp only; omega⟩
      · rw [if_neg hdisp] at hpending ⊢
        exact ⟨rfl, by simp only; omega⟩

/-- Timers multiply only by changes that disperse, and go only with a timeout that
finds nobody behind.  A run keeps to a bound if and only if no beginning of it has
more than `bound` changes above its silences. -/
theorem pending_le_iff {preference : DispersalPreference} (bound : Nat)
    {msgs : List (CausalMsg S)} {t : Timed S}
    (h : (system preference).Run ⟨.new preference, 0⟩ msgs t) :
    (∀ k u, (system preference).Run ⟨.new preference, 0⟩ (msgs.take k) u → u.pending ≤ bound) ↔
      ∀ k, (tally preference (msgs.take k)).changes ≤
        (tally preference (msgs.take k)).silences + bound := by
  constructor
  · intro hle k
    have hcut : (system preference).Run ⟨.new preference, 0⟩ (msgs.take k ++ msgs.drop k) t := by
      rwa [List.take_append_drop]
    obtain ⟨u, hrun, -⟩ := hcut.split
    have hcount := (pending_of_run hrun).2
    have hbound := hle k u hrun
    omega
  · intro hle k u hrun
    have hcount := (pending_of_run hrun).2
    have hbound := hle k
    omega

section Growth

attribute [local instance] maxNat

/-- Node 1 joins node 2 and mutates.  Its timeout finds node 2 behind, and the one
after the acknowledgement finds it level. -/
def oneRound : List (CausalMsg Nat) :=
  [.update joinsTwo, .mutate (7 : Nat), .disperseTimeout, .intra (.ack 2 1), .disperseTimeout]

/-- In that run one timer is pending at most. -/
theorem pending_le_iff_oneRound :
    ∃ t : Timed Nat, (system .default).Run ⟨.new .default, 0⟩ oneRound t ∧
      (tally .default oneRound).changes = 1 ∧ (tally .default oneRound).silences = 1 ∧
      ∀ k u, (system .default).Run ⟨.new .default, 0⟩ (oneRound.take k) u →
        u.pending ≤ 1 := by
  have hexec : (System.exec next ⟨.new .default, 0⟩ oneRound).isSome = true := by decide
  obtain ⟨t, ht⟩ := Option.isSome_iff_exists.mp hexec
  have hrun : (system .default).Run ⟨.new .default, 0⟩ oneRound t :=
    System.run_of_exec (fun _ _ _ => id) oneRound ht
  refine ⟨t, hrun, by decide, by decide, (pending_le_iff 1 hrun).mpr fun k => ?_⟩
  have hshort : ∀ k < 6, (tally .default (oneRound.take k)).changes ≤
      (tally .default (oneRound.take k)).silences + 1 := by decide
  rcases Nat.lt_or_ge k 6 with hk | hk
  · exact hshort k hk
  · have hwhole : oneRound.take k = oneRound.take 5 := by
      rw [List.take_of_length_le (Nat.le_trans (by decide) hk), List.take_of_length_le (by decide)]
    rw [hwhole]
    exact hshort 5 (by decide)

/-- Node 2 does not answer: with each mutation of node 1 one more timer is
pending. -/
theorem timers_multiply :
    ¬ ∃ bound, ∀ t : Timed Nat, (system .default).Reachable t → t.pending ≤ bound := by
  rintro ⟨bound, hbound⟩
  have h₀ : (system (S := Nat) .default).Reachable ⟨.new .default, 0⟩ := .of_init rfl
  let start : InCluster Nat := Waiting.toIc ⟨[]⟩ (nodeAt 1) joinsTwo.nodes
  let joined : Timed Nat := ⟨⟨.default, .inCluster start⟩, 0⟩
  have hst : (⟨.new .default, 0⟩ : Timed Nat).next (.update joinsTwo) = some joined := rfl
  have hslow : Slow joined start :=
    ⟨rfl, InCluster.indexed_toIc _ _ _, by decide, Nat.zero_le _, by decide⟩
  obtain ⟨t, -, -, hreach, hpending⟩ :=
    hslow.rounds (h₀.step hst) (fun _ => (rfl : CRDT.empty (7 : Nat) = false)) (bound + 1)
  have hle : t.pending ≤ bound := hbound t hreach
  have hzero : joined.pending = 0 := rfl
  omega

end Growth

end Timed

end AurumActors.Crdt
