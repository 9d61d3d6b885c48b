/-
  Crdt/Recipients.lean --- how many messages one dispersal sends to each peer.

  The messages to a peer are as many as its entries in the lists of a dispersal.
  Each list has it once at most, so a peer gets two messages exactly when it is
  behind and on both.
-/
import AurumActors.Crdt.Dispersal

set_option autoImplicit false

namespace AurumActors.Crdt

open Std
open AurumActors.Cluster AurumActors.Core AurumActors.Foundation

attribute [local instance] lexOrd

/-! ## The order of the counts -/

/-- `e` comes before `f`: it has a smaller count, or the same and a smaller id. -/
def Before (e f : Member × Nat) : Prop := e.2 < f.2 ∨ e.2 = f.2 ∧ e.1.id < f.1.id

instance : DecidableRel Before := fun e f =>
  inferInstanceAs (Decidable (e.2 < f.2 ∨ e.2 = f.2 ∧ e.1.id < f.1.id))

theorem Before.asymm (e f : Member × Nat) (h : Before e f) : ¬ Before f e := by
  rcases h with h | ⟨hc, h⟩
  · rintro (h' | ⟨hc', -⟩) <;> omega
  · rintro (h' | ⟨-, h'⟩)
    · omega
    · exact UInt64.lt_asymm h h'

/-- The messages to a member among the outputs of a handler. -/
def messagesTo {S : Type} (m : Member) (out : List (Output S)) : List (CausalIntraMsg S) :=
  out.filterMap fun
    | .send dest msg => if dest = m then some msg else none
    | _ => none

theorem messagesTo_append {S : Type} (m : Member) (out out' : List (Output S)) :
    messagesTo m (out ++ out') = messagesTo m out ++ messagesTo m out' := List.filterMap_append

theorem messagesTo_map_send {S : Type} (m : Member) (f : Member × Nat → CausalIntraMsg S)
    (entries : List (Member × Nat)) :
    messagesTo m (entries.map fun e => .send e.1 (f e)) =
      (entries.filter fun e => e.1 = m).map f := by
  induction entries with
  | nil => rfl
  | cons e entries ih =>
      unfold messagesTo at ih ⊢
      rw [List.map_cons, List.filterMap_cons, List.filter_cons]
      by_cases he : e.1 = m <;> simp [he, ih]

namespace InCluster

variable {S : Type} {ic : InCluster S} {m : Member} {c : Nat} {p : DispersalPreference}

/-! ## The lists -/

/-- The peers are the entries, each under its own id. -/
theorem Indexed.mem_peers (h : Indexed ic) :
    (m, c) ∈ ic.peers ↔ ic.acks[m.id]? = some (m, c) := by
  rw [peers, List.mem_filterMap]
  constructor
  · rintro ⟨⟨c', id⟩, -, hget⟩
    have hid : m.id = id := h.keyed id m c hget
    rw [hid]
    exact hget
  · intro hget
    exact ⟨(c, m.id), ExtTreeSet.mem_toList.mpr ((h.indexes c m.id).mpr ⟨m, hget⟩), hget⟩

theorem Indexed.pairwise_peers (h : Indexed ic) : ic.peers.Pairwise Before := by
  rw [peers, List.pairwise_filterMap]
  refine (ExtTreeSet.ordered_toList (t := ic.ordAcks)).imp_of_mem ?_
  rintro ⟨c, id⟩ ⟨c', id'⟩ hmem hmem' hlt e he e' he'
  have hentry : ∀ {c : Nat} {id : UInt64} {e : Member × Nat}, (c, id) ∈ ic.ordAcks.toList →
      ic.acks[id]? = some e → e.2 = c ∧ e.1.id = id := by
    intro c id e hmem hget
    obtain ⟨m, hm⟩ := (h.indexes c id).mp (ExtTreeSet.mem_toList.mp hmem)
    cases hm.symm.trans hget
    exact ⟨rfl, h.keyed id m c hget⟩
  obtain ⟨hc, hid⟩ := hentry hmem he
  obtain ⟨hc', hid'⟩ := hentry hmem' he'
  have hlex : (compare c c').then (compare id id') = .lt := hlt
  rw [Ordering.then_eq_lt, Nat.compare_eq_lt, Nat.compare_eq_eq, Std.compare_eq_lt] at hlex
  unfold Before
  rwa [hc, hc', hid, hid']

theorem Indexed.nodup_peers (h : Indexed ic) : ic.peers.Nodup := by
  rw [List.nodup_iff_pairwise_ne]
  refine h.pairwise_peers.imp ?_
  rintro e _ hlt rfl
  exact Before.asymm e e hlt hlt

/-- The peers without priority that come before an entry. -/
def ahead (ic : InCluster S) (p : DispersalPreference) (e : Member × Nat) :
    List (Member × Nat) :=
  (ic.acks.toList.map (·.2)).filter fun f => f.1 ∉ p.priority ∧ Before f e

/-- The entries of `acks` are the peers, in another order. -/
theorem Indexed.perm_peers (h : Indexed ic) : (ic.acks.toList.map (·.2)).Perm ic.peers := by
  have hdistinct : ic.acks.toList.Pairwise fun e e' => e.1 ≠ e'.1 := by
    refine ic.acks.distinct_keys_toList.imp fun hne heq => hne ?_
    rw [Std.compare_eq_iff_eq]
    exact heq
  have hkeyed : ∀ e ∈ ic.acks.toList, e.2.1.id = e.1 := fun e he =>
    h.keyed e.1 e.2.1 e.2.2 (ExtTreeMap.mem_toList_iff_getElem?_eq_some.mp he)
  have hnodup : (ic.acks.toList.map (·.2)).Nodup := by
    rw [List.nodup_iff_pairwise_ne, List.pairwise_map]
    refine hdistinct.imp_of_mem fun {e e'} he he' hne heq => hne ?_
    rw [← hkeyed e he, ← hkeyed e' he', heq]
  rw [List.perm_ext_iff_of_nodup hnodup h.nodup_peers]
  rintro ⟨m, c⟩
  rw [h.mem_peers, List.mem_map]
  constructor
  · rintro ⟨⟨id, e⟩, hmem, rfl⟩
    have hid := hkeyed _ hmem
    simp only at hid
    rw [hid]
    exact ExtTreeMap.mem_toList_iff_getElem?_eq_some.mp hmem
  · exact fun hget => ⟨(m.id, m, c), ExtTreeMap.mem_toList_iff_getElem?_eq_some.mpr hget, rfl⟩

/-- What the selector takes. -/
theorem Indexed.mem_selected (h : Indexed ic) (hget : ic.acks[m.id]? = some (m, c)) :
    (m, c) ∈ ic.selected p ↔ p.selector = .all ∨
      p.selector = .outOfDate ∧ m ∉ p.priority ∧ (ic.ahead p (m, c)).length < p.amount.toNat := by
  have hmem := h.mem_peers.mpr hget
  unfold selected
  cases p.selector with
  | all => simp [hmem]
  | outOfDate =>
      simp only [reduceCtorEq, true_and, false_or]
      by_cases hprio : m ∈ p.priority
      · simp only [hprio, not_true_eq_false, false_and, iff_false]
        intro htake
        have hfilter := List.mem_of_mem_take htake
        simp [hprio] at hfilter
      · have hfilter : (m, c) ∈ ic.peers.filter fun e => e.1 ∉ p.priority := by
          simp [hmem, hprio]
        rw [mem_take_iff_of_pairwise Before.asymm (h.pairwise_peers.filter _) hfilter,
          List.filter_filter]
        have hlen := ((h.perm_peers).filter
          fun f => decide (f.1 ∉ p.priority ∧ Before f (m, c))).length_eq
        simp only [hprio, not_false_eq_true, true_and, ahead, hlen]
        simp only [Bool.decide_and, Bool.and_comm]

theorem Indexed.nodup_selected (h : Indexed ic) : (ic.selected p).Nodup := by
  unfold selected
  cases p.selector with
  | all => exact h.nodup_peers
  | outOfDate => exact (h.nodup_peers.filter _).sublist (List.take_sublist _ _)

/-- Every priority member is a peer now, as the member it is. -/
def PriorityCurrent (ic : InCluster S) (p : DispersalPreference) : Prop :=
  ∀ m ∈ p.priority, ∃ c, ic.acks[m.id]? = some (m, c)

theorem PriorityCurrent.known (h : ic.PriorityCurrent p) : ic.PriorityKnown p := by
  intro m hm
  obtain ⟨c, hget⟩ := h m hm
  exact Option.isSome_iff_exists.mpr ⟨_, hget⟩

theorem PriorityCurrent.mem_prioritized (h : ic.PriorityCurrent p)
    (hget : ic.acks[m.id]? = some (m, c)) : (m, c) ∈ ic.prioritized p ↔ m ∈ p.priority := by
  rw [prioritized, List.mem_filterMap]
  constructor
  · rintro ⟨m', hm', hget'⟩
    obtain ⟨c', hc'⟩ := h m' (ExtTreeSet.mem_toList.mp hm')
    cases hc'.symm.trans hget'
    exact ExtTreeSet.mem_toList.mp hm'
  · exact fun hm => ⟨m, ExtTreeSet.mem_toList.mpr hm, hget⟩

theorem PriorityCurrent.nodup_prioritized (h : ic.PriorityCurrent p) :
    (ic.prioritized p).Nodup := by
  have hdistinct : p.priority.toList.Pairwise (· ≠ ·) := by
    refine p.priority.distinct_toList.imp fun hne heq => hne ?_
    rw [Std.compare_eq_iff_eq]
    exact heq
  rw [prioritized, List.nodup_iff_pairwise_ne, List.pairwise_filterMap]
  refine hdistinct.imp_of_mem fun {m m'} hm hm' hne e he e' he' heq => hne ?_
  obtain ⟨c, hc⟩ := h m (ExtTreeSet.mem_toList.mp hm)
  obtain ⟨c', hc'⟩ := h m' (ExtTreeSet.mem_toList.mp hm')
  cases hc.symm.trans he
  cases hc'.symm.trans he'
  exact (Prod.mk.inj heq).1

/-! ## One dispersal -/

/-- A dispersal is to reach the peer `m` with count `c`: it is behind, and has
priority or is taken by the selector. -/
def Reached (ic : InCluster S) (p : DispersalPreference) (m : Member) (c : Nat) : Prop :=
  c < ic.clock ∧ (m ∈ p.priority ∨ p.selector = .all ∨
    p.selector = .outOfDate ∧ (ic.ahead p (m, c)).length < p.amount.toNat)

instance (ic : InCluster S) (p : DispersalPreference) (m : Member) (c : Nat) :
    Decidable (ic.Reached p m c) :=
  inferInstanceAs (Decidable (_ ∧ (_ ∨ _ ∨ _ ∧ _)))

/-- A dispersal sends one message to every peer that it is to reach, which is the
full data exactly if the count is below `min_delta`, and no message to others. -/
def SendsOnce [CRDT S] (ic : InCluster S) (p : DispersalPreference) : Prop :=
  ∃ out, ic.disperse p = .ok out ∧
    (∀ m c, ic.acks[m.id]? = some (m, c) → messagesTo m out =
      if ic.Reached p m c then
        [.delta (if c < ic.minDelta then ic.data else ic.deltas.foldl CRDT.join CRDT.minimum)
          ic.member.id ic.clock]
      else []) ∧
    ∀ m, (∀ c, ic.acks[m.id]? ≠ some (m, c)) → messagesTo m out = []

/-- If the selector takes all peers, no priority member is behind. -/
def ListsDisjoint (ic : InCluster S) (p : DispersalPreference) : Prop :=
  p.selector = .all → ∀ m ∈ p.priority, ∀ c, ic.acks[m.id]? = some (m, c) → ic.clock ≤ c

/-- Every entry of the lists is a peer. -/
theorem Indexed.of_mem_lists (h : Indexed ic)
    (hmem : (m, c) ∈ ic.prioritized p ++ ic.selected p) : ic.acks[m.id]? = some (m, c) := by
  rcases List.mem_append.mp hmem with hmem | hmem
  · obtain ⟨m', -, hget⟩ := List.mem_filterMap.mp hmem
    rw [h.keyed _ m c hget]
    exact hget
  · rw [← h.mem_peers]
    unfold selected at hmem
    cases hsel : p.selector with
    | all => rwa [hsel] at hmem
    | outOfDate =>
        rw [hsel] at hmem
        exact (List.mem_filter.mp (List.mem_of_mem_take hmem)).1

/-- A peer gets as many messages as it has entries behind the clock. -/
theorem Indexed.messagesTo_eq (h : Indexed ic) (f : Member × Nat → CausalIntraMsg S)
    (timeout : Nat) (hget : ic.acks[m.id]? = some (m, c)) :
    messagesTo m (((ic.prioritized p ++ ic.selected p).filter fun e => e.2 < ic.clock).map
        (fun e => .send e.1 (f e)) ++ [.scheduleDisperse timeout]) =
      List.replicate (if c < ic.clock then
        (ic.prioritized p).count (m, c) + (ic.selected p).count (m, c) else 0) (f (m, c)) := by
  have hsame : ((ic.prioritized p ++ ic.selected p).filter fun e => e.2 < ic.clock).filter
      (fun e => e.1 = m) = ((ic.prioritized p ++ ic.selected p).filter
        fun e => e.2 < ic.clock).filter (· == (m, c)) := by
    refine List.filter_congr fun e he => ?_
    obtain ⟨m', c'⟩ := e
    have hentry := h.of_mem_lists (List.mem_filter.mp he).1
    by_cases hm : m' = m
    · subst hm
      cases hentry.symm.trans hget
      simp
    · simp [hm]
  rw [messagesTo_append, messagesTo_map_send, hsame, List.filter_beq, List.map_replicate]
  have hnone : messagesTo m [Output.scheduleDisperse (S := S) timeout] = [] := rfl
  rw [hnone, List.append_nil]
  congr 1
  split
  · next hlt => rw [List.count_filter (by simpa using hlt), List.count_append]
  · next hlt =>
      rw [List.count_eq_zero]
      intro hmem
      exact hlt (of_decide_eq_true (List.mem_filter.mp hmem).2)

/-- A member without an entry of its own gets nothing. -/
theorem Indexed.messagesTo_of_absent (h : Indexed ic) (f : Member × Nat → CausalIntraMsg S)
    (timeout : Nat) (hnone : ∀ c, ic.acks[m.id]? ≠ some (m, c)) :
    messagesTo m (((ic.prioritized p ++ ic.selected p).filter fun e => e.2 < ic.clock).map
        (fun e => .send e.1 (f e)) ++ [.scheduleDisperse timeout]) = [] := by
  have hempty : (((ic.prioritized p ++ ic.selected p).filter fun e => e.2 < ic.clock).filter
      fun e => e.1 = m) = [] := by
    rw [List.filter_eq_nil_iff]
    rintro ⟨m', c'⟩ he hm
    cases of_decide_eq_true hm
    exact hnone c' (h.of_mem_lists (List.mem_filter.mp he).1)
  rw [messagesTo_append, messagesTo_map_send, hempty]
  rfl

/-- How often the lists have a peer. -/
theorem Indexed.count_lists (h : Indexed ic) (hp : ic.PriorityCurrent p)
    (hget : ic.acks[m.id]? = some (m, c)) :
    (ic.prioritized p).count (m, c) + (ic.selected p).count (m, c) =
      (if m ∈ p.priority then 1 else 0) + if p.selector = .all ∨ p.selector = .outOfDate ∧
        m ∉ p.priority ∧ (ic.ahead p (m, c)).length < p.amount.toNat then 1 else 0 := by
  rw [hp.nodup_prioritized.count, h.nodup_selected.count]
  simp only [hp.mem_prioritized hget, h.mem_selected hget]

/-- With current priority members, a dispersal sends once to every peer it is to
reach exactly when its two lists have no peer behind in common. -/
theorem Indexed.sendsOnce_iff_disjoint [CRDT S] (h : Indexed ic) (hp : ic.PriorityCurrent p) :
    ic.SendsOnce p ↔ ic.ListsDisjoint p := by
  have hok := h.disperse_eq hp.known
  constructor
  · rintro ⟨out, hout, hpeers, -⟩ hall m hm c hget
    by_contra hlt
    cases hok.symm.trans hout
    have hmessages := congrArg List.length (hpeers m c hget)
    rw [h.messagesTo_eq _ _ hget, h.count_lists hp hget, List.length_replicate,
      if_pos (Nat.lt_of_not_le hlt), if_pos hm, if_pos (.inl hall)] at hmessages
    split at hmessages <;> simp at hmessages
  · intro hdisjoint
    refine ⟨_, hok, fun m c hget => ?_, fun m hnone => h.messagesTo_of_absent _ _ hnone⟩
    have hmessage : ic.dispersal c = .delta (if c < ic.minDelta then ic.data else
      ic.deltas.foldl CRDT.join CRDT.minimum) ic.member.id ic.clock := rfl
    rw [h.messagesTo_eq _ _ hget, h.count_lists hp hget, ← hmessage]
    unfold Reached
    by_cases hlt : c < ic.clock
    · have hprio : p.selector = .all → m ∉ p.priority := fun hall hm =>
        absurd (hdisjoint hall m hm c hget) (Nat.not_le.mpr hlt)
      by_cases hm : m ∈ p.priority
      · have hsel : p.selector = .outOfDate := by
          cases hsel : p.selector with
          | all => exact absurd hm (hprio hsel)
          | outOfDate => rfl
        simp [hlt, hm, hsel]
      · simp only [hlt, hm, not_false_eq_true, true_and, false_or, if_true, if_false, Nat.zero_add]
        split <;> rfl
    · simp [hlt]

end InCluster

namespace CausalDisperse

variable {S : Type} [CRDT S] [DecidableEq S]

/-- In every reachable state, for every preference whose priority members are
peers, one dispersal sends one message to each peer it is to reach, and none to
others, exactly when the selector takes no priority member that is behind. -/
theorem sendsOnce_iff (preference : DispersalPreference) {a : CausalDisperse S}
    (h : ((system preference).restrict Consistent).Reachable a) {ic : InCluster S}
    (hic : a.state = .inCluster ic) (p : DispersalPreference) (hp : ic.PriorityCurrent p) :
    ic.SendsOnce p ↔ ic.ListsDisjoint p :=
  (indexed_of_reachable h hic).sendsOnce_iff_disjoint hp

/-! ### A priority member behind -/

section Behind

attribute [local instance] maxNat

/-- The state inside the cluster. -/
def inside? (a : CausalDisperse S) : Option (InCluster S) :=
  match a.state with
  | .inCluster ic => some ic
  | .waiting _ => none

/-- After one mutation, peer 2 is behind. -/
theorem exists_behind : ∃ (a : CausalDisperse Nat) (ic : InCluster Nat),
    ((system .default).restrict Consistent).Reachable a ∧ a.state = .inCluster ic ∧
      ic.clock = 1 ∧ ic.acks[(2 : UInt64)]? = some (Logged.peer 2, 0) := by
  obtain ⟨a, ha, ic, hic, hclock, hget⟩ :
      ∃ a ∈ System.execWhere (Consistent (S := Nat))
          (fun a msg => (a.recv msg).toOption.map (·.1)) (.new .default)
          (joinsFavouring (Logged.peer 2) ++ [.mutate (7 : Nat)]),
        ∃ ic ∈ a.inside?, ic.clock = 1 ∧
          ic.acks[(2 : UInt64)]? = some (Logged.peer 2, 0) := by decide
  refine ⟨a, ic, System.reachable_of_execWhere _ (.of_init rfl) ha, ?_, hclock, hget⟩
  unfold inside? at hic
  cases hstate : a.state with
  | inCluster ic' =>
      rw [hstate] at hic
      cases hic
      rfl
  | waiting w =>
      rw [hstate] at hic
      cases hic

theorem priorityCurrent_peer {ic : InCluster Nat}
    (hget : ic.acks[(2 : UInt64)]? = some (Logged.peer 2, 0)) {p : DispersalPreference}
    (hp : p.priority = (∅ : MemberSet).insert (Logged.peer 2)) : ic.PriorityCurrent p := by
  intro m hm
  rw [hp, mem_insert_iff] at hm
  rcases hm with rfl | hm
  · exact ⟨0, hget⟩
  · simp at hm

/-- While the selector takes peers without priority, one message is sent. -/
theorem sendsOnce_iff_outOfDate : ∃ (a : CausalDisperse Nat) (ic : InCluster Nat),
    ((system .default).restrict Consistent).Reachable a ∧ a.state = .inCluster ic ∧
      ic.Reached (favouring (Logged.peer 2)) (Logged.peer 2) 0 ∧
      ic.SendsOnce (favouring (Logged.peer 2)) := by
  obtain ⟨a, ic, h, hic, hclock, hget⟩ := exists_behind
  have hp : ic.PriorityCurrent (favouring (Logged.peer 2)) := priorityCurrent_peer hget rfl
  refine ⟨a, ic, h, hic, ⟨by omega, .inl (by decide)⟩, ?_⟩
  exact (sendsOnce_iff .default h hic _ hp).mpr fun hall => by cases hall

/-- With a selector that takes all peers, the priority member gets two messages. -/
theorem priority_sent_twice :
    ¬ ∀ (a : CausalDisperse Nat) (ic : InCluster Nat) (p : DispersalPreference),
      ((system .default).restrict Consistent).Reachable a → a.state = .inCluster ic →
        ic.PriorityCurrent p → ic.SendsOnce p := by
  intro hall
  obtain ⟨a, ic, h, hic, hclock, hget⟩ := exists_behind
  let p : DispersalPreference := { favouring (Logged.peer 2) with selector := .all }
  have hp : ic.PriorityCurrent p := priorityCurrent_peer hget rfl
  have hdisjoint :=
    ((indexed_of_reachable h hic).sendsOnce_iff_disjoint hp).mp (hall a ic p h hic hp)
  have hle := hdisjoint rfl (Logged.peer 2) (by decide) 0 hget
  omega

end Behind

end CausalDisperse

end AurumActors.Crdt
