/-
  Crdt/Alignment.lean --- how the two indexes of the acknowledgements, the two
  watermarks and the deque of deltas of one actor stay aligned.

  The updates are those of a membership: they add ids that are unknown and remove
  ids that are known.  Beside the state stands a log of the changes, read off the
  calls and not off the deque: the delta that an operation makes, and the delta
  of a peer that changes the data.
-/
import AurumActors.Crdt.Bookkeeping
import AurumActors.Foundation.Run

set_option autoImplicit false

namespace AurumActors.Crdt

open Std
open AurumActors.Cluster AurumActors.Foundation

attribute [local instance] lexOrd

/-! ## Two indexes of one map -/

/-- The order holds exactly the counts of the map, with their ids. -/
def Indexes (ordAcks : OrdAcks) (acks : ExtTreeMap UInt64 (Member × Nat) compare) : Prop :=
  ∀ (c : Nat) (id : UInt64), (c, id) ∈ ordAcks ↔ ∃ m, acks[id]? = some (m, c)

namespace Indexes

variable {ordAcks : OrdAcks} {acks : ExtTreeMap UInt64 (Member × Nat) compare}

theorem empty : Indexes ∅ ∅ := by
  intro c id
  simp

theorem erase (h : Indexes ordAcks acks) {id : UInt64} {m : Member} {c : Nat}
    (hget : acks[id]? = some (m, c)) : Indexes (ordAcks.erase (c, id)) (acks.erase id) := by
  intro c' id'
  rw [mem_erase_iff, getElem?_erase_eq, h c' id', ne_eq, Prod.mk.injEq]
  by_cases hid : id' = id
  · subst hid
    simp only [hget, Option.some.injEq, Prod.mk.injEq, exists_eq_left', and_true, if_true,
      reduceCtorEq, exists_false, iff_false, not_and]
    exact fun hne heq => hne heq.symm
  · simp [hid]

/-- An id has one count at most. -/
theorem insert (h : Indexes ordAcks acks) {id : UInt64} {c : Nat} (m : Member)
    (hold : ∀ m' c', acks[id]? = some (m', c') → c' = c) :
    Indexes (ordAcks.insert (c, id)) (acks.insert id (m, c)) := by
  intro c' id'
  rw [mem_insert_iff, getElem?_insert_eq, h c' id', Prod.mk.injEq]
  by_cases hid : id' = id
  · subst hid
    simp only [and_true, if_true, Option.some.injEq, Prod.mk.injEq, exists_eq_left']
    constructor
    · rintro (rfl | ⟨m', hget⟩)
      · rfl
      · exact (hold m' c' hget).symm
    · exact fun heq => .inl heq.symm
  · simp [hid]

/-- The indexes of members that all have count 0. -/
theorem foldl_insert (h : Indexes ordAcks acks)
    (hzero : ∀ (id : UInt64) (m : Member) (c : Nat), acks[id]? = some (m, c) → c = 0)
    (ms : List Member) :
    Indexes (ms.foldl (fun ordAcks m => ordAcks.insert (0, m.id)) ordAcks)
      (ms.foldl (fun acks m => acks.insert m.id (m, 0)) acks) := by
  induction ms generalizing ordAcks acks with
  | nil => exact h
  | cons m ms ih =>
      refine ih (h.insert m fun m' c' hget => hzero m.id m' c' hget) fun id m' c hget => ?_
      rw [getElem?_insert_eq] at hget
      split at hget
      · cases hget
        rfl
      · exact hzero id m' c hget

end Indexes

/-! ## The state of one actor -/

namespace InCluster

variable {S : Type} {ic ic' : InCluster S}

/-- `ord_acks` indexes `acks`, `min_ord` is its first count, and every entry is
under the id of its member. -/
structure Indexed (ic : InCluster S) : Prop where
  indexes : Indexes ic.ordAcks ic.acks
  minOrd_eq : ic.minOrd = (ic.ordAcks.toList.head?.map (·.1)).getD 0
  keyed : ∀ (id : UInt64) (m : Member) (c : Nat), ic.acks[id]? = some (m, c) → m.id = id

/-- An event of a membership: an added id is unknown, and a removed one is known
or the own one. -/
def Fits (ic : InCluster S) : ClusterEvent → Prop
  | .added m => ic.acks[m.id]? = none
  | .removed m => ic.acks[m.id]?.isSome ∨ m.id = ic.member.id
  | .alone _ | .joined _ => True
  | .left => False

/-- Every event fits the state it is handled in. -/
def AllFit (ic : InCluster S) : List ClusterEvent → Prop
  | [] => True
  | e :: es => ic.Fits e ∧
      match ic.event false e with
      | .ok (ic', _) => ic'.AllFit es
      | .error _ => True

instance (ic : InCluster S) : DecidablePred ic.Fits
  | .added m => inferInstanceAs (Decidable (ic.acks[m.id]? = none))
  | .removed m => inferInstanceAs (Decidable (_ ∨ m.id = ic.member.id))
  | .alone _ | .joined _ => isTrue trivial
  | .left => isFalse id

instance decidableAllFit : ∀ (ic : InCluster S) (es : List ClusterEvent), Decidable (ic.AllFit es)
  | _, [] => isTrue trivial
  | ic, e :: es =>
      have : Decidable (match ic.event false e with
          | .ok (ic', _) => ic'.AllFit es
          | .error _ => True) :=
        match ic.event false e with
        | .ok (ic', _) => decidableAllFit ic' es
        | .error _ => isTrue trivial
      inferInstanceAs (Decidable (ic.Fits e ∧ _))

theorem Indexed.grow (h : Indexed ic) (data delta : S) : Indexed (ic.grow data delta) :=
  ⟨h.indexes, h.minOrd_eq, h.keyed⟩

theorem Indexed.acked (h : Indexed ic) {id : UInt64} {clock : Nat}
    (hack : ic.Acked id clock ic') : Indexed ic' := by
  refine ⟨?_, ?_, fun id' m c hget => ?_⟩
  · obtain ⟨⟨member, cnt, minId, hget, -, -, -, heq⟩, -⟩ := hack
    have hindexes : Indexes ((ic.ordAcks.erase (cnt, id)).insert (clock, id))
        (ic.acks.insert id (member, clock)) := by
      have hsame : (ic.acks.erase id).insert id (member, clock) =
          ic.acks.insert id (member, clock) := by
        refine ExtTreeMap.ext_getElem? fun k => ?_
        rw [getElem?_insert_eq, getElem?_insert_eq, getElem?_erase_eq]
        split <;> rfl
      rw [← hsame]
      refine (h.indexes.erase hget).insert member fun m' c' hget' => ?_
      simp at hget'
    rw [heq]
    exact hindexes
  · obtain ⟨⟨member, cnt, minId, -, -, -, hmin, heq⟩, -⟩ := hack
    have hord : ic'.ordAcks = (ic.ordAcks.erase (cnt, id)).insert (clock, id) :=
      congrArg InCluster.ordAcks heq
    rw [hord, hmin]
    rfl
  · rcases acks_of_acked hack hget with hold | ⟨rfl, -, cnt, hold, -⟩
    · exact h.keyed id' m c hold
    · exact h.keyed _ m cnt hold

theorem Indexed.evented (h : Indexed ic) {disperse disperse' : Bool} {e : ClusterEvent}
    (hfit : ic.Fits e) (hev : ic.Evented disperse e ic' disperse') : Indexed ic' := by
  cases hev with
  | alone m => exact ⟨h.indexes, h.minOrd_eq, h.keyed⟩
  | joined m => exact ⟨h.indexes, h.minOrd_eq, h.keyed⟩
  | self m hself => exact h
  | removed m member cnt hget =>
      refine ⟨h.indexes.erase hget, rfl, fun id m' c hget' => ?_⟩
      simp only [getElem?_erase_eq] at hget'
      split at hget'
      · cases hget'
      · exact h.keyed id m' c hget'
  | added m =>
      have hnone : ic.acks[m.id]? = none := hfit
      refine ⟨h.indexes.insert m fun m' c' hget => ?_, ?_, fun id m' c hget => ?_⟩
      · rw [hnone] at hget
        cases hget
      · have hmem : (0, m.id) ∈ ic.ordAcks.insert (0, m.id) := (mem_insert_iff _ _ _).mpr (.inl rfl)
        exact (Nat.le_zero.mp (firstCount_le hmem)).symm
      · simp only [getElem?_insert_eq] at hget
        split at hget
        · next hid =>
            cases hget
            exact hid.symm
        · exact h.keyed id m' c hget

theorem indexed_toIc [CRDT S] (w : Waiting S) (member : Member) (nodes : MemberSet) :
    Indexed (w.toIc member nodes) := by
  have hindexes : Indexes (w.toIc member nodes).ordAcks (w.toIc member nodes).acks :=
    Indexes.empty.foldl_insert (fun id m c hget => by simp at hget) _
  refine ⟨hindexes, ?_, fun id m c hget => (acks_of_toIc hget).1⟩
  rcases hhead : (w.toIc member nodes).ordAcks.toList.head? with _ | ⟨c, id⟩
  · rfl
  · have hmem := ExtTreeSet.mem_toList.mp (List.mem_of_head? hhead)
    obtain ⟨m, hget⟩ := (hindexes c id).mp hmem
    obtain ⟨-, rfl, -⟩ := acks_of_toIc hget
    rfl

/-! ## No failure -/

/-- A membership event is handled. -/
theorem Indexed.event_ok (h : Indexed ic) (disperse : Bool) {e : ClusterEvent}
    (hfit : ic.Fits e) : ∃ r, ic.event disperse e = .ok r := by
  cases e with
  | alone m => exact ⟨_, rfl⟩
  | joined m => exact ⟨_, rfl⟩
  | added m => exact ⟨_, rfl⟩
  | left => exact hfit.elim
  | removed m =>
      by_cases hself : m.id = ic.member.id
      · exact ⟨(ic, disperse), by simp only [event, hself, if_true]⟩
      · obtain ⟨⟨member, cnt⟩, hget⟩ := Option.isSome_iff_exists.mp (hfit.resolve_right hself)
        have hord := (h.indexes cnt m.id).mpr ⟨member, hget⟩
        simp only [event, hself, if_false, hget, hord, if_true]
        exact ⟨_, rfl⟩

/-- The flag `disperse` does not decide what an event does. -/
theorem event_state (ic : InCluster S) (disperse : Bool) (e : ClusterEvent) :
    (ic.event disperse e).map (·.1) = (ic.event false e).map (·.1) := by
  cases e with
  | removed m =>
      simp only [event]
      split
      · rfl
      · split
        · rfl
        · split <;> rfl
  | alone m => rfl
  | joined m => rfl
  | added m => rfl
  | left => rfl

theorem AllFit.tail {disperse disperse' : Bool} {e : ClusterEvent} {es : List ClusterEvent}
    (h : ic.AllFit (e :: es)) (hev : ic.event disperse e = .ok (ic', disperse')) :
    ic'.AllFit es := by
  have hstate := event_state ic disperse e
  rw [hev] at hstate
  obtain ⟨-, hrest⟩ := h
  cases hfalse : ic.event false e with
  | error err =>
      rw [hfalse] at hstate
      cases hstate
  | ok r =>
      rw [hfalse] at hstate hrest
      have hsame : ic' = r.1 := Except.ok.inj hstate
      rw [hsame]
      exact hrest

/-- The events of a membership are all handled, and keep the indexes. -/
theorem Indexed.events_ok {es : List ClusterEvent} (h : Indexed ic) (disperse : Bool)
    (hfit : ic.AllFit es) :
    ∃ ic' disperse', ic.events disperse es = .ok (ic', disperse') ∧ Indexed ic' := by
  induction es generalizing ic disperse with
  | nil => exact ⟨ic, disperse, rfl, h⟩
  | cons e es ih =>
      obtain ⟨⟨ic₁, disperse₁⟩, hev⟩ := h.event_ok disperse hfit.1
      obtain ⟨ic₂, disperse₂, hevs, h₂⟩ :=
        ih (h.evented hfit.1 (event_cases hev)) disperse₁ (hfit.tail hev)
      refine ⟨ic₂, disperse₂, ?_, h₂⟩
      simp only [events, hev]
      exact hevs

/-- An acknowledgement that is not from the future is handled. -/
theorem Indexed.ack_ok (h : Indexed ic) (hcnt : Counted ic) (id : UInt64) {clock : Nat}
    (hclock : clock ≤ ic.clock) : ∃ ic', ic.ack id clock = .ok ic' := by
  have hpop : ic.ack id clock ≠ .error .popFront := hcnt.ack_ne_popFront hclock
  rcases hget : ic.acks[id]? with _ | ⟨member, cnt⟩
  · exact ⟨ic, by simp only [ack, hget]⟩
  · by_cases hlt : cnt < clock
    · have hord := (h.indexes cnt id).mpr ⟨member, hget⟩
      have hmem : (clock, id) ∈ (ic.ordAcks.erase (cnt, id)).insert (clock, id) :=
        (mem_insert_iff _ _ _).mpr (.inl rfl)
      obtain ⟨⟨minOrd, minId⟩, hmin⟩ : ∃ e,
          ((ic.ordAcks.erase (cnt, id)).insert (clock, id)).toList.head? = some e := by
        refine Option.ne_none_iff_exists'.mp fun hnone => ?_
        have hnil := List.head?_eq_none_iff.mp hnone
        exact List.not_mem_nil (hnil ▸ ExtTreeSet.mem_toList.mpr hmem)
      simp only [ack, hget, hlt, hord, hmin, if_true] at hpop ⊢
      split
      · exact ⟨_, rfl⟩
      · next hpops => simp only [hpops, if_false, ne_eq, not_true_eq_false] at hpop
    · exact ⟨ic, by simp only [ack, hget, hlt, if_false]⟩

/-! ## The calls -/

section Calls

variable [CRDT S]

/-- The change that an operation makes, if it makes one. -/
def operated (ic : InCluster S) (op : CRDT.Delta S) : List S :=
  let d := CRDT.apply op ic.data
  if CRDT.empty d then [] else [d]

/-- The change that a delta makes: itself, if it is from a peer and the data does
not have it yet. -/
def received [DecidableEq S] (ic : InCluster S) (delta : S) (id : UInt64) : List S :=
  if ic.acks[id]?.isSome ∧ CRDT.join ic.data delta ≠ ic.data then [delta] else []

theorem op_cases {preference : DispersalPreference} {op : CRDT.Delta S} {out : List (Output S)}
    (h : ic.op preference op = .ok (ic', out)) :
    ic' = ic ∧ ic.operated op = [] ∨ ∃ data d, ic' = ic.grow data d ∧ ic.operated op = [d] := by
  simp only [InCluster.op] at h
  split at h
  · next hempty =>
      cases h
      exact .inl ⟨rfl, if_pos hempty⟩
  · next hempty =>
      generalize hgrow : ic.grow _ _ = ic₁ at h
      cases hsent : ic₁.disperse preference with
      | error e => rw [hsent] at h; cases h
      | ok sent =>
          rw [hsent] at h
          cases h
          exact .inr ⟨_, _, hgrow.symm, if_neg hempty⟩

theorem delta_cases [DecidableEq S] {preference : DispersalPreference} {delta : S} {id : UInt64}
    {clock : Nat} {out : List (Output S)}
    (h : ic.delta preference delta id clock = .ok (ic', out)) :
    ic' = ic ∧ ic.received delta id = [] ∨
      ∃ data d, ic' = ic.grow data d ∧ ic.received delta id = [d] := by
  simp only [InCluster.delta] at h
  split at h
  · next hnone =>
      cases h
      exact .inl ⟨rfl, if_neg fun hnew => by simp [hnone] at hnew⟩
  · next member cnt hget =>
      split at h
      · next hold =>
          cases h
          exact .inl ⟨rfl, if_neg fun hnew => hnew.2 hold⟩
      · next hne =>
          generalize hgrow : ic.grow _ _ = ic₁ at h
          cases hsent : ic₁.disperse preference with
          | error e => rw [hsent] at h; cases h
          | ok sent =>
              rw [hsent] at h
              cases h
              exact .inr ⟨_, _, hgrow.symm, if_pos ⟨by simp [hget], hne⟩⟩

theorem update_cases {preference : DispersalPreference} {update : ClusterUpdate}
    {out : List (Output S)} (h : ic.update preference update = .ok (ic', out)) :
    ∃ ic₁ disperse, ic.events false update.events = .ok (ic₁, disperse) ∧
      ic' = { ic₁ with cluster := update.nodes.erase ic₁.member } := by
  simp only [InCluster.update] at h
  cases hev : ic.events false update.events with
  | error e => rw [hev] at h; cases h
  | ok r =>
      obtain ⟨ic₁, disperse⟩ := r
      rw [hev] at h
      refine ⟨ic₁, disperse, rfl, ?_⟩
      cases disperse with
      | false => cases h; rfl
      | true =>
          cases hsent : ({ ic₁ with cluster := update.nodes.erase ic₁.member }).disperse
              preference with
          | error e =>
              simp only [Except.bind, bind, hsent] at h
              cases h
          | ok sent =>
              simp only [Except.bind, bind, hsent] at h
              injection h with h
              exact (Prod.mk.inj h).1.symm

end Calls

end InCluster

/-! ## Runs -/

/-- A state, beside every change that the calls made to the data. -/
structure Logged (S : Type) where
  ic : InCluster S
  log : List S

/-- The calls of the handlers inside the cluster. -/
inductive Call (S : Type) [CRDT S] where
  | op (preference : DispersalPreference) (op : CRDT.Delta S)
  | delta (preference : DispersalPreference) (delta : S) (id : UInt64) (clock : Nat)
  | ack (id : UInt64) (clock : Nat)
  | update (preference : DispersalPreference) (update : ClusterUpdate)

namespace Logged

variable {S : Type} {l l' : Logged S}

variable [CRDT S]

/-- An acknowledgement is not from the future, and an update fits the membership. -/
def Allowed (l : Logged S) : Call S → Prop
  | .op .. | .delta .. => True
  | .ack _ clock => clock ≤ l.ic.clock
  | .update _ u => l.ic.AllFit u.events

instance (l : Logged S) : DecidablePred l.Allowed
  | .op .. | .delta .. => isTrue trivial
  | .ack _ clock => inferInstanceAs (Decidable (clock ≤ l.ic.clock))
  | .update _ u => inferInstanceAs (Decidable (l.ic.AllFit u.events))

/-- The log of an actor that enters the cluster: its data is one change, unless it
is empty. -/
def enter (ic : InCluster S) : Logged S :=
  ⟨ic, if CRDT.empty ic.data then [] else [ic.data]⟩

/-- The state in which an actor enters the cluster. -/
def Starts (l : Logged S) : Prop :=
  ∃ (w : Waiting S) (member : Member) (nodes : MemberSet), l = enter (w.toIc member nodes)

section Calls

variable [DecidableEq S]

def next (l : Logged S) : Call S → Option (Logged S)
  | .op preference op =>
      (l.ic.op preference op).toOption.map fun r => ⟨r.1, l.log ++ l.ic.operated op⟩
  | .delta preference delta id clock =>
      (l.ic.delta preference delta id clock).toOption.map fun r =>
        ⟨r.1, l.log ++ l.ic.received delta id⟩
  | .ack id clock => (l.ic.ack id clock).toOption.map fun ic => ⟨ic, l.log⟩
  | .update preference update =>
      (l.ic.update preference update).toOption.map fun r => ⟨r.1, l.log⟩

/-- Any calls that are allowed, from the moment an actor enters the cluster. -/
def system : System (Logged S) (Call S) :=
  (System.mk Starts fun l call l' => l.next call = some l').restrict Allowed

end Calls

/-! ### The invariant -/

omit [CRDT S] in
/-- The deque holds the last deltas of the log, which the clock counts. -/
structure Inv (l : Logged S) : Prop where
  indexed : l.ic.Indexed
  counted : l.ic.Counted
  deltas : l.ic.deltas = l.log.drop l.ic.minDelta
  clock : l.log.length = l.ic.clock

theorem Inv.init (h : Starts l) : Inv l := by
  obtain ⟨w, member, nodes, rfl⟩ := h
  refine ⟨InCluster.indexed_toIc w member nodes, InCluster.counted_toIc w member nodes, rfl, ?_⟩
  have hclock : (w.toIc member nodes).clock =
      if CRDT.empty (w.toIc member nodes).data then 0 else 1 := rfl
  simp only [enter, hclock]
  split <;> rfl

omit [CRDT S] in
/-- A call that does nothing or pushes the change that it makes keeps the
invariant. -/
theorem Inv.changed (h : Inv l) {ic' : InCluster S} {change : List S}
    (hic : ic' = l.ic ∧ change = [] ∨ ∃ data d, ic' = l.ic.grow data d ∧ change = [d]) :
    Inv ⟨ic', l.log ++ change⟩ := by
  rcases hic with ⟨rfl, rfl⟩ | ⟨data, d, rfl, rfl⟩
  · rw [List.append_nil]
    exact h
  · have hmin : l.ic.minDelta ≤ l.log.length := by
      have := h.counted.log
      have := h.clock
      omega
    refine ⟨h.indexed.grow data d, h.counted.grow data d, ?_, ?_⟩
    · simp only [InCluster.grow]
      rw [List.drop_append_of_le_length hmin, h.deltas]
    · rw [List.length_append, h.clock]
      rfl

omit [CRDT S] in
theorem Inv.acked (h : Inv l) {ic' : InCluster S} {id : UInt64} {clock : Nat}
    (hclock : clock ≤ l.ic.clock) (hack : l.ic.Acked id clock ic') : Inv ⟨ic', l.log⟩ := by
  refine ⟨h.indexed.acked hack, h.counted.acked hclock hack, ?_, ?_⟩
  · obtain ⟨⟨member, cnt, minId, -, -, -, -, heq⟩, -⟩ := hack
    have hmax : l.ic.minDelta + (ic'.minOrd - l.ic.minDelta) = max l.ic.minDelta ic'.minOrd := by
      omega
    rw [heq]
    simp only [h.deltas, List.drop_drop, hmax]
  · obtain ⟨⟨member, cnt, minId, -, -, -, -, heq⟩, -⟩ := hack
    rw [heq]
    exact h.clock

omit [CRDT S] in
theorem Inv.evented (h : Inv l) {es : List ClusterEvent} {ic' : InCluster S} {disperse : Bool}
    (hfit : l.ic.AllFit es) (hev : l.ic.events false es = .ok (ic', disperse))
    (cluster : MemberSet) : Inv ⟨{ ic' with cluster }, l.log⟩ := by
  obtain ⟨ic₁, disperse₁, hev₁, hindexed⟩ := h.indexed.events_ok false hfit
  cases hev.symm.trans hev₁
  have hcounted := InCluster.events_invariant (P := fun ic _ => ic.Counted)
    (fun _ _ _ _ _ _ hp hev => hp.evented hev) h.counted hev
  obtain ⟨-, hmin, hdeltas⟩ := InCluster.log_of_events hev
  have hclock := CausalDisperse.clock_of_events hev
  refine ⟨⟨hindexed.indexes, hindexed.minOrd_eq, hindexed.keyed⟩,
    ⟨hcounted.log, hcounted.ordAcks_le⟩, ?_, ?_⟩
  · simp only [hmin, hdeltas, h.deltas]
  · simp only [hclock, h.clock]

variable [DecidableEq S]

theorem Inv.step (h : Inv l) {call : Call S} (hallowed : l.Allowed call)
    (hst : l.next call = some l') : Inv l' := by
  cases call with
  | op preference op =>
      simp only [next] at hst
      cases hop : l.ic.op preference op with
      | error e => rw [hop] at hst; cases hst
      | ok r =>
          rw [hop] at hst
          cases hst
          exact h.changed (InCluster.op_cases hop)
  | delta preference delta id clock =>
      simp only [next] at hst
      cases hdelta : l.ic.delta preference delta id clock with
      | error e => rw [hdelta] at hst; cases hst
      | ok r =>
          rw [hdelta] at hst
          cases hst
          exact h.changed (InCluster.delta_cases hdelta)
  | ack id clock =>
      simp only [next] at hst
      cases hack : l.ic.ack id clock with
      | error e => rw [hack] at hst; cases hst
      | ok ic' =>
          rw [hack] at hst
          cases hst
          rcases InCluster.ack_cases hack with rfl | hacked
          · exact h
          · exact h.acked hallowed hacked
  | update preference update =>
      simp only [next] at hst
      cases hupdate : l.ic.update preference update with
      | error e => rw [hupdate] at hst; cases hst
      | ok r =>
          rw [hupdate] at hst
          cases hst
          obtain ⟨ic₁, disperse, hev, hic⟩ := InCluster.update_cases hupdate
          simp only [hic]
          exact h.evented hallowed hev _

theorem inv_of_reachable (h : (system (S := S)).Reachable l) : Inv l :=
  h.invariant (fun _ => Inv.init) fun _ _ _ _ hinv hst => hinv.step hst.2 hst.1

/-! ### The bookkeeping -/

omit [CRDT S] [DecidableEq S] in
/-- The indexes, the watermarks and the deque are aligned. -/
structure Aligned (l : Logged S) : Prop where
  ordAcks : ∀ (c : Nat) (id : UInt64), (c, id) ∈ l.ic.ordAcks ↔ ∃ m, l.ic.acks[id]? = some (m, c)
  minOrd_of_empty : l.ic.acks = ∅ → l.ic.minOrd = 0
  minOrd_attained : l.ic.acks ≠ ∅ → ∃ (id : UInt64) (m : Member),
    l.ic.acks[id]? = some (m, l.ic.minOrd)
  minOrd_le : ∀ (id : UInt64) (m : Member) (c : Nat),
    l.ic.acks[id]? = some (m, c) → l.ic.minOrd ≤ c
  count_le : ∀ (id : UInt64) (m : Member) (c : Nat),
    l.ic.acks[id]? = some (m, c) → c ≤ l.ic.clock
  minDelta_le : l.ic.minDelta ≤ l.ic.clock
  length : l.ic.deltas.length = l.ic.clock - l.ic.minDelta
  /-- the clock counts the changes -/
  clock : l.log.length = l.ic.clock
  /-- a peer lacks the changes after its count -/
  lacking : ∀ (id : UInt64) (m : Member) (c : Nat), l.ic.acks[id]? = some (m, c) →
    l.ic.minDelta ≤ c → l.log.drop c <:+ l.ic.deltas

omit [CRDT S] [DecidableEq S] in
theorem Inv.aligned (h : Inv l) : Aligned l := by
  have hcount : ∀ (id : UInt64) (m : Member) (c : Nat),
      l.ic.acks[id]? = some (m, c) → (c, id) ∈ l.ic.ordAcks :=
    fun id m c hget => (h.indexed.indexes c id).mpr ⟨m, hget⟩
  have hlog := h.counted.log
  refine ⟨h.indexed.indexes, fun hempty => ?_, fun hne => ?_, fun id m c hget => ?_,
    fun id m c hget => h.counted.ordAcks_le c id (hcount id m c hget), by omega, by omega, h.clock,
    fun id m c _ hle => ?_⟩
  · rw [h.indexed.minOrd_eq]
    rcases hhead : l.ic.ordAcks.toList.head? with _ | ⟨c, id⟩
    · rfl
    · have hmem := ExtTreeSet.mem_toList.mp (List.mem_of_head? hhead)
      obtain ⟨m, hget⟩ := (h.indexed.indexes c id).mp hmem
      simp [hempty] at hget
  · obtain ⟨id, m, c, hget⟩ : ∃ (id : UInt64) (m : Member) (c : Nat),
        l.ic.acks[id]? = some (m, c) := by
      by_contra hnone
      refine hne (ExtTreeMap.ext_getElem? fun k => ?_)
      rw [ExtTreeMap.getElem?_empty, Option.eq_none_iff_forall_not_mem]
      exact fun e he => hnone ⟨k, e.1, e.2, he⟩
    rw [h.indexed.minOrd_eq]
    rcases hhead : l.ic.ordAcks.toList.head? with _ | ⟨c', id'⟩
    · have hmem := ExtTreeSet.mem_toList.mpr (hcount id m c hget)
      rw [List.head?_eq_none_iff.mp hhead] at hmem
      cases hmem
    · exact ⟨id', (h.indexed.indexes c' id').mp
        (ExtTreeSet.mem_toList.mp (List.mem_of_head? hhead))⟩
  · rw [h.indexed.minOrd_eq]
    exact firstCount_le (hcount id m c hget)
  · rw [h.deltas]
    exact List.drop_suffix_drop_left _ hle

/-- In every state that calls which are allowed lead to, the bookkeeping of the
actor is aligned, every acknowledgement that is not from the future and every
event of a membership is handled without a failed `assert` or `unwrap`. -/
theorem aligned_of_reachable (h : (system (S := S)).Reachable l) :
    Aligned l ∧
      (∀ (id : UInt64) (clock : Nat), clock ≤ l.ic.clock → ∃ ic', l.ic.ack id clock = .ok ic') ∧
      ∀ es : List ClusterEvent, l.ic.AllFit es → ∃ r, l.ic.events false es = .ok r := by
  have hinv := inv_of_reachable h
  refine ⟨hinv.aligned, fun id clock hclock => hinv.indexed.ack_ok hinv.counted id hclock,
    fun es hfit => ?_⟩
  obtain ⟨ic', disperse, hev, -⟩ := hinv.indexed.events_ok false hfit
  exact ⟨(ic', disperse), hev⟩

/-! ### A peer that is removed -/

section Removed

attribute [local instance] maxNat

/-- A member named by its port. -/
def peer (port : UInt16) : Member := ⟨Core.Socket.localhost port, port.toUInt64, 1⟩

/-- An operation, and a delta of one peer.  That peer acknowledges the operation
and the other one is removed: the least count has moved past the first delta,
which the next acknowledgement will trim, and the peer lacks the second one. -/
theorem aligned_of_removed :
    ∃ l : Logged Nat, (system (S := Nat)).Reachable l ∧ Aligned l ∧
      l.ic.minOrd = 1 ∧ l.ic.minDelta = 0 ∧ l.ic.deltas = [7, 9] ∧ l.log = [7, 9] := by
  let nodes : MemberSet := ((∅ : MemberSet).insert (peer 2)).insert (peer 3)
  let start : InCluster Nat := Waiting.toIc ⟨[]⟩ (peer 1) nodes
  let calls : List (Call Nat) :=
    [.op .default (7 : Nat), .delta .default (9 : Nat) 2 1, .delta .default (8 : Nat) 3 1,
      .ack 2 1, .update .default ⟨[.removed (peer 3)], ∅, .new 1⟩]
  obtain ⟨l, hl, hfacts⟩ : ∃ l ∈ System.execWhere Allowed next (enter start) calls,
      l.ic.minOrd = 1 ∧ l.ic.minDelta = 0 ∧ l.ic.deltas = [7, 9] ∧ l.log = [7, 9] := by decide
  have h := System.reachable_of_execWhere calls (.of_init rfl) hl
  have h : (system (S := Nat)).Reachable l := by
    refine h.mono (S := (System.ofNext (enter start) next).restrict Allowed)
      (T := system (S := Nat)) ?_ fun _ _ _ hst => hst
    rintro _ rfl
    exact ⟨⟨[]⟩, peer 1, nodes, rfl⟩
  exact ⟨l, h, (aligned_of_reachable h).1, hfacts⟩

end Removed

end Logged

end AurumActors.Crdt
