/-
  Crdt/Bookkeeping.lean --- what holds between the counts, the clock and the
  deltas of one actor.

  `Ordered` ties `acks`, `ord_acks` and `min_ord` together and holds after any
  messages.  `Counted` bounds the counts by the clock and holds as long as no
  acknowledgement is from the future.
-/
import AurumActors.Crdt.Causal

set_option autoImplicit false

namespace AurumActors.Crdt

open Std
open AurumActors.Cluster AurumActors.Foundation

attribute [local instance] lexOrd

/-! ## The least count -/

theorem count_le_of_head? {ordAcks : OrdAcks} {c c' : Nat} {id id' : UInt64}
    (h : ordAcks.toList.head? = some (c, id)) (hmem : (c', id') ∈ ordAcks) : c ≤ c' := by
  rw [← ExtTreeSet.min?_eq_head?_toList] at h
  have hle := (ExtTreeSet.min?_eq_some_iff_mem_and_forall.mp h).2 _ hmem
  by_contra hlt
  have hgt : compare c c' = .gt := Nat.compare_eq_gt.mpr (Nat.lt_of_not_le hlt)
  have hlex : compare (c, id) (c', id') = .gt := by
    change (compare c c').then (compare id id') = .gt
    rw [hgt]
    rfl
  rw [hlex] at hle
  cases hle

theorem firstCount_le {ordAcks : OrdAcks} {c : Nat} {id : UInt64} (hmem : (c, id) ∈ ordAcks) :
    (ordAcks.toList.head?.map (·.1)).getD 0 ≤ c := by
  rcases h : ordAcks.toList.head? with _ | ⟨c', id'⟩
  · exact Nat.zero_le _
  · exact count_le_of_head? h hmem

namespace InCluster

variable {S : Type} {ic ic' : InCluster S}

/-- Every count is in its order, and `min_ord` is not above it. -/
structure Ordered (ic : InCluster S) : Prop where
  recorded : ∀ (id : UInt64) (m : Member) (c : Nat),
    ic.acks[id]? = some (m, c) → (c, id) ∈ ic.ordAcks
  minOrd_le : ∀ (id : UInt64) (m : Member) (c : Nat),
    ic.acks[id]? = some (m, c) → ic.minOrd ≤ c

theorem Ordered.grow (h : Ordered ic) (data delta : S) : Ordered (ic.grow data delta) :=
  ⟨h.recorded, h.minOrd_le⟩

theorem Ordered.acked (h : Ordered ic) {id : UInt64} {clock : Nat}
    (hack : ic.Acked id clock ic') : Ordered ic' := by
  obtain ⟨⟨member, cnt, minId, hget, -, -, hmin, heq⟩, -⟩ := hack
  have hrec : ∀ (id' : UInt64) (m : Member) (c : Nat),
      (ic.acks.insert id (member, clock))[id']? = some (m, c) →
        (c, id') ∈ (ic.ordAcks.erase (cnt, id)).insert (clock, id) := by
    intro id' m c hget'
    rw [getElem?_insert_eq] at hget'
    rw [mem_insert_iff, mem_erase_iff]
    split at hget'
    · next hid =>
        rw [(Prod.mk.inj (Option.some.inj hget')).2, hid]
        exact .inl rfl
    · next hid =>
        exact .inr ⟨fun hc => hid (Prod.mk.inj hc).2, h.recorded id' m c hget'⟩
  have hrec' : ∀ (id' : UInt64) (m : Member) (c : Nat),
      ic'.acks[id']? = some (m, c) →
        (c, id') ∈ (ic.ordAcks.erase (cnt, id)).insert (clock, id) := by
    intro id' m c hget'
    rw [heq] at hget'
    exact hrec id' m c hget'
  refine ⟨fun id' m c hget' => ?_,
    fun id' m c hget' => count_le_of_head? hmin (hrec' id' m c hget')⟩
  have hmem := hrec' id' m c hget'
  rw [heq]
  exact hmem

theorem Ordered.evented (h : Ordered ic) {disperse disperse' : Bool} {e : ClusterEvent}
    (hev : ic.Evented disperse e ic' disperse') : Ordered ic' := by
  cases hev with
  | alone m => exact ⟨h.recorded, h.minOrd_le⟩
  | joined m => exact ⟨h.recorded, h.minOrd_le⟩
  | self m hself => exact h
  | removed m member cnt hget =>
      have hrec : ∀ (id : UInt64) (m' : Member) (c : Nat),
          (ic.acks.erase m.id)[id]? = some (m', c) →
            (c, id) ∈ ic.ordAcks.erase (cnt, m.id) := by
        intro id m' c hget'
        rw [getElem?_erase_eq] at hget'
        split at hget'
        · cases hget'
        · next hid =>
            rw [mem_erase_iff]
            exact ⟨fun hc => hid (Prod.mk.inj hc).2, h.recorded id m' c hget'⟩
      exact ⟨hrec, fun id m' c hget' => firstCount_le (hrec id m' c hget')⟩
  | added m =>
      refine ⟨fun id m' c hget => ?_, fun _ _ _ _ => Nat.zero_le _⟩
      simp only [getElem?_insert_eq] at hget
      simp only [mem_insert_iff]
      split at hget
      · next hid =>
          rw [← (Prod.mk.inj (Option.some.inj hget)).2, hid]
          exact .inl rfl
      · exact .inr (h.recorded id m' c hget)

theorem ordered_toIc [CRDT S] (w : Waiting S) (member : Member) (nodes : MemberSet) :
    Ordered (w.toIc member nodes) := by
  refine ⟨fun id m c hget => ?_, fun _ _ _ _ => Nat.zero_le _⟩
  rcases of_getElem?_foldl_insert (fun m : Member => m.id) (fun m => (m, 0)) _ _ hget with
    h | ⟨m', hm', hid, he⟩
  · simp at h
  · simp only [Waiting.toIc]
    refine (mem_foldl_insert (fun m : Member => (0, m.id)) _ _ _).mpr (.inr ⟨m', hm', ?_⟩)
    rw [hid, (Prod.mk.inj he).2]

/-! ## Counts and the clock -/

/-- The deltas lead from `min_delta` to the clock, and no count is above it. -/
structure Counted (ic : InCluster S) : Prop where
  log : ic.minDelta + ic.deltas.length = ic.clock
  ordAcks_le : ∀ (c : Nat) (id : UInt64), (c, id) ∈ ic.ordAcks → c ≤ ic.clock

theorem Counted.grow (h : Counted ic) (data delta : S) : Counted (ic.grow data delta) := by
  refine ⟨?_, fun c id hmem => Nat.le_succ_of_le (h.ordAcks_le c id hmem)⟩
  have := h.log
  simp only [InCluster.grow, List.length_append, List.length_cons, List.length_nil]
  omega

theorem Counted.acked (h : Counted ic) {id : UInt64} {clock : Nat} (hclock : clock ≤ ic.clock)
    (hack : ic.Acked id clock ic') : Counted ic' := by
  obtain ⟨⟨member, cnt, minId, -, -, -, -, heq⟩, hpops⟩ := hack
  have hlog := h.log
  rw [heq]
  refine ⟨?_, fun c id' hmem => ?_⟩
  · simp only [List.length_drop]
    omega
  · simp only [mem_insert_iff, mem_erase_iff] at hmem
    rcases hmem with hmem | ⟨-, hmem⟩
    · rw [(Prod.mk.inj hmem).1]
      exact hclock
    · exact h.ordAcks_le c id' hmem

theorem Counted.evented (h : Counted ic) {disperse disperse' : Bool} {e : ClusterEvent}
    (hev : ic.Evented disperse e ic' disperse') : Counted ic' := by
  cases hev with
  | alone m => exact ⟨h.log, h.ordAcks_le⟩
  | joined m => exact ⟨h.log, h.ordAcks_le⟩
  | self m hself => exact h
  | removed m member cnt hget =>
      refine ⟨h.log, fun c id hmem => ?_⟩
      rw [mem_erase_iff] at hmem
      exact h.ordAcks_le c id hmem.2
  | added m =>
      refine ⟨h.log, fun c id hmem => ?_⟩
      simp only [mem_insert_iff] at hmem
      rcases hmem with hmem | hmem
      · rw [(Prod.mk.inj hmem).1]
        exact Nat.zero_le _
      · exact h.ordAcks_le c id hmem

theorem counted_toIc [CRDT S] (w : Waiting S) (member : Member) (nodes : MemberSet) :
    Counted (w.toIc member nodes) := by
  refine ⟨?_, fun c id hmem => ?_⟩
  · simp only [Waiting.toIc]
    split <;> rfl
  · simp only [Waiting.toIc] at hmem
    rcases (mem_foldl_insert (fun m : Member => (0, m.id)) _ _ _).mp hmem with hmem | ⟨m, -, hm⟩
    · simp at hmem
    · rw [← (Prod.mk.inj hm).1]
      exact Nat.zero_le _

/-- An acknowledgement that is not from the future never pops from an empty
queue of deltas. -/
theorem Counted.ack_ne_popFront (h : Counted ic) {id : UInt64} {clock : Nat}
    (hclock : clock ≤ ic.clock) : ic.ack id clock ≠ .error .popFront := by
  unfold ack
  intro herr
  split at herr
  · cases herr
  · split at herr
    · split at herr
      · simp only at herr
        split at herr
        · cases herr
        · next cnt _ _ _ minOrd minId hmin =>
            have hmem := ExtTreeSet.mem_toList.mp (List.mem_of_head? hmin)
            have hle : minOrd ≤ ic.clock := by
              simp only [mem_insert_iff, mem_erase_iff] at hmem
              rcases hmem with hmem | ⟨-, hmem⟩
              · rw [(Prod.mk.inj hmem).1]
                exact hclock
              · exact h.ordAcks_le minOrd minId hmem
            have hlog := h.log
            rw [if_pos (by omega)] at herr
            cases herr
      · cases herr
    · cases herr

/-! ## Where a count is from -/

/-- After some events, an entry is old or that of an added member. -/
theorem acks_of_events {es : List ClusterEvent} {disperse : Bool}
    (h : ic.events false es = .ok (ic', disperse)) {id : UInt64} {m : Member} {c : Nat}
    (hget : ic'.acks[id]? = some (m, c)) :
    ic.acks[id]? = some (m, c) ∨ m.id = id ∧ c = 0 ∧ .added m ∈ es := by
  refine events_invariant (P := fun ic₁ _ => ∀ (id : UInt64) (m : Member) (c : Nat),
    ic₁.acks[id]? = some (m, c) →
      ic.acks[id]? = some (m, c) ∨ m.id = id ∧ c = 0 ∧ .added m ∈ es)
    ?_ (fun id m c hget => .inl hget) h id m c hget
  intro ic₁ d e ic₂ d' he hp hev id m c hget
  cases hev with
  | alone m' => exact hp id m c hget
  | joined m' => exact hp id m c hget
  | self m' hself => exact hp id m c hget
  | removed m' member cnt hmember =>
      simp only [getElem?_erase_eq] at hget
      split at hget
      · cases hget
      · exact hp id m c hget
  | added m' =>
      simp only [getElem?_insert_eq] at hget
      split at hget
      · next hid =>
          cases hget
          exact .inr ⟨hid.symm, rfl, he⟩
      · exact hp id m c hget

theorem acks_of_toIc [CRDT S] {w : Waiting S} {member : Member} {nodes : MemberSet} {id : UInt64}
    {m : Member} {c : Nat} (hget : (w.toIc member nodes).acks[id]? = some (m, c)) :
    m.id = id ∧ c = 0 ∧ m ∈ nodes := by
  rcases of_getElem?_foldl_insert (fun m : Member => m.id) (fun m => (m, 0)) _ _ hget with
    h | ⟨m', hm', hid, he⟩
  · simp at h
  · cases he
    have hmem := ExtTreeSet.mem_toList.mp hm'
    rw [mem_erase_iff] at hmem
    exact ⟨hid, rfl, hmem.2⟩

theorem acks_of_acked {id : UInt64} {clock : Nat} (hack : ic.Acked id clock ic') {id' : UInt64}
    {m : Member} {c : Nat} (hget : ic'.acks[id']? = some (m, c)) :
    ic.acks[id']? = some (m, c) ∨
      id' = id ∧ c = clock ∧ ∃ cnt, ic.acks[id]? = some (m, cnt) ∧ cnt < clock := by
  obtain ⟨⟨member, cnt, minId, hmember, hlt, -, -, heq⟩, -⟩ := hack
  rw [heq] at hget
  simp only [getElem?_insert_eq] at hget
  split at hget
  · next hid =>
      cases hget
      exact .inr ⟨hid, rfl, cnt, hmember, hlt⟩
  · exact .inl hget

/-- Events change neither the data nor the log. -/
theorem log_of_events {es : List ClusterEvent} {disperse : Bool}
    (h : ic.events false es = .ok (ic', disperse)) :
    ic'.data = ic.data ∧ ic'.minDelta = ic.minDelta ∧ ic'.deltas = ic.deltas := by
  refine events_invariant (P := fun ic₁ _ => ic₁.data = ic.data ∧
    ic₁.minDelta = ic.minDelta ∧ ic₁.deltas = ic.deltas) ?_ ⟨rfl, rfl, rfl⟩ h
  intro ic₁ d e ic₂ d' _ hsame hev
  cases hev <;> exact hsame

/-- The member is the one before the events, or one they name. -/
theorem member_of_events {es : List ClusterEvent} {disperse : Bool}
    (h : ic.events false es = .ok (ic', disperse)) :
    ic'.member = ic.member ∨ .alone ic'.member ∈ es ∨ .joined ic'.member ∈ es := by
  refine events_invariant (P := fun ic₁ _ => ic₁.member = ic.member ∨
    .alone ic₁.member ∈ es ∨ .joined ic₁.member ∈ es) ?_ (.inl rfl) h
  intro ic₁ d e ic₂ d' he hp hev
  cases hev with
  | alone m => exact .inr (.inl he)
  | joined m => exact .inr (.inr he)
  | self m hself => exact hp
  | removed m member cnt hmember => exact hp
  | added m => exact hp

end InCluster

namespace CausalDisperse.Handled

variable {S : Type} [CRDT S] {a a' : CausalDisperse S} {msg : CausalMsg S} {out : List (Output S)}

/-- An entry after a handler is old, or new with count 0 from an update, or has
the count of the acknowledgement that was handled. -/
theorem acks_cases (h : Handled a msg a' out) {ic' : InCluster S}
    (hic' : a'.state = .inCluster ic') {id : UInt64} {m : Member} {c : Nat}
    (hget : ic'.acks[id]? = some (m, c)) :
    (∃ ic, a.state = .inCluster ic ∧ ic.acks[id]? = some (m, c)) ∨
    (∃ u, msg = .update u ∧ m.id = id ∧ c = 0 ∧ (.added m ∈ u.events ∨ m ∈ u.nodes)) ∨
    ∃ (ic : InCluster S) (cnt : Nat), a.state = .inCluster ic ∧ msg = .intra (.ack id c) ∧
      ic.acks[id]? = some (m, cnt) ∧ cnt < c := by
  cases h with
  | «prefer» p p' state => exact .inl ⟨ic', hic', hget⟩
  | queue p w op => cases hic'
  | ignore p w msg hmsg => cases hic'
  | join p w u m' hlast =>
      cases hic'
      obtain ⟨hid, hzero, hmem⟩ := InCluster.acks_of_toIc hget
      exact .inr (.inl ⟨u, rfl, hid, hzero, .inr hmem⟩)
  | opEmpty p ic op => exact .inl ⟨ic', hic', hget⟩
  | op p ic ic₁ op sent hgrow hsent =>
      cases hic'
      rw [hgrow] at hget
      exact .inl ⟨ic, rfl, hget⟩
  | ack p ic ic₁ id' clock hcases =>
      cases hic'
      rcases hcases with rfl | hacked
      · exact .inl ⟨ic', rfl, hget⟩
      · rcases InCluster.acks_of_acked hacked hget with hold | ⟨rfl, rfl, cnt, hcnt, hlt⟩
        · exact .inl ⟨ic, rfl, hold⟩
        · exact .inr (.inr ⟨ic, cnt, rfl, rfl, hcnt, hlt⟩)
  | deltaUnknown p ic delta id' clock => exact .inl ⟨ic', hic', hget⟩
  | deltaOld p ic delta id' clock member cnt hmember hdata => exact .inl ⟨ic', hic', hget⟩
  | deltaNew p ic ic₁ delta id' clock member cnt sent hmember hgrow hsent =>
      cases hic'
      rw [hgrow] at hget
      exact .inl ⟨ic, rfl, hget⟩
  | update p ic ic₁ u disperse sent hevents hsent =>
      cases hic'
      rcases InCluster.acks_of_events hevents hget with hold | ⟨hid, hzero, hadded⟩
      · exact .inl ⟨ic, rfl, hold⟩
      · exact .inr (.inl ⟨u, rfl, hid, hzero, .inl hadded⟩)
  | timeout p ic sent hsent => exact .inl ⟨ic', hic', hget⟩
  | idle p ic hidle => exact .inl ⟨ic', hic', hget⟩

/-- A handler keeps the member, or takes it from an update. -/
theorem member_cases (h : Handled a msg a' out) {ic' : InCluster S}
    (hic' : a'.state = .inCluster ic') :
    (∃ ic, a.state = .inCluster ic ∧ ic'.member = ic.member) ∨
    ∃ u, msg = .update u ∧ (.alone ic'.member ∈ u.events ∨ .joined ic'.member ∈ u.events) := by
  cases h with
  | «prefer» p p' state => exact .inl ⟨ic', hic', rfl⟩
  | queue p w op => cases hic'
  | ignore p w msg hmsg => cases hic'
  | join p w u m hlast =>
      cases hic'
      exact .inr ⟨u, rfl, hlast.imp List.mem_of_getLast? List.mem_of_getLast?⟩
  | opEmpty p ic op => exact .inl ⟨ic', hic', rfl⟩
  | op p ic ic₁ op sent hgrow hsent =>
      cases hic'
      exact .inl ⟨ic, rfl, hgrow ▸ rfl⟩
  | ack p ic ic₁ id clock hcases =>
      cases hic'
      refine .inl ⟨ic, rfl, ?_⟩
      rcases hcases with rfl | ⟨⟨member, cnt, minId, -, -, -, -, heq⟩, -⟩
      · rfl
      · rw [heq]
  | deltaUnknown p ic delta id clock => exact .inl ⟨ic', hic', rfl⟩
  | deltaOld p ic delta id clock member cnt hmember hdata => exact .inl ⟨ic', hic', rfl⟩
  | deltaNew p ic ic₁ delta id clock member cnt sent hmember hgrow hsent =>
      cases hic'
      exact .inl ⟨ic, rfl, hgrow ▸ rfl⟩
  | update p ic ic₁ u disperse sent hevents hsent =>
      cases hic'
      rcases InCluster.member_of_events hevents with hsame | hnamed
      · exact .inl ⟨ic, rfl, hsame⟩
      · exact .inr ⟨u, rfl, hnamed⟩
  | timeout p ic sent hsent => exact .inl ⟨ic', hic', rfl⟩
  | idle p ic hidle => exact .inl ⟨ic', hic', rfl⟩

/-- Every handler keeps the counts in order. -/
theorem ordered (h : Handled a msg a' out)
    (hord : ∀ ic, a.state = .inCluster ic → ic.Ordered) {ic' : InCluster S}
    (hic' : a'.state = .inCluster ic') : ic'.Ordered := by
  cases h with
  | «prefer» p p' state => exact hord ic' hic'
  | queue p w op => cases hic'
  | ignore p w msg hmsg => cases hic'
  | join p w u m hlast =>
      cases hic'
      exact InCluster.ordered_toIc w m u.nodes
  | opEmpty p ic op => exact hord ic' hic'
  | op p ic ic₁ op sent hgrow hsent =>
      cases hic'
      exact hgrow ▸ (hord ic rfl).grow _ _
  | ack p ic ic₁ id clock hcases =>
      cases hic'
      rcases hcases with rfl | hacked
      · exact hord ic' rfl
      · exact (hord ic rfl).acked hacked
  | deltaUnknown p ic delta id clock => exact hord ic' hic'
  | deltaOld p ic delta id clock member cnt hmember hdata => exact hord ic' hic'
  | deltaNew p ic ic₁ delta id clock member cnt sent hmember hgrow hsent =>
      cases hic'
      exact hgrow ▸ (hord ic rfl).grow _ _
  | update p ic ic₁ u disperse sent hevents hsent =>
      cases hic'
      have hord' := InCluster.events_invariant (P := fun ic _ => ic.Ordered)
        (fun _ _ _ _ _ _ hp hev => hp.evented hev) (hord ic rfl) hevents
      exact ⟨hord'.recorded, hord'.minOrd_le⟩
  | timeout p ic sent hsent => exact hord ic' hic'
  | idle p ic hidle => exact hord ic' hic'

/-- A handler keeps the counts below the clock if no acknowledgement it records
is from the future. -/
theorem counted (h : Handled a msg a' out)
    (hcnt : ∀ ic, a.state = .inCluster ic → ic.Counted)
    (hack : ∀ (ic ic' : InCluster S) (id : UInt64) (c : Nat), msg = .intra (.ack id c) →
      a.state = .inCluster ic → ic.Acked id c ic' → c ≤ ic.clock)
    {ic' : InCluster S} (hic' : a'.state = .inCluster ic') : ic'.Counted := by
  cases h with
  | «prefer» p p' state => exact hcnt ic' hic'
  | queue p w op => cases hic'
  | ignore p w msg hmsg => cases hic'
  | join p w u m hlast =>
      cases hic'
      exact InCluster.counted_toIc w m u.nodes
  | opEmpty p ic op => exact hcnt ic' hic'
  | op p ic ic₁ op sent hgrow hsent =>
      cases hic'
      exact hgrow ▸ (hcnt ic rfl).grow _ _
  | ack p ic ic₁ id clock hcases =>
      cases hic'
      rcases hcases with rfl | hacked
      · exact hcnt ic' rfl
      · exact (hcnt ic rfl).acked (hack ic ic' id clock rfl rfl hacked) hacked
  | deltaUnknown p ic delta id clock => exact hcnt ic' hic'
  | deltaOld p ic delta id clock member cnt hmember hdata => exact hcnt ic' hic'
  | deltaNew p ic ic₁ delta id clock member cnt sent hmember hgrow hsent =>
      cases hic'
      exact hgrow ▸ (hcnt ic rfl).grow _ _
  | update p ic ic₁ u disperse sent hevents hsent =>
      cases hic'
      have hcnt' := InCluster.events_invariant (P := fun ic _ => ic.Counted)
        (fun _ _ _ _ _ _ hp hev => hp.evented hev) (hcnt ic rfl) hevents
      exact ⟨hcnt'.log, hcnt'.ordAcks_le⟩
  | timeout p ic sent hsent => exact hcnt ic' hic'
  | idle p ic hidle => exact hcnt ic' hic'

end CausalDisperse.Handled

end AurumActors.Crdt
