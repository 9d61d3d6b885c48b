/-
  Devices/FrequencyBuffer.lean --- the log of the latest heartbeat senders, from
  `cluster/devices/client.rs`.

  The hash map of the frequencies is an association list, of which the model
  reads the entry of a key and the number of the keys.
-/
import AurumActors.Foundation.Blocks
import AurumActors.Foundation.Run
import AurumActors.Foundation.Windows
import AurumActors.Foundation.Words
import Mathlib.Data.List.AList
import Mathlib.Data.Finset.Card

set_option autoImplicit false
set_option linter.dupNamespace false

namespace AurumActors.Devices

open AurumActors.Foundation

structure FrequencyBuffer (T : Type) where
  /-- the newest first -/
  buffer : List T
  frequencies : AList fun _ : T => BitVec 32
  capacity : BitVec 32
  changes : BitVec 32

namespace FrequencyBuffer

variable {T : Type} [DecidableEq T]

omit [DecidableEq T] in
/-- `FrequencyBuffer::new` -/
protected def new (cap : BitVec 32) : FrequencyBuffer T where
  buffer := []
  frequencies := ∅
  capacity := cap
  changes := 0

/-- The entry of `removed` after one of it is taken away. -/
def lowered (checks : Bool) (frequencies : AList fun _ : T => BitVec 32) (removed : T) :
    Except Trap (AList fun _ : T => BitVec 32) :=
  match frequencies.lookup removed with
  | none => .ok frequencies
  | some m =>
      if m = 1 then .ok (frequencies.erase removed)
      else do
        let m ← Word.sub checks m 1
        return frequencies.insert removed m

/-- `FrequencyBuffer::pop` -/
def pop (checks : Bool) (b : FrequencyBuffer T) : Except Trap (FrequencyBuffer T) :=
  match b.buffer.getLast? with
  | none => .ok b
  | some removed => do
      let buffer := b.buffer.dropLast
      let changes ← (if buffer.getLast?.any (· ≠ removed) then Word.sub checks b.changes 1
        else .ok b.changes)
      let frequencies ← lowered checks b.frequencies removed
      return { b with buffer, changes, frequencies }

/-- The condition of the loop of `push`. -/
def full (b : FrequencyBuffer T) : Bool := b.capacity.toNat ≤ b.buffer.length

/-- What comes after the loop of `push`. -/
def record (checks : Bool) (item : T) (b : FrequencyBuffer T) :
    Except Trap (FrequencyBuffer T) := do
  let changes ← (if b.buffer.head?.any (· ≠ item) then Word.add checks b.changes 1
    else .ok b.changes)
  let count ← Word.add checks ((b.frequencies.lookup item).getD 0) 1
  return { b with
    changes, frequencies := b.frequencies.insert item count, buffer := item :: b.buffer }

/-- `FrequencyBuffer::push` -/
def push (checks : Bool) (fuel : Nat) (b : FrequencyBuffer T) (item : T) :
    Option (Except Trap (FrequencyBuffer T)) :=
  whileThen full (pop checks) (record checks item) fuel b

/-- The test for multiple senders: `changes + 1 != frequencies.len() as u32`. -/
def multipleSenders (checks : Bool) (b : FrequencyBuffer T) : Except Trap Bool := do
  let runs ← Word.add checks b.changes 1
  return runs ≠ BitVec.ofNat 32 b.frequencies.keys.length

/-! ## Exact counters -/

/-- The frequencies are the numbers of occurrences in a list, never 0. -/
def Counts (frequencies : AList fun _ : T => BitVec 32) (l : List T) : Prop :=
  ∀ x, (frequencies.lookup x).map BitVec.toNat = if x ∈ l then some (l.count x) else none

theorem Counts.lookup_of_mem {frequencies : AList fun _ : T => BitVec 32} {l : List T}
    (h : Counts frequencies l) {x : T} (hx : x ∈ l) :
    ∃ m, frequencies.lookup x = some m ∧ m.toNat = l.count x := by
  have hlookup := h x
  rw [if_pos hx, Option.map_eq_some_iff] at hlookup
  exact hlookup

theorem Counts.lookup_of_notMem {frequencies : AList fun _ : T => BitVec 32} {l : List T}
    (h : Counts frequencies l) {x : T} (hx : x ∉ l) : frequencies.lookup x = none := by
  have hlookup := h x
  rwa [if_neg hx, Option.map_eq_none_iff] at hlookup

/-- There are as many frequencies as distinct entries. -/
theorem Counts.length_keys {frequencies : AList fun _ : T => BitVec 32} {l : List T}
    (h : Counts frequencies l) : frequencies.keys.length = l.dedup.length := by
  refine List.Perm.length_eq ?_
  rw [List.perm_ext_iff_of_nodup frequencies.keys_nodup (List.nodup_dedup l)]
  intro x
  rw [List.mem_dedup, ← AList.mem_keys, ← AList.lookup_isSome]
  by_cases hx : x ∈ l
  · obtain ⟨m, hm, -⟩ := h.lookup_of_mem hx
    simp [hm, hx]
  · simp [h.lookup_of_notMem hx, hx]

theorem Counts.lowered {frequencies : AList fun _ : T => BitVec 32} {l : List T} {removed : T}
    (h : Counts frequencies (l ++ [removed])) (checks : Bool) :
    ∃ lower, lowered checks frequencies removed = .ok lower ∧ Counts lower l := by
  obtain ⟨m, hm, hcount⟩ := h.lookup_of_mem (x := removed) (by simp)
  rw [List.count_append, List.count_singleton_self] at hcount
  have hother : ∀ x, x ≠ removed →
      (frequencies.lookup x).map BitVec.toNat = if x ∈ l then some (l.count x) else none := by
    intro x hx
    rw [h x]
    simp [hx, List.count_append, Ne.symm hx]
  unfold FrequencyBuffer.lowered
  rw [hm]
  by_cases hone : m = 1
  · -- the last one: its entry goes
    have hzero : l.count removed = 0 := by
      have : m.toNat = 1 := by rw [hone]; rfl
      omega
    refine ⟨frequencies.erase removed, if_pos hone, fun x => ?_⟩
    by_cases hx : x = removed
    · subst hx
      rw [AList.lookup_erase, if_neg (List.count_eq_zero.mp hzero)]
      rfl
    · rw [AList.lookup_erase_ne hx]
      exact hother x hx
  · have hpos : 0 < l.count removed := by
      refine Nat.pos_of_ne_zero fun hzero => hone ?_
      apply BitVec.eq_of_toNat_eq
      rw [hcount, hzero]
      rfl
    have hle : (1 : BitVec 32).toNat ≤ m.toNat := by
      rw [hcount]
      exact Nat.le_add_left 1 _
    refine ⟨frequencies.insert removed (m - 1), ?_, fun x => ?_⟩
    · exact (if_neg hone).trans (bind_eq_ok_iff.mpr ⟨_, Word.sub_eq_ok fun _ => hle, rfl⟩)
    · by_cases hx : x = removed
      · subst hx
        rw [AList.lookup_insert, if_pos (List.count_pos_iff.mp hpos), Option.map_some,
          BitVec.toNat_sub_of_le hle, hcount]
        rfl
      · rw [AList.lookup_insert_ne hx]
        exact hother x hx

theorem Counts.raised {frequencies : AList fun _ : T => BitVec 32} {l : List T}
    (h : Counts frequencies l) (hlen : l.length + 1 < 2 ^ 32) (checks : Bool) (item : T) :
    ∃ count, Word.add checks ((frequencies.lookup item).getD 0) 1 = .ok count ∧
      Counts (frequencies.insert item count) (item :: l) := by
  have hcount : ((frequencies.lookup item).getD 0).toNat = l.count item := by
    by_cases hitem : item ∈ l
    · obtain ⟨m, hm, heq⟩ := h.lookup_of_mem hitem
      rw [hm, Option.getD_some, heq]
    · rw [h.lookup_of_notMem hitem, Option.getD_none, List.count_eq_zero.mpr hitem]
      rfl
  have hle : l.count item ≤ l.length := List.count_le_length
  have hlt : ((frequencies.lookup item).getD 0).toNat + (1 : BitVec 32).toNat < 2 ^ 32 := by
    rw [hcount]
    exact Nat.lt_of_le_of_lt (Nat.add_le_add_right hle 1) hlen
  refine ⟨_, Word.add_eq_ok fun _ => hlt, fun x => ?_⟩
  by_cases hx : x = item
  · subst hx
    rw [AList.lookup_insert, if_pos List.mem_cons_self, Option.map_some,
      BitVec.toNat_add_of_lt hlt, hcount, List.count_cons_self]
    rfl
  · rw [AList.lookup_insert_ne hx, h x]
    simp [hx, Ne.symm hx]

/-- The counters are those of the buffer. -/
structure Exact (b : FrequencyBuffer T) : Prop where
  frequencies : Counts b.frequencies b.buffer
  changes : b.changes.toNat = changesIn b.buffer

theorem exact_new (cap : BitVec 32) : (FrequencyBuffer.new cap : FrequencyBuffer T).Exact where
  frequencies x := by simp [FrequencyBuffer.new]
  changes := rfl

/-- Taking the oldest item away never underflows a counter. -/
theorem Exact.pop {b : FrequencyBuffer T} (h : b.Exact) (hne : b.buffer ≠ []) (checks : Bool) :
    ∃ t, b.pop checks = .ok t ∧ (t.capacity = b.capacity ∧ t.Exact) ∧
      t.buffer = b.buffer.dropLast := by
  obtain ⟨l, removed, hl⟩ : ∃ l removed, b.buffer = l ++ [removed] :=
    ⟨_, _, (List.dropLast_concat_getLast hne).symm⟩
  have hfrequencies := h.frequencies
  have hchanges := h.changes
  rw [hl] at hfrequencies
  rw [hl, changesIn_concat] at hchanges
  obtain ⟨frequencies, hlower, hcounts⟩ := hfrequencies.lowered checks
  have hchange : ∃ changes : BitVec 32, (if l.getLast?.any (· ≠ removed) then
      Word.sub checks b.changes 1 else .ok b.changes) = .ok changes ∧
      changes.toNat = changesIn l := by
    split
    · next hchanged =>
        rw [if_pos hchanged] at hchanges
        have hle : (1 : BitVec 32).toNat ≤ b.changes.toNat := by
          rw [hchanges]
          exact Nat.le_add_left 1 _
        refine ⟨_, Word.sub_eq_ok fun _ => hle, ?_⟩
        rw [BitVec.toNat_sub_of_le hle, hchanges]
        rfl
    · next hchanged =>
        rw [if_neg hchanged] at hchanges
        exact ⟨_, rfl, hchanges⟩
  obtain ⟨changes, hchange, heq⟩ := hchange
  refine ⟨⟨l, frequencies, b.capacity, changes⟩, ?_, ⟨rfl, hcounts, heq⟩, ?_⟩
  · have hlast : b.buffer.getLast? = some removed := by rw [hl, List.getLast?_concat]
    have hdrop : b.buffer.dropLast = l := by rw [hl, List.dropLast_concat]
    simp only [FrequencyBuffer.pop, hlast, hdrop]
    exact bind_eq_ok_iff.mpr ⟨_, hchange, bind_eq_ok_iff.mpr ⟨_, hlower, rfl⟩⟩
  · rw [hl, List.dropLast_concat]

/-- Putting an item in front does not overflow while there is room. -/
theorem Exact.record {b : FrequencyBuffer T} (h : b.Exact) (hlen : b.buffer.length + 1 < 2 ^ 32)
    (checks : Bool) (item : T) :
    ∃ t, b.record checks item = .ok t ∧ t.capacity = b.capacity ∧ t.Exact ∧
      t.buffer = item :: b.buffer := by
  obtain ⟨count, hcount, hcounts⟩ := h.frequencies.raised hlen checks item
  have hle : changesIn b.buffer ≤ b.buffer.length :=
    Nat.le_trans (changesIn_le b.buffer) (Nat.sub_le _ _)
  have hchanges := h.changes
  have hchange : ∃ changes : BitVec 32, (if b.buffer.head?.any (· ≠ item) then
      Word.add checks b.changes 1 else .ok b.changes) = .ok changes ∧
      changes.toNat = changesIn (item :: b.buffer) := by
    rw [changesIn_cons]
    split
    · have hlt : b.changes.toNat + (1 : BitVec 32).toNat < 2 ^ 32 := by
        rw [hchanges]
        exact Nat.lt_of_le_of_lt (Nat.add_le_add_right hle 1) hlen
      refine ⟨_, Word.add_eq_ok fun _ => hlt, ?_⟩
      rw [BitVec.toNat_add_of_lt hlt, hchanges]
      rfl
    · exact ⟨_, rfl, hchanges⟩
  obtain ⟨changes, hchange, heq⟩ := hchange
  refine ⟨⟨item :: b.buffer, b.frequencies.insert item count, b.capacity, changes⟩, ?_, rfl,
    ⟨hcounts, heq⟩, rfl⟩
  exact bind_eq_ok_iff.mpr ⟨_, hchange, bind_eq_ok_iff.mpr ⟨_, hcount, rfl⟩⟩

/-- A push evicts down to `capacity - 1` items and puts the new one in front. -/
theorem Exact.push {b : FrequencyBuffer T} (h : b.Exact) (hcap : 1 ≤ b.capacity.toNat)
    (checks : Bool) (item : T) :
    ∃ t, Returns (FrequencyBuffer.push checks · b item) t ∧ t.capacity = b.capacity ∧ t.Exact ∧
      t.buffer = item :: b.buffer.take (b.capacity.toNat - 1) := by
  have hfull : ∀ t : FrequencyBuffer T, t.capacity = b.capacity →
      (full t = true ↔ b.capacity.toNat ≤ t.buffer.length) := by
    intro t ht
    simp [full, ht]
  have hstep : ∀ t : FrequencyBuffer T, (t.capacity = b.capacity ∧ t.Exact) → t.buffer ≠ [] →
      ∃ u, FrequencyBuffer.pop checks t = .ok u ∧ (u.capacity = b.capacity ∧ u.Exact) ∧
        u.buffer = t.buffer.dropLast := by
    rintro t ⟨hcapacity, hexact⟩ hne
    obtain ⟨u, hu, ⟨hcapacity', hexact'⟩, hbuffer⟩ := hexact.pop hne checks
    exact ⟨u, hu, ⟨hcapacity'.trans hcapacity, hexact'⟩, hbuffer⟩
  obtain ⟨t, ht, ⟨hcapacity, hexact⟩, hbuffer⟩ :=
    whileLoop_evict hcap (fun t ht => hfull t ht.1) hstep ⟨rfl, h⟩
  have hlen : t.buffer.length + 1 < 2 ^ 32 := by
    have hlt := b.capacity.isLt
    rw [hbuffer, List.length_take]
    omega
  obtain ⟨u, hu, hcapacity', hexact', hbuffer'⟩ := hexact.record hlen checks item
  refine ⟨u, (returns_whileThen_iff ht u).mpr hu, hcapacity'.trans hcapacity, hexact', ?_⟩
  rw [hbuffer', hbuffer]

/-! ## Every sequence of pushes -/

/-- The pushes into a new buffer. -/
def pushing (T : Type) [DecidableEq T] (checks : Bool) (cap : BitVec 32) :
    System (FrequencyBuffer T) T where
  init b := b = .new cap
  step b item t := Returns (push checks · b item) t

/-- What holds after a sequence of pushes. -/
structure Holds (cap : BitVec 32) (items : List T) (b : FrequencyBuffer T) : Prop where
  capacity : b.capacity = cap
  buffer : b.buffer = items.reverse.take cap.toNat
  exact : b.Exact

theorem Holds.push {cap : BitVec 32} (hcap : 1 ≤ cap.toNat) {items : List T}
    {b : FrequencyBuffer T} (h : b.Holds cap items) (checks : Bool) (item : T) :
    ∃ t, Returns (FrequencyBuffer.push checks · b item) t ∧ t.Holds cap (items ++ [item]) := by
  obtain ⟨t, ht, hcapacity, hexact, hbuffer⟩ :=
    h.exact.push (by rw [h.capacity]; exact hcap) checks item
  refine ⟨t, ht, hcapacity.trans h.capacity, ?_, hexact⟩
  obtain ⟨n, hn⟩ : ∃ n, cap.toNat = n + 1 := ⟨cap.toNat - 1, by omega⟩
  rw [hbuffer, h.buffer, h.capacity, hn, List.reverse_append, List.reverse_singleton,
    List.singleton_append, List.take_succ_cons, List.take_take]
  congr 2
  omega

theorem exists_run (checks : Bool) {cap : BitVec 32} (hcap : 1 ≤ cap.toNat) (items : List T) :
    ∃ b, (pushing T checks cap).Run (.new cap) items b ∧ b.Holds cap items := by
  induction items using List.reverseRecOn with
  | nil => exact ⟨_, .nil, rfl, by simp [FrequencyBuffer.new], exact_new cap⟩
  | append_singleton items item ih =>
      obtain ⟨b, hrun, hb⟩ := ih
      obtain ⟨t, ht, hholds⟩ := hb.push hcap checks item
      exact ⟨t, .snoc hrun ht, hholds⟩

/-- The test finds the buffers in which an item comes back after another one. -/
theorem Exact.multipleSenders {b : FrequencyBuffer T} (h : b.Exact) (hne : b.buffer ≠ [])
    (hlen : b.buffer.length < 2 ^ 32) (checks : Bool) :
    ∃ found, b.multipleSenders checks = .ok found ∧ (found = true ↔ Interleaved b.buffer) := by
  have hle := changesIn_le b.buffer
  have hpos : 0 < b.buffer.length := List.length_pos_of_ne_nil hne
  have hlt : b.changes.toNat + (1 : BitVec 32).toNat < 2 ^ 32 := by
    rw [h.changes]
    change changesIn b.buffer + 1 < 2 ^ 32
    omega
  have hkeys : b.frequencies.keys.length < 2 ^ 32 := by
    rw [h.frequencies.length_keys]
    exact Nat.lt_of_le_of_lt (List.dedup_sublist _).length_le hlen
  refine ⟨_, bind_eq_ok_iff.mpr ⟨_, Word.add_eq_ok fun _ => hlt, rfl⟩, ?_⟩
  have hruns : (b.changes + 1).toNat = changesIn b.buffer + 1 := by
    rw [BitVec.toNat_add_of_lt hlt, h.changes]
    rfl
  rw [decide_eq_true_eq, ne_eq, ← BitVec.toNat_inj, hruns, BitVec.toNat_ofNat,
    Nat.mod_eq_of_lt hkeys, h.frequencies.length_keys, (length_dedup_blocks _ hne).2, not_not]

/-- The detection of multiple senders is exact: every sequence of pushes
succeeds, with overflow checks or without, the buffer holds its latest items and
the counters are those of the buffer, so that the test is true exactly when an
item in the buffer comes back after another one. -/
theorem detection_exact (checks : Bool) {cap : BitVec 32} (hcap : 1 ≤ cap.toNat)
    (items : List T) :
    (∃ b, (pushing T checks cap).Run (.new cap) items b) ∧
    ∀ b, (pushing T checks cap).Run (.new cap) items b →
      b.buffer = items.reverse.take cap.toNat ∧
      (∀ x, (b.frequencies.lookup x).map BitVec.toNat =
        if x ∈ b.buffer then some (b.buffer.count x) else none) ∧
      b.changes.toNat = changesIn b.buffer ∧
      (items ≠ [] → ∃ found, b.multipleSenders checks = .ok found ∧
        (found = true ↔ ∃ x y, x ≠ y ∧ [x, y, x].Sublist b.buffer)) := by
  obtain ⟨b, hrun, hb⟩ := exists_run checks hcap items
  refine ⟨⟨b, hrun⟩, fun t ht => ?_⟩
  obtain rfl : b = t := hrun.unique (fun _ _ _ _ => returns_whileThen_unique) ht
  refine ⟨hb.buffer, hb.exact.frequencies, hb.exact.changes, fun hne => ?_⟩
  have hlen : b.buffer.length < 2 ^ 32 := by
    rw [hb.buffer, List.length_take]
    exact Nat.lt_of_le_of_lt (Nat.min_le_left _ _) cap.isLt
  have hbuffer : b.buffer ≠ [] := by
    have := List.length_pos_of_ne_nil hne
    rw [← List.length_pos_iff, hb.buffer, List.length_take, List.length_reverse]
    omega
  exact hb.exact.multipleSenders hbuffer hlen checks

/-- Two senders in turn within a window of three. -/
theorem detection_exact_two_senders :
    ∃ b, (pushing Nat true 3).Run (.new 3) [1, 7, 8, 7] b ∧
      b.buffer = [7, 8, 7] ∧ b.multipleSenders true = .ok true := by
  obtain ⟨⟨b, hrun⟩, hall⟩ :=
    detection_exact true (show 1 ≤ (3 : BitVec 32).toNat by decide) [1, 7, 8, 7]
  obtain ⟨hbuffer, -, -, htest⟩ := hall b hrun
  have heq : b.buffer = [7, 8, 7] := hbuffer
  obtain ⟨found, hfound, hiff⟩ := htest (List.cons_ne_nil _ _)
  have htrue : found = true := hiff.mpr ⟨7, 8, by decide, by rw [heq]⟩
  exact ⟨b, hrun, heq, by rw [hfound, htrue]⟩

/-! ## Every capacity -/

/-- A buffer of capacity 0 has no room for an item. -/
theorem not_returns_of_capacity_zero (checks : Bool) {b : FrequencyBuffer T}
    (hcap : b.capacity = 0) (item : T) (t : FrequencyBuffer T) :
    ¬ Returns (push checks · b item) t := by
  refine not_returns_whileThen (I := fun b => b.capacity = 0) (fun b hb => ?_)
    (fun b t hb ht => ?_) hcap t
  · simp [full, hb]
  · unfold pop at ht
    split at ht
    · cases ht
      exact hb
    · obtain ⟨_, -, ht⟩ := bind_eq_ok_iff.mp ht
      obtain ⟨_, -, ht⟩ := bind_eq_ok_iff.mp ht
      cases ht
      exact hb

/-- What pushes into a new buffer keep. -/
theorem reachable_pushing {checks : Bool} {cap : BitVec 32} {b : FrequencyBuffer T}
    (h : (pushing T checks cap).Reachable b) : b.capacity = cap ∧ b.Exact := by
  refine h.invariant (I := fun b => b.capacity = cap ∧ b.Exact) (fun b hb => ?_)
    (fun b item t _ hb ht => ?_)
  · obtain rfl : b = .new cap := hb
    exact ⟨rfl, exact_new cap⟩
  · obtain ⟨hcapacity, hexact⟩ := hb
    rcases Nat.eq_zero_or_pos b.capacity.toNat with hzero | hpos
    · have hcap : b.capacity = 0 := BitVec.eq_of_toNat_eq hzero
      exact absurd ht (not_returns_of_capacity_zero checks hcap item t)
    · obtain ⟨u, hu, hcapacity', hexact', -⟩ := hexact.push hpos checks item
      obtain rfl : u = t := returns_whileThen_unique hu ht
      exact ⟨hcapacity'.trans hcapacity, hexact'⟩

/-- When a push returns with at most `max 1 cap` items. -/
theorem push_ends_iff {checks : Bool} {cap : BitVec 32} {b : FrequencyBuffer T}
    (h : (pushing T checks cap).Reachable b) (item : T) :
    (∃ t, Returns (push checks · b item) t ∧ t.buffer.length ≤ max 1 cap.toNat) ↔
      1 ≤ cap.toNat := by
  obtain ⟨rfl, hexact⟩ := reachable_pushing h
  constructor
  · rintro ⟨t, ht, -⟩
    refine Nat.pos_of_ne_zero fun hzero => ?_
    have hcap : b.capacity = 0 := BitVec.eq_of_toNat_eq hzero
    exact not_returns_of_capacity_zero checks hcap item t ht
  · intro hpos
    obtain ⟨t, ht, -, -, hbuffer⟩ := hexact.push hpos checks item
    refine ⟨t, ht, ?_⟩
    rw [hbuffer, List.length_cons, List.length_take]
    omega

end FrequencyBuffer

end AurumActors.Devices
