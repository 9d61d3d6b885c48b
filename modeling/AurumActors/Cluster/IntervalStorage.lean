/-
  Cluster/IntervalStorage.lean --- the window of heartbeat gaps, from
  `cluster/interval_storage.rs`.

  Instants and durations are numbers of nanoseconds.  `mean` and `stdev` divide
  in floating point and are left out; what they divide is here.
-/
import AurumActors.Foundation.Run
import AurumActors.Foundation.Windows
import AurumActors.Foundation.Words

set_option autoImplicit false

namespace AurumActors.Cluster

open AurumActors.Foundation

/-- `dur2u64` -/
def dur2u64 (dur : Nat) : BitVec 64 := BitVec.ofNat 64 (dur / 1000000)

/-- The nanoseconds of `Duration::MAX`. -/
def maxDuration : Nat := 2 ^ 64 * 1000000000 - 1

/-- `dur * 2`, which panics in every build. -/
def twice (dur : Nat) : Except Trap Nat :=
  if dur * 2 ≤ maxDuration then .ok (dur * 2) else .error .overflow

/-- `Itertools::interleave`: one of each in turn, then the rest of the longer. -/
def interleave {α : Type} : List α → List α → List α
  | a :: as, b :: bs => a :: b :: interleave as bs
  | [], bs => bs
  | as, [] => as

structure IntervalStorage where
  capacity : Nat
  /-- the newest first -/
  intervals : List (BitVec 64)
  sum : BitVec 64
  sumSquares : BitVec 64
  latest : Nat
  deriving DecidableEq, Repr

namespace IntervalStorage

/-- The window that `new` builds. -/
def initialWindow (cap init times : Nat) : List (BitVec 64) :=
  (interleave (List.replicate times (dur2u64 init)) (List.replicate times 0)).take cap

/-- `IntervalStorage::new` -/
protected def new (checks : Bool) (cap init times : Nat) (start : Option Nat) (now : Nat) :
    Except Trap IntervalStorage := do
  let intervals := initialWindow cap init times
  let sum ← intervals.foldlM (Word.add checks) 0
  let sumSquares ← intervals.foldlM (fun acc d => do
    let square ← Word.mul checks d d
    Word.add checks acc square) 0
  return { capacity := cap, intervals, sum, sumSquares, latest := start.getD now }

/-- The condition of the loop of `push_instant`. -/
def full (s : IntervalStorage) : Bool := s.capacity ≤ s.intervals.length

/-- The body of the loop of `push_instant`. -/
def evict (checks : Bool) (s : IntervalStorage) : Except Trap IntervalStorage :=
  match s.intervals.getLast? with
  | none => .error .unwrapNone
  | some last => do
      let sum ← Word.sub checks s.sum last
      let square ← Word.mul checks last last
      let sumSquares ← Word.sub checks s.sumSquares square
      return { s with intervals := s.intervals.dropLast, sum, sumSquares }

/-- What comes after the loop of `push_instant`.  An instant before the latest
one has no distance from it. -/
def record (checks : Bool) (i : Nat) (s : IntervalStorage) : Except Trap IntervalStorage := do
  let first := dur2u64 (i - s.latest)
  let sum ← Word.add checks s.sum first
  let square ← Word.mul checks first first
  let sumSquares ← Word.add checks s.sumSquares square
  return { s with intervals := first :: s.intervals, sum, sumSquares, latest := i }

/-- `IntervalStorage::push_instant` -/
def pushInstant (checks : Bool) (fuel : Nat) (s : IntervalStorage) (i : Nat) :
    Option (Except Trap IntervalStorage) :=
  whileThen full (evict checks) (record checks i) fuel s

/-! ## Exact sums -/

/-- The sum of words, as a number. -/
def total (words : List (BitVec 64)) : Nat := (words.map BitVec.toNat).sum

/-- The sum of the squares of words, as a number. -/
def totalSquares (words : List (BitVec 64)) : Nat :=
  ((words.map BitVec.toNat).map (· ^ 2)).sum

@[simp] theorem total_nil : total [] = 0 := rfl

@[simp] theorem totalSquares_nil : totalSquares [] = 0 := rfl

@[simp] theorem total_cons (d : BitVec 64) (words : List (BitVec 64)) :
    total (d :: words) = d.toNat + total words := rfl

@[simp] theorem totalSquares_cons (d : BitVec 64) (words : List (BitVec 64)) :
    totalSquares (d :: words) = d.toNat ^ 2 + totalSquares words := rfl

theorem total_concat (words : List (BitVec 64)) (d : BitVec 64) :
    total (words ++ [d]) = total words + d.toNat := by
  simp [total]

theorem totalSquares_concat (words : List (BitVec 64)) (d : BitVec 64) :
    totalSquares (words ++ [d]) = totalSquares words + d.toNat ^ 2 := by
  simp [totalSquares]

theorem total_le_totalSquares (words : List (BitVec 64)) : total words ≤ totalSquares words := by
  induction words with
  | nil => simp
  | cons d words ih =>
      have hd : d.toNat ≤ d.toNat ^ 2 := Nat.le_self_pow (by decide) _
      simp only [total_cons, totalSquares_cons]
      omega

/-- The sums lose nothing. -/
structure Exact (s : IntervalStorage) : Prop where
  sum : s.sum.toNat = total s.intervals
  sumSquares : s.sumSquares.toNat = totalSquares s.intervals

/-- The variance, which is a difference of these two, is not negative. -/
theorem Exact.sum_sq_le {s : IntervalStorage} (h : s.Exact) :
    s.sum.toNat ^ 2 ≤ s.intervals.length * s.sumSquares.toNat := by
  rw [h.sum, h.sumSquares]
  simpa [total, totalSquares] using sum_sq_le_length_mul (s.intervals.map BitVec.toNat)

/-! ## What `new` computes -/

theorem foldlM_add (checks : Bool) (words : List (BitVec 64)) (acc : BitVec 64)
    (h : acc.toNat + total words < 2 ^ 64) :
    ∃ sum, words.foldlM (Word.add checks) acc = .ok sum ∧
      sum.toNat = acc.toNat + total words := by
  induction words generalizing acc with
  | nil => exact ⟨acc, rfl, rfl⟩
  | cons d words ih =>
      rw [total_cons] at h ⊢
      have hd : acc.toNat + d.toNat < 2 ^ 64 := by omega
      have hadd : (acc + d).toNat = acc.toNat + d.toNat := BitVec.toNat_add_of_lt hd
      obtain ⟨sum, hsum, heq⟩ := ih (acc + d) (by omega)
      refine ⟨sum, ?_, by omega⟩
      rw [List.foldlM_cons, Word.add_eq_ok fun _ => hd]
      exact hsum

theorem foldlM_addSquare (checks : Bool) (words : List (BitVec 64)) (acc : BitVec 64)
    (h : acc.toNat + totalSquares words < 2 ^ 64) :
    ∃ sum, words.foldlM (fun acc d => do
        let square ← Word.mul checks d d
        Word.add checks acc square) acc = .ok sum ∧
      sum.toNat = acc.toNat + totalSquares words := by
  induction words generalizing acc with
  | nil => exact ⟨acc, rfl, rfl⟩
  | cons d words ih =>
      rw [totalSquares_cons, Nat.pow_two] at h ⊢
      have hd : d.toNat * d.toNat < 2 ^ 64 := by omega
      have hmul : (d * d).toNat = d.toNat * d.toNat := Word.toNat_mul_of_lt hd
      have hadd : (acc + d * d).toNat = acc.toNat + d.toNat * d.toNat := by
        rw [← hmul]
        exact BitVec.toNat_add_of_lt (by omega)
      obtain ⟨sum, hsum, heq⟩ := ih (acc + d * d) (by omega)
      refine ⟨sum, ?_, by omega⟩
      have hstep : Word.add checks acc (d * d) = .ok (acc + d * d) :=
        Word.add_eq_ok fun _ => by omega
      simp only [List.foldlM_cons, Word.mul_eq_ok fun _ => hd]
      exact (congrArg (· >>= _) hstep).trans hsum

theorem toNat_of_foldlM_add {words : List (BitVec 64)} {acc sum : BitVec 64}
    (h : words.foldlM (Word.add true) acc = .ok sum) : sum.toNat = acc.toNat + total words := by
  induction words generalizing acc with
  | nil =>
      cases h
      rfl
  | cons d words ih =>
      rw [List.foldlM_cons] at h
      obtain ⟨acc', hacc, hrest⟩ := bind_eq_ok_iff.mp h
      obtain ⟨hfits, rfl⟩ := Word.checked_eq_ok_iff.mp hacc
      have hadd : (acc + d).toNat = acc.toNat + d.toNat := BitVec.toNat_add_of_lt (hfits rfl)
      have := ih hrest
      rw [total_cons]
      omega

theorem toNat_of_foldlM_addSquare {words : List (BitVec 64)} {acc sum : BitVec 64}
    (h : words.foldlM (fun acc d => do
      let square ← Word.mul true d d
      Word.add true acc square) acc = .ok sum) :
    sum.toNat = acc.toNat + totalSquares words := by
  induction words generalizing acc with
  | nil =>
      cases h
      rfl
  | cons d words ih =>
      rw [List.foldlM_cons] at h
      obtain ⟨acc', hacc, hrest⟩ := bind_eq_ok_iff.mp h
      obtain ⟨square, hsquare, hacc⟩ := bind_eq_ok_iff.mp hacc
      obtain ⟨hmul, rfl⟩ := Word.checked_eq_ok_iff.mp hsquare
      obtain ⟨hfits, rfl⟩ := Word.checked_eq_ok_iff.mp hacc
      have hsq : (d * d).toNat = d.toNat * d.toNat := Word.toNat_mul_of_lt (hmul rfl)
      have hadd : (acc + d * d).toNat = acc.toNat + (d * d).toNat :=
        BitVec.toNat_add_of_lt (hfits rfl)
      have := ih hrest
      rw [totalSquares_cons, Nat.pow_two]
      omega

/-- `new` succeeds when the squares of its window fit. -/
theorem new_eq_ok (checks : Bool) {cap init times : Nat} (start : Option Nat) (now : Nat)
    (h : totalSquares (initialWindow cap init times) < 2 ^ 64) :
    ∃ s, IntervalStorage.new checks cap init times start now = .ok s ∧ s.Exact := by
  have hle := total_le_totalSquares (initialWindow cap init times)
  obtain ⟨sum, hsum, heq⟩ := foldlM_add checks (initialWindow cap init times) 0
    (by simp; omega)
  obtain ⟨sumSquares, hsquares, heq'⟩ := foldlM_addSquare checks
    (initialWindow cap init times) 0 (by simpa using h)
  refine ⟨⟨cap, initialWindow cap init times, sum, sumSquares, start.getD now⟩, ?_,
    ⟨by simpa using heq, by simpa using heq'⟩⟩
  simp only [IntervalStorage.new, hsum, hsquares]
  rfl

/-- What a new storage holds.  In a build that checks, its sums are exact. -/
theorem of_new {checks : Bool} {cap init times now : Nat} {start : Option Nat}
    {s : IntervalStorage} (h : IntervalStorage.new checks cap init times start now = .ok s) :
    s.capacity = cap ∧ s.intervals = initialWindow cap init times ∧
      s.latest = start.getD now ∧ (checks = true → s.Exact) := by
  obtain ⟨sum, hsum, h⟩ := bind_eq_ok_iff.mp h
  obtain ⟨sumSquares, hsquares, h⟩ := bind_eq_ok_iff.mp h
  cases h
  refine ⟨rfl, rfl, rfl, fun hc => ?_⟩
  subst hc
  exact ⟨by simpa using toNat_of_foldlM_add hsum,
    by simpa using toNat_of_foldlM_addSquare hsquares⟩

/-! ## What `push_instant` does -/

/-- Eviction of a window that is not empty never underflows. -/
theorem evict_spec {checks : Bool} {s : IntervalStorage} (hne : s.intervals ≠ [])
    (hexact : checks = true → s.Exact) :
    ∃ t, evict checks s = .ok t ∧ t.capacity = s.capacity ∧ t.latest = s.latest ∧
      t.intervals = s.intervals.dropLast ∧ (s.Exact → t.Exact) := by
  obtain ⟨words, last, hwords⟩ : ∃ words last, s.intervals = words ++ [last] :=
    ⟨_, _, (List.dropLast_concat_getLast hne).symm⟩
  -- what is taken away is a summand of what it is taken from
  have hfits : s.Exact → last.toNat ≤ s.sum.toNat ∧ last.toNat * last.toNat < 2 ^ 64 ∧
      last.toNat * last.toNat ≤ s.sumSquares.toNat := by
    intro h
    have hsum := h.sum
    have hsquares := h.sumSquares
    have hlt := s.sumSquares.isLt
    rw [hwords, total_concat] at hsum
    rw [hwords, totalSquares_concat, Nat.pow_two] at hsquares
    omega
  have hsquare : s.Exact → (last * last).toNat = last.toNat * last.toNat := fun h =>
    Word.toNat_mul_of_lt (hfits h).2.1
  have hsum : Word.sub checks s.sum last = .ok (s.sum - last) :=
    Word.sub_eq_ok fun hc => (hfits (hexact hc)).1
  have hmul : Word.mul checks last last = .ok (last * last) :=
    Word.mul_eq_ok fun hc => (hfits (hexact hc)).2.1
  have hsub : Word.sub checks s.sumSquares (last * last) = .ok (s.sumSquares - last * last) :=
    Word.sub_eq_ok fun hc => by
      rw [hsquare (hexact hc)]
      exact (hfits (hexact hc)).2.2
  refine ⟨⟨s.capacity, s.intervals.dropLast, s.sum - last, s.sumSquares - last * last,
    s.latest⟩, ?_, rfl, rfl, rfl, fun h => ⟨?_, ?_⟩⟩
  · have hlast : s.intervals.getLast? = some last := by rw [hwords, List.getLast?_concat]
    simp only [evict, hlast]
    exact bind_eq_ok_iff.mpr ⟨_, hsum, bind_eq_ok_iff.mpr ⟨_, hmul,
      bind_eq_ok_iff.mpr ⟨_, hsub, rfl⟩⟩⟩
  · have hle := (hfits h).1
    have heq := h.sum
    rw [hwords, total_concat] at heq
    change (s.sum - last).toNat = total s.intervals.dropLast
    rw [BitVec.toNat_sub_of_le hle, hwords, List.dropLast_concat]
    omega
  · have hle := (hfits h).2.2
    have heq := h.sumSquares
    rw [hwords, totalSquares_concat, Nat.pow_two] at heq
    change (s.sumSquares - last * last).toNat = totalSquares s.intervals.dropLast
    rw [BitVec.toNat_sub_of_le (by rw [BitVec.le_def, hsquare h]; exact hle), hsquare h, hwords,
      List.dropLast_concat]
    omega

/-- The loop of `push_instant` makes room for one gap. -/
theorem evictLoop_spec {checks : Bool} {s : IntervalStorage} (hcap : 1 ≤ s.capacity)
    (hexact : checks = true → s.Exact) :
    ∃ t, whileLoop full (evict checks) s.intervals.length s = some (.ok t) ∧
      t.capacity = s.capacity ∧ t.latest = s.latest ∧
      t.intervals = s.intervals.take (s.capacity - 1) ∧ (s.Exact → t.Exact) := by
  have hstep : ∀ t, (t.capacity = s.capacity ∧ t.latest = s.latest ∧
      (checks = true → t.Exact) ∧ (s.Exact → t.Exact)) → t.intervals ≠ [] →
      ∃ u, evict checks t = .ok u ∧ (u.capacity = s.capacity ∧ u.latest = s.latest ∧
        (checks = true → u.Exact) ∧ (s.Exact → u.Exact)) ∧
        u.intervals = t.intervals.dropLast := by
    rintro t ⟨hcapacity, hlatest, hchecks, hkeep⟩ hne
    obtain ⟨u, hu, hcapacity', hlatest', hitems, hexact'⟩ := evict_spec hne hchecks
    exact ⟨u, hu, ⟨hcapacity'.trans hcapacity, hlatest'.trans hlatest,
      fun hc => hexact' (hchecks hc), fun h => hexact' (hkeep h)⟩, hitems⟩
  have hfull : ∀ t : IntervalStorage, t.capacity = s.capacity →
      (full t = true ↔ s.capacity ≤ t.intervals.length) := by
    intro t ht
    simp [full, ht]
  obtain ⟨t, ht, ⟨hcapacity, hlatest, -, hkeep⟩, hitems⟩ :=
    whileLoop_evict hcap (fun t ht => hfull t ht.1) hstep ⟨rfl, rfl, hexact, id⟩
  exact ⟨t, ht, hcapacity, hlatest, hitems, hkeep⟩

/-- `record` panics only for squares that do not fit, in a build that checks. -/
theorem record_eq_ok_iff {checks : Bool} {s t : IntervalStorage} {i : Nat}
    (hexact : checks = true → s.Exact) :
    record checks i s = .ok t ↔
      (checks = true → totalSquares (dur2u64 (i - s.latest) :: s.intervals) < 2 ^ 64) ∧
      t = ⟨s.capacity, dur2u64 (i - s.latest) :: s.intervals, s.sum + dur2u64 (i - s.latest),
        s.sumSquares + dur2u64 (i - s.latest) * dur2u64 (i - s.latest), i⟩ := by
  generalize hfirst : dur2u64 (i - s.latest) = first
  constructor
  · intro h
    obtain ⟨sum, hsum, h⟩ := bind_eq_ok_iff.mp h
    obtain ⟨square, hsquare, h⟩ := bind_eq_ok_iff.mp h
    obtain ⟨sumSquares, hsquares, h⟩ := bind_eq_ok_iff.mp h
    rw [hfirst] at hsum hsquare
    obtain ⟨-, rfl⟩ := Word.checked_eq_ok_iff.mp hsum
    obtain ⟨hmul, rfl⟩ := Word.checked_eq_ok_iff.mp hsquare
    obtain ⟨hadd, rfl⟩ := Word.checked_eq_ok_iff.mp hsquares
    cases h
    refine ⟨fun hc => ?_, by rw [hfirst]⟩
    have hsq := Word.toNat_mul_of_lt (hmul hc)
    have := hadd hc
    have := (hexact hc).sumSquares
    rw [totalSquares_cons, Nat.pow_two]
    omega
  · rintro ⟨hfits, rfl⟩
    rw [totalSquares_cons, Nat.pow_two] at hfits
    have hle := total_le_totalSquares s.intervals
    have hself : first.toNat ≤ first.toNat * first.toNat := Nat.le_mul_self _
    have hmul : checks = true → first.toNat * first.toNat < 2 ^ 64 := fun hc => by
      have := hfits hc
      omega
    refine bind_eq_ok_iff.mpr ⟨_, Word.add_eq_ok fun hc => ?_, bind_eq_ok_iff.mpr
      ⟨first * first, ?_, bind_eq_ok_iff.mpr ⟨_, Word.add_eq_ok fun hc => ?_, ?_⟩⟩⟩
    · have := hfits hc
      have := (hexact hc).sum
      rw [hfirst]
      omega
    · rw [hfirst]
      exact Word.mul_eq_ok hmul
    · have := hfits hc
      have := (hexact hc).sumSquares
      rw [Word.toNat_mul_of_lt (hmul hc)]
      omega
    · rw [hfirst]
      rfl

/-- What `record` leaves is exact where the squares fit. -/
theorem Exact.recorded {s : IntervalStorage} (h : s.Exact) {first : BitVec 64} (i : Nat)
    (hfits : totalSquares (first :: s.intervals) < 2 ^ 64) :
    Exact ⟨s.capacity, first :: s.intervals, s.sum + first,
      s.sumSquares + first * first, i⟩ := by
  have hsum := h.sum
  have hsquares := h.sumSquares
  have hle := total_le_totalSquares (first :: s.intervals)
  rw [total_cons] at hle
  rw [totalSquares_cons, Nat.pow_two] at hfits
  rw [totalSquares_cons, Nat.pow_two] at hle
  have hsq : (first * first).toNat = first.toNat * first.toNat :=
    Word.toNat_mul_of_lt (by omega)
  refine ⟨?_, ?_⟩
  · rw [total_cons]
    change (s.sum + first).toNat = _
    rw [BitVec.toNat_add_of_lt (by omega)]
    omega
  · rw [totalSquares_cons, Nat.pow_two]
    change (s.sumSquares + first * first).toNat = _
    rw [BitVec.toNat_add_of_lt (by omega), hsq]
    omega

/-- The window after a push. -/
def nextWindow (s : IntervalStorage) (i : Nat) : List (BitVec 64) :=
  dur2u64 (i - s.latest) :: s.intervals.take (s.capacity - 1)

/-- A push evicts down to `capacity - 1` gaps and puts the new one in front.  In
a build that checks it panics if the squares do not fit. -/
theorem pushInstant_returns_iff {checks : Bool} {s : IntervalStorage} (hcap : 1 ≤ s.capacity)
    (hexact : checks = true → s.Exact) (i : Nat) :
    (∃ t, Returns (pushInstant checks · s i) t) ↔
      (checks = true → totalSquares (s.nextWindow i) < 2 ^ 64) := by
  obtain ⟨u, hu, hcapacity, hlatest, hintervals, hkeep⟩ := evictLoop_spec hcap hexact
  simp only [pushInstant, returns_whileThen_iff hu,
    record_eq_ok_iff fun hc => hkeep (hexact hc), hintervals, hlatest]
  constructor
  · rintro ⟨t, hfits, -⟩
    exact hfits
  · exact fun hfits => ⟨_, hfits, rfl⟩

/-- What a push leaves. -/
theorem of_pushInstant {checks : Bool} {s t : IntervalStorage} {i : Nat}
    (hcap : 1 ≤ s.capacity) (hexact : checks = true → s.Exact)
    (h : Returns (pushInstant checks · s i) t) :
    t.capacity = s.capacity ∧ t.latest = i ∧ t.intervals = s.nextWindow i ∧
      (checks = true → totalSquares (s.nextWindow i) < 2 ^ 64) ∧
      (s.Exact → totalSquares (s.nextWindow i) < 2 ^ 64 → t.Exact) := by
  obtain ⟨u, hu, hcapacity, hlatest, hintervals, hkeep⟩ := evictLoop_spec hcap hexact
  simp only [pushInstant, returns_whileThen_iff hu,
    record_eq_ok_iff fun hc => hkeep (hexact hc)] at h
  obtain ⟨hfits, rfl⟩ := h
  have hwindow : dur2u64 (i - u.latest) :: u.intervals = s.nextWindow i := by
    rw [hlatest, hintervals, nextWindow]
  rw [hwindow] at hfits
  refine ⟨hcapacity, rfl, hwindow, hfits, fun h hsquares => ?_⟩
  exact (hkeep h).recorded i (by rwa [hwindow])

/-! ## Every sequence of pushes -/

/-- The pushes into a new storage. -/
def pushing (checks : Bool) (cap init times : Nat) (start : Option Nat) (now : Nat) :
    System IntervalStorage Nat where
  init s := IntervalStorage.new checks cap init times start now = .ok s
  step s i t := Returns (pushInstant checks · s i) t

/-- The gaps between instants that follow `latest`. -/
def gaps : Nat → List Nat → List (BitVec 64)
  | _, [] => []
  | latest, i :: instants => dur2u64 (i - latest) :: gaps i instants

theorem gaps_concat (latest : Nat) (instants : List Nat) (i : Nat) :
    gaps latest (instants ++ [i]) =
      gaps latest instants ++ [dur2u64 (i - instants.getLastD latest)] := by
  induction instants generalizing latest with
  | nil => rfl
  | cons j instants ih =>
      rw [List.cons_append, gaps, gaps, ih, List.getLastD_cons, List.cons_append]

/-- The newest gaps and what is left of the window of `new`. -/
def historyWindow (cap init times latest : Nat) (instants : List Nat) : List (BitVec 64) :=
  ((gaps latest instants).reverse ++ initialWindow cap init times).take cap

/-- Before the first instant it is the window of `new`. -/
theorem historyWindow_nil (cap init times latest : Nat) :
    historyWindow cap init times latest [] = initialWindow cap init times := by
  rw [historyWindow, gaps, List.reverse_nil, List.nil_append, initialWindow, List.take_take,
    Nat.min_self]

theorem totalSquares_lt {cap init times latest : Nat} {instants : List Nat}
    (hfits : ∀ v ∈ initialWindow cap init times ++ gaps latest instants,
      cap * v.toNat ^ 2 < 2 ^ 64) :
    totalSquares (historyWindow cap init times latest instants) < 2 ^ 64 := by
  refine sum_lt_of_mul_lt (c := cap) (Nat.two_pow_pos 64) (· ^ 2) ?_ ?_
  · rw [List.length_map, historyWindow, List.length_take]
    exact Nat.min_le_left _ _
  · intro x hx
    obtain ⟨v, hv, rfl⟩ := List.mem_map.mp hx
    apply hfits
    have := List.mem_of_mem_take hv
    simp only [List.mem_append, List.mem_reverse] at this ⊢
    exact this.symm

/-- The window of the history after one more instant. -/
theorem historyWindow_concat {cap : Nat} (hcap : 1 ≤ cap) (init times latest : Nat)
    (instants : List Nat) (i : Nat) :
    historyWindow cap init times latest (instants ++ [i]) =
      dur2u64 (i - instants.getLastD latest) ::
        (historyWindow cap init times latest instants).take (cap - 1) := by
  obtain ⟨n, rfl⟩ : ∃ n, cap = n + 1 := ⟨cap - 1, by omega⟩
  rw [historyWindow, gaps_concat, List.reverse_append, List.reverse_singleton,
    List.cons_append, List.nil_append, List.cons_append, List.take_succ_cons, historyWindow,
    List.take_take]
  congr 2
  omega

/-- What holds after a sequence of pushes. -/
structure Holds (cap init times since : Nat) (instants : List Nat) (s : IntervalStorage) :
    Prop where
  capacity : s.capacity = cap
  latest : s.latest = instants.getLastD since
  intervals : s.intervals = historyWindow cap init times since instants
  exact : s.Exact

theorem Holds.length_le {cap init times latest : Nat} {instants : List Nat}
    {s : IntervalStorage} (h : s.Holds cap init times latest instants) :
    s.intervals.length ≤ cap := by
  rw [h.intervals, historyWindow, List.length_take]
  exact Nat.min_le_left _ _

theorem Holds.nextWindow {cap init times latest : Nat} {instants : List Nat}
    {s : IntervalStorage} (h : s.Holds cap init times latest instants) (hcap : 1 ≤ cap)
    (i : Nat) :
    s.nextWindow i = historyWindow cap init times latest (instants ++ [i]) := by
  rw [IntervalStorage.nextWindow, historyWindow_concat hcap, h.latest, h.intervals, h.capacity]

/-- The pushes of a history whose values fit all return, with exact sums. -/
theorem exists_run (checks : Bool) {cap init times latest : Nat} (hcap : 1 ≤ cap)
    (start : Option Nat) (now : Nat) {s : IntervalStorage}
    (hs : s.Holds cap init times latest []) (instants : List Nat)
    (hfits : ∀ v ∈ initialWindow cap init times ++ gaps latest instants,
      cap * v.toNat ^ 2 < 2 ^ 64) :
    ∃ t, (pushing checks cap init times start now).Run s instants t ∧
      t.Holds cap init times latest instants := by
  induction instants using List.reverseRecOn with
  | nil => exact ⟨s, .nil, hs⟩
  | append_singleton instants i ih =>
      obtain ⟨t, hrun, ht⟩ := ih fun v hv => hfits v (by
        rw [gaps_concat, ← List.append_assoc]
        exact List.mem_append_left _ hv)
      have hlt := totalSquares_lt hfits
      rw [← ht.nextWindow hcap i] at hlt
      have htcap : 1 ≤ t.capacity := by rw [ht.capacity]; exact hcap
      obtain ⟨u, hu⟩ :=
        (pushInstant_returns_iff htcap (fun _ => ht.exact) i).mpr fun _ : checks = true => hlt
      obtain ⟨hcapacity, hlatest, hintervals, -, hexact⟩ :=
        of_pushInstant htcap (fun _ => ht.exact) hu
      exact ⟨u, .snoc hrun hu, hcapacity.trans ht.capacity, by simpa using hlatest,
        hintervals.trans (ht.nextWindow hcap i), hexact ht.exact hlt⟩

/-- The sums of a storage are exact: as long as `capacity` times the square of
every stored value fits 64 bits, `new` and every sequence of pushes succeed,
with overflow checks or without, and the storage is what the history says. -/
theorem sums_exact (checks : Bool) {cap : Nat} (hcap : 1 ≤ cap) (init times : Nat)
    (start : Option Nat) (now : Nat) (instants : List Nat)
    (hfits : ∀ v ∈ initialWindow cap init times ++ gaps (start.getD now) instants,
      cap * v.toNat ^ 2 < 2 ^ 64) :
    ∃ s, IntervalStorage.new checks cap init times start now = .ok s ∧
      (∃ t, (pushing checks cap init times start now).Run s instants t) ∧
      ∀ t, (pushing checks cap init times start now).Run s instants t →
        t.intervals.length ≤ cap ∧
        t.intervals =
          ((gaps (start.getD now) instants).reverse ++ initialWindow cap init times).take cap ∧
        t.sum.toNat = total t.intervals ∧
        t.sumSquares.toNat = totalSquares t.intervals ∧
        t.sum.toNat ^ 2 ≤ t.intervals.length * t.sumSquares.toNat := by
  have hempty := historyWindow_nil cap init times (start.getD now)
  have hwindow : totalSquares (initialWindow cap init times) < 2 ^ 64 := by
    rw [← hempty]
    exact totalSquares_lt fun v hv => hfits v (List.mem_append_left _ (by simpa [gaps] using hv))
  obtain ⟨s, hs, hexact⟩ := new_eq_ok checks start now hwindow
  obtain ⟨hcapacity, hintervals, hlatest, -⟩ := of_new hs
  have hholds : s.Holds cap init times (start.getD now) [] :=
    ⟨hcapacity, hlatest, hintervals.trans hempty.symm, hexact⟩
  obtain ⟨t, hrun, ht⟩ := exists_run checks hcap start now hholds instants hfits
  refine ⟨s, hs, ⟨t, hrun⟩, fun u hu => ?_⟩
  obtain rfl : t = u := hrun.unique (fun _ _ _ _ => returns_whileThen_unique) hu
  exact ⟨ht.length_le, ht.intervals, ht.exact.sum, ht.exact.sumSquares, ht.exact.sum_sq_le⟩

/-- The instants of `test_interval_storage`. -/
def testInstants : List Nat :=
  [4500000000, 9100000000, 13800000000, 18600000000, 23500000000, 28500000000, 33600000000,
    38800000000, 44100000000, 49500000000, 55000000000]

/-- The test fills the storage, and the last pushes evict the window it began with
and the first gap. -/
theorem sums_exact_test :
    ∃ s t, IntervalStorage.new true 10 10000000000 2 (some 0) 0 = .ok s ∧
      (pushing true 10 10000000000 2 (some 0) 0).Run s testInstants t ∧
      t.intervals = [5500, 5400, 5300, 5200, 5100, 5000, 4900, 4800, 4700, 4600] ∧
      t.sum.toNat = 50500 := by
  have hvalues : initialWindow 10 10000000000 2 ++ gaps 0 testInstants =
      [10000, 0, 10000, 0, 4500, 4600, 4700, 4800, 4900, 5000, 5100, 5200, 5300, 5400, 5500] := by
    decide
  have hfits : ∀ v ∈ ([10000, 0, 10000, 0, 4500, 4600, 4700, 4800, 4900, 5000, 5100, 5200, 5300,
      5400, 5500] : List (BitVec 64)), 10 * v.toNat ^ 2 < 2 ^ 64 := by
    simp
  obtain ⟨s, hs, ⟨t, ht⟩, hruns⟩ := sums_exact true (show 1 ≤ 10 by decide) 10000000000 2
    (some 0) 0 testInstants (hvalues ▸ hfits)
  obtain ⟨-, hintervals, hsum, -⟩ := hruns t ht
  have heq : t.intervals = [5500, 5400, 5300, 5200, 5100, 5000, 4900, 4800, 4700, 4600] :=
    hintervals.trans (by decide)
  exact ⟨s, t, hs, ht, heq, by rw [hsum, heq]; decide⟩

/-! ## Every capacity -/

/-- A storage of capacity 0 has no room for a gap. -/
theorem not_returns_of_capacity_zero (checks : Bool) {s : IntervalStorage}
    (hcap : s.capacity = 0) (i : Nat) (t : IntervalStorage) :
    ¬ Returns (pushInstant checks · s i) t := by
  refine not_returns_whileThen (I := fun s => s.capacity = 0) (fun s hs => ?_)
    (fun s t hs ht => ?_) hcap t
  · simp [full, hs]
  · unfold evict at ht
    split at ht
    · cases ht
    · obtain ⟨_, -, ht⟩ := bind_eq_ok_iff.mp ht
      obtain ⟨_, -, ht⟩ := bind_eq_ok_iff.mp ht
      obtain ⟨_, -, ht⟩ := bind_eq_ok_iff.mp ht
      cases ht
      exact hs

/-- What pushes into a new storage keep. -/
theorem reachable_pushing {checks : Bool} {cap init times : Nat} {start : Option Nat}
    {now : Nat} {s : IntervalStorage}
    (h : (pushing checks cap init times start now).Reachable s) :
    s.capacity = cap ∧ (checks = true → s.Exact) := by
  refine h.invariant (I := fun s => s.capacity = cap ∧ (checks = true → s.Exact))
    (fun s hs => ?_) (fun s i t _ hs ht => ?_)
  · obtain ⟨hcapacity, -, -, hexact⟩ := of_new hs
    exact ⟨hcapacity, hexact⟩
  · obtain ⟨hcapacity, hexact⟩ := hs
    rcases Nat.eq_zero_or_pos s.capacity with hzero | hpos
    · exact absurd ht (not_returns_of_capacity_zero checks hzero i t)
    · obtain ⟨hcapacity', -, -, hfits, hexact'⟩ := of_pushInstant hpos hexact ht
      exact ⟨hcapacity'.trans hcapacity, fun hc => hexact' (hexact hc) (hfits hc)⟩

/-- When a push returns with at most `max 1 cap` gaps. -/
theorem pushInstant_ends_iff {checks : Bool} {cap init times : Nat} {start : Option Nat}
    {now : Nat} {s : IntervalStorage}
    (h : (pushing checks cap init times start now).Reachable s) (i : Nat) :
    (∃ t, Returns (pushInstant checks · s i) t ∧ t.intervals.length ≤ max 1 cap) ↔
      1 ≤ cap ∧ (checks = true → totalSquares (s.nextWindow i) < 2 ^ 64) := by
  obtain ⟨rfl, hexact⟩ := reachable_pushing h
  constructor
  · rintro ⟨t, ht, -⟩
    have hpos : 1 ≤ s.capacity := Nat.pos_of_ne_zero fun hzero =>
      not_returns_of_capacity_zero checks hzero i t ht
    exact ⟨hpos, (pushInstant_returns_iff hpos hexact i).mp ⟨t, ht⟩⟩
  · rintro ⟨hpos, hfits⟩
    obtain ⟨t, ht⟩ := (pushInstant_returns_iff hpos hexact i).mpr hfits
    obtain ⟨-, -, hintervals, -⟩ := of_pushInstant hpos hexact ht
    refine ⟨t, ht, ?_⟩
    rw [hintervals, nextWindow, List.length_cons, List.length_take]
    omega

end IntervalStorage

end AurumActors.Cluster
