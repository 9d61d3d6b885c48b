/-
  Cluster/RingNeighbours.lean --- `charges` is the inverse of `node_managers`.

  Both walks are read through the cyclic order of the ring.  `x` has the manager
  `m` exactly when few enough distinct members stand between the primary key of
  `x` and the next key of `m`; the scan of `charges` backwards from that key of
  `m` meets the same stretch of the ring in reverse.
-/
import AurumActors.Cluster.NodeRing
import AurumActors.Foundation.CyclicWalk
import Mathlib.Data.List.TakeWhile
import Mathlib.Tactic.Common

set_option autoImplicit false

namespace AurumActors.Cluster.NodeRing

open Std
open AurumActors.Foundation

/-! ## The scan of `charges` -/

section Scan

/-- The distinct members recorded so far. -/
def recorded (uniq : List (Member × Bool)) : Finset Member := (uniq.map (·.1)).toFinset

/-- The distinct members of a stretch of the ring. -/
def distinct (span : List RingEntry) : Finset Member := (span.map (·.2.2)).toFinset

theorem distinct_reverse (span : List RingEntry) : distinct span.reverse = distinct span := by
  simp [distinct]

/-- Recording a known member again keeps the keys, in another order. -/
theorem keys_moveToBack {uniq : List (Member × Bool)} {mbr : Member} {b : Bool}
    (b' : Bool) (hnodup : (uniq.map (·.1)).Nodup) (hb : (mbr, b) ∈ uniq) :
    ((uniq.filter (fun e => e.1 ≠ mbr) ++ [(mbr, b')]).map (·.1)).Nodup ∧
      recorded (uniq.filter (fun e => e.1 ≠ mbr) ++ [(mbr, b')]) = recorded uniq := by
  constructor
  · rw [List.map_append, List.nodup_append]
    refine ⟨hnodup.sublist (List.filter_sublist.map _), by simp, ?_⟩
    simp only [List.mem_map, List.mem_filter, List.map_cons, List.map_nil, List.mem_singleton]
    rintro x ⟨e, ⟨-, he⟩, rfl⟩ y rfl h
    simp [h] at he
  · ext x
    simp only [recorded, List.map_append, List.toFinset_append, Finset.mem_union,
      List.mem_toFinset, List.mem_map, List.mem_filter, List.map_cons, List.map_nil,
      List.mem_singleton]
    constructor
    · rintro (⟨e, ⟨he, -⟩, rfl⟩ | rfl)
      · exact ⟨e, he, rfl⟩
      · exact ⟨_, hb, rfl⟩
    · rintro ⟨e, he, rfl⟩
      by_cases hx : e.1 = mbr
      · exact Or.inr hx
      · exact Or.inl ⟨e, ⟨he, by simpa using hx⟩, rfl⟩

theorem mem_of_lookup_eq_some {uniq : List (Member × Bool)} {mbr : Member} {b : Bool}
    (h : uniq.lookup mbr = some b) : (mbr, b) ∈ uniq := by
  obtain ⟨l₁, l₂, rfl, -⟩ := List.lookup_eq_some_iff.mp h
  simp

theorem notMem_recorded_of_lookup {uniq : List (Member × Bool)} {mbr : Member}
    (h : uniq.lookup mbr = none) : mbr ∉ recorded uniq := by
  simp only [recorded, List.mem_toFinset, List.mem_map, not_exists, not_and]
  intro e he hfst
  have := List.lookup_eq_none_iff.mp h e he
  simp [hfst] at this

/-- The flag recorded for a member is unique. -/
theorem flag_unique {uniq : List (Member × Bool)} (hnodup : (uniq.map (·.1)).Nodup)
    {mbr : Member} {b b' : Bool} (h : (mbr, b) ∈ uniq) (h' : (mbr, b') ∈ uniq) : b = b' := by
  have := List.inj_on_of_nodup_map hnodup h h' rfl
  simpa using this

/-- Merging a flag into the entry of a member flags it, and no other member. -/
theorem mem_moveToBack_iff {uniq : List (Member × Bool)} (x : Member) {mbr : Member}
    (first : Bool) {b : Bool} (hnodup : (uniq.map (·.1)).Nodup) (hb : (mbr, b) ∈ uniq) :
    (x, true) ∈ uniq.filter (fun e => e.1 ≠ mbr) ++ [(mbr, first || b)] ↔
      (x, true) ∈ uniq ∨ (first = true ∧ mbr = x) := by
  simp only [List.mem_append, List.mem_filter, List.mem_singleton, Prod.mk.injEq]
  by_cases hx : x = mbr
  · subst hx
    have hset : (x, true) ∈ uniq ↔ b = true :=
      ⟨fun h => flag_unique hnodup hb h, fun h => h ▸ hb⟩
    cases first <;> cases b <;> simp_all
  · simp [hx, Ne.symm hx]

/-- What the scan adds to a recorded state: it flags `x` exactly when it meets
the primary entry of `x` before the stretch holds too many distinct members. -/
theorem mem_scan_iff (rep : Nat) (x : Member) :
    ∀ (span : List RingEntry) (uniq : List (Member × Bool)),
      (uniq.map (·.1)).Nodup → uniq.length ≤ rep →
      ((x, true) ∈ scan rep span uniq uniq.length ↔ (x, true) ∈ uniq ∨
        ∃ before e after, span = before ++ e :: after ∧ e.2 = (true, x) ∧
          (recorded uniq ∪ distinct (before ++ [e])).card ≤ rep) := by
  intro span
  induction span with
  | nil =>
      intro uniq _ _
      simp [scan]
  | cons entry span ih =>
      intro uniq hnodup hlen
      obtain ⟨k, first, mbr⟩ := entry
      have hcard : (recorded uniq).card = uniq.length := by
        rw [recorded, List.toFinset_card_of_nodup hnodup, List.length_map]
      rw [exists_split_cons (fun e => e.2 = (true, x))
        (fun l => (recorded uniq ∪ distinct l).card ≤ rep)]
      have hhead : ∀ l : List RingEntry,
          distinct ((k, first, mbr) :: l) = insert mbr (distinct l) := by
        intro l
        simp [distinct]
      simp only [hhead, Finset.union_insert, scan, Prod.mk.injEq]
      have hnil : distinct [] = ∅ := rfl
      cases hlook : uniq.lookup mbr with
      | some b =>
          -- an occupied entry: the flag is merged, nothing is counted
          have hb := mem_of_lookup_eq_some hlook
          obtain ⟨hnodup', hrec⟩ := keys_moveToBack (first || b) hnodup hb
          have hmbr : mbr ∈ recorded uniq := by
            rw [recorded, List.mem_toFinset]
            exact List.mem_map_of_mem hb
          have hlen' : (uniq.filter (fun e => e.1 ≠ mbr) ++ [(mbr, first || b)]).length =
              uniq.length := by
            rw [← hcard, ← hrec, recorded, List.toFinset_card_of_nodup hnodup',
              List.length_map]
          have hflag := mem_moveToBack_iff x first hnodup hb
          simp only
          rw [← hlen', ih _ hnodup' (by omega), hflag, hrec]
          have hsame : ∀ D, insert mbr (recorded uniq ∪ D) = recorded uniq ∪ D := fun D =>
            Finset.insert_eq_of_mem (Finset.mem_union_left _ hmbr)
          have hone : (insert mbr (recorded uniq)).card ≤ rep := by
            rw [Finset.insert_eq_of_mem hmbr, hcard]
            exact hlen
          simp only [hsame, hnil, Finset.union_empty, hone, and_true, or_assoc]
      | none =>
          have hmbr := notMem_recorded_of_lookup hlook
          have hinsert : (insert mbr (recorded uniq)).card = uniq.length + 1 := by
            rw [Finset.card_insert_of_notMem hmbr, hcard]
          simp only
          split
          · -- the cut-off: every further stretch holds `rep + 1` members
            rename_i hrep
            have hmany : ∀ D : Finset Member,
                ¬ (insert mbr (recorded uniq ∪ D)).card ≤ rep := by
              intro D hD
              have hsub : recorded uniq ⊆ recorded uniq ∪ D := Finset.subset_union_left
              have := Finset.card_le_card (Finset.insert_subset_insert mbr hsub)
              omega
            simp only [hmany, and_false, exists_false, or_false]
          · rename_i hrep
            have hnodup' : ((uniq ++ [(mbr, first)]).map (·.1)).Nodup := by
              rw [List.map_append, List.nodup_append]
              refine ⟨hnodup, by simp, ?_⟩
              rintro y hy z hz rfl
              have : y = mbr := by simpa using hz
              exact hmbr (by simpa [recorded, this] using hy)
            have hlen' : (uniq ++ [(mbr, first)]).length = uniq.length + 1 := by simp
            have hrec : recorded (uniq ++ [(mbr, first)]) = insert mbr (recorded uniq) := by
              ext y
              simp [recorded]
            have hone : (insert mbr (recorded uniq)).card ≤ rep := by omega
            have hflag : (x, true) ∈ uniq ++ [(mbr, first)] ↔
                (x, true) ∈ uniq ∨ (first = true ∧ mbr = x) := by
              simp only [List.mem_append, List.mem_singleton, Prod.mk.injEq]
              tauto
            rw [← hlen', ih _ hnodup' (by omega), hrec, hflag]
            simp only [hnil, Finset.union_empty, Finset.insert_union, hone, and_true, or_assoc]

theorem nodup_scan {rep : Nat} :
    ∀ (span : List RingEntry) (uniq : List (Member × Bool)) (i : Nat),
      (uniq.map (·.1)).Nodup → ((scan rep span uniq i).map (·.1)).Nodup := by
  intro span
  induction span with
  | nil => intro uniq i h; exact h
  | cons entry span ih =>
      intro uniq i hnodup
      obtain ⟨k, first, mbr⟩ := entry
      simp only [scan]
      cases hlook : uniq.lookup mbr with
      | some b => exact ih _ i (keys_moveToBack _ hnodup (mem_of_lookup_eq_some hlook)).1
      | none =>
          simp only
          split
          · exact hnodup
          · refine ih _ _ ?_
            rw [List.map_append, List.nodup_append]
            refine ⟨hnodup, by simp, ?_⟩
            rintro y hy z hz rfl
            have hmbr : y = mbr := by simpa using hz
            exact notMem_recorded_of_lookup hlook (by simpa [recorded, hmbr] using hy)

end Scan

/-! ## The two walks over one ring -/

section Walks

variable {H : RingHash} {r : NodeRing} {S : Set Member}

theorem counterClockwise_eq_reverse (r : NodeRing) (key : UInt64) :
    r.counterClockwise key = (r.clockwise key).reverse := by
  simp [counterClockwise, clockwise]

/-- The walk from a key is a rotation of the ring. -/
theorem isRotated_clockwise (r : NodeRing) (key : UInt64) :
    r.ring.toList ~r r.clockwise key := by
  have hsplit : r.ring.toList.filter (fun e => e.1 < key) ++
      r.ring.toList.filter (fun e => key ≤ e.1) = r.ring.toList := by
    have hord := toList_ascending r
    generalize r.ring.toList = entries at hord
    induction entries with
    | nil => rfl
    | cons e entries ih =>
        rw [List.pairwise_cons] at hord
        by_cases he : e.1 < key
        · have hle : ¬ key ≤ e.1 := UInt64.not_le.mpr he
          simp only [List.filter_cons, he, hle, decide_true, decide_false, if_true,
            Bool.false_eq_true, if_false, List.cons_append, ih hord.2]
        · have hle : key ≤ e.1 := UInt64.not_lt.mp he
          have hnone : entries.filter (fun e => e.1 < key) = [] := by
            simp only [List.filter_eq_nil_iff, decide_eq_true_eq]
            intro e' he' hlt
            exact he (UInt64.lt_trans (hord.1 e' he') hlt)
          have hall : entries.filter (fun e => key ≤ e.1) = entries := by
            simp only [List.filter_eq_self, decide_eq_true_eq]
            intro e' he'
            exact UInt64.le_of_lt (UInt64.lt_of_le_of_lt hle (hord.1 e' he'))
          simp [he, hle, hnone, hall]
  conv_lhs => rw [← hsplit]
  exact List.isRotated_append

theorem nodup_clockwise (r : NodeRing) (key : UInt64) : (r.clockwise key).Nodup :=
  (isRotated_clockwise r key).nodup_iff.mp (nodup_toList r)

theorem mem_clockwise_of_holds (h : Holds H r S) (key : UInt64) (e : RingEntry) :
    e ∈ r.clockwise key ↔
      e.2.2 ∈ S ∧ e.1 ∈ ringKeys H e.2.2 ∧ e.2.1 = decide (e.1 = H.hashCode e.2.2) := by
  rw [← (isRotated_clockwise r key).mem_iff]
  exact mem_toList_of_holds h e

/-- The walk from the key of an entry starts with that entry. -/
theorem clockwise_eq_cons {e : RingEntry} (he : e ∈ r.ring.toList) :
    ∃ rest, r.clockwise e.1 = e :: rest := by
  have hord := toList_ascending r
  obtain ⟨u, v, huv⟩ := List.append_of_mem he
  rw [huv, List.pairwise_append] at hord
  obtain ⟨-, -, hcross⟩ := hord
  have hu : u.filter (fun e' => e.1 ≤ e'.1) = [] := by
    simp only [List.filter_eq_nil_iff, decide_eq_true_eq]
    intro e' he'
    exact UInt64.not_le.mpr (hcross e' he' e List.mem_cons_self)
  unfold clockwise
  rw [huv, List.filter_append, hu, List.nil_append, List.filter_cons]
  simp

/-- Walking from another entry turns the walk around. -/
theorem clockwise_turn {key : UInt64} {e : RingEntry} {u v : List RingEntry}
    (h : r.clockwise key = u ++ e :: v) : r.clockwise e.1 = e :: (v ++ u) := by
  have he : e ∈ r.ring.toList := by
    rw [(isRotated_clockwise r key).mem_iff, h]
    simp
  obtain ⟨rest, hrest⟩ := clockwise_eq_cons he
  have hrot : r.clockwise key ~r (e :: rest) := by
    rw [← hrest]
    exact (isRotated_clockwise r key).symm.trans (isRotated_clockwise r e.1)
  rw [hrest, walk_from (nodup_clockwise r key) h hrot]

/-! ## Managers -/

/-- `f` is the first entry of `m` on the walk from the primary key of `x`, and at
most `rep_factor` distinct members stand before it. -/
def Reaches (H : RingHash) (r : NodeRing) (x m : Member) (f : RingEntry) : Prop :=
  ∃ between after, r.clockwise (H.hashCode x) = between ++ f :: after ∧ f.2.2 = m ∧
    (∀ e ∈ between, e.2.2 ≠ m) ∧ (distinct between).card ≤ r.repFactor.toNat

theorem Reaches.unique {x m : Member} {f f' : RingEntry} (h : Reaches H r x m f)
    (h' : Reaches H r x m f') : f = f' := by
  obtain ⟨u, v, hw, hf, hu, -⟩ := h
  obtain ⟨u', v', hw', hf', hu', -⟩ := h'
  exact (append_cons_inj_of_notMem (f := fun e : RingEntry => e.2.2) (hw.symm.trans hw')
    (by rwa [hf]) (by rwa [hf']) (hf.trans hf'.symm)).2.1

/-- Every member's entry stands on every walk. -/
theorem exists_entry (h : Holds H r S) {m : Member} (hm : m ∈ S) (key : UInt64) :
    ∃ e ∈ r.clockwise key, e.2.2 = m :=
  ⟨(H.hashCode m, true, m), (mem_clockwise_of_holds h key _).mpr
    ⟨hm, hashCode_mem_ringKeys H m, by simp⟩, rfl⟩

/-- The walk from the primary key of a member starts at its primary entry. -/
theorem clockwise_hashCode (h : Holds H r S) {x : Member} (hx : x ∈ S) :
    ∃ rest, r.clockwise (H.hashCode x) = (H.hashCode x, true, x) :: rest :=
  clockwise_eq_cons (e := (H.hashCode x, true, x))
    ((mem_toList_of_holds h _).mpr ⟨hx, hashCode_mem_ringKeys H x, by simp⟩)

/-- A member is a manager if few enough distinct members stand before its first
entry. -/
theorem mem_managers_of_split {key : UInt64} {m : Member} {u v : List RingEntry} {f : RingEntry}
    (hw : r.clockwise key = u ++ f :: v) (hf : f.2.2 = m) (hu : ∀ e ∈ u, e.2.2 ≠ m)
    {num : UInt64} (hnum : num.toNat = r.repFactor.toNat + 1) :
    m ∈ r.managers key num ↔ (distinct u).card ≤ r.repFactor.toNat := by
  have hmu : m ∉ u.map (·.2.2) := by
    intro hmem
    obtain ⟨e, he, hem⟩ := List.mem_map.mp hmem
    exact hu e he hem
  rw [managers, hw, List.map_append, List.map_cons, hf, mem_take_eraseDups hmu, hnum,
    distinct, Nat.lt_succ_iff]

theorem mem_managers_iff (h : Holds H r S) {m : Member} (hm : m ∈ S) (x : Member)
    {num : UInt64} (hnum : num.toNat = r.repFactor.toNat + 1) :
    m ∈ r.managers (H.hashCode x) num ↔ ∃ f, Reaches H r x m f := by
  obtain ⟨u, f, v, hw, hf, hu⟩ := exists_first_split (f := fun e : RingEntry => e.2.2)
    (exists_entry h hm (H.hashCode x))
  rw [mem_managers_of_split hw hf hu hnum]
  constructor
  · exact fun hcard => ⟨f, u, v, hw, hf, hu, hcard⟩
  · rintro ⟨f', u', v', hw', hf', hu', hcard⟩
    obtain ⟨rfl, -, -⟩ := append_cons_inj_of_notMem (f := fun e : RingEntry => e.2.2)
      (hw.symm.trans hw') (by rwa [hf]) (by rwa [hf']) (hf.trans hf'.symm)
    exact hcard

theorem nodup_managers (r : NodeRing) (key num : UInt64) : (r.managers key num).Nodup :=
  (nodup_eraseDups _).sublist (List.take_sublist _ _)

/-- A nonempty list of managers of a member starts with the member itself. -/
theorem managers_eq_cons (h : Holds H r S) {x : Member} (hx : x ∈ S) {num : UInt64} {n : Nat}
    (hnum : num.toNat = n + 1) : ∃ rest, r.managers (H.hashCode x) num = x :: rest := by
  obtain ⟨rest, hrest⟩ := clockwise_hashCode h hx
  rw [managers, hrest, hnum, List.map_cons, List.eraseDups_cons, List.take_succ_cons]
  exact ⟨_, rfl⟩

theorem length_managers {ms : List Member} (h : Holds H r {m | m ∈ ms}) (key num : UInt64) :
    (r.managers key num).length = min num.toNat ms.toFinset.card := by
  have hset : ((r.clockwise key).map (·.2.2)).toFinset = ms.toFinset := by
    ext m
    simp only [List.mem_toFinset, List.mem_map]
    constructor
    · rintro ⟨e, he, rfl⟩
      exact ((mem_clockwise_of_holds h key e).mp he).1
    · intro hm
      exact exists_entry h hm key
  rw [managers, List.length_take, length_eraseDups, hset]

/-! ## Charges -/

/-- Scanning backwards from a key of `m` flags `x` exactly when that key holds
the first entry of `m` after `x`. -/
theorem mem_chargesAt_iff (h : Holds H r S) {m x : Member} (hm : m ∈ S) {k : UInt64}
    (hk : k ∈ ringKeys H m) :
    x ∈ r.chargesAt m k ↔ x ∈ S ∧ x ≠ m ∧ ∃ f, f.1 = k ∧ Reaches H r x m f := by
  have hscan := mem_scan_iff r.repFactor.toNat x
    ((r.counterClockwise k).takeWhile (fun e => e.2.2 ≠ m)) [] (by simp) (Nat.zero_le _)
  have hflag : x ∈ r.chargesAt m k ↔ (x, true) ∈
      scan r.repFactor.toNat ((r.counterClockwise k).takeWhile (fun e => e.2.2 ≠ m)) [] 0 := by
    simp [chargesAt]
  have hempty : recorded [] = ∅ := rfl
  rw [hflag, ← List.length_nil (α := Member × Bool), hscan]
  simp only [List.not_mem_nil, false_or, hempty, Finset.empty_union]
  constructor
  · rintro ⟨u, e, v, hspan, he, hcard⟩
    have hmem : ∀ e' ∈ u ++ e :: v, e'.2.2 ≠ m := by
      intro e' he'
      rw [← hspan] at he'
      simpa using List.mem_takeWhile_imp he'
    obtain ⟨rest, hccw⟩ : ∃ rest, r.counterClockwise k = u ++ e :: rest := by
      refine ⟨v ++ (r.counterClockwise k).dropWhile (fun e => e.2.2 ≠ m), ?_⟩
      conv_lhs => rw [← List.takeWhile_append_dropWhile
        (p := fun e : RingEntry => e.2.2 ≠ m) (l := r.counterClockwise k), hspan]
      simp
    have hcw : r.clockwise k = rest.reverse ++ e :: u.reverse := by
      rw [← List.reverse_reverse (r.clockwise k), ← counterClockwise_eq_reverse, hccw]
      simp
    have hex : e.2.2 = x := congrArg Prod.snd he
    have hxm : x ≠ m := hex ▸ hmem e (by simp)
    obtain ⟨hxS, -, hprimary⟩ := (mem_clockwise_of_holds h k e).mp (by rw [hcw]; simp)
    rw [hex] at hxS
    have hkey : e.1 = H.hashCode x := by
      have htrue : e.2.1 = true := congrArg Prod.fst he
      rw [htrue, hex] at hprimary
      exact of_decide_eq_true hprimary.symm
    -- the walk from `k` starts at the entry of `m`, which is not `e`
    obtain ⟨start, hstart⟩ := clockwise_eq_cons (r := r)
      (e := (k, decide (k = H.hashCode m), m)) ((mem_toList_of_holds h _).mpr ⟨hm, hk, rfl⟩)
    obtain ⟨tl, htl⟩ : ∃ tl, rest.reverse = (k, decide (k = H.hashCode m), m) :: tl := by
      rw [hcw] at hstart
      cases hrest : rest.reverse with
      | nil =>
          rw [hrest] at hstart
          have hme : e = (k, decide (k = H.hashCode m), m) := (List.cons.inj hstart).1
          exact absurd (by rw [hme] at hex; exact hex.symm) hxm
      | cons f tl =>
          rw [hrest] at hstart
          exact ⟨tl, by rw [(List.cons.inj hstart).1]⟩
    refine ⟨hxS, hxm, (k, decide (k = H.hashCode m), m), rfl, e :: u.reverse, tl, ?_, rfl, ?_, ?_⟩
    · rw [← hkey, clockwise_turn hcw, htl]
      simp
    · intro e' he'
      refine hmem e' ?_
      rcases List.mem_cons.mp he' with rfl | he'
      · simp
      · simp [List.mem_reverse.mp he']
    · have hsame : distinct (e :: u.reverse) = distinct (u ++ [e]) := by
        rw [← distinct_reverse]
        simp
      rw [hsame]
      exact hcard
  · rintro ⟨hxS, hxm, f, rfl, between, after, hw, hf, hbetween, hcard⟩
    obtain ⟨rest, hrest⟩ := clockwise_hashCode h hxS
    obtain ⟨u, rfl⟩ : ∃ u, between = (H.hashCode x, true, x) :: u := by
      rw [hrest] at hw
      cases between with
      | nil =>
          have : f = (H.hashCode x, true, x) := ((List.cons.inj hw).1).symm
          exact absurd (by rw [this] at hf; exact hf) hxm
      | cons e u => exact ⟨u, by rw [(List.cons.inj hw).1]⟩
    have hcw := clockwise_turn hw
    have hspan : (r.counterClockwise f.1).takeWhile (fun e => e.2.2 ≠ m) =
        u.reverse ++ (H.hashCode x, true, x) ::
          (after.reverse ++ [f]).takeWhile (fun e => e.2.2 ≠ m) := by
      have hccw : r.counterClockwise f.1 =
          (u.reverse ++ [(H.hashCode x, true, x)]) ++ (after.reverse ++ [f]) := by
        rw [counterClockwise_eq_reverse, hcw]
        simp
      rw [hccw, List.takeWhile_append_of_pos]
      · simp
      · intro e he
        have : e ∈ (H.hashCode x, true, x) :: u := by
          simpa [or_comm] using he
        simpa using hbetween e this
    refine ⟨u.reverse, (H.hashCode x, true, x), _, hspan, rfl, ?_⟩
    have hsame : distinct (u.reverse ++ [(H.hashCode x, true, x)]) =
        distinct ((H.hashCode x, true, x) :: u) := by
      rw [← distinct_reverse]
      simp
    rw [hsame]
    exact hcard

/-- `charges` lists exactly the members that reach `m`, each once. -/
theorem charges_spec (h : Holds H r S) (hadm : Admissible H S) {m : Member} (hm : m ∈ S) :
    ∃ cs, r.charges H m = some cs ∧ cs.Nodup ∧
      ∀ x, x ∈ cs ↔ x ∈ S ∧ x ≠ m ∧ ∃ f, Reaches H r x m f := by
  refine ⟨(vnodeKeys H m).flatMap (r.chargesAt m), ?_, ?_, ?_⟩
  · rw [charges, contains_of_holds h hm, if_pos rfl]
  · rw [vnodeKeys_eq_ringKeys H (hadm.vnodes_pos m hm), List.nodup_flatMap]
    refine ⟨fun k _ => ?_, ?_⟩
    · exact (nodup_scan _ [] 0 (by simp)).sublist (List.filter_sublist.map _)
    · refine (hadm.nodup m hm).imp_of_mem ?_
      intro k k' hk hk' hne x hx hx'
      obtain ⟨-, -, f, rfl, hf⟩ := (mem_chargesAt_iff h hm hk).mp hx
      obtain ⟨-, -, f', rfl, hf'⟩ := (mem_chargesAt_iff h hm hk').mp hx'
      exact hne (by rw [hf.unique hf'])
  · intro x
    rw [vnodeKeys_eq_ringKeys H (hadm.vnodes_pos m hm), List.mem_flatMap]
    constructor
    · rintro ⟨k, hk, hx⟩
      obtain ⟨hxS, hxm, f, -, hf⟩ := (mem_chargesAt_iff h hm hk).mp hx
      exact ⟨hxS, hxm, f, hf⟩
    · rintro ⟨hxS, hxm, f, hf⟩
      have hkey : f.1 ∈ ringKeys H m := by
        obtain ⟨u, v, hw, hfm, -⟩ := hf
        have hmem := (mem_clockwise_of_holds h (H.hashCode x) f).mp (by rw [hw]; simp)
        exact hfm ▸ hmem.2.1
      exact ⟨f.1, hkey, (mem_chargesAt_iff h hm hkey).mpr ⟨hxS, hxm, f, rfl, hf⟩⟩

end Walks

/-! ## The inverse -/

section Inverse

/-- On the members `ms` of the ring, `charges` is the inverse of
`node_managers`, which both return; neither list has duplicates or its own
member, and every member has `rep_factor` managers, or all others where there are
fewer. -/
def ChargesInverse (H : RingHash) (checks : Bool) (r : NodeRing) (ms : List Member) : Prop :=
  ∀ m ∈ ms, ∀ x ∈ ms, ∃ cs ns, r.charges H m = some cs ∧
    r.nodeManagers H checks x = .ok (some ns) ∧ (x ∈ cs ↔ m ∈ ns) ∧ cs.Nodup ∧ m ∉ cs ∧
    ns.Nodup ∧ x ∉ ns ∧ ns.length = min r.repFactor.toNat (ms.length - 1)

variable {H : RingHash} {checks : Bool} {r : NodeRing} {ms : List Member} {S : Set Member}

theorem nodeManagers_eq (h : Holds H r S) {x : Member} (hx : x ∈ S)
    (hfits : checks = true → r.repFactor.toNat + 1 < UInt64.size) :
    r.nodeManagers H checks x =
      .ok (some ((r.managers (H.hashCode x) (r.repFactor + 1)).drop 1)) := by
  have hsum : Word.add checks r.repFactor.toBitVec 1 = .ok (r.repFactor.toBitVec + 1) :=
    Word.add_eq_ok hfits
  rw [nodeManagers, contains_of_holds h hx, if_pos rfl, hsum]
  rfl

theorem nodeManagers_false (h : Holds H r S) {x : Member} (hx : x ∈ S) :
    r.nodeManagers H false x =
      .ok (some ((r.managers (H.hashCode x) (r.repFactor + 1)).drop 1)) :=
  nodeManagers_eq h hx (by simp)

/-- A build that checks panics where `rep_factor + 1` overflows. -/
theorem nodeManagers_overflows (h : Holds H r S) {x : Member} (hx : x ∈ S)
    (hrep : r.repFactor.toNat + 1 = UInt64.size) :
    r.nodeManagers H true x = .error .overflow := by
  have hsum : Word.add true r.repFactor.toBitVec 1 = .error .overflow := by
    refine if_pos ⟨rfl, Nat.not_lt.mpr ?_⟩
    exact hrep.ge
  rw [nodeManagers, contains_of_holds h hx, if_pos rfl, hsum]
  rfl

/-- Away from the largest replication factor, whose successor overflows, the
inverse holds. -/
theorem chargesInverse_of_lt (checks : Bool) (hnodup : ms.Nodup) (hadm : Admissible H {m | m ∈ ms})
    (h : Holds H r {m | m ∈ ms}) (hrep : r.repFactor.toNat + 1 < UInt64.size) :
    ChargesInverse H checks r ms := by
  intro m hm x hx
  have hnum : (r.repFactor + 1).toNat = r.repFactor.toNat + 1 := by
    rw [UInt64.toNat_add]
    exact Nat.mod_eq_of_lt hrep
  obtain ⟨cs, hcs, hcsNodup, hmem⟩ := charges_spec h hadm hm
  obtain ⟨rest, hrest⟩ := managers_eq_cons h hx hnum
  have hns : r.nodeManagers H checks x = _ := nodeManagers_eq h hx fun _ => hrep
  have hcons := nodup_managers r (H.hashCode x) (r.repFactor + 1)
  have hlen := length_managers h (H.hashCode x) (r.repFactor + 1)
  rw [hrest] at hns hcons hlen
  rw [List.nodup_cons] at hcons
  refine ⟨cs, rest, hcs, by simpa using hns, ?_, hcsNodup, ?_, hcons.2, hcons.1, ?_⟩
  · rw [hmem x]
    by_cases hxm : x = m
    · subst hxm
      simp [hcons.1]
    · have hmanager := mem_managers_iff h hm x hnum
      rw [hrest, List.mem_cons, or_iff_right (Ne.symm hxm)] at hmanager
      rw [hmanager]
      exact ⟨fun hr => hr.2.2, fun hr => ⟨hx, hxm, hr⟩⟩
  · rw [hmem m]
    simp
  · rw [List.length_cons, hnum, List.toFinset_card_of_nodup hnodup] at hlen
    omega

/-- At the largest replication factor no member has a manager, in a build that
wraps. -/
theorem nodeManagers_of_max (h : Holds H r S) (hrep : r.repFactor.toNat + 1 = UInt64.size)
    {x : Member} (hx : x ∈ S) : r.nodeManagers H false x = .ok (some []) := by
  have hnum : (r.repFactor + 1).toNat = 0 := by
    rw [UInt64.toNat_add]
    simp [hrep]
  rw [nodeManagers_false h hx, managers, hnum]
  rfl

/-- A ring of one member has no charges and, in a build that wraps, no managers. -/
theorem chargesInverse_of_single (hadm : Admissible H {m | m ∈ ms})
    (h : Holds H r {m | m ∈ ms}) (hrep : r.repFactor.toNat + 1 = UInt64.size)
    (hone : ms.length ≤ 1) : ChargesInverse H false r ms := by
  intro m hm x hx
  obtain ⟨y, rfl⟩ : ∃ y, ms = [y] := by
    rw [← List.length_eq_one_iff]
    have := List.length_pos_of_mem hm
    omega
  obtain rfl : m = y := by simpa using hm
  obtain rfl : x = m := by simpa using hx
  obtain ⟨cs, hcs, hcsNodup, hmem⟩ := charges_spec h hadm hm
  have hnone : x ∉ cs := by
    rw [hmem x]
    simp
  refine ⟨cs, [], hcs, nodeManagers_of_max h hrep hm, ?_, hcsNodup, hnone, by simp, by simp,
    by simp⟩
  simp [hnone]

/-- Over every ring of members with distinct keys, `charges` is the inverse of
`node_managers` exactly when `rep_factor + 1` does not overflow, there is no
member, or there is one in a build that wraps. -/
theorem chargesInverse_iff (H : RingHash) (checks : Bool) (repFactor : UInt64)
    (ms : List Member) (hnodup : ms.Nodup) (hpos : ∀ m ∈ ms, 0 < m.vnodes.toNat)
    (hkeys : (ms.flatMap (ringKeys H)).Nodup) :
    ChargesInverse H checks (ofMembers H repFactor ms) ms ↔
      repFactor.toNat + 1 < UInt64.size ∨ ms = [] ∨ checks = false ∧ ms.length = 1 := by
  have hadm := admissible_of_nodup hpos hkeys
  have h := ofMembers_holds repFactor hadm
  have hrepFactor := ofMembers_repFactor (H := H) repFactor ms
  by_cases hrep : repFactor.toNat + 1 < UInt64.size
  · simp only [hrep, true_or, iff_true]
    exact chargesInverse_of_lt checks hnodup hadm h (by rwa [hrepFactor])
  · have hmax : (ofMembers H repFactor ms).repFactor.toNat + 1 = UInt64.size := by
      rw [hrepFactor]
      exact Nat.le_antisymm repFactor.toNat_lt (Nat.le_of_not_lt hrep)
    simp only [hrep, false_or]
    constructor
    · intro hinv
      rcases eq_or_ne ms [] with hnil | hne
      · exact .inl hnil
      · obtain ⟨m, hm⟩ := List.exists_mem_of_ne_nil ms hne
        obtain ⟨cs, ns, -, hns, -, -, -, -, -, hlen⟩ := hinv m hm m hm
        cases checks with
        | true =>
            rw [nodeManagers_overflows h hm hmax] at hns
            cases hns
        | false =>
            rw [nodeManagers_of_max h hmax hm] at hns
            cases hns
            have hpos' := List.length_pos_of_mem hm
            have : UInt64.size = 18446744073709551616 := rfl
            rw [List.length_nil] at hlen
            exact .inr ⟨rfl, by omega⟩
    · rintro (rfl | ⟨rfl, hone⟩)
      · intro m hm
        cases hm
      · exact chargesInverse_of_single hadm h hmax hone.le

/-- Two members of a concrete ring. -/
def pair : List Member :=
  [⟨Core.Socket.localhost 5000, 10, 1⟩, ⟨Core.Socket.localhost 5001, 20, 2⟩]

theorem chargesInverse_iff_pair :
    ChargesInverse RingHash.byId true (ofMembers RingHash.byId 1 pair) pair :=
  (chargesInverse_iff RingHash.byId true 1 pair (by decide) (by decide) (by decide)).mpr
    (.inl (by decide))

/-- With two members and the largest replication factor both charge each other,
while neither has a manager in a build that wraps. -/
theorem chargesInverse_fails_at_max :
    ¬ ∀ (H : RingHash) (checks : Bool) (repFactor : UInt64) (ms : List Member), ms.Nodup →
      (∀ m ∈ ms, 0 < m.vnodes.toNat) → (ms.flatMap (ringKeys H)).Nodup →
      ChargesInverse H checks (ofMembers H repFactor ms) ms := by
  intro h
  have hpair := h RingHash.byId false 18446744073709551615 pair (by decide) (by decide) (by decide)
  obtain ⟨cs, ns, hcs, hns, hinv, -⟩ := hpair ⟨Core.Socket.localhost 5000, 10, 1⟩ (by decide)
    ⟨Core.Socket.localhost 5001, 20, 2⟩ (by decide)
  have hcharges : (ofMembers RingHash.byId 18446744073709551615 pair).charges RingHash.byId
      ⟨Core.Socket.localhost 5000, 10, 1⟩ = some [⟨Core.Socket.localhost 5001, 20, 2⟩] := by decide
  have hmanagers : (ofMembers RingHash.byId 18446744073709551615 pair).nodeManagers RingHash.byId
      false ⟨Core.Socket.localhost 5001, 20, 2⟩ = .ok (some []) := by decide
  rw [hcharges] at hcs
  rw [hmanagers] at hns
  cases hcs
  cases hns
  simp at hinv

end Inverse

end AurumActors.Cluster.NodeRing
