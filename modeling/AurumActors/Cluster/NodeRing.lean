/-
  Cluster/NodeRing.lean --- the consistent hashing ring of `cluster/node_ring.rs`.

  The hash function and the pseudo random chain of the `wyhash` crate are
  arbitrary functions.  `usize` is 64 bits wide; whether an addition that leaves
  it panics or wraps depends on the build.
-/
import AurumActors.Cluster.Member
import AurumActors.Foundation.Words
import Mathlib.Data.List.Iterate
import Mathlib.Data.List.Nodup
import Mathlib.Data.List.Pairwise
import Mathlib.Data.Set.Insert
import Mathlib.Tactic.Tauto

set_option autoImplicit false

namespace AurumActors.Cluster

open Std
open AurumActors.Foundation

/-- The two hash functions the ring takes from outside. -/
structure RingHash where
  /-- `hash_code` at members -/
  hashCode : Member → UInt64
  /-- the step from one ring key of a member to its next -/
  wyrng : UInt64 → UInt64

/-- A hash that spreads members by their ids, for concrete rings. -/
def RingHash.byId : RingHash := ⟨fun m => m.id, fun key => key + 1000⟩

/-- A consistent hashing ring: for each key, whether it is the primary key of
its member, and that member. -/
structure NodeRing where
  ring : ExtTreeMap UInt64 (Bool × Member) compare
  repFactor : UInt64
  deriving DecidableEq

/-- A ring position: its key, the primary flag and the member. -/
abbrev RingEntry := UInt64 × Bool × Member

namespace NodeRing

/-- `NodeRing::new` -/
protected def new (repFactor : UInt64) : NodeRing := ⟨∅, repFactor⟩

/-- `ring.range(key..).chain(ring.range(..key))` -/
def clockwise (r : NodeRing) (key : UInt64) : List RingEntry :=
  r.ring.toList.filter (fun e => key ≤ e.1) ++ r.ring.toList.filter (fun e => e.1 < key)

/-- `ring.range(..key).rev().chain(ring.range(key..).rev())` -/
def counterClockwise (r : NodeRing) (key : UInt64) : List RingEntry :=
  (r.ring.toList.filter (fun e => e.1 < key)).reverse ++
    (r.ring.toList.filter (fun e => key ≤ e.1)).reverse

/-- `NodeRing::managers`, at the hash code of the item.  It includes the member
itself if members are being hashed. -/
def managers (r : NodeRing) (key : UInt64) (num : UInt64) : List Member :=
  ((r.clockwise key).map (·.2.2)).eraseDups.take num.toNat

section Members

variable (H : RingHash)

/-- `NodeRing::contains` -/
protected def contains (r : NodeRing) (member : Member) : Bool :=
  (r.ring[H.hashCode member]?).any (fun e => member == e.2)

/-- `NodeRing::is_manager` -/
def isManager (r : NodeRing) (manager target : Member) : Bool :=
  (((r.clockwise (H.hashCode target)).drop 1).take r.repFactor.toNat).any
    (fun e => e.2.2 == manager)

/-- `NodeRing::node_managers` -/
def nodeManagers (checks : Bool) (r : NodeRing) (member : Member) :
    Except Trap (Option (List Member)) :=
  if r.contains H member then do
    let num ← Word.add checks r.repFactor.toBitVec 1
    return some ((r.managers (H.hashCode member) ⟨num⟩).drop 1)
  else return none

/-- The `vnodes` keys that `charges` examines. -/
def vnodeKeys (member : Member) : List UInt64 :=
  List.iterate H.wyrng (H.hashCode member) member.vnodes.toNat

/-- The loop of `charges` over one span.  `uniq` is the linked hash map in its
order, where writing to an occupied entry moves it to the back, and `i` counts
its entries. -/
def scan (repFactor : Nat) : List RingEntry → List (Member × Bool) → Nat →
    List (Member × Bool)
  | [], uniq, _ => uniq
  | (_, first, mbr) :: span, uniq, i =>
      match uniq.lookup mbr with
      | some b => scan repFactor span
          (uniq.filter (fun e => e.1 ≠ mbr) ++ [(mbr, first || b)]) i
      | none =>
          if i = repFactor then uniq
          else scan repFactor span (uniq ++ [(mbr, first)]) (i + 1)

/-- The members whose primary key the scan backwards from `key` met. -/
def chargesAt (r : NodeRing) (member : Member) (key : UInt64) : List Member :=
  let span := (r.counterClockwise key).takeWhile (fun e => e.2.2 ≠ member)
  ((scan r.repFactor.toNat span [] 0).filter (·.2)).map (·.1)

/-- `NodeRing::charges` -/
def charges (r : NodeRing) (member : Member) : Option (List Member) :=
  if r.contains H member then
    some ((vnodeKeys H member).flatMap (r.chargesAt member))
  else none

/-- `NodeRing::insert` -/
protected def insert (r : NodeRing) (item : Member) : NodeRing :=
  let key := H.hashCode item
  let rest := List.iterate H.wyrng (H.wyrng key) (item.vnodes.toNat - 1)
  let primary := r.ring.insert key (true, item)
  { r with ring := rest.foldl (fun ring k => ring.insert k (false, item)) primary }

/-- The loop of `remove`: the ring without the keys, and how many were there. -/
def removeKeys (ring : ExtTreeMap UInt64 (Bool × Member) compare) :
    List UInt64 → ExtTreeMap UInt64 (Bool × Member) compare × Nat
  | [] => (ring, 0)
  | k :: ks =>
      let (ring', n) := removeKeys (ring.erase k) ks
      (ring', (if k ∈ ring then 1 else 0) + n)

/-- `NodeRing::remove`: the new ring, and the number of removed keys where it is
not `vnodes`. -/
protected def remove (r : NodeRing) (item : Member) : NodeRing × Except Nat Unit :=
  let keys := List.iterate H.wyrng (H.hashCode item) (max 1 item.vnodes.toNat)
  let (ring, removed) := removeKeys r.ring keys
  ({ r with ring }, if removed = item.vnodes.toNat then .ok () else .error removed)

end Members

/-! ## The map behind the operations -/

section Maps

variable {ring : ExtTreeMap UInt64 (Bool × Member) compare}

theorem getElem?_foldl_insert (e : Bool × Member) (ks : List UInt64) (k : UInt64) :
    (ks.foldl (fun ring k => ring.insert k e) ring)[k]? =
      if k ∈ ks then some e else ring[k]? := by
  induction ks generalizing ring with
  | nil => simp
  | cons k' ks ih =>
      rw [List.foldl_cons, ih, ExtTreeMap.getElem?_insert]
      by_cases hks : k ∈ ks
      · simp [hks]
      · by_cases hk : k' = k
        · simp [hk]
        · simp [hks, hk, Ne.symm hk]

theorem getElem?_removeKeys (ks : List UInt64) (k : UInt64) :
    (removeKeys ring ks).1[k]? = if k ∈ ks then none else ring[k]? := by
  induction ks generalizing ring with
  | nil => simp [removeKeys]
  | cons k' ks ih =>
      simp only [removeKeys]
      rw [ih, ExtTreeMap.getElem?_erase]
      by_cases hks : k ∈ ks
      · simp [hks]
      · by_cases hk : k' = k
        · simp [hk]
        · simp [hks, hk, Ne.symm hk]

/-- Removing distinct keys that are all present counts every one of them. -/
theorem removeKeys_count {ks : List UInt64} (hnodup : ks.Nodup) (hin : ∀ k ∈ ks, k ∈ ring) :
    (removeKeys ring ks).2 = ks.length := by
  induction ks generalizing ring with
  | nil => rfl
  | cons k ks ih =>
      rw [List.nodup_cons] at hnodup
      have htail : ∀ k' ∈ ks, k' ∈ ring.erase k := by
        intro k' hk'
        have hne : k ≠ k' := fun h => hnodup.1 (h ▸ hk')
        rw [ExtTreeMap.mem_erase]
        exact ⟨by simpa using hne, hin k' (List.mem_cons_of_mem _ hk')⟩
      simp only [removeKeys, ih hnodup.2 htail, hin k List.mem_cons_self, if_true,
        List.length_cons]
      omega

end Maps

/-! ## Which members a ring holds -/

section Holds

variable (H : RingHash)

/-- The keys a member occupies, its primary key first. -/
def ringKeys (m : Member) : List UInt64 :=
  List.iterate H.wyrng (H.hashCode m) (max 1 m.vnodes.toNat)

theorem ringKeys_eq_cons (m : Member) :
    ringKeys H m = H.hashCode m ::
      List.iterate H.wyrng (H.wyrng (H.hashCode m)) (m.vnodes.toNat - 1) := by
  have hmax : max 1 m.vnodes.toNat = (m.vnodes.toNat - 1) + 1 := by omega
  rw [ringKeys, hmax, List.iterate]

theorem hashCode_mem_ringKeys (m : Member) : H.hashCode m ∈ ringKeys H m := by
  rw [ringKeys_eq_cons]
  exact List.mem_cons_self

theorem vnodeKeys_eq_ringKeys {m : Member} (h : 0 < m.vnodes.toNat) :
    vnodeKeys H m = ringKeys H m := by
  rw [vnodeKeys, ringKeys, Nat.max_eq_right h]

/-- The members of `S` have at least one virtual node, and all their keys are
distinct. -/
structure Admissible (S : Set Member) : Prop where
  vnodes_pos : ∀ m ∈ S, 0 < m.vnodes.toNat
  nodup : ∀ m ∈ S, (ringKeys H m).Nodup
  disjoint : ∀ m ∈ S, ∀ x ∈ S, m ≠ x → List.Disjoint (ringKeys H m) (ringKeys H x)

variable {H}

theorem Admissible.mono {S T : Set Member} (h : Admissible H T) (hsub : S ⊆ T) :
    Admissible H S where
  vnodes_pos m hm := h.vnodes_pos m (hsub hm)
  nodup m hm := h.nodup m (hsub hm)
  disjoint m hm x hx := h.disjoint m (hsub hm) x (hsub hx)

/-- A list of members is admissible when all keys generated for it are distinct. -/
theorem admissible_of_nodup {ms : List Member} (hpos : ∀ m ∈ ms, 0 < m.vnodes.toNat)
    (hkeys : (ms.flatMap (ringKeys H)).Nodup) : Admissible H {m | m ∈ ms} := by
  obtain ⟨hnodup, hdisj⟩ := List.nodup_flatMap.mp hkeys
  have : Std.Symm (Function.onFun List.Disjoint (ringKeys H)) := ⟨fun _ _ h _ hx hm => h hm hx⟩
  exact ⟨hpos, hnodup, fun m hm x hx hne => hdisj.forall hm hx hne⟩

/-- A key belongs to one member. -/
theorem Admissible.eq_of_mem {S : Set Member} (h : Admissible H S) {m x : Member}
    (hm : m ∈ S) (hx : x ∈ S) {k : UInt64} (hkm : k ∈ ringKeys H m)
    (hkx : k ∈ ringKeys H x) : m = x := by
  by_contra hne
  exact h.disjoint m hm x hx hne hkm hkx

variable (H)

/-- `r` maps exactly the keys of the members of `S`, each to its member, and flags
the primary ones. -/
def Holds (r : NodeRing) (S : Set Member) : Prop :=
  ∀ (k : UInt64) (first : Bool) (m : Member), r.ring[k]? = some (first, m) ↔
    m ∈ S ∧ k ∈ ringKeys H m ∧ first = decide (k = H.hashCode m)

variable {H}

theorem holds_new (repFactor : UInt64) : Holds H (NodeRing.new repFactor) ∅ := by
  intro k first m
  simp [NodeRing.new]

theorem contains_of_holds {r : NodeRing} {S : Set Member} (h : Holds H r S) {m : Member}
    (hm : m ∈ S) : r.contains H m = true := by
  have hget : r.ring[H.hashCode m]? = some (true, m) :=
    (h _ _ _).mpr ⟨hm, hashCode_mem_ringKeys H m, by simp⟩
  simp [NodeRing.contains, hget]

/-- The members that entries of the ring name. -/
theorem mem_iff_of_holds {r : NodeRing} {S : Set Member} (h : Holds H r S) (m : Member) :
    m ∈ S ↔ ∃ (k : UInt64) (first : Bool), r.ring[k]? = some (first, m) := by
  constructor
  · intro hm
    exact ⟨H.hashCode m, true, (h _ _ _).mpr ⟨hm, hashCode_mem_ringKeys H m, by simp⟩⟩
  · rintro ⟨k, first, hget⟩
    exact ((h k first m).mp hget).1

theorem getElem?_insert (r : NodeRing) (m : Member) (hnodup : (ringKeys H m).Nodup)
    (k : UInt64) : (r.insert H m).ring[k]? =
      if k ∈ ringKeys H m then some (decide (k = H.hashCode m), m) else r.ring[k]? := by
  rw [ringKeys_eq_cons, List.nodup_cons] at hnodup
  simp only [NodeRing.insert, getElem?_foldl_insert, ExtTreeMap.getElem?_insert, ringKeys_eq_cons,
    List.mem_cons]
  by_cases hk : k = H.hashCode m
  · subst hk
    simp [hnodup.1]
  · by_cases hrest : k ∈ List.iterate H.wyrng (H.wyrng (H.hashCode m)) (m.vnodes.toNat - 1)
    · simp [hrest, hk]
    · simp [hrest, hk, Ne.symm hk]

theorem insert_repFactor (r : NodeRing) (m : Member) :
    (r.insert H m).repFactor = r.repFactor := rfl

/-- Inserting a member adds it to those the ring holds. -/
theorem insert_holds {r : NodeRing} {S : Set Member} {m : Member} (h : Holds H r S)
    (hadm : Admissible H (Set.insert m S)) : Holds H (r.insert H m) (Set.insert m S) := by
  have hmem : m ∈ Set.insert m S := Or.inl rfl
  intro k first x
  rw [getElem?_insert r m (hadm.nodup m hmem)]
  by_cases hk : k ∈ ringKeys H m
  · rw [if_pos hk, Option.some.injEq, Prod.mk.injEq]
    constructor
    · rintro ⟨hfirst, rfl⟩
      exact ⟨hmem, hk, hfirst.symm⟩
    · rintro ⟨hx, hkx, hfirst⟩
      have hmx : m = x := hadm.eq_of_mem hmem hx hk hkx
      subst hmx
      exact ⟨hfirst.symm, rfl⟩
  · rw [if_neg hk, h k first x]
    constructor
    · rintro ⟨hx, hkx, hfirst⟩
      exact ⟨Or.inr hx, hkx, hfirst⟩
    · rintro ⟨hx, hkx, hfirst⟩
      rcases hx with rfl | hx
      · exact absurd hkx hk
      · exact ⟨hx, hkx, hfirst⟩

theorem getElem?_remove (r : NodeRing) (m : Member) (k : UInt64) :
    (r.remove H m).1.ring[k]? = if k ∈ ringKeys H m then none else r.ring[k]? :=
  getElem?_removeKeys _ k

/-- Removing a member the ring holds deletes exactly its keys. -/
theorem remove_holds {r : NodeRing} {S : Set Member} (m : Member) (h : Holds H r S)
    (hadm : Admissible H (Set.insert m S)) : Holds H (r.remove H m).1 (S \ {m}) := by
  intro k first x
  rw [getElem?_remove]
  by_cases hk : k ∈ ringKeys H m
  · rw [if_pos hk]
    refine ⟨fun hn => by simp at hn, ?_⟩
    rintro ⟨⟨hx, hne⟩, hkx, -⟩
    exact absurd (hadm.eq_of_mem (Or.inr hx) (Or.inl rfl) hkx hk) hne
  · rw [if_neg hk, h k first x]
    constructor
    · rintro ⟨hx, hkx, hfirst⟩
      refine ⟨⟨hx, ?_⟩, hkx, hfirst⟩
      rintro rfl
      exact hk hkx
    · rintro ⟨⟨hx, -⟩, hkx, hfirst⟩
      exact ⟨hx, hkx, hfirst⟩

theorem remove_ok {r : NodeRing} {S : Set Member} {m : Member} (h : Holds H r S)
    (hadm : Admissible H S) (hm : m ∈ S) : (r.remove H m).2 = .ok () := by
  have hin : ∀ k ∈ ringKeys H m, k ∈ r.ring := by
    intro k hk
    rw [ExtTreeMap.mem_iff_isSome_getElem?, (h k _ m).mpr ⟨hm, hk, rfl⟩]
    rfl
  have hcount : (removeKeys r.ring (ringKeys H m)).2 = m.vnodes.toNat := by
    rw [removeKeys_count (hadm.nodup m hm) hin, ringKeys, List.length_iterate,
      Nat.max_eq_right (hadm.vnodes_pos m hm)]
  have hdef : (r.remove H m).2 = if (removeKeys r.ring (ringKeys H m)).2 = m.vnodes.toNat
      then .ok () else .error (removeKeys r.ring (ringKeys H m)).2 := rfl
  rw [hdef, if_pos hcount]

/-- The ring built by inserting the members of a list. -/
def ofMembers (H : RingHash) (repFactor : UInt64) (ms : List Member) : NodeRing :=
  ms.foldl (fun r m => r.insert H m) (NodeRing.new repFactor)

theorem foldl_insert_holds (ms : List Member) {r : NodeRing} {S : Set Member}
    (h : Holds H r S) (hadm : Admissible H (S ∪ {m | m ∈ ms})) :
    Holds H (ms.foldl (fun r m => r.insert H m) r) (S ∪ {m | m ∈ ms}) := by
  induction ms generalizing r S with
  | nil => simpa using h
  | cons m ms ih =>
      have hsplit : S ∪ {x | x ∈ m :: ms} = Set.insert m S ∪ {x | x ∈ ms} := by
        ext x
        change x ∈ S ∨ x ∈ m :: ms ↔ (x = m ∨ x ∈ S) ∨ x ∈ ms
        rw [List.mem_cons]
        tauto
      rw [hsplit] at hadm ⊢
      exact ih (insert_holds h (hadm.mono Set.subset_union_left)) hadm

theorem foldl_insert_repFactor (ms : List Member) (r : NodeRing) :
    (ms.foldl (fun r m => r.insert H m) r).repFactor = r.repFactor := by
  induction ms generalizing r with
  | nil => rfl
  | cons m ms ih => rw [List.foldl_cons, ih, insert_repFactor]

theorem ofMembers_repFactor (repFactor : UInt64) (ms : List Member) :
    (ofMembers H repFactor ms).repFactor = repFactor := foldl_insert_repFactor ms _

theorem ofMembers_holds (repFactor : UInt64) {ms : List Member}
    (hadm : Admissible H {m | m ∈ ms}) : Holds H (ofMembers H repFactor ms) {m | m ∈ ms} := by
  have h := foldl_insert_holds ms (holds_new (H := H) repFactor)
    (by rwa [Set.empty_union])
  rwa [Set.empty_union] at h

/-! ## The ring as a list -/

/-- The entries of a ring in key order have distinct, ascending keys. -/
theorem toList_ascending (r : NodeRing) :
    r.ring.toList.Pairwise (fun a b => a.1 < b.1) := by
  have hord := ExtTreeMap.ordered_keys_toList (t := r.ring)
  refine hord.imp ?_
  intro a b hab
  exact Std.compare_eq_lt.mp hab

theorem nodup_toList (r : NodeRing) : r.ring.toList.Nodup :=
  (toList_ascending r).imp fun {_ _} hab h => UInt64.ne_of_lt hab (congrArg Prod.fst h)

theorem mem_toList_of_holds {r : NodeRing} {S : Set Member} (h : Holds H r S)
    (e : RingEntry) : e ∈ r.ring.toList ↔
      e.2.2 ∈ S ∧ e.1 ∈ ringKeys H e.2.2 ∧ e.2.1 = decide (e.1 = H.hashCode e.2.2) := by
  obtain ⟨k, first, m⟩ := e
  rw [ExtTreeMap.mem_toList_iff_getElem?_eq_some]
  exact h k first m

end Holds

/-! ## The first manager -/

/-- The first manager of a key is the member at the first position from it. -/
theorem head?_managers_one (r : NodeRing) (key : UInt64) :
    (r.managers key 1).head? = (r.clockwise key).head?.map (·.2.2) := by
  have hone : (1 : UInt64).toNat = 0 + 1 := rfl
  rw [managers, hone]
  cases r.clockwise key with
  | nil => rfl
  | cons e rest => rw [List.map_cons, List.eraseDups_cons, List.take_succ_cons]; rfl

theorem mem_clockwise (r : NodeRing) (key : UInt64) (e : RingEntry) :
    e ∈ r.clockwise key ↔ e ∈ r.ring.toList := by
  rw [clockwise, List.mem_append, List.mem_filter, List.mem_filter]
  constructor
  · rintro (h | h) <;> exact h.1
  · intro h
    rcases UInt64.lt_or_le e.1 key with hlt | hle
    · exact .inr ⟨h, by simpa using hlt⟩
    · exact .inl ⟨h, by simpa using hle⟩

/-- A ring with a position has a manager for every key. -/
theorem exists_manager {r : NodeRing} {e : RingEntry} (he : e ∈ r.ring.toList) (key : UInt64) :
    ∃ f ∈ r.ring.toList, (r.managers key 1).head? = some f.2.2 := by
  rw [head?_managers_one]
  cases hw : r.clockwise key with
  | nil =>
      have hmem := (mem_clockwise r key e).mpr he
      rw [hw] at hmem
      cases hmem
  | cons f rest =>
      refine ⟨f, (mem_clockwise r key f).mp ?_, rfl⟩
      rw [hw]
      exact List.mem_cons_self

/-- Where there is a member, every key has one as its manager. -/
theorem manager_of_holds {H : RingHash} {r : NodeRing} {S : Set Member} (h : Holds H r S)
    {m : Member} (hm : m ∈ S) (key : UInt64) :
    ∃ manager ∈ S, (r.managers key 1).head? = some manager := by
  obtain ⟨k, first, hget⟩ := (mem_iff_of_holds h m).mp hm
  obtain ⟨⟨k', first', manager⟩, hf, hmanager⟩ :=
    exists_manager (ExtTreeMap.mem_toList_iff_getElem?_eq_some.mpr hget) key
  exact ⟨manager, (mem_iff_of_holds h manager).mpr
    ⟨k', first', ExtTreeMap.mem_toList_iff_getElem?_eq_some.mp hf⟩, hmanager⟩

end NodeRing

/-! ## Updates -/

/-- What a cluster sends to its subscribers: the events since the last update in
their order, and the members and the ring after them. -/
structure ClusterUpdate where
  events : List ClusterEvent
  nodes : MemberSet
  ring : NodeRing
  deriving DecidableEq

end AurumActors.Cluster
