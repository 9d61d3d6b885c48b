/-
  Macros/Unify.lean --- the macro that enumerates all message types, from
  `aurum_actors_macros/src/unify/mod.rs`.

  `unify!` lists the root message types and the interfaces of the crate and of
  the application, and makes one variant of the unified type for each of them.
  The variants are words over two letters.  How many letters a word has comes
  from a logarithm of floating point numbers; here it is the least number of
  letters that this logarithm can stand for.
-/
import AurumActors.Foundation.Pools
import AurumActors.Foundation.While
import AurumActors.Macros.AurumInterface
import Mathlib.Algebra.BigOperators.Group.List.Basic
import Mathlib.Algebra.Order.Ring.Nat

set_option autoImplicit false

namespace AurumActors.Macros

open AurumActors.Foundation

/-- The message types of the crate, and all others by their tokens. -/
inductive MessageType where
  | registryMsg
  | clusterMsg
  | heartbeatReceiverMsg
  | deviceServerMsg
  | deviceClientMsg
  | hbReqSenderMsg
  | causalMsg
  | loggerMsg
  | intraClusterMsg
  | deviceServerRemoteMsg
  | deviceClientRemoteMsg
  | causalIntraMsg
  | hbReqSenderRemoteMsg
  | named (tokens : String)
  deriving DecidableEq, Repr

/-! ## The arguments of the macro -/

/-- What stands behind the `=` of a key: a name, or types in braces. -/
inductive UnifyValue where
  | name (ident : String)
  | types (types : List MessageType)
  deriving DecidableEq, Repr

structure Unification where
  unifiedName : String
  rootTypes : List MessageType
  interfaces : List MessageType
  deriving DecidableEq, Repr

namespace Unification

/-- The local variables of `parse`. -/
structure Keys where
  unifiedName : Option String
  rootTypes : Option (List MessageType)
  interfaces : Option (List MessageType)

/-- One round of the loop of `parse`. -/
def parseKey (keys : Keys) : String × UnifyValue → Except String Keys
  | (key, value) =>
      if key = "unified_name" then
        if keys.unifiedName.isSome then .error "Duplicate key `unified_name`"
        else match value with
          | .name ident => .ok { keys with unifiedName := some ident }
          | .types _ => .error "expected identifier"
      else if key = "root_types" then
        if keys.rootTypes.isSome then .error "Duplicate key `root_types`"
        else match value with
          | .types types => .ok { keys with rootTypes := some types }
          | .name _ => .error "expected curly braces"
      else if key = "interfaces" then
        if keys.interfaces.isSome then .error "Duplicate key `interfaces`"
        else match value with
          | .types types => .ok { keys with interfaces := some types }
          | .name _ => .error "expected curly braces"
      else .error ("Unrecognized key `" ++ key ++ "`")

/-- `Unification::parse` -/
def parse (input : List (String × UnifyValue)) : Except String Unification := do
  let keys ← input.foldlM parseKey ⟨none, none, none⟩
  match keys.unifiedName with
  | some name => return ⟨name, keys.rootTypes.getD [], keys.interfaces.getD []⟩
  | none => throw "Missing required key `unified_name`"

/-! ### What `parse` accepts -/

/-- The key is one of the three, and the value is of its kind. -/
def Suits : String × UnifyValue → Prop
  | (key, .name _) => key = "unified_name"
  | (key, .types _) => key = "root_types" ∨ key = "interfaces"

/-- The local variables after a key that suits its value. -/
def Keys.set (keys : Keys) : String × UnifyValue → Keys
  | (_, .name ident) => { keys with unifiedName := some ident }
  | (key, .types types) =>
      if key = "root_types" then { keys with rootTypes := some types }
      else { keys with interfaces := some types }

/-- The key came before. -/
def Keys.Has (keys : Keys) (key : String) : Prop :=
  key = "unified_name" ∧ keys.unifiedName.isSome = true ∨
    key = "root_types" ∧ keys.rootTypes.isSome = true ∨
      key = "interfaces" ∧ keys.interfaces.isSome = true

theorem Keys.has_set {keys : Keys} {e : String × UnifyValue} (h : Suits e) (key : String) :
    (keys.set e).Has key ↔ key = e.1 ∨ keys.Has key := by
  obtain ⟨key', value⟩ := e
  cases value with
  | name ident =>
      obtain rfl : key' = "unified_name" := h
      simp only [Keys.Has, Keys.set, Option.isSome_some, and_true]
      tauto
  | types types =>
      rcases h with rfl | rfl <;> simp only [Keys.Has, Keys.set, if_true, String.reduceEq, if_false,
        Option.isSome_some, and_true] <;> tauto

/-- A round accepts a new key that suits its value. -/
theorem parseKey_eq_ok {keys keys' : Keys} {e : String × UnifyValue} :
    parseKey keys e = .ok keys' ↔ Suits e ∧ ¬ keys.Has e.1 ∧ keys.set e = keys' := by
  obtain ⟨key, value⟩ := e
  unfold parseKey
  by_cases hname : key = "unified_name"
  · subst hname
    cases hset : keys.unifiedName <;> cases value <;>
      simp [Suits, Keys.Has, Keys.set, hset]
  by_cases hroots : key = "root_types"
  · subst hroots
    cases hset : keys.rootTypes <;> cases value <;>
      simp [Suits, Keys.Has, Keys.set, hset]
  by_cases hinterfaces : key = "interfaces"
  · subst hinterfaces
    cases hset : keys.interfaces <;> cases value <;>
      simp [Suits, Keys.Has, Keys.set, hset]
  · cases value <;> simp [Suits, hname, hroots, hinterfaces]

/-- The loop accepts new and distinct keys that suit their values. -/
theorem foldlM_parseKey_eq_ok {input : List (String × UnifyValue)} {keys keys' : Keys} :
    input.foldlM parseKey keys = .ok keys' ↔ (∀ e ∈ input, Suits e ∧ ¬ keys.Has e.1) ∧
      (input.map (·.1)).Nodup ∧ input.foldl Keys.set keys = keys' := by
  induction input generalizing keys with
  | nil => simp [pure, Except.pure]
  | cons e input ih =>
      rw [List.foldlM_cons]
      refine bind_eq_ok_iff.trans ?_
      simp only [parseKey_eq_ok, List.forall_mem_cons, List.map_cons, List.nodup_cons,
        List.foldl_cons]
      constructor
      · rintro ⟨_, ⟨hsuits, hnew, rfl⟩, hrest⟩
        obtain ⟨hall, hnodup, heq⟩ := ih.mp hrest
        refine ⟨⟨⟨hsuits, hnew⟩, fun e' he' => ⟨(hall e' he').1, fun hhas => ?_⟩⟩,
          ⟨fun hmem => ?_, hnodup⟩, heq⟩
        · exact (hall e' he').2 ((Keys.has_set hsuits _).mpr (.inr hhas))
        · obtain ⟨e', he', hkey⟩ := List.mem_map.mp hmem
          exact (hall e' he').2 ((Keys.has_set hsuits _).mpr (.inl hkey))
      · rintro ⟨⟨⟨hsuits, hnew⟩, hall⟩, ⟨hfresh, hnodup⟩, heq⟩
        refine ⟨_, ⟨hsuits, hnew, rfl⟩, ih.mpr ⟨fun e' he' => ⟨(hall e' he').1, fun hhas => ?_⟩,
          hnodup, heq⟩⟩
        rcases (Keys.has_set hsuits _).mp hhas with hkey | hhas
        · exact hfresh (List.mem_map.mpr ⟨e', he', hkey⟩)
        · exact (hall e' he').2 hhas

/-- `parse` accepts distinct keys out of the three, each with a value of its kind,
if one of them is the name.  Types that are not given are none. -/
theorem parse_eq_ok_iff {input : List (String × UnifyValue)} {u : Unification} :
    parse input = .ok u ↔ (∀ e ∈ input, Suits e) ∧ (input.map (·.1)).Nodup ∧
      (input.foldl Keys.set ⟨none, none, none⟩).unifiedName = some u.unifiedName ∧
      u.rootTypes = (input.foldl Keys.set ⟨none, none, none⟩).rootTypes.getD [] ∧
      u.interfaces = (input.foldl Keys.set ⟨none, none, none⟩).interfaces.getD [] := by
  have hnone : ∀ key, ¬ Keys.Has ⟨none, none, none⟩ key := by simp [Keys.Has]
  refine bind_eq_ok_iff.trans ?_
  simp only [foldlM_parseKey_eq_ok, hnone, not_false_eq_true, and_true]
  constructor
  · rintro ⟨_, ⟨hsuits, hnodup, rfl⟩, hname⟩
    split at hname
    · next ident hident =>
        cases hname
        exact ⟨hsuits, hnodup, hident, rfl, rfl⟩
    · cases hname
  · rintro ⟨hsuits, hnodup, hname, hroots, hinterfaces⟩
    refine ⟨_, ⟨hsuits, hnodup, rfl⟩, ?_⟩
    obtain ⟨name, roots, interfaces⟩ := u
    simp only at hname hroots hinterfaces
    rw [hname, hroots, hinterfaces]
    rfl

/-- The root message types, those of the crate first. -/
def specifics (u : Unification) : List MessageType :=
  [.registryMsg, .clusterMsg, .heartbeatReceiverMsg, .deviceServerMsg, .deviceClientMsg,
    .hbReqSenderMsg, .causalMsg, .loggerMsg] ++ u.rootTypes

/-- The interfaces that are no root message types, those of the crate first. -/
def allInterfaces (u : Unification) : List MessageType :=
  [.intraClusterMsg, .deviceServerRemoteMsg, .deviceClientRemoteMsg, .causalIntraMsg,
    .hbReqSenderRemoteMsg] ++ u.interfaces

/-- `all` -/
def all (u : Unification) : List MessageType := u.specifics ++ u.allInterfaces

end Unification

/-! ## The variants -/

/-- `(n as f64).log(1.9).ceil()`, in exact arithmetic. -/
def digits (n : Nat) : Nat :=
  ((List.range (n + 1)).find? fun k => n * 10 ^ k ≤ 19 ^ k).getD n

/-- `multi_cartesian_product` of an alphabet with itself, in the order of the
words. -/
def words (alphabet : List Char) : Nat → List (List Char)
  | 0 => [[]]
  | k + 1 => alphabet.flatMap fun c => (words alphabet k).map (c :: ·)

/-- `all_variants` for `n` types. -/
def allVariants (n : Nat) : List String :=
  ((words ['A', 'B'] (digits n)).take n).map String.ofList

theorem length_words (alphabet : List Char) (k : Nat) :
    (words alphabet k).length = alphabet.length ^ k := by
  induction k with
  | zero => rfl
  | succ k ih =>
      simp [words, List.length_flatMap, ih, Nat.pow_succ, Nat.mul_comm]

theorem nodup_words {alphabet : List Char} (h : alphabet.Nodup) (k : Nat) :
    (words alphabet k).Nodup := by
  induction k with
  | zero => exact List.nodup_singleton _
  | succ k ih =>
      rw [words, List.nodup_flatMap]
      refine ⟨fun c _ => ih.map List.cons_injective, h.imp fun {c c'} hne => ?_⟩
      -- two words that differ in their first letter
      refine List.disjoint_left.mpr fun w hw hw' => ?_
      obtain ⟨_, -, rfl⟩ := List.mem_map.mp hw
      obtain ⟨_, -, heq⟩ := List.mem_map.mp hw'
      exact hne (List.cons.inj heq).1.symm

/-- The logarithm to the base 1.9 is large enough for two letters. -/
theorem le_two_pow_digits (n : Nat) : n ≤ 2 ^ digits n := by
  unfold digits
  cases hfind : (List.range (n + 1)).find? fun k => n * 10 ^ k ≤ 19 ^ k with
  | none => exact Nat.lt_two_pow_self.le
  | some k =>
      have hk : n * 10 ^ k ≤ 19 ^ k := by simpa using List.find?_some hfind
      have hle : 19 ^ k ≤ 2 ^ k * 10 ^ k := by
        rw [← Nat.mul_pow]
        exact Nat.pow_le_pow_left (by omega) k
      exact Nat.le_of_mul_le_mul_right (hk.trans hle) (Nat.pow_pos (by omega))

/-- There are enough words for all types. -/
theorem length_allVariants (n : Nat) : (allVariants n).length = n := by
  rw [allVariants, List.length_map, List.length_take, length_words]
  exact Nat.min_eq_left (le_two_pow_digits n)

theorem nodup_allVariants (n : Nat) : (allVariants n).Nodup :=
  ((nodup_words (by decide) _).sublist (List.take_sublist _ _)).map
    fun _ _ => String.ofList_injective

namespace Unification

/-- `<U as Case<T>>::VARIANT` of a type in the list. -/
def variant (u : Unification) (t : MessageType) : String :=
  ((u.all.zip (allVariants u.all.length)).lookup t).getD ""

/-- `specific_variants` -/
def specificVariants (u : Unification) : List String :=
  (allVariants u.all.length).take u.specifics.length

variable {u : Unification} {t t' : MessageType}

/-- The variant of a type stands where the type stands. -/
theorem variant_of_getElem? (hnodup : u.all.Nodup) {i : Nat} (h : u.all[i]? = some t) :
    (allVariants u.all.length)[i]? = some (u.variant t) := by
  have hlt : i < (allVariants u.all.length).length := by
    rw [length_allVariants]
    exact (List.getElem?_eq_some_iff.mp h).1
  rw [variant, lookup_zip hnodup h (List.getElem?_eq_getElem hlt)]
  exact List.getElem?_eq_getElem hlt

/-- No two types have one variant. -/
theorem variant_inj (hnodup : u.all.Nodup) (ht : t ∈ u.all) (ht' : t' ∈ u.all) :
    u.variant t = u.variant t' ↔ t = t' := by
  refine ⟨fun heq => ?_, fun heq => heq ▸ rfl⟩
  obtain ⟨i, hi⟩ := List.mem_iff_getElem?.mp ht
  obtain ⟨j, hj⟩ := List.mem_iff_getElem?.mp ht'
  have hvi := variant_of_getElem? hnodup hi
  have hvj := variant_of_getElem? hnodup hj
  rw [← heq] at hvj
  obtain rfl : i = j :=
    (List.getElem?_inj (List.getElem?_eq_some_iff.mp hvi).1 (nodup_allVariants _)).mp
      (hvi.trans hvj.symm)
  exact Option.some.inj (hi.symm.trans hj)

/-- The specific variants are those of the root message types, in order. -/
theorem specificVariants_eq (hnodup : u.all.Nodup) :
    u.specificVariants = u.specifics.map u.variant := by
  refine List.ext_getElem? fun i => ?_
  rw [specificVariants, List.getElem?_take, List.getElem?_map]
  split
  · next hi =>
      have hget : u.all[i]? = u.specifics[i]? := List.getElem?_append_left hi
      rw [List.getElem?_eq_getElem hi] at hget ⊢
      exact variant_of_getElem? hnodup hget
  · next hi => rw [List.getElem?_eq_none (Nat.le_of_not_lt hi), Option.map_none]

theorem nodup_specificVariants (u : Unification) : u.specificVariants.Nodup :=
  (nodup_allVariants _).sublist (List.take_sublist _ _)

end Unification

end AurumActors.Macros
