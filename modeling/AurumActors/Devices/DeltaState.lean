/-
  Devices/DeltaState.lean --- the devices as delta state.

  The join is that of a semilattice.  The delta of a mutation changes the entry
  of one device, and is empty exactly when there is nothing to change.
-/
import AurumActors.Crdt.AckSoundness
import AurumActors.Devices.Devices

set_option autoImplicit false
set_option linter.dupNamespace false

namespace AurumActors.Devices

open Std
open AurumActors.Foundation AurumActors.Crdt

/-! ## The semilattice -/

namespace Devices

theorem ext {d other : Devices} (h : ∀ k : Device, d.states[k]? = other.states[k]?) :
    d = other := by
  obtain ⟨states⟩ := d
  obtain ⟨states'⟩ := other
  exact congrArg mk (ExtTreeMap.ext_getElem? h)

theorem join_comm (x y : Devices) : x.join y = y.join x :=
  congrArg mk (unionWith_comm x.states y.states)

theorem join_assoc (x y z : Devices) : (x.join y).join z = x.join (y.join z) :=
  congrArg mk (unionWith_assoc x.states y.states z.states)

theorem join_self (x : Devices) : x.join x = x := congrArg mk (unionWith_self x.states)

theorem join_minimum (x : Devices) : x.join minimum = x := congrArg mk (unionWith_empty x.states)

theorem minimum_join (x : Devices) : minimum.join x = x := congrArg mk (empty_unionWith x.states)

theorem empty_iff (x : Devices) : x.empty = true ↔ x = minimum := by
  obtain ⟨states⟩ := x
  simp only [empty, ExtTreeMap.isEmpty_iff, minimum, mk.injEq]

/-- Devices are ordered by what the join adds. -/
instance : Max Devices := ⟨join⟩

instance : SemilatticeSup Devices := SemilatticeSup.mk' join_comm join_assoc join_self

instance : OrderBot Devices where
  bot := minimum
  bot_le x := sup_eq_right.mp (minimum_join x)

/-- What is said of the actor that disperses lawful data holds for devices. -/
instance : LawfulCRDT Devices where
  join_eq _ _ := rfl
  minimum_eq := rfl
  eq_bot_of_empty x h := (empty_iff x).mp h

end Devices

/-! ## Deltas -/

/-- An entry with more removals is the greater one. -/
theorem DeviceEntry.max_of_removals_lt {e f : DeviceEntry}
    (h : e.removals.toNat < f.removals.toNat) : max e f = f := by
  refine max_eq_right ?_
  have hkey : e.key ≤ f.key := by
    rw [DeviceEntry.key, DeviceEntry.key, Prod.Lex.toLex_le_toLex]
    exact .inl h
  exact hkey

namespace DeviceMutator

open Devices

/-- The device a mutation is about. -/
def device : DeviceMutator → Device
  | .put dev _ | .remove dev => dev

/-- What a mutation makes of the entry of its device. -/
def after : DeviceMutator → Option DeviceEntry → Option DeviceEntry
  | .put _ interval, entry => some (putEntry entry interval)
  | .remove _, some ⟨removals, some _⟩ => some ⟨removals + 1, none⟩
  | .remove _, entry => entry

/-- The removals of a device that is removed can still be counted. -/
def Countable (op : DeviceMutator) (x : Devices) : Prop :=
  ∀ dev, op = .remove dev → ∀ e, x.states[dev]? = some e → e.interval ≠ none →
    e.removals.toNat + 1 < UInt64.size

theorem toNat_add_one {n : UInt64} (h : n.toNat + 1 < UInt64.size) :
    (n + 1).toNat = n.toNat + 1 := by
  rw [UInt64.toNat_add]
  exact Nat.mod_eq_of_lt h

/-- A delta is empty if there is nothing to change, and else a new and greater
entry of the device. -/
theorem apply_cases {op : DeviceMutator} {x : Devices} (hop : op.Countable x) :
    (op.apply x = minimum ∧ op.after x.states[op.device]? = x.states[op.device]?) ∨
    ∃ e, op.apply x = unit op.device e ∧ op.after x.states[op.device]? = some e ∧
      x.states[op.device]? ≠ some e ∧ ∀ old ∈ x.states[op.device]?, max old e = e := by
  cases op with
  | put dev interval =>
      simp only [device, after]
      rcases hget : x.states[dev]? with _ | ⟨removals, _ | old⟩
      · exact .inr ⟨⟨0, some interval⟩, by simp [apply, hget], rfl, by simp, by simp⟩
      · refine .inr ⟨⟨removals, some interval⟩, by simp [apply, hget], rfl, by simp, ?_⟩
        rintro e he
        cases he
        exact DeviceEntry.max_none removals interval
      · by_cases hle : interval ≤ old
        · refine .inl ⟨by simp [apply, hget, Option.filter, hle], ?_⟩
          rw [putEntry, Option.elim_some, max_eq_left hle]
        · have hlt := lt_of_not_ge hle
          refine .inr ⟨⟨removals, some interval⟩, by simp [apply, hget, Option.filter, hle], ?_, ?_,
            ?_⟩
          · rw [putEntry, Option.elim_some, max_eq_right hlt.le]
          · simpa using hlt.ne
          · rintro e he
            cases he
            rw [DeviceEntry.max_of_removals, max_eq_right hlt.le]
  | remove dev =>
      simp only [device]
      rcases hget : x.states[dev]? with _ | ⟨removals, _ | old⟩
      · exact .inl ⟨by simp [apply, hget], rfl⟩
      · exact .inl ⟨by simp [apply, hget], rfl⟩
      · have hnat := toNat_add_one (hop dev rfl _ hget (by simp))
        have hne : removals ≠ removals + 1 := fun heq => by
          have hsame : removals.toNat = (removals + 1).toNat := congrArg UInt64.toNat heq
          simp only at hnat
          omega
        refine .inr ⟨⟨removals + 1, none⟩, by simp [apply, hget], rfl, by simp, ?_⟩
        rintro e he
        cases he
        exact DeviceEntry.max_of_removals_lt (by simp only [hnat, Nat.lt_succ_self])

/-- Joining the delta of a mutation changes the entry of its device as the
mutation says, and no other entry. -/
theorem getElem?_join_apply {op : DeviceMutator} {x : Devices} (hop : op.Countable x)
    (k : Device) : (x.join (op.apply x)).states[k]? =
      if k = op.device then op.after x.states[op.device]? else x.states[k]? := by
  rcases apply_cases hop with ⟨hmin, hafter⟩ | ⟨e, hunit, hafter, -, hmax⟩
  · rw [hmin, join_minimum, hafter]
    split
    · next hk => rw [hk]
    · rfl
  · rw [hunit, getElem?_join, getElem?_unit, hafter]
    split
    · next hk =>
        rw [hk]
        rcases hget : x.states[op.device]? with _ | old
        · rfl
        · rw [Option.merge_some_some, hmax old hget]
    · rw [Option.merge_none_right]

/-- A delta is empty exactly when joining it changes nothing. -/
theorem empty_apply_iff {op : DeviceMutator} {x : Devices} (hop : op.Countable x) :
    (op.apply x).empty = true ↔ x.join (op.apply x) = x := by
  constructor
  · intro hempty
    rw [(empty_iff _).mp hempty, join_minimum]
  · intro hsame
    rcases apply_cases hop with ⟨hmin, -⟩ | ⟨e, -, hafter, hne, -⟩
    · exact (empty_iff _).mpr hmin
    · have hget := getElem?_join_apply hop op.device
      rw [hsame, if_pos rfl, hafter] at hget
      exact absurd hget hne

end DeviceMutator

/-! ## A removal and a put of one device -/

namespace Devices

/-- How often a device was removed. -/
def removalsOf (x : Devices) (dev : Device) : UInt64 :=
  (x.states[dev]?.map (·.removals)).getD 0

/-- A put keeps the count of removals, if its delta is not empty. -/
theorem apply_put_cases (x : Devices) (dev : Device) (interval : DeviceInterval) :
    (DeviceMutator.put dev interval).apply x = minimum ∨
      (DeviceMutator.put dev interval).apply x = unit dev ⟨x.removalsOf dev, some interval⟩ := by
  rcases hget : x.states[dev]? with _ | entry
  · exact .inr (by simp only [DeviceMutator.apply, removalsOf, hget, Option.map_none,
      Option.getD_none])
  · simp only [DeviceMutator.apply, removalsOf, hget, Option.map_some, Option.getD_some]
    split
    · exact .inr rfl
    · exact .inl rfl

theorem join_unit (dev : Device) (e f : DeviceEntry) :
    (unit dev e).join (unit dev f) = unit dev (max e f) := by
  refine ext fun k => ?_
  rw [getElem?_join, getElem?_unit, getElem?_unit, getElem?_unit]
  split <;> rfl

/-- The delta of a removal wins over that of a put with as many removals. -/
theorem removal_wins {x y : Devices} {dev : Device} {e : DeviceEntry}
    (hx : x.states[dev]? = some e) (hinterval : e.interval ≠ none)
    (hcount : e.removals.toNat + 1 < UInt64.size) (hy : y.removalsOf dev = e.removals)
    (interval : DeviceInterval) :
    ((DeviceMutator.remove dev).apply x).join ((DeviceMutator.put dev interval).apply y) =
      unit dev ⟨e.removals + 1, none⟩ := by
  have hremove : (DeviceMutator.remove dev).apply x = unit dev ⟨e.removals + 1, none⟩ := by
    have hsome := Option.isSome_iff_ne_none.mpr hinterval
    simp only [DeviceMutator.apply, hx, hsome, if_true]
  rw [hremove]
  rcases apply_put_cases y dev interval with hput | hput
  · rw [hput, join_minimum]
  · rw [hput, hy, join_unit, max_comm, DeviceEntry.max_of_removals_lt]
    simp only [DeviceMutator.toNat_add_one hcount, Nat.lt_succ_self]

/-! ## The delta CRDT -/

/-- The join is commutative, associative and idempotent, and the minimum is its
identity. -/
structure JoinLaws (x y z : Devices) : Prop where
  comm : x.join y = y.join x
  assoc : (x.join y).join z = x.join (y.join z)
  idem : x.join x = x
  minimum_left : minimum.join x = x
  minimum_right : x.join minimum = x

/-- The delta of a mutation changes one entry as the mutation says, and is empty
exactly when it changes nothing. -/
structure ExactDelta (op : DeviceMutator) (x : Devices) : Prop where
  changed : (x.join (op.apply x)).states[op.device]? = op.after x.states[op.device]?
  others : ∀ k, k ≠ op.device → (x.join (op.apply x)).states[k]? = x.states[k]?
  empty : (op.apply x).empty = true ↔ x.join (op.apply x) = x

/-- Devices are a delta CRDT with exact deltas, in which a removal wins over a put
that knows of as many removals. -/
theorem devices_delta_crdt :
    (∀ x y z : Devices, JoinLaws x y z) ∧
    (∀ (op : DeviceMutator) (x : Devices), op.Countable x → ExactDelta op x) ∧
    ∀ (x y : Devices) (dev : Device) (e : DeviceEntry) (interval : DeviceInterval),
      x.states[dev]? = some e → e.interval ≠ none → e.removals.toNat + 1 < UInt64.size →
      y.removalsOf dev = e.removals →
      ((DeviceMutator.remove dev).apply x).join ((DeviceMutator.put dev interval).apply y) =
          unit dev ⟨e.removals + 1, none⟩ ∧
        ((DeviceMutator.put dev interval).apply y).join ((DeviceMutator.remove dev).apply x) =
          unit dev ⟨e.removals + 1, none⟩ := by
  refine ⟨fun x y z => ⟨join_comm x y, join_assoc x y z, join_self x, minimum_join x,
    join_minimum x⟩, fun op x hop => ⟨?_, fun k hk => ?_, DeviceMutator.empty_apply_iff hop⟩, ?_⟩
  · rw [DeviceMutator.getElem?_join_apply hop, if_pos rfl]
  · rw [DeviceMutator.getElem?_join_apply hop, if_neg hk]
  · intro x y dev e interval hx hinterval hcount hy
    have hwins := removal_wins hx hinterval hcount hy interval
    exact ⟨hwins, (join_comm _ _).trans hwins⟩

/-- A device at a port. -/
def sensor : Device := ⟨Core.Socket.localhost 7000⟩

/-- One replica removes a device that was removed once before, and another one
puts it with a greater clock: the entry ends removed. -/
theorem devices_delta_crdt_sensor :
    ExactDelta (.remove sensor) (unit sensor ⟨1, some ⟨4, 50⟩⟩) ∧
      ((DeviceMutator.put sensor ⟨9, 20⟩).apply (unit sensor ⟨1, none⟩)).join
          ((DeviceMutator.remove sensor).apply (unit sensor ⟨1, some ⟨4, 50⟩⟩)) =
        unit sensor ⟨2, none⟩ := by
  have hget : (unit sensor ⟨1, some ⟨4, 50⟩⟩).states[sensor]? = some ⟨1, some ⟨4, 50⟩⟩ := by
    rw [getElem?_unit, if_pos rfl]
  have hone : (1 : UInt64).toNat + 1 < UInt64.size := by decide
  constructor
  · refine devices_delta_crdt.2.1 _ _ fun dev hdev e he _ => ?_
    cases hdev
    cases hget.symm.trans he
    exact hone
  · exact (devices_delta_crdt.2.2 _ (unit sensor ⟨1, none⟩) sensor _ ⟨9, 20⟩ hget (by simp) hone
      (by decide)).2

end Devices

end AurumActors.Devices
