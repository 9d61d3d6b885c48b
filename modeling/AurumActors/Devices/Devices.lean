/-
  Devices/Devices.lean --- the replicated device table of
  `cluster/devices/devices_state.rs`.

  Durations are numbers of nanoseconds.  Intervals and entries are ordered by
  keys, as the source compares them; `im::OrdMap::union_with` is a pointwise
  union.
-/
import AurumActors.Crdt.Causal
import Mathlib.Data.Prod.Lex
import Mathlib.Order.WithBot

set_option autoImplicit false
set_option linter.dupNamespace false

namespace AurumActors.Devices

open Std
open AurumActors.Core AurumActors.Foundation AurumActors.Crdt

/-! ## Devices and intervals -/

structure Device where
  socket : Socket
  deriving DecidableEq, Repr

theorem Device.socket_injective : Function.Injective Device.socket := by
  rintro ⟨s⟩ ⟨s'⟩ h
  exact congrArg Device.mk h

instance : Ord Device := ⟨compareOn Device.socket⟩
instance : TransOrd Device := inferInstanceAs (TransCmp (compareOn Device.socket))
instance : LawfulEqOrd Device := lawfulEqCmp_compareOn Device.socket_injective

structure DeviceInterval where
  clock : UInt64
  interval : Nat
  deriving DecidableEq, Repr

namespace DeviceInterval

/-- `PartialOrd for DeviceInterval` compares the clocks, and then the intervals
the other way around. -/
def key (i : DeviceInterval) : ℕ ×ₗ ℕᵒᵈ := toLex (i.clock.toNat, OrderDual.toDual i.interval)

theorem key_injective : Function.Injective key := by
  rintro ⟨c, i⟩ ⟨c', i'⟩ h
  obtain ⟨hc, hi⟩ := Prod.mk.inj (toLex.injective h)
  have hc : c = c' := UInt64.toNat_inj.mp hc
  have hi : i = i' := OrderDual.toDual.injective hi
  rw [hc, hi]

instance : LinearOrder DeviceInterval := LinearOrder.lift' key key_injective

theorem le_iff (i j : DeviceInterval) :
    i ≤ j ↔ i.clock < j.clock ∨ i.clock = j.clock ∧ j.interval ≤ i.interval := by
  have h : i ≤ j ↔ i.key ≤ j.key := Iff.rfl
  rw [h, key, key, Prod.Lex.toLex_le_toLex, UInt64.lt_iff_toNat_lt, ← UInt64.toNat_inj,
    OrderDual.toDual_le_toDual]

end DeviceInterval

structure DeviceEntry where
  removals : UInt64
  interval : Option DeviceInterval
  deriving DecidableEq, Repr

namespace DeviceEntry

/-- The interval, where none is the least. -/
def bound (e : DeviceEntry) : WithBot DeviceInterval := e.interval

/-- The derived order compares the removals and then the intervals. -/
def key (e : DeviceEntry) : ℕ ×ₗ WithBot DeviceInterval := toLex (e.removals.toNat, e.bound)

theorem key_injective : Function.Injective key := by
  rintro ⟨r, i⟩ ⟨r', i'⟩ h
  obtain ⟨hr, hi⟩ := Prod.mk.inj (toLex.injective h)
  have hr : r = r' := UInt64.toNat_inj.mp hr
  have hi : i = i' := hi
  rw [hr, hi]

instance : LinearOrder DeviceEntry := LinearOrder.lift' key key_injective

/-- Entries with as many removals compare by their intervals. -/
theorem le_of_bound_le {e f : DeviceEntry} (hr : e.removals = f.removals)
    (h : e.bound ≤ f.bound) : e ≤ f := by
  have hkey : e.key ≤ f.key := by
    rw [key, key, Prod.Lex.toLex_le_toLex, hr]
    exact .inr ⟨rfl, h⟩
  exact hkey

/-- The greater of two entries with as many removals. -/
theorem max_of_removals (r : UInt64) (i j : DeviceInterval) :
    max (⟨r, some i⟩ : DeviceEntry) ⟨r, some j⟩ = ⟨r, some (max i j)⟩ := by
  rcases le_total i j with hle | hle
  · rw [max_eq_right hle]
    exact max_eq_right (le_of_bound_le rfl (WithBot.coe_le_coe.mpr hle))
  · rw [max_eq_left hle]
    exact max_eq_left (le_of_bound_le rfl (WithBot.coe_le_coe.mpr hle))

theorem max_none (r : UInt64) (i : DeviceInterval) :
    max (⟨r, none⟩ : DeviceEntry) ⟨r, some i⟩ = ⟨r, some i⟩ :=
  max_eq_right (le_of_bound_le rfl bot_le)

end DeviceEntry

/-! ## The table -/

structure Devices where
  states : ExtTreeMap Device DeviceEntry compare
  deriving DecidableEq

inductive DeviceMutator where
  | put (device : Device) (interval : DeviceInterval)
  | remove (device : Device)
  deriving DecidableEq, Repr

namespace Devices

/-- `OrdMap::unit` -/
def unit (device : Device) (e : DeviceEntry) : Devices :=
  ⟨(∅ : ExtTreeMap Device DeviceEntry compare).insert device e⟩

/-- `Devices::minimum` -/
def minimum : Devices := ⟨∅⟩

/-- `Devices::empty` -/
def empty (d : Devices) : Bool := d.states.isEmpty

/-- `Devices::join` -/
def join (d other : Devices) : Devices := ⟨unionWith max d.states other.states⟩

end Devices

/-- `DeviceMutator::apply` -/
def DeviceMutator.apply : DeviceMutator → Devices → Devices
  | .put dev interval, target =>
      match target.states[dev]? with
      | some entry =>
          if (entry.interval.filter fun x => interval ≤ x).isNone then
            .unit dev ⟨entry.removals, some interval⟩
          else .minimum
      | none => .unit dev ⟨0, some interval⟩
  | .remove dev, target =>
      match target.states[dev]? with
      | some entry =>
          if entry.interval.isSome then .unit dev ⟨entry.removals + 1, none⟩ else .minimum
      | none => .minimum

instance : CRDT Devices where
  Delta := DeviceMutator
  apply := DeviceMutator.apply
  empty := Devices.empty
  join := Devices.join
  minimum := Devices.minimum

namespace Devices

/-- The data after `CausalCmd::Mutate`. -/
def mutate (d : Devices) (op : DeviceMutator) : Devices :=
  if (op.apply d).empty then d else d.join (op.apply d)

/-- The actor that disperses the devices mutates them so. -/
theorem mutate_of_op {ic ic' : InCluster Devices} {preference : DispersalPreference}
    {op : DeviceMutator} {out : List (Crdt.Output Devices)}
    (h : ic.op preference op = .ok (ic', out)) : ic'.data = ic.data.mutate op := by
  have hdef : ic.op preference op = if (op.apply ic.data).empty then .ok (ic, []) else
      ((ic.grow (ic.data.join (op.apply ic.data)) (op.apply ic.data)).disperse preference >>=
        fun sent => .ok (ic.grow (ic.data.join (op.apply ic.data)) (op.apply ic.data),
          sent ++ [.publish (ic.data.join (op.apply ic.data))])) := rfl
  rw [hdef] at h
  unfold mutate
  split at h
  · next hempty =>
      cases h
      rw [if_pos hempty]
  · next hempty =>
      rw [if_neg hempty]
      cases hsent : (ic.grow (ic.data.join (op.apply ic.data)) (op.apply ic.data)).disperse
          preference with
      | error e =>
          rw [hsent] at h
          cases h
      | ok sent =>
          rw [hsent] at h
          cases h
          rfl

theorem getElem?_join (d other : Devices) (k : Device) :
    (d.join other).states[k]? = Option.merge max d.states[k]? other.states[k]? :=
  getElem?_unionWith max d.states other.states k

theorem getElem?_unit (device : Device) (e : DeviceEntry) (k : Device) :
    (unit device e).states[k]? = if k = device then some e else none := by
  rw [unit, getElem?_insert_eq]
  split
  · rfl
  · exact ExtTreeMap.getElem?_empty

theorem unit_not_empty (device : Device) (e : DeviceEntry) : (unit device e).empty = false := by
  simp [unit, empty]

/-- The entry of a device that has an interval put. -/
def putEntry (entry : Option DeviceEntry) (interval : DeviceInterval) : DeviceEntry :=
  match entry with
  | some e => ⟨e.removals, some (e.interval.elim interval (max · interval))⟩
  | none => ⟨0, some interval⟩

/-- Putting an interval keeps the greatest one of the device. -/
theorem getElem?_mutate_put (d : Devices) (dev : Device) (interval : DeviceInterval)
    (k : Device) : (d.mutate (.put dev interval)).states[k]? =
      if k = dev then some (putEntry d.states[dev]? interval) else d.states[k]? := by
  have hjoin : ∀ e : DeviceEntry, (d.join (unit dev e)).states[k]? =
      if k = dev then some (d.states[dev]?.elim e (max · e)) else d.states[k]? := by
    intro e
    rw [getElem?_join, getElem?_unit]
    split
    · next hk =>
        rw [hk]
        cases d.states[dev]? <;> rfl
    · rw [Option.merge_none_right]
  unfold mutate
  rcases hget : d.states[dev]? with _ | ⟨removals, _ | old⟩
  · have happly : (DeviceMutator.put dev interval).apply d = unit dev ⟨0, some interval⟩ := by
      simp only [DeviceMutator.apply, hget]
    rw [happly, unit_not_empty, if_neg Bool.false_ne_true, hjoin, hget]
    rfl
  · have happly : (DeviceMutator.put dev interval).apply d =
        unit dev ⟨removals, some interval⟩ := by
      simp only [DeviceMutator.apply, hget, Option.filter_none, Option.isNone_none, if_true]
    rw [happly, unit_not_empty, if_neg Bool.false_ne_true, hjoin, hget, Option.elim_some,
      DeviceEntry.max_none]
    rfl
  · have hfilter : (Option.filter (fun x => decide (interval ≤ x)) (some old)).isNone =
        !decide (interval ≤ old) := by
      by_cases hle : interval ≤ old <;> simp [Option.filter, hle]
    by_cases hle : interval ≤ old
    · -- the entry has a greater interval, and the delta is empty
      have happly : (DeviceMutator.put dev interval).apply d = minimum := by
        simp [DeviceMutator.apply, hget, hfilter, hle]
      rw [happly, if_pos (show minimum.empty = true by simp [minimum, empty]), putEntry,
        Option.elim_some, max_eq_left hle]
      split
      · next hk => rw [hk, hget]
      · rfl
    · have happly : (DeviceMutator.put dev interval).apply d =
          unit dev ⟨removals, some interval⟩ := by
        simp [DeviceMutator.apply, hget, hfilter, hle]
      rw [happly, unit_not_empty, if_neg Bool.false_ne_true, hjoin, hget, Option.elim_some,
        DeviceEntry.max_of_removals]
      rfl

end Devices

end AurumActors.Devices
