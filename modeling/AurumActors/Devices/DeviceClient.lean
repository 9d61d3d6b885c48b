/-
  Devices/DeviceClient.lean --- the buffers of the device client of
  `cluster/devices/client.rs`, and the capacities that its configuration admits.
-/
import AurumActors.Cluster.IntervalStorage
import AurumActors.Devices.FrequencyBuffer

set_option autoImplicit false
set_option linter.dupNamespace false

namespace AurumActors.Devices

open AurumActors.Cluster AurumActors.Foundation

/-! ## Every configured capacity -/

/-- The loops that evict end, without a panic and with at most `max 1 cap`
entries left, exactly for the capacities from 1 on; where a build checks for
overflow, the squares of the window of a storage must fit their sum too. -/
theorem eviction_ends_iff (checks : Bool) :
    (∀ (T : Type) [DecidableEq T] (cap : BitVec 32) (b : FrequencyBuffer T),
      (FrequencyBuffer.pushing T checks cap).Reachable b → ∀ item : T,
        ((∃ t, Returns (FrequencyBuffer.push checks · b item) t ∧
          t.buffer.length ≤ max 1 cap.toNat) ↔ 1 ≤ cap.toNat)) ∧
    ∀ (cap init times : Nat) (start : Option Nat) (now : Nat) (s : IntervalStorage),
      (IntervalStorage.pushing checks cap init times start now).Reachable s → ∀ i : Nat,
        ((∃ t, Returns (IntervalStorage.pushInstant checks · s i) t ∧
          t.intervals.length ≤ max 1 cap) ↔
          1 ≤ cap ∧ (checks = true → IntervalStorage.totalSquares (s.nextWindow i) < 2 ^ 64)) :=
  ⟨fun _ _ _ _ hb item => FrequencyBuffer.push_ends_iff hb item,
    fun _ _ _ _ _ _ hs i => IntervalStorage.pushInstant_ends_iff hs i⟩

/-- The first heartbeat into new buffers of capacity 1. -/
theorem eviction_ends_capacity_one :
    (∃ t, Returns (FrequencyBuffer.push true · (.new 1) 7) t ∧ t.buffer.length ≤ 1) ∧
      ∃ t, Returns (IntervalStorage.pushInstant false · ⟨1, [2000], 2000, 4000000, 0⟩ 1) t ∧
        t.intervals.length ≤ 1 :=
  ⟨((eviction_ends_iff true).1 Nat 1 (.new 1) (.of_init rfl) 7).mpr (by decide),
    ((eviction_ends_iff false).2 1 2000000000 5 (some 0) 0 ⟨1, [2000], 2000, 4000000, 0⟩
      (.of_init rfl) 1).mpr ⟨by decide, nofun⟩⟩

/-- With capacity 0 the first heartbeat runs forever in the one loop, and takes
from an empty buffer in the other. -/
theorem eviction_capacity_zero :
    ((FrequencyBuffer.pushing Nat true 0).Reachable (.new 0) ∧
      ∀ fuel, FrequencyBuffer.push true fuel (.new 0) 7 = none) ∧
      ∃ s, (IntervalStorage.pushing true 0 2000000000 5 (some 0) 0).Reachable s ∧
        IntervalStorage.pushInstant true 1 s 1000000000 = some (.error .unwrapNone) := by
  constructor
  · refine ⟨.of_init rfl, fun fuel => ?_⟩
    have hloop : whileLoop FrequencyBuffer.full (FrequencyBuffer.pop true) fuel
        (.new 0 : FrequencyBuffer Nat) = none := by
      refine whileLoop_eq_none (I := fun b => b.buffer = [] ∧ b.capacity = 0) ?_ ⟨rfl, rfl⟩ fuel
      rintro b ⟨hbuffer, hcapacity⟩
      refine ⟨by simp [FrequencyBuffer.full, hcapacity], b, ?_, hbuffer, hcapacity⟩
      simp [FrequencyBuffer.pop, hbuffer]
    rw [FrequencyBuffer.push, whileThen, hloop]
    rfl
  · exact ⟨⟨0, [], 0, 0, 0⟩, .of_init rfl, rfl⟩

end AurumActors.Devices
