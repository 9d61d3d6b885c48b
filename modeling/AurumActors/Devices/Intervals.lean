/-
  Devices/Intervals.lean --- the interval that a device's sender uses, against
  the one in the replicated table.

  The table keeps the interval with the highest clock of all that were put.  The
  sender keeps the interval that it was told last.
-/
import AurumActors.Devices.DeviceServer

set_option autoImplicit false
set_option linter.dupNamespace false

namespace AurumActors.Devices

open Std
open AurumActors.Core AurumActors.Cluster AurumActors.Foundation

/-! ## What the table keeps -/

namespace Devices

/-- The greatest of some intervals. -/
def greatest (first : DeviceInterval) (rest : List DeviceInterval) : DeviceInterval :=
  rest.foldl max first

theorem greatest_mem (first : DeviceInterval) (rest : List DeviceInterval) :
    greatest first rest ∈ first :: rest := by
  unfold greatest
  induction rest generalizing first with
  | nil => simp
  | cons i rest ih =>
      rw [List.foldl_cons]
      rcases max_choice first i with hmax | hmax <;> rw [hmax]
      · have hmem := ih first
        simp only [List.mem_cons] at hmem ⊢
        tauto
      · have hmem := ih i
        simp only [List.mem_cons] at hmem ⊢
        tauto

theorem le_greatest (first : DeviceInterval) (rest : List DeviceInterval) :
    ∀ i ∈ first :: rest, i ≤ greatest first rest := by
  unfold greatest
  induction rest generalizing first with
  | nil => simp
  | cons i rest ih =>
      intro j hj
      rw [List.foldl_cons]
      have hfirst := ih (max first i) (max first i) List.mem_cons_self
      rcases List.mem_cons.mp hj with rfl | hj
      · exact (le_max_left _ _).trans hfirst
      · rcases List.mem_cons.mp hj with rfl | hj
        · exact (le_max_right _ _).trans hfirst
        · exact ih (max first i) j (List.mem_cons_of_mem _ hj)

/-- No interval has a higher clock than the greatest one. -/
theorem clock_le_greatest (first : DeviceInterval) (rest : List DeviceInterval) :
    ∀ i ∈ first :: rest, i.clock ≤ (greatest first rest).clock := by
  intro i hi
  rcases (DeviceInterval.le_iff _ _).mp (le_greatest first rest i hi) with h | ⟨h, -⟩
  · exact UInt64.le_of_lt h
  · exact UInt64.le_of_eq h

/-- Putting intervals of a device that has one keeps the greatest. -/
theorem getElem?_foldl_put (dev : Device) (intervals : List DeviceInterval) (d : Devices)
    (removals : UInt64) (i : DeviceInterval) (h : d.states[dev]? = some ⟨removals, some i⟩) :
    ((intervals.map (DeviceMutator.put dev)).foldl mutate d).states[dev]? =
      some ⟨removals, some (greatest i intervals)⟩ := by
  induction intervals generalizing d i with
  | nil => exact h
  | cons j intervals ih =>
      rw [List.map_cons, List.foldl_cons]
      apply ih
      rw [getElem?_mutate_put, if_pos rfl, h]
      rfl

/-- The entry of a new device after intervals were put. -/
theorem getElem?_put_of_none (dev : Device) (first : DeviceInterval)
    (rest : List DeviceInterval) (d : Devices) (h : d.states[dev]? = none) :
    (((first :: rest).map (DeviceMutator.put dev)).foldl mutate d).states[dev]? =
      some ⟨0, some (greatest first rest)⟩ := by
  rw [List.map_cons, List.foldl_cons]
  apply getElem?_foldl_put
  rw [getElem?_mutate_put, if_pos rfl, h]
  rfl

end Devices

/-! ## What the sender keeps -/

namespace HBReqSender

/-- The interval in a message. -/
def interval? : HBReqSenderMsg × Bool → Option DeviceInterval
  | (.interval i, _) => some i
  | _ => none

theorem recv_interval (suspects : Bool) (s : HBReqSender) (msg : HBReqSenderMsg) :
    (s.recv suspects msg).1.interval = (interval? (msg, suspects)).getD s.interval := by
  cases msg with
  | tick => cases suspects <;> rfl
  | _ => rfl

/-- A sender uses the interval that it was told last. -/
theorem run_interval (s : HBReqSender) (inbox : List (HBReqSenderMsg × Bool)) :
    (s.run inbox).interval = (inbox.filterMap interval?).getLast?.getD s.interval := by
  unfold run
  induction inbox generalizing s with
  | nil => rfl
  | cons e inbox ih =>
      rw [List.foldl_cons, ih, recv_interval, List.filterMap_cons]
      cases interval? (e.1, e.2) with
      | none => rfl
      | some i => rw [Option.getD_some, List.getLast?_cons, Option.getD_some]

end HBReqSender

/-! ## The server that manages the device -/

/-- What an output puts into the table. -/
def Output.mutation? : Output → Option DeviceMutator
  | .mutate op => some op
  | _ => none

/-- What an output tells the sender. -/
def Output.told? (sender : Nat) : Output → Option DeviceInterval
  | .interval n i => if n = sender then some i else none
  | _ => none

namespace DeviceServer

/-- The server handles intervals of a device one after the other.  With each
comes whether its subscribers are still there. -/
def handleAll (hash : Device → UInt64) (dev : Device) (s : DeviceServer) :
    List (DeviceInterval × (Nat → Bool)) → Except Panic (DeviceServer × List Output)
  | [] => .ok (s, [])
  | (interval, delivers) :: rest => do
      let (s, out) ← s.recv hash delivers (.setHeartbeatInterval dev interval)
      let (s, out') ← s.handleAll hash dev rest
      return (s, out ++ out')

/-- The server is inside the cluster and manages the device. -/
structure Manages (hash : Device → UInt64) (s : DeviceServer) (dev : Device)
    (ic : InCluster) : Prop where
  state : s.state = .inCluster ic
  manager : (ic.ring.managers (hash dev) 1).head? = some ic.member

/-- The messages after the first go to the sender of the device. -/
theorem handleAll_of_some {hash : Device → UInt64} {s : DeviceServer} {dev : Device}
    {ic : InCluster} (h : Manages hash s dev ic) {sender : Nat}
    (hsender : ic.reqSenders[dev]? = some sender) (msgs : List (DeviceInterval × (Nat → Bool))) :
    s.handleAll hash dev msgs = .ok (s, msgs.flatMap fun e =>
      [.mutate (.put dev e.1), .interval sender e.1]) := by
  induction msgs with
  | nil => rfl
  | cons e msgs ih =>
      obtain ⟨interval, delivers⟩ := e
      rw [handleAll, recv_told h.state h.manager hsender]
      change (s.handleAll hash dev msgs >>= _) = _
      rw [ih]
      rfl

theorem filterMap_flatMap_singleton {α β γ : Type} (items : List α) {g : α → List β}
    (f : β → Option γ) (h : α → γ) (hg : ∀ a, (g a).filterMap f = [h a]) :
    (items.flatMap g).filterMap f = items.map h := by
  induction items with
  | nil => rfl
  | cons a items ih => rw [List.flatMap_cons, List.filterMap_append, hg, ih, List.map_cons]; rfl

/-- The messages of a new device, of which there is one at least: the table gets
all intervals in their order, and so does one sender. -/
theorem handleAll_of_none {hash : Device → UInt64} {s : DeviceServer} {dev : Device}
    {ic : InCluster} (h : Manages hash s dev ic) (hnew : ic.reqSenders[dev]? = none)
    (first : DeviceInterval × (Nat → Bool)) (rest : List (DeviceInterval × (Nat → Bool))) :
    ∃ s' ic' out, s.handleAll hash dev (first :: rest) = .ok (s', out) ∧
      s'.state = .inCluster ic' ∧ ic'.reqSenders[dev]? = some s.common.spawned ∧
      .spawn s.common.spawned dev first.1 ∈ out ∧
      out.filterMap Output.mutation? = (first :: rest).map (fun e => .put dev e.1) ∧
      out.filterMap (Output.told? s.common.spawned) = (first :: rest).map (·.1) := by
  obtain ⟨interval, delivers⟩ := first
  let ic' : InCluster := { ic with
    reqSenders := ic.reqSenders.insert dev s.common.spawned
    charges := ic.charges.insert dev }
  let common : Common := { s.common with spawned := s.common.spawned + 1 }
  let s' : DeviceServer := ⟨(ic'.publish delivers common).1, .inCluster ic'⟩
  have hmanages : Manages hash s' dev ic' := ⟨rfl, h.manager⟩
  have hsender : ic'.reqSenders[dev]? = some s.common.spawned := by
    rw [getElem?_insert_eq, if_pos rfl]
  have hall : s.handleAll hash dev ((interval, delivers) :: rest) = .ok (s',
      ([.mutate (.put dev interval), .spawn s.common.spawned dev interval,
        .interval s.common.spawned interval] ++ (ic'.publish delivers common).2) ++
        rest.flatMap fun e => [.mutate (.put dev e.1), .interval s.common.spawned e.1]) := by
    rw [handleAll, recv_starts h.state h.manager hnew rfl]
    change (s'.handleAll hash dev rest >>= _) = _
    rw [handleAll_of_some hmanages hsender rest]
    rfl
  have htold : ∀ i : DeviceInterval, [Output.mutate (.put dev i),
      .interval s.common.spawned i].filterMap (Output.told? s.common.spawned) = [i] := by
    intro i
    simp only [List.filterMap_cons, List.filterMap_nil, Output.told?, if_true]
  refine ⟨s', ic', _, hall, hmanages.state, hsender, by simp, ?_, ?_⟩
  · rw [List.filterMap_append, List.filterMap_append,
      InCluster.filterMap_publish _ fun _ _ _ => rfl,
      filterMap_flatMap_singleton rest _ (fun e => DeviceMutator.put dev e.1) fun _ => rfl]
    rfl
  · rw [List.filterMap_append, List.filterMap_append,
      InCluster.filterMap_publish _ fun _ _ _ => rfl,
      filterMap_flatMap_singleton rest (Output.told? s.common.spawned) (·.1) fun e => htold e.1]
    rw [List.append_nil]
    exact congrArg (· ++ rest.map (·.1)) (htold interval)

/-- The interval that the sender uses has the highest clock of all that were
delivered, and is the one in the table. -/
structure UsesHighest (dev : Device) (delivered : List DeviceInterval) (data : Devices)
    (sender : HBReqSender) : Prop where
  highest : ∀ i ∈ delivered, i.clock ≤ sender.interval.clock
  agrees : data.states[dev]?.bind (·.interval) = some sender.interval

/-- The server handles intervals with distinct clocks for a new device, of which
it is the manager, and a sender is spawned and told them.  When the sender has
handled its mailbox, whatever else is in there, it uses the interval with the
highest clock, as the table has it, if and only if that one was delivered last. -/
theorem usesHighest_iff {hash : Device → UInt64} {s : DeviceServer} {dev : Device}
    {ic : InCluster} (h : Manages hash s dev ic) (hnew : ic.reqSenders[dev]? = none)
    (data : Devices) (hunknown : data.states[dev]? = none)
    (msgs : List (DeviceInterval × (Nat → Bool))) (last : DeviceInterval × (Nat → Bool))
    (hdistinct : ∀ i ∈ msgs ++ [last], ∀ j ∈ msgs ++ [last],
      i.1.clock = j.1.clock → i.1 = j.1) :
    ∃ (s' : DeviceServer) (ic' : InCluster) (out : List Output) (sender : Nat)
        (first : DeviceInterval),
      s.handleAll hash dev (msgs ++ [last]) = .ok (s', out) ∧ s'.state = .inCluster ic' ∧
      ic'.reqSenders[dev]? = some sender ∧ .spawn sender dev first ∈ out ∧
      ∀ inbox : List (HBReqSenderMsg × Bool),
        inbox.filterMap HBReqSender.interval? = out.filterMap (Output.told? sender) →
        (UsesHighest dev ((msgs ++ [last]).map (·.1))
            ((out.filterMap Output.mutation?).foldl Devices.mutate data)
            (HBReqSender.run ⟨dev, first⟩ inbox) ↔
          ∀ i ∈ msgs, i.1.clock ≤ last.1.clock) := by
  obtain ⟨first, rest, hmsgs⟩ : ∃ first rest, msgs ++ [last] = first :: rest :=
    List.exists_cons_of_ne_nil (by simp)
  rw [hmsgs] at hdistinct ⊢
  obtain ⟨s', ic', out, hall, hstate, hsender, hspawn, hputs, htold⟩ :=
    handleAll_of_none h hnew first rest
  refine ⟨s', ic', out, _, first.1, hall, hstate, hsender, hspawn, fun inbox hinbox => ?_⟩
  -- the sender keeps the last interval, the table the greatest
  have hrun : (HBReqSender.run ⟨dev, first.1⟩ inbox).interval = last.1 := by
    rw [HBReqSender.run_interval, hinbox, htold, ← hmsgs, List.map_append, List.map_singleton,
      List.getLast?_concat, Option.getD_some]
  have hdata : ((out.filterMap Output.mutation?).foldl Devices.mutate data).states[dev]?.bind
      (·.interval) = some (Devices.greatest first.1 (rest.map (·.1))) := by
    have hmap : (first :: rest).map (fun e => DeviceMutator.put dev e.1) =
        (first.1 :: rest.map (·.1)).map (DeviceMutator.put dev) := by
      simp [Function.comp_def]
    rw [hputs, hmap, Devices.getElem?_put_of_none dev _ _ data hunknown]
    rfl
  have hlast : last ∈ first :: rest := by simp [← hmsgs]
  constructor
  · intro huses i hi
    have hi' : i ∈ first :: rest := by simp [← hmsgs, hi]
    rw [← hrun]
    exact huses.highest i.1 (List.mem_map_of_mem hi')
  · intro hhighest
    have hall : ∀ i ∈ first :: rest, i.1.clock ≤ last.1.clock := by
      intro i hi
      rw [← hmsgs] at hi
      rcases List.mem_append.mp hi with hi | hi
      · exact hhighest i hi
      · rw [List.mem_singleton.mp hi]
        exact UInt64.le_refl _
    constructor
    · intro i hi
      obtain ⟨e, he, rfl⟩ := List.mem_map.mp hi
      rw [hrun]
      exact hall e he
    · -- the greatest interval has the highest clock, which only the last one has
      have hmem : Devices.greatest first.1 (rest.map (·.1)) ∈ (first :: rest).map (·.1) :=
        Devices.greatest_mem first.1 (rest.map (·.1))
      obtain ⟨e, he, heq⟩ := List.mem_map.mp hmem
      have hlast' : last.1 ∈ first.1 :: rest.map (·.1) := by
        have hmem := List.mem_map_of_mem (f := fun e : DeviceInterval × (Nat → Bool) => e.1) hlast
        exact hmem
      have hle := Devices.clock_le_greatest first.1 (rest.map (·.1)) last.1 hlast'
      rw [← heq] at hle
      rw [hdata, hrun, ← heq, hdistinct e he last hlast (UInt64.le_antisymm (hall e he) hle)]

/-- The interval of clock 2 is delivered before the one of clock 1: the table
keeps the first, the sender goes on with the second. -/
theorem older_interval_last :
    ∃ s' out, alone.handleAll (fun _ => 0) (client 20)
        [(⟨2, 100⟩, fun _ => true), (⟨1, 50⟩, fun _ => true)] = .ok (s', out) ∧
      .spawn 0 (client 20) ⟨2, 100⟩ ∈ out ∧
      out.filterMap (Output.told? 0) = [⟨2, 100⟩, ⟨1, 50⟩] ∧
      ¬ UsesHighest (client 20) [⟨2, 100⟩, ⟨1, 50⟩]
        ((out.filterMap Output.mutation?).foldl Devices.mutate .minimum)
        (HBReqSender.run ⟨client 20, ⟨2, 100⟩⟩
          [(.interval ⟨2, 100⟩, false), (.interval ⟨1, 50⟩, false)]) := by
  refine ⟨_, _, rfl, by decide, by decide, fun huses => ?_⟩
  have hclock := huses.highest ⟨2, 100⟩ List.mem_cons_self
  exact absurd hclock (by decide)

theorem usesHighest_iff_alone :
    ∃ (s' : DeviceServer) (ic' : InCluster) (out : List Output) (sender : Nat)
        (first : DeviceInterval),
      alone.handleAll (fun _ => 0) (client 20)
        ([(⟨1, 50⟩, fun _ => true)] ++ [(⟨2, 100⟩, fun _ => true)]) = .ok (s', out) ∧
      s'.state = .inCluster ic' ∧ ic'.reqSenders[client 20]? = some sender ∧
      .spawn sender (client 20) first ∈ out ∧
      ∀ inbox : List (HBReqSenderMsg × Bool),
        inbox.filterMap HBReqSender.interval? = out.filterMap (Output.told? sender) →
        (UsesHighest (client 20) [⟨1, 50⟩, ⟨2, 100⟩]
            ((out.filterMap Output.mutation?).foldl Devices.mutate .minimum)
            (HBReqSender.run ⟨client 20, first⟩ inbox) ↔
          ∀ i ∈ [((⟨1, 50⟩ : DeviceInterval), fun _ : Nat => true)], i.1.clock ≤ 2) :=
  usesHighest_iff ⟨rfl, by decide⟩ (by decide) .minimum (by decide) _ (⟨2, 100⟩, fun _ => true)
    (by simp)

end DeviceServer

end AurumActors.Devices
