/-
  Devices/Recalibration.lean --- a sender of
  `cluster/devices/heartbeat_request_sender.rs` with the storage of its failure
  detector.

  Whether `phi` has reached its bound is floating point; it is an argument that
  is told the storage and the time.  Instants and durations are numbers of
  nanoseconds.
-/
import AurumActors.Cluster.IntervalStorage
import AurumActors.Devices.DeviceServer

set_option autoImplicit false
set_option linter.dupNamespace false

namespace AurumActors.Devices

open AurumActors.Core AurumActors.Cluster AurumActors.Foundation

/-- The part of `HBReqSenderConfig` that is not floating point. -/
structure HBReqSenderConfig where
  capacity : Nat
  times : Nat
  deriving DecidableEq, Repr

/-- `HBReqSenderConfig::default` -/
def HBReqSenderConfig.default : HBReqSenderConfig where
  capacity := 10
  times := 5

/-- A sender, what it was configured with, and the storage of its detector. -/
structure DetectingSender where
  sender : HBReqSender
  config : HBReqSenderConfig
  storage : IntervalStorage
  deriving DecidableEq, Repr

namespace DetectingSender

/-- `HBReqSender::new` -/
protected def new (checks : Bool) (config : HBReqSenderConfig) (charge : Device)
    (interval : DeviceInterval) (now : Nat) : Except Trap DetectingSender := do
  let double ← twice interval.interval
  let storage ← IntervalStorage.new checks config.capacity double config.times none now
  return { sender := { charge, interval }, config, storage }

/-- `HBReqSender::recv`: a heartbeat goes to the storage, any other message to
the rest of the sender. -/
def recv (checks : Bool) (suspects : IntervalStorage → Nat → Bool) (fuel now : Nat)
    (s : DetectingSender) (msg : HBReqSenderMsg) :
    Option (Except Trap (DetectingSender × List SenderOutput)) :=
  match msg with
  | .heartbeat => (s.storage.pushInstant checks fuel now).map fun pushed => do
      let storage ← pushed
      return ({ s with storage }, [])
  | msg =>
      let (sender, out) := s.sender.recv (suspects s.storage now) msg
      some (.ok ({ s with sender }, out))

/-- A sender beside the duration that it was told last, if that was a change and
no heartbeat came since, and the instants of the heartbeats that it got. -/
structure Observed where
  sender : DetectingSender
  changed : Option Nat
  heard : List Nat
  deriving DecidableEq, Repr

/-- What the observer makes of a message. -/
def Observed.changedBy (s : Observed) : HBReqSenderMsg → Option Nat
  | .heartbeat => none
  | .interval j =>
      if j.interval ≠ s.sender.sender.interval.interval then some j.interval else s.changed
  | _ => s.changed

def Observed.heardBy (s : Observed) (e : HBReqSenderMsg × Nat) : List Nat :=
  if e.1 = .heartbeat then s.heard ++ [e.2] else s.heard

/-- The runs of a new sender, over the messages and the times of their arrival. -/
def sending (checks : Bool) (suspects : IntervalStorage → Nat → Bool)
    (config : HBReqSenderConfig) (charge : Device) (interval : DeviceInterval) (now : Nat) :
    System Observed (HBReqSenderMsg × Nat) where
  init s := DetectingSender.new checks config charge interval now = .ok s.sender ∧
    s.changed = none ∧ s.heard = []
  step s e t := t.changed = s.changedBy e.1 ∧ t.heard = s.heardBy e ∧ ∃ out,
    Returns (fun fuel => recv checks suspects fuel e.2 s.sender e.1) (t.sender, out)

/-- The window that a sender with the duration `dur` starts with. -/
def windowFor (config : HBReqSenderConfig) (dur : Nat) : List (BitVec 64) :=
  IntervalStorage.initialWindow config.capacity (dur * 2) config.times

/-- After a change the storage holds the window for the new duration. -/
def Recalibrated (s : Observed) : Prop :=
  ∀ dur, s.changed = some dur →
    s.sender.storage.intervals = windowFor s.sender.config dur

/-- The heartbeats so far hide a change to `dur`: their gaps, the newest first, in
front of the window that the sender started with, look like the window for `dur`
as far as the capacity goes. -/
def Hidden (config : HBReqSenderConfig) (interval : DeviceInterval) (now : Nat)
    (heard : List Nat) (dur : Nat) : Prop :=
  IntervalStorage.historyWindow config.capacity (interval.interval * 2) config.times now heard =
    windowFor config dur

/-- Every change of the duration comes after heartbeats that hide it. -/
def Fits (config : HBReqSenderConfig) (interval : DeviceInterval) (now : Nat) (s : Observed)
    (e : HBReqSenderMsg × Nat) : Prop :=
  ∀ j : DeviceInterval, e.1 = .interval j →
    j.interval ≠ s.sender.sender.interval.interval → Hidden config interval now s.heard j.interval

/-- Before the first heartbeat a change is hidden if it is below a millisecond, or
the window is empty. -/
theorem hidden_unheard_iff (config : HBReqSenderConfig) (interval : DeviceInterval)
    (now dur : Nat) : Hidden config interval now [] dur ↔
      config.capacity = 0 ∨ config.times = 0 ∨
        dur2u64 (interval.interval * 2) = dur2u64 (dur * 2) := by
  obtain ⟨capacity, times⟩ := config
  rw [Hidden, IntervalStorage.historyWindow_nil, windowFor]
  cases capacity with
  | zero => simp [IntervalStorage.initialWindow]
  | succ capacity =>
      cases times with
      | zero => simp [IntervalStorage.initialWindow]
      | succ times =>
          simp only [Nat.add_one_ne_zero, false_or]
          constructor
          · -- the window starts with the duration
            intro h
            simp only [IntervalStorage.initialWindow, List.replicate_succ, interleave,
              List.take_succ_cons, List.cons.injEq] at h
            exact h.1
          · intro h
            rw [IntervalStorage.initialWindow, h]
            rfl

/-- A message other than a heartbeat leaves the storage as it is. -/
theorem of_recv {checks : Bool} {suspects : IntervalStorage → Nat → Bool} {now : Nat}
    {s t : DetectingSender} {msg : HBReqSenderMsg} {out : List SenderOutput}
    (hmsg : msg ≠ .heartbeat)
    (h : Returns (fun fuel => recv checks suspects fuel now s msg) (t, out)) :
    t.storage = s.storage ∧ t.config = s.config ∧
      t.sender = (s.sender.recv (suspects s.storage now) msg).1 := by
  obtain ⟨fuel, h⟩ := h
  unfold recv at h
  cases msg with
  | heartbeat => exact absurd rfl hmsg
  | _ =>
      cases h
      exact ⟨rfl, rfl, rfl⟩

/-- A heartbeat goes to the storage only. -/
theorem of_heartbeat {checks : Bool} {suspects : IntervalStorage → Nat → Bool} {now : Nat}
    {s t : DetectingSender} {out : List SenderOutput}
    (h : Returns (fun fuel => recv checks suspects fuel now s .heartbeat) (t, out)) :
    ∃ storage, Returns (fun fuel => s.storage.pushInstant checks fuel now) storage ∧
      t = { s with storage } := by
  obtain ⟨fuel, h⟩ := h
  obtain ⟨pushed, hpush, h⟩ := Option.map_eq_some_iff.mp h
  obtain ⟨storage, rfl, h⟩ := bind_eq_ok_iff.mp h
  cases h
  exact ⟨storage, ⟨fuel, hpush⟩, rfl⟩

/-- What the storage of a sender in a run is made of. -/
structure Kept (checks : Bool) (config : HBReqSenderConfig) (interval : DeviceInterval)
    (now : Nat) (s : Observed) : Prop where
  config_eq : s.sender.config = config
  capacity : s.sender.storage.capacity = config.capacity
  latest : s.sender.storage.latest = s.heard.getLastD now
  intervals : s.sender.storage.intervals = IntervalStorage.historyWindow config.capacity
    (interval.interval * 2) config.times now s.heard
  exact : checks = true → s.sender.storage.Exact

section Runs

variable {checks : Bool} {suspects : IntervalStorage → Nat → Bool} {config : HBReqSenderConfig}
  {charge : Device} {interval : DeviceInterval} {now : Nat} {s t : Observed}

theorem Kept.start (h : (sending checks suspects config charge interval now).init s) :
    Kept checks config interval now s := by
  obtain ⟨hnew, -, hheard⟩ := h
  obtain ⟨double, htwice, hrest⟩ := bind_eq_ok_iff.mp hnew
  obtain ⟨storage, hstorage, hlast⟩ := bind_eq_ok_iff.mp hrest
  obtain rfl : interval.interval * 2 = double := by
    unfold twice at htwice
    split at htwice <;> cases htwice
    rfl
  obtain ⟨hcapacity, hintervals, hlatest, hexact⟩ := IntervalStorage.of_new hstorage
  have hsender : _ = s.sender := Except.ok.inj hlast
  refine ⟨?_, ?_, ?_, ?_, ?_⟩ <;> rw [← hsender]
  · exact hcapacity
  · rw [hheard]
    exact hlatest
  · rw [hheard, IntervalStorage.historyWindow_nil]
    exact hintervals
  · exact hexact

theorem Kept.step {e : HBReqSenderMsg × Nat} (h : Kept checks config interval now s)
    (hstep : (sending checks suspects config charge interval now).step s e t) :
    Kept checks config interval now t := by
  obtain ⟨-, hheard, out, hrecv⟩ := hstep
  obtain ⟨msg, time⟩ := e
  by_cases hmsg : msg = .heartbeat
  · subst hmsg
    rw [Observed.heardBy, if_pos rfl] at hheard
    obtain ⟨storage, hpush, hsender⟩ := of_heartbeat hrecv
    have hpos : 1 ≤ config.capacity := Nat.pos_of_ne_zero fun hzero =>
      IntervalStorage.not_returns_of_capacity_zero checks (h.capacity.trans hzero) time _ hpush
    obtain ⟨hcapacity, hlatest, hintervals, hfits, hexact⟩ :=
      IntervalStorage.of_pushInstant (h.capacity ▸ hpos) h.exact hpush
    refine ⟨?_, ?_, ?_, ?_, fun hchecks => ?_⟩
    · rw [hsender]
      exact h.config_eq
    · rw [hsender]
      exact hcapacity.trans h.capacity
    · rw [hsender, hheard, List.getLastD_concat]
      exact hlatest
    · rw [hsender, hheard, IntervalStorage.historyWindow_concat hpos, ← h.intervals, ← h.latest,
        ← h.capacity]
      exact hintervals
    · rw [hsender]
      exact hexact (h.exact hchecks) (hfits hchecks)
  · rw [Observed.heardBy, if_neg hmsg] at hheard
    obtain ⟨hstorage, hconfig, -⟩ := of_recv hmsg hrecv
    exact ⟨hconfig.trans h.config_eq, hstorage ▸ h.capacity, hstorage ▸ hheard ▸ h.latest,
      hstorage ▸ hheard ▸ h.intervals, hstorage ▸ h.exact⟩

theorem kept_of_reachable
    (h : (sending checks suspects config charge interval now).Reachable s) :
    Kept checks config interval now s :=
  h.invariant (fun _ => .start) fun _ _ _ _ => .step

/-- What a message does to the calibration. -/
theorem recalibrated_step {e : HBReqSenderMsg × Nat}
    (hkept : Kept checks config interval now s) (h : Recalibrated s)
    (hfits : Fits config interval now s e)
    (hstep : (sending checks suspects config charge interval now).step s e t) :
    Recalibrated t := by
  obtain ⟨hchanged, -, out, hrecv⟩ := hstep
  intro dur hdur
  rw [hchanged] at hdur
  by_cases hmsg : e.1 = .heartbeat
  · rw [hmsg] at hdur
    cases hdur
  · obtain ⟨hstorage, hconfig, -⟩ := of_recv hmsg hrecv
    rw [hstorage, hconfig]
    obtain ⟨msg, time⟩ := e
    cases msg with
    | heartbeat => exact absurd rfl hmsg
    | multipleSenders => exact h dur hdur
    | tick => exact h dur hdur
    | interval j =>
        simp only [Observed.changedBy] at hdur
        split at hdur
        · next hne =>
            cases hdur
            rw [hkept.intervals, hkept.config_eq]
            exact hfits j rfl hne
        · exact h dur hdur

end Runs

/-- A change of the duration recalibrates the detector exactly if the heartbeats
before it hide it: where those of a run hide every change, every state of the run
is calibrated, and a change that they do not hide leaves the state uncalibrated. -/
theorem recalibrated_iff (checks : Bool) (suspects : IntervalStorage → Nat → Bool)
    (config : HBReqSenderConfig) (charge : Device) (interval : DeviceInterval) (now : Nat) :
    (∀ t, ((sending checks suspects config charge interval now).restrict
        (Fits config interval now)).Reachable t → Recalibrated t) ∧
    ∀ (s t : Observed) (j : DeviceInterval) (time : Nat),
      (sending checks suspects config charge interval now).Reachable s →
      (sending checks suspects config charge interval now).step s (.interval j, time) t →
      j.interval ≠ s.sender.sender.interval.interval →
      (Recalibrated t ↔ Hidden config interval now s.heard j.interval) := by
  refine ⟨fun t ht => ?_, fun s t j time hs hstep hne => ?_⟩
  · refine ht.invariant (fun s hs dur hdur => ?_) (fun s e t hreach hs hstep => ?_)
    · rw [hs.2.1] at hdur
      cases hdur
    · exact recalibrated_step (kept_of_reachable hreach.of_restrict) hs hstep.2 hstep.1
  · have hkept := kept_of_reachable hs
    obtain ⟨hchanged, -, out, hrecv⟩ := hstep
    obtain ⟨hstorage, hconfig, -⟩ := of_recv (by simp) hrecv
    have hsome : t.changed = some j.interval := by
      rw [hchanged]
      exact if_pos hne
    rw [Recalibrated, hstorage, hconfig, hsome, hkept.intervals, hkept.config_eq]
    constructor
    · exact fun h => h j.interval rfl
    · rintro h dur hdur
      cases hdur
      exact h

/-- The storage of a new sender with an interval of one second. -/
def secondStorage : IntervalStorage :=
  ⟨10, [2000, 0, 2000, 0, 2000, 0, 2000, 0, 2000, 0], 10000, 20000000, 0⟩

/-- A new sender with an interval of one second. -/
def everySecond : Observed :=
  ⟨⟨⟨⟨Socket.localhost 1⟩, ⟨0, 1000000000⟩⟩, .default, secondStorage⟩, none, []⟩

/-- It is told another one. -/
def toldInterval (j : DeviceInterval) : Observed :=
  ⟨⟨⟨⟨Socket.localhost 1⟩, j⟩, .default, secondStorage⟩, some j.interval, []⟩

/-- A change below the resolution of the storage. -/
theorem recalibrated_tiny_change : Recalibrated (toldInterval ⟨1, 1000000100⟩) := by
  have hstart : (sending true (fun _ _ => false) .default ⟨Socket.localhost 1⟩
      ⟨0, 1000000000⟩ 0).init everySecond := ⟨rfl, rfl, rfl⟩
  have hfits : Fits .default ⟨0, 1000000000⟩ 0 everySecond (.interval ⟨1, 1000000100⟩, 0) := by
    intro j hj _
    cases hj
    exact (hidden_unheard_iff ..).mpr (.inr (.inr (by decide)))
  exact (recalibrated_iff true (fun _ _ => false) .default ⟨Socket.localhost 1⟩
    ⟨0, 1000000000⟩ 0).1 _ (.step (.of_init hstart) ⟨⟨rfl, rfl, [], 0, rfl⟩, hfits⟩)

/-- Ten seconds after one second: the storage still expects gaps of two seconds. -/
theorem not_recalibrated :
    (sending true (fun _ _ => false) .default ⟨Socket.localhost 1⟩ ⟨0, 1000000000⟩ 0).Reachable
        (toldInterval ⟨1, 10000000000⟩) ∧
      (toldInterval ⟨1, 10000000000⟩).sender.storage.intervals =
        windowFor .default 1000000000 ∧
      ¬ Recalibrated (toldInterval ⟨1, 10000000000⟩) := by
  have hstart : (sending true (fun _ _ => false) .default ⟨Socket.localhost 1⟩
      ⟨0, 1000000000⟩ 0).init everySecond := ⟨rfl, rfl, rfl⟩
  refine ⟨.step (a := (.interval ⟨1, 10000000000⟩, 0)) (.of_init hstart) ⟨rfl, rfl, [], 0, rfl⟩,
    rfl, fun h => ?_⟩
  exact absurd (h 10000000000 rfl) (by decide)

end DetectingSender

end AurumActors.Devices
