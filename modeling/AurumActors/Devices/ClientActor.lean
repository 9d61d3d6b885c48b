/-
  Devices/ClientActor.lean --- the device client of `cluster/devices/client.rs`.

  A handler is a function from the state of the actor and a message to the new
  state and what it does outside, in order; it returns with enough fuel for the
  loops of its buffers.  The reference to a sender is the socket and a number for
  its name.  Whether a subscriber is still there and the verdict of the failure
  detector are arguments.  Durations are in nanoseconds.  The name of the
  service, the failure map and the log are left out.
-/
import AurumActors.Cluster.IntervalStorage
import AurumActors.Devices.Devices
import AurumActors.Devices.FrequencyBuffer

set_option autoImplicit false
set_option linter.dupNamespace false

namespace AurumActors.Devices

open Std
open AurumActors.Core AurumActors.Cluster AurumActors.Foundation

/-! ## The actor -/

/-- An `ActorRef` to an `HBReqSender`. -/
structure SenderRef where
  socket : Socket
  sender : Nat
  deriving DecidableEq, Repr

structure DeviceClientConfig where
  storageCapacity : BitVec 32
  times : BitVec 32
  logCapacity : BitVec 32
  seeds : ExtTreeSet Socket compare
  initialInterval : Nat

/-- `DeviceClientConfig::new_storage` -/
def DeviceClientConfig.newStorage (checks : Bool) (config : DeviceClientConfig) (init now : Nat) :
    Except Trap IntervalStorage := do
  let double ← twice init
  IntervalStorage.new checks config.storageCapacity.toNat double config.times.toNat none now

inductive DeviceClientMsg where
  | tick
  /-- `Remote(HeartbeatRequest(..))` -/
  | heartbeatRequest (sender : SenderRef)
  /-- `Remote(IntervalAck(..))` -/
  | intervalAck (socket : Socket) (interval : DeviceInterval)
  /-- `Cmd(SetInterval(..))` -/
  | setInterval (dur : Nat)
  /-- `Cmd(Subscribe(..))` -/
  | subscribe (subr : Nat)
  deriving DecidableEq, Repr

/-- What a handler of the client does outside the actor. -/
inductive ClientOutput where
  /-- `SetHeartbeatInterval` to the server at a socket -/
  | setHeartbeatInterval (dest : Socket) (device : Device) (interval : DeviceInterval)
  /-- a `Tick` to itself after the delay -/
  | scheduleTick (delay : Nat)
  | heartbeat (dest : SenderRef)
  | multipleSenders (dest : SenderRef)
  /-- `Manager` to a subscriber -/
  | manager (subr : Nat) (server : Option Socket)
  deriving DecidableEq, Repr

structure DeviceClient where
  myInfo : Device
  interval : DeviceInterval
  config : DeviceClientConfig
  server : Option Socket
  /-- the interval that the server last acknowledged -/
  serverPov : DeviceInterval
  storage : IntervalStorage
  serverLog : FrequencyBuffer SenderRef
  subscribers : List Nat

namespace DeviceClient

/-- `DeviceClient::new` -/
protected def new (checks : Bool) (socket : Socket) (config : DeviceClientConfig)
    (subscribers : List Nat) (now : Nat) : Except Trap DeviceClient := do
  let storage ← config.newStorage checks config.initialInterval now
  return {
    myInfo := ⟨socket⟩
    interval := ⟨1, config.initialInterval⟩
    config
    server := none
    serverPov := ⟨0, config.initialInterval⟩
    storage
    serverLog := .new config.logCapacity
    subscribers }

/-- `DeviceClient::notify_server` -/
def notifyServer (c : DeviceClient) : List ClientOutput :=
  match c.server with
  | some svr => [.setHeartbeatInterval svr c.myInfo c.interval]
  | none => c.config.seeds.toList.map fun seed => .setHeartbeatInterval seed c.myInfo c.interval

/-- `DeviceClient::new_interval` -/
def newInterval (checks : Bool) (c : DeviceClient) (dur : Nat) :
    Except Trap (DeviceClient × List ClientOutput) := do
  let clock ← Word.add checks c.interval.clock.toBitVec 1
  let c := { c with interval := ⟨⟨clock⟩, dur⟩ }
  return (c, c.notifyServer)

/-- `DeviceClient::set_server` -/
def setServer (delivers : Nat → Bool) (c : DeviceClient) (svr : Option Socket) :
    DeviceClient × List ClientOutput :=
  ({ c with subscribers := c.subscribers.filter delivers, server := svr },
    c.subscribers.map fun subr => .manager subr svr)

/-- The storage, the server and the seeds after a request for a heartbeat. -/
def heard (checks : Bool) (delivers : Nat → Bool) (fuel now : Nat) (c : DeviceClient)
    (sender : SenderRef) : Option (Except Trap (DeviceClient × List ClientOutput)) :=
  if c.server = some sender.socket then
    (c.storage.pushInstant checks fuel now).map fun pushed => do
      let storage ← pushed
      return ({ c with storage }, [])
  else some do
    let storage ← c.config.newStorage checks c.interval.interval now
    let (c, out) := { c with storage }.setServer delivers (some sender.socket)
    return ({ c with config := { c.config with
      seeds := c.config.seeds.insert sender.socket } }, out)

/-- What the senders in the log are told when they are several. -/
def warnings (log : FrequencyBuffer SenderRef) (multiple : Bool) : List ClientOutput :=
  if multiple then log.frequencies.keys.map .multipleSenders else []

/-- The heartbeat, and the log of the senders. -/
def answer (checks : Bool) (fuel : Nat) (c : DeviceClient) (sender : SenderRef) :
    Option (Except Trap (DeviceClient × List ClientOutput)) :=
  (c.serverLog.push checks fuel sender).map fun pushed => do
    let serverLog ← pushed
    let multiple ← serverLog.multipleSenders checks
    return ({ c with serverLog }, .heartbeat sender :: warnings serverLog multiple)

/-- `DeviceClient::pre_start` -/
def preStart (c : DeviceClient) : List ClientOutput :=
  c.notifyServer ++ [.scheduleTick c.interval.interval]

/-- `DeviceClient::recv`, where `suspects` says that `phi` is above its bound -/
def recv (checks : Bool) (suspects : IntervalStorage → Nat → Bool) (delivers : Nat → Bool)
    (fuel now : Nat) (c : DeviceClient) :
    DeviceClientMsg → Option (Except Trap (DeviceClient × List ClientOutput))
  | .tick =>
      let (c, out) :=
        if suspects c.storage now then
          let (c, out) := c.setServer delivers none
          (c, out ++ c.notifyServer)
        else (c, [])
      some (.ok (c, out ++ [.scheduleTick c.interval.interval]))
  | .heartbeatRequest sender =>
      match c.heard checks delivers fuel now sender with
      | none => none
      | some (.error trap) => some (.error trap)
      | some (.ok (c, out)) =>
          (c.answer checks fuel sender).map fun answered => do
            let (c, sent) ← answered
            return (c, out ++ sent)
  | .intervalAck socket interval =>
      let (c, out) := c.setServer delivers (some socket)
      let c := { c with serverPov := interval }
      some <|
        if c.serverPov = c.interval then do
          let storage ← c.config.newStorage checks c.interval.interval now
          return ({ c with storage }, out)
        else if c.serverPov.clock < c.interval.clock then
          return (c, out ++ c.notifyServer)
        else do
          let c := { c with interval := { c.interval with clock := c.serverPov.clock } }
          let (c, sent) ← c.newInterval checks c.interval.interval
          return (c, out ++ sent)
  | .setInterval dur => some (c.newInterval checks dur)
  | .subscribe subr =>
      some (.ok ({ c with subscribers := c.subscribers ++ [subr] }, [.manager subr c.server]))

/-! ## What a handler can do -/

/-- The interval after a change that does not wrap around. -/
structure Succeeds (checks : Bool) (from_ : UInt64) (dur : Nat) (next : DeviceInterval) : Prop where
  clock : Word.add checks from_.toBitVec 1 = .ok next.clock.toBitVec
  interval : next.interval = dur

/-- The cases of `recv`: the message, the state it leaves and what it does. -/
inductive Handled (checks : Bool) (suspects : IntervalStorage → Nat → Bool)
    (delivers : Nat → Bool) (now : Nat) (c : DeviceClient) :
    DeviceClientMsg → DeviceClient → List ClientOutput → Prop
  | beats (htrusts : suspects c.storage now = false) :
      Handled checks suspects delivers now c .tick c [.scheduleTick c.interval.interval]
  | loses (c' : DeviceClient) (hsuspects : suspects c.storage now = true)
      (hc' : c' = (c.setServer delivers none).1) :
      Handled checks suspects delivers now c .tick c'
        ((c.setServer delivers none).2 ++ c'.notifyServer ++ [.scheduleTick c.interval.interval])
  | hears {sender : SenderRef} {log : FrequencyBuffer SenderRef} {multiple : Bool}
      (storage : IntervalStorage) (hserver : c.server = some sender.socket)
      (hpush : Returns (FrequencyBuffer.push checks · c.serverLog sender) log)
      (hmultiple : log.multipleSenders checks = .ok multiple) :
      Handled checks suspects delivers now c (.heartbeatRequest sender)
        { c with storage, serverLog := log } (.heartbeat sender :: warnings log multiple)
  | finds {sender : SenderRef} {log : FrequencyBuffer SenderRef} {multiple : Bool}
      (storage : IntervalStorage) (hserver : c.server ≠ some sender.socket)
      (hpush : Returns (FrequencyBuffer.push checks · c.serverLog sender) log)
      (hmultiple : log.multipleSenders checks = .ok multiple) :
      Handled checks suspects delivers now c (.heartbeatRequest sender)
        { (c.setServer delivers (some sender.socket)).1 with
          storage, serverLog := log
          config := { c.config with seeds := c.config.seeds.insert sender.socket } }
        ((c.setServer delivers (some sender.socket)).2 ++
          .heartbeat sender :: warnings log multiple)
  | agrees (socket : Socket) (storage : IntervalStorage) :
      Handled checks suspects delivers now c (.intervalAck socket c.interval)
        { (c.setServer delivers (some socket)).1 with serverPov := c.interval, storage }
        (c.setServer delivers (some socket)).2
  | behind (socket : Socket) {interval : DeviceInterval} (c' : DeviceClient)
      (hclock : interval.clock < c.interval.clock)
      (hc' : c' = { (c.setServer delivers (some socket)).1 with serverPov := interval }) :
      Handled checks suspects delivers now c (.intervalAck socket interval) c'
        ((c.setServer delivers (some socket)).2 ++ c'.notifyServer)
  | ahead (socket : Socket) {interval next : DeviceInterval} (c' : DeviceClient)
      (hne : interval ≠ c.interval) (hclock : c.interval.clock ≤ interval.clock)
      (hnext : Succeeds checks interval.clock c.interval.interval next)
      (hc' : c' = { (c.setServer delivers (some socket)).1 with
        serverPov := interval, interval := next }) :
      Handled checks suspects delivers now c (.intervalAck socket interval) c'
        ((c.setServer delivers (some socket)).2 ++ c'.notifyServer)
  | changes {dur : Nat} {next : DeviceInterval} (c' : DeviceClient)
      (hnext : Succeeds checks c.interval.clock dur next)
      (hc' : c' = { c with interval := next }) :
      Handled checks suspects delivers now c (.setInterval dur) c' c'.notifyServer
  | subscribes (subr : Nat) :
      Handled checks suspects delivers now c (.subscribe subr)
        { c with subscribers := c.subscribers ++ [subr] } [.manager subr c.server]

theorem of_newInterval {checks : Bool} {c c' : DeviceClient} {dur : Nat}
    {out : List ClientOutput} (h : c.newInterval checks dur = .ok (c', out)) :
    ∃ next, Succeeds checks c.interval.clock dur next ∧ c' = { c with interval := next } ∧
      out = c'.notifyServer := by
  obtain ⟨clock, hclock, heq⟩ := bind_eq_ok_iff.mp h
  cases heq
  exact ⟨⟨⟨clock⟩, dur⟩, ⟨hclock, rfl⟩, rfl, rfl⟩

/-- The log after the heartbeat is answered. -/
theorem of_answer {checks : Bool} {fuel : Nat} {c c' : DeviceClient} {sender : SenderRef}
    {sent : List ClientOutput} (h : c.answer checks fuel sender = some (.ok (c', sent))) :
    ∃ log multiple, Returns (FrequencyBuffer.push checks · c.serverLog sender) log ∧
      log.multipleSenders checks = .ok multiple ∧ c' = { c with serverLog := log } ∧
      sent = .heartbeat sender :: warnings log multiple := by
  obtain ⟨pushed, hpush, hok⟩ := Option.map_eq_some_iff.mp h
  obtain ⟨log, hlog, hrest⟩ := bind_eq_ok_iff.mp hok
  obtain ⟨multiple, hmultiple, heq⟩ := bind_eq_ok_iff.mp hrest
  cases heq
  rw [hlog] at hpush
  exact ⟨log, multiple, ⟨fuel, hpush⟩, hmultiple, rfl, rfl⟩

theorem of_heard {checks : Bool} {delivers : Nat → Bool} {fuel now : Nat} {c c' : DeviceClient}
    {sender : SenderRef} {out : List ClientOutput}
    (h : c.heard checks delivers fuel now sender = some (.ok (c', out))) :
    (c.server = some sender.socket ∧ ∃ storage, c' = { c with storage } ∧ out = []) ∨
      (c.server ≠ some sender.socket ∧ ∃ storage,
        c' = { (c.setServer delivers (some sender.socket)).1 with
          storage, config := { c.config with seeds := c.config.seeds.insert sender.socket } } ∧
        out = (c.setServer delivers (some sender.socket)).2) := by
  unfold heard at h
  split at h
  · next hserver =>
      obtain ⟨pushed, -, hok⟩ := Option.map_eq_some_iff.mp h
      obtain ⟨storage, -, heq⟩ := bind_eq_ok_iff.mp hok
      cases heq
      exact .inl ⟨hserver, storage, rfl, rfl⟩
  · next hserver =>
      obtain ⟨storage, -, heq⟩ := bind_eq_ok_iff.mp (Option.some.inj h)
      cases heq
      exact .inr ⟨hserver, storage, rfl, rfl⟩

theorem handled_of_recv {checks : Bool} {suspects : IntervalStorage → Nat → Bool}
    {delivers : Nat → Bool} {now : Nat} {c c' : DeviceClient} {msg : DeviceClientMsg}
    {out : List ClientOutput}
    (h : Returns (fun fuel => c.recv checks suspects delivers fuel now msg) (c', out)) :
    Handled checks suspects delivers now c msg c' out := by
  obtain ⟨fuel, h⟩ := h
  cases msg with
  | tick =>
      simp only [recv] at h
      split at h
      · next hsuspects =>
          cases h
          exact .loses _ hsuspects rfl
      · next htrusts =>
          cases h
          exact .beats (by simpa using htrusts)
  | heartbeatRequest sender =>
      simp only [recv] at h
      split at h
      · cases h
      · cases h
      · next c₁ out₁ hheard =>
          obtain ⟨answered, hanswer, hok⟩ := Option.map_eq_some_iff.mp h
          obtain ⟨⟨c₂, sent⟩, hsent, heq⟩ := bind_eq_ok_iff.mp hok
          rw [hsent] at hanswer
          obtain ⟨log, multiple, hpush, hmultiple, rfl, rfl⟩ := of_answer hanswer
          cases heq
          rcases of_heard hheard with ⟨hserver, storage, rfl, rfl⟩ | ⟨hserver, storage, rfl, rfl⟩
          · exact .hears storage hserver hpush hmultiple
          · exact .finds storage hserver hpush hmultiple
  | intervalAck socket interval =>
      simp only [recv] at h
      split at h
      · next hagrees =>
          obtain ⟨storage, -, heq⟩ := bind_eq_ok_iff.mp (Option.some.inj h)
          cases heq
          obtain rfl : interval = c.interval := hagrees
          exact .agrees socket storage
      · next hne =>
        split at h
        · next hclock =>
            cases h
            exact .behind socket _ hclock rfl
        · next hclock =>
            obtain ⟨⟨c₁, sent⟩, hnew, heq⟩ := bind_eq_ok_iff.mp (Option.some.inj h)
            obtain ⟨next, hnext, rfl, rfl⟩ := of_newInterval hnew
            cases heq
            exact .ahead socket _ hne (UInt64.not_lt.mp hclock) hnext rfl
  | setInterval dur =>
      obtain ⟨next, hnext, hc', rfl⟩ := of_newInterval (Option.some.inj h)
      exact .changes _ hnext hc'
  | subscribe subr =>
      cases h
      exact .subscribes subr

end DeviceClient

end AurumActors.Devices
