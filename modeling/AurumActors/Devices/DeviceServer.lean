/-
  Devices/DeviceServer.lean --- the device server of `cluster/devices/server.rs`
  and the senders of `cluster/devices/heartbeat_request_sender.rs`.

  Handlers are functions from the state of the actor and a message to the new
  state and what it does outside, in order.  Senders and subscribers are numbers.
  The hash of devices, whether a subscriber is still there, and the verdict of
  the failure detector are arguments.  A send is an output, and never fails: the
  hosts of managers and devices resolve, where `udp_select` panics at one that
  does not.  Names, the failure map, the log and the storage of the detector are
  left out.
-/
import AurumActors.Devices.Devices

set_option autoImplicit false
set_option linter.dupNamespace false

namespace AurumActors.Devices

open Std
open AurumActors.Core AurumActors.Cluster AurumActors.Foundation

/-! ## The device server -/

inductive DeviceServerMsg where
  /-- `Remote(SetHeartbeatInterval(..))` -/
  | setHeartbeatInterval (device : Device) (interval : DeviceInterval)
  | update (update : ClusterUpdate)
  | deviceData (devices : Devices)
  /-- `Cmd(Subscribe(..))` -/
  | subscribe (subr : Nat)
  | amISender (device : Device)
  | downedDevice (device : Device)
  deriving DecidableEq

abbrev DeviceSet := ExtTreeSet Device compare

/-- What a handler of the server does outside the actor. -/
inductive Output where
  /-- `CausalCmd::Mutate` -/
  | mutate (op : DeviceMutator)
  /-- an `HBReqSender` starts -/
  | spawn (sender : Nat) (device : Device) (interval : DeviceInterval)
  /-- `HBReqSenderMsg::Interval` -/
  | interval (sender : Nat) (interval : DeviceInterval)
  /-- `ActorSignal::Term` to a sender -/
  | term (sender : Nat)
  /-- `Charges` to a subscriber -/
  | charges (subr : Nat) (charges : DeviceSet) (devices : Devices)
  /-- `SetHeartbeatInterval` to the server at a socket -/
  | forward (dest : Socket) (device : Device) (interval : DeviceInterval)
  deriving DecidableEq

inductive Panic where
  /-- `managers(..).next().unwrap()` -/
  | noManager
  | unreachable
  deriving DecidableEq

structure Common where
  subscribers : List Nat
  /-- how many senders were spawned -/
  spawned : Nat
  deriving DecidableEq

structure InCluster where
  member : Member
  nodes : MemberSet
  ring : NodeRing
  devices : Devices
  reqSenders : ExtTreeMap Device Nat compare
  charges : DeviceSet
  deriving DecidableEq

structure Waiting where
  servers : Option MemberSet
  member : Option Member
  ring : Option NodeRing
  devices : Option Devices
  deriving DecidableEq

inductive State where
  | waiting (w : Waiting)
  | inCluster (ic : InCluster)
  deriving DecidableEq

structure DeviceServer where
  common : Common
  state : State
  deriving DecidableEq

namespace InCluster

/-- `InCluster::publish` -/
def publish (delivers : Nat → Bool) (ic : InCluster) (common : Common) : Common × List Output :=
  ({ common with subscribers := common.subscribers.filter delivers },
    common.subscribers.map fun s => .charges s ic.charges ic.devices)

/-- A publication is made of `Charges`. -/
theorem filterMap_publish {α : Type} (f : Output → Option α)
    (hf : ∀ n cs d, f (.charges n cs d) = none) (delivers : Nat → Bool) (ic : InCluster)
    (common : Common) : (ic.publish delivers common).2.filterMap f = [] := by
  rw [publish, List.filterMap_map, List.filterMap_eq_nil_iff]
  exact fun n _ => hf n _ _

/-- `InCluster::remove_device` -/
def removeDevice (delivers : Nat → Bool) (ic : InCluster) (common : Common) (device : Device) :
    InCluster × Common × List Output :=
  match ic.reqSenders[device]? with
  | some r =>
      let ic := { ic with
        reqSenders := ic.reqSenders.erase device
        charges := ic.charges.erase device }
      let (common, out) := ic.publish delivers common
      (ic, common, .term r :: out)
  | none => (ic, common, [])

/-- `InCluster::is_manager` -/
def isManager (hash : Device → UInt64) (ic : InCluster) (device : Device) : Bool :=
  (ic.ring.managers (hash device) 1).any fun m => m.id = ic.member.id

/-- The state that `to_ic` begins with. -/
def start (member : Member) (nodes : MemberSet) (ring : NodeRing) (devices : Devices) :
    InCluster where
  member := member
  nodes := nodes
  ring := ring
  devices := devices
  reqSenders := ∅
  charges := ∅

end InCluster

/-- `State::to_ic` -/
def Waiting.toIc (w : Waiting) : State :=
  match w with
  | ⟨some servers, some member, some ring, some devices⟩ =>
      .inCluster (.start member servers ring devices)
  | _ => .waiting w

/-- The member that the last event of an update tells the server it is. -/
def lastJoined (update : ClusterUpdate) : Option Member :=
  match update.events.getLast? with
  | some (.joined m) | some (.alone m) => some m
  | _ => none

namespace DeviceServer

/-- `DeviceServer::new` -/
protected def new (subscribers : List Nat) : DeviceServer :=
  ⟨⟨subscribers, 0⟩, .waiting ⟨none, none, none, none⟩⟩

/-- The publication after a state was entered or changed. -/
def published (delivers : Nat → Bool) (common : Common) : State → DeviceServer × List Output
  | .inCluster ic =>
      let (common, out) := ic.publish delivers common
      (⟨common, .inCluster ic⟩, out)
  | .waiting w => (⟨common, .waiting w⟩, [])

/-- `DeviceServer::recv` -/
def recv (hash : Device → UInt64) (delivers : Nat → Bool) (s : DeviceServer) :
    DeviceServerMsg → Except Panic (DeviceServer × List Output)
  | .setHeartbeatInterval device interval =>
      match s.state with
      | .waiting _ => .ok (s, [])
      | .inCluster ic =>
          match (ic.ring.managers (hash device) 1).head? with
          | none => .error .noManager
          | some manager =>
              match ic.reqSenders[device]? with
              | some sender =>
                  .ok (s, [.mutate (.put device interval), .interval sender interval])
              | none =>
                  if manager = ic.member then
                    let sender := s.common.spawned
                    let ic := { ic with
                      reqSenders := ic.reqSenders.insert device sender
                      charges := ic.charges.insert device }
                    let (common, out) :=
                      ic.publish delivers { s.common with spawned := sender + 1 }
                    .ok (⟨common, .inCluster ic⟩,
                      [.mutate (.put device interval), .spawn sender device interval,
                        .interval sender interval] ++ out)
                  else .ok (s, [.forward manager.socket device interval])
  | .update update =>
      match s.state with
      | .inCluster ic =>
          let ic := { ic with
            member := (lastJoined update).getD ic.member
            ring := update.ring
            nodes := update.nodes }
          .ok ({ s with state := .inCluster ic }, [])
      | .waiting w =>
          let w := { w with
            member := (lastJoined update).or w.member
            ring := some update.ring
            servers := some update.nodes }
          .ok (published delivers s.common w.toIc)
  | .deviceData devices =>
      match s.state with
      | .waiting w => .ok (published delivers s.common { w with devices := some devices }.toIc)
      | .inCluster ic =>
          .ok (published delivers s.common (.inCluster { ic with devices }))
  | .subscribe subr =>
      let out := match s.state with
        | .inCluster ic => [.charges subr ic.charges ic.devices]
        | .waiting _ => []
      .ok ({ s with common := { s.common with
        subscribers := s.common.subscribers ++ [subr] } }, out)
  | .amISender device =>
      match s.state with
      | .inCluster ic =>
          if ic.isManager hash device then .ok (s, [])
          else
            let (ic, common, out) := ic.removeDevice delivers s.common device
            .ok (⟨common, .inCluster ic⟩, out)
      | .waiting _ => .error .unreachable
  | .downedDevice device =>
      match s.state with
      | .inCluster ic =>
          let (ic, common, out) := ic.removeDevice delivers s.common device
          .ok (⟨common, .inCluster ic⟩, out ++ [.mutate (.remove device)])
      | .waiting _ => .error .unreachable

/-- `DeviceServer::post_stop` -/
def postStop (s : DeviceServer) : List Output :=
  match s.state with
  | .inCluster ic => ic.reqSenders.toList.map fun e => .term e.2
  | .waiting _ => []

/-! ### An interval of a device -/

section Interval

variable {hash : Device → UInt64} {s : DeviceServer} {ic : InCluster} {device : Device}

theorem recv_told (hstate : s.state = .inCluster ic) {manager : Member}
    (hmanager : (ic.ring.managers (hash device) 1).head? = some manager) {sender : Nat}
    (hsender : ic.reqSenders[device]? = some sender) (delivers : Nat → Bool)
    (interval : DeviceInterval) : s.recv hash delivers (.setHeartbeatInterval device interval) =
      .ok (s, [.mutate (.put device interval), .interval sender interval]) := by
  simp only [recv, hstate, hmanager, hsender]

theorem recv_starts (hstate : s.state = .inCluster ic)
    (hmanager : (ic.ring.managers (hash device) 1).head? = some ic.member)
    (hnone : ic.reqSenders[device]? = none) {ic' : InCluster}
    (hic' : ic' = { ic with
      reqSenders := ic.reqSenders.insert device s.common.spawned
      charges := ic.charges.insert device })
    (delivers : Nat → Bool) (interval : DeviceInterval) :
    s.recv hash delivers (.setHeartbeatInterval device interval) =
      .ok (⟨(ic'.publish delivers { s.common with spawned := s.common.spawned + 1 }).1,
          .inCluster ic'⟩,
        [.mutate (.put device interval), .spawn s.common.spawned device interval,
          .interval s.common.spawned interval] ++
            (ic'.publish delivers { s.common with spawned := s.common.spawned + 1 }).2) := by
  simp only [recv, hstate, hmanager, hnone, if_pos, hic']

theorem recv_forwards (hstate : s.state = .inCluster ic) {manager : Member}
    (hmanager : (ic.ring.managers (hash device) 1).head? = some manager)
    (hnone : ic.reqSenders[device]? = none) (hne : manager ≠ ic.member) (delivers : Nat → Bool)
    (interval : DeviceInterval) : s.recv hash delivers (.setHeartbeatInterval device interval) =
      .ok (s, [.forward manager.socket device interval]) := by
  simp only [recv, hstate, hmanager, hnone, if_neg hne]

end Interval

/-! ### What a handler can do -/

/-- The table is told of a device that was reported down. -/
def removalOf : DeviceServerMsg → List Output
  | .downedDevice device => [.mutate (.remove device)]
  | _ => []

/-- The message makes the server drop the sender of the device. -/
def Drops (hash : Device → UInt64) (ic : InCluster) (device : Device)
    (msg : DeviceServerMsg) : Prop :=
  msg = .amISender device ∧ ic.isManager hash device = false ∨ msg = .downedDevice device

/-- The cases of `recv`: the message, the state it leaves and what it does. -/
inductive Handled (hash : Device → UInt64) (delivers : Nat → Bool) (s : DeviceServer) :
    DeviceServerMsg → DeviceServer → List Output → Prop
  | waits {msg : DeviceServerMsg} {w : Waiting} (w' : Waiting) (hstate : s.state = .waiting w)
      (hmsg : ∀ subr, msg ≠ .subscribe subr) :
      Handled hash delivers s msg ⟨s.common, .waiting w'⟩ []
  | enters {msg : DeviceServerMsg} {w : Waiting} (member : Member) (nodes : MemberSet)
      (ring : NodeRing) (devices : Devices) (hstate : s.state = .waiting w)
      (hmsg : ∀ subr, msg ≠ .subscribe subr) :
      Handled hash delivers s msg
        ⟨((InCluster.start member nodes ring devices).publish delivers s.common).1,
          .inCluster (.start member nodes ring devices)⟩
        ((InCluster.start member nodes ring devices).publish delivers s.common).2
  | told {ic : InCluster} {device : Device} {sender : Nat} (interval : DeviceInterval)
      (hstate : s.state = .inCluster ic) (hsender : ic.reqSenders[device]? = some sender) :
      Handled hash delivers s (.setHeartbeatInterval device interval) s
        [.mutate (.put device interval), .interval sender interval]
  | spawns {ic : InCluster} {device : Device} (interval : DeviceInterval) (ic' : InCluster)
      (hstate : s.state = .inCluster ic) (hnone : ic.reqSenders[device]? = none)
      (hmanager : (ic.ring.managers (hash device) 1).head? = some ic.member)
      (hic' : ic' = { ic with
        reqSenders := ic.reqSenders.insert device s.common.spawned
        charges := ic.charges.insert device }) :
      Handled hash delivers s (.setHeartbeatInterval device interval)
        ⟨(ic'.publish delivers { s.common with spawned := s.common.spawned + 1 }).1,
          .inCluster ic'⟩
        ([.mutate (.put device interval), .spawn s.common.spawned device interval,
          .interval s.common.spawned interval] ++
            (ic'.publish delivers { s.common with spawned := s.common.spawned + 1 }).2)
  | forwards {ic : InCluster} (device : Device) (interval : DeviceInterval) (dest : Socket)
      (hstate : s.state = .inCluster ic) :
      Handled hash delivers s (.setHeartbeatInterval device interval) s
        [.forward dest device interval]
  | updates {ic : InCluster} (update : ClusterUpdate) (member : Member)
      (hstate : s.state = .inCluster ic) :
      Handled hash delivers s (.update update)
        ⟨s.common, .inCluster { ic with member, ring := update.ring, nodes := update.nodes }⟩ []
  | data {ic : InCluster} (devices : Devices) (hstate : s.state = .inCluster ic) :
      Handled hash delivers s (.deviceData devices)
        ⟨({ ic with devices }.publish delivers s.common).1, .inCluster { ic with devices }⟩
        ({ ic with devices }.publish delivers s.common).2
  | subscribes (subr : Nat) (out : List Output)
      (hwaiting : ∀ w, s.state = .waiting w → out = [])
      (hinside : ∀ ic, s.state = .inCluster ic →
        out = [.charges subr ic.charges ic.devices]) :
      Handled hash delivers s (.subscribe subr)
        ⟨{ s.common with subscribers := s.common.subscribers ++ [subr] }, s.state⟩ out
  | keeps {ic : InCluster} (device : Device) (hstate : s.state = .inCluster ic) :
      Handled hash delivers s (.amISender device) s []
  | removes {ic : InCluster} {msg : DeviceServerMsg} {device : Device} {sender : Nat}
      (ic' : InCluster) (hstate : s.state = .inCluster ic) (hmsg : Drops hash ic device msg)
      (hsender : ic.reqSenders[device]? = some sender)
      (hic' : ic' = { ic with
        reqSenders := ic.reqSenders.erase device
        charges := ic.charges.erase device }) :
      Handled hash delivers s msg
        ⟨(ic'.publish delivers s.common).1, .inCluster ic'⟩
        (.term sender :: (ic'.publish delivers s.common).2 ++ removalOf msg)
  | absent {ic : InCluster} {msg : DeviceServerMsg} {device : Device}
      (hstate : s.state = .inCluster ic) (hmsg : Drops hash ic device msg)
      (hnone : ic.reqSenders[device]? = none) :
      Handled hash delivers s msg s (removalOf msg)

/-- Waiting for the rest, or entering the cluster. -/
theorem handled_toIc {hash : Device → UInt64} {delivers : Nat → Bool} {s s' : DeviceServer}
    {msg : DeviceServerMsg} {out : List Output} {w w' : Waiting} (hstate : s.state = .waiting w)
    (hmsg : ∀ subr, msg ≠ .subscribe subr)
    (h : published delivers s.common w'.toIc = (s', out)) : Handled hash delivers s msg s' out := by
  unfold Waiting.toIc at h
  split at h
  · cases h
    exact .enters _ _ _ _ hstate hmsg
  · cases h
    exact .waits _ hstate hmsg

theorem handled_drop {hash : Device → UInt64} {delivers : Nat → Bool} {s : DeviceServer}
    {msg : DeviceServerMsg} {ic : InCluster} {device : Device}
    (hstate : s.state = .inCluster ic) (hmsg : Drops hash ic device msg) :
    Handled hash delivers s msg
      ⟨(ic.removeDevice delivers s.common device).2.1,
        .inCluster (ic.removeDevice delivers s.common device).1⟩
      ((ic.removeDevice delivers s.common device).2.2 ++ removalOf msg) := by
  unfold InCluster.removeDevice
  cases hsender : ic.reqSenders[device]? with
  | some sender => exact .removes _ hstate hmsg hsender rfl
  | none =>
      have hsame : s = ⟨s.common, .inCluster ic⟩ := by rw [← hstate]
      rw [← hsame]
      exact .absent hstate hmsg hsender

theorem handled_of_recv {hash : Device → UInt64} {delivers : Nat → Bool} {s s' : DeviceServer}
    {msg : DeviceServerMsg} {out : List Output} (h : s.recv hash delivers msg = .ok (s', out)) :
    Handled hash delivers s msg s' out := by
  cases msg with
  | setHeartbeatInterval device interval =>
      simp only [recv] at h
      split at h
      · next w hstate =>
          cases h
          have hsame : s = ⟨s.common, .waiting w⟩ := by rw [← hstate]
          have hwaits : Handled hash delivers s (.setHeartbeatInterval device interval)
              ⟨s.common, .waiting w⟩ [] := .waits w hstate nofun
          rwa [← hsame] at hwaits
      · next ic hstate =>
          split at h
          · cases h
          · next manager hmanager =>
              split at h
              · next sender hsender =>
                  cases h
                  exact .told interval hstate hsender
              · next hnone =>
                  split at h
                  · next hmember =>
                      cases h
                      exact .spawns interval _ hstate hnone (hmanager.trans (congrArg some hmember))
                        rfl
                  · cases h
                    exact .forwards device interval _ hstate
  | update update =>
      simp only [recv] at h
      split at h
      · next ic hstate =>
          cases h
          exact .updates update _ hstate
      · next w hstate =>
          exact handled_toIc hstate nofun (Except.ok.inj h)
  | deviceData devices =>
      simp only [recv] at h
      split at h
      · next w hstate =>
          exact handled_toIc hstate nofun (Except.ok.inj h)
      · next ic hstate =>
          cases h
          exact .data devices hstate
  | subscribe subr =>
      cases h
      exact .subscribes subr _ (fun w hw => by simp only [hw]) (fun ic hic => by simp only [hic])
  | amISender device =>
      simp only [recv] at h
      split at h
      · next ic hstate =>
          split at h
          · cases h
            exact .keeps device hstate
          · next hnot =>
              cases h
              have hdrops : Drops hash ic device (.amISender device) :=
                .inl ⟨rfl, by simpa using hnot⟩
              simpa only [removalOf, List.append_nil] using handled_drop hstate hdrops
      · cases h
  | downedDevice device =>
      simp only [recv] at h
      split at h
      · next ic hstate =>
          cases h
          exact handled_drop hstate (.inr rfl)
      · cases h

/-- A server that is alone in its cluster, without devices. -/
def alone : DeviceServer :=
  let member : Member := ⟨Socket.localhost 10, 1, 1⟩
  ⟨⟨[], 0⟩, .inCluster (.start member ((∅ : MemberSet).insert member)
    ((NodeRing.new 2).insert RingHash.byId member) .minimum)⟩

/-- A client at a port. -/
def client (port : UInt16) : Device := ⟨Socket.localhost port⟩

end DeviceServer

/-! ## The senders -/

inductive HBReqSenderMsg where
  /-- `Remote(Heartbeat)` -/
  | heartbeat
  /-- `Remote(MultipleSenders)` -/
  | multipleSenders
  | interval (interval : DeviceInterval)
  | tick
  deriving DecidableEq, Repr

/-- What a handler of a sender does outside the actor. -/
inductive SenderOutput where
  /-- `HeartbeatRequest` to the device -/
  | heartbeatRequest (dest : Socket)
  /-- a `Tick` to itself after the delay -/
  | scheduleTick (delay : Nat)
  /-- a message to the supervisor -/
  | supervisor (msg : DeviceServerMsg)
  deriving DecidableEq

structure HBReqSender where
  charge : Device
  interval : DeviceInterval
  deriving DecidableEq, Repr

namespace HBReqSender

/-- `HBReqSender::recv`, where `suspects` says that `phi` has reached its bound -/
def recv (suspects : Bool) (s : HBReqSender) :
    HBReqSenderMsg → HBReqSender × List SenderOutput
  | .tick =>
      if suspects then (s, [.supervisor (.downedDevice s.charge)])
      else (s, [.heartbeatRequest s.charge.socket, .scheduleTick s.interval.interval])
  | .interval interval => ({ s with interval }, [])
  | .heartbeat => (s, [])
  | .multipleSenders => (s, [.supervisor (.amISender s.charge)])

/-- The sender after the messages of its mailbox, each with the verdict then. -/
def run (s : HBReqSender) (inbox : List (HBReqSenderMsg × Bool)) : HBReqSender :=
  inbox.foldl (fun s e => (s.recv e.2 e.1).1) s

/-- A sender keeps its device. -/
theorem recv_charge (suspects : Bool) (s : HBReqSender) (msg : HBReqSenderMsg) :
    (s.recv suspects msg).1.charge = s.charge := by
  cases msg with
  | tick => cases suspects <;> rfl
  | _ => rfl

end HBReqSender

end AurumActors.Devices
