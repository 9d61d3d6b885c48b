/-
  Devices/Retired.lean --- a device server and the tasks of its senders.

  Every sender runs on its own and reports to the server through the channel of
  the server.  A report names the device and not the sender; here it carries the
  sender it comes from beside it, which no handler reads.  A sender that the
  server has dropped goes on until it comes to its `Term`.
-/
import AurumActors.Core.ActorTasks
import AurumActors.Devices.DeviceServer
import AurumActors.Foundation.Pools

set_option autoImplicit false
set_option linter.dupNamespace false

namespace AurumActors.Devices

open Std
open AurumActors.Core AurumActors.Cluster AurumActors.Foundation

namespace DeviceServer

/-- The sender of a device. -/
def senderOf (s : DeviceServer) (device : Device) : Option Nat :=
  match s.state with
  | .inCluster ic => ic.reqSenders[device]?
  | .waiting _ => none

/-- An interval of the device would start a sender. -/
def starts (hash : Device → UInt64) (s : DeviceServer) (device : Device) : Bool :=
  match s.state with
  | .inCluster ic =>
      ic.reqSenders[device]? = none ∧
        (ic.ring.managers (hash device) 1).head? = some ic.member
  | .waiting _ => false

theorem senderOf_of_waiting {s : DeviceServer} {w : Waiting} (hstate : s.state = .waiting w)
    (device : Device) : s.senderOf device = none := by
  rw [senderOf, hstate]

theorem senderOf_of_inCluster {s : DeviceServer} {ic : InCluster}
    (hstate : s.state = .inCluster ic) (device : Device) :
    s.senderOf device = ic.reqSenders[device]? := by
  rw [senderOf, hstate]

/-- The senders after one was started. -/
theorem senderOf_insert {s : DeviceServer} {ic ic' : InCluster} (hstate : s.state = .inCluster ic)
    {device : Device} {sender : Nat}
    (hsenders : ic'.reqSenders = ic.reqSenders.insert device sender) (common : Common)
    (device' : Device) : senderOf ⟨common, .inCluster ic'⟩ device' =
      if device' = device then some sender else s.senderOf device' := by
  rw [senderOf_of_inCluster rfl, senderOf_of_inCluster hstate, hsenders, getElem?_insert_eq]

/-- The senders after one was dropped. -/
theorem senderOf_erase {s : DeviceServer} {ic ic' : InCluster} (hstate : s.state = .inCluster ic)
    {device : Device} (hsenders : ic'.reqSenders = ic.reqSenders.erase device) (common : Common)
    (device' : Device) : senderOf ⟨common, .inCluster ic'⟩ device' =
      if device' = device then none else s.senderOf device' := by
  rw [senderOf_of_inCluster rfl, senderOf_of_inCluster hstate, hsenders, getElem?_erase_eq]

theorem inCluster_of_senderOf {s : DeviceServer} {device : Device} {sender : Nat}
    (h : s.senderOf device = some sender) :
    ∃ ic, s.state = .inCluster ic ∧ ic.reqSenders[device]? = some sender := by
  unfold senderOf at h
  split at h
  · next ic hstate => exact ⟨ic, hstate, h⟩
  · cases h

theorem recv_downedDevice (hash : Device → UInt64) (delivers : Nat → Bool) {s : DeviceServer}
    {ic : InCluster} (hstate : s.state = .inCluster ic) (device : Device) :
    s.recv hash delivers (.downedDevice device) =
      .ok (⟨(ic.removeDevice delivers s.common device).2.1,
          .inCluster (ic.removeDevice delivers s.common device).1⟩,
        (ic.removeDevice delivers s.common device).2.2 ++ [.mutate (.remove device)]) := by
  simp only [recv, hstate]

end DeviceServer

/-! ## A sender as a task -/

/-- Only senders send these to the server. -/
def DeviceServerMsg.isReport : DeviceServerMsg → Bool
  | .amISender _ | .downedDevice _ => true
  | .setHeartbeatInterval .. | .update _ | .deviceData _ | .subscribe _ => false

/-- The device that an interval is for. -/
def DeviceServerMsg.asked? : DeviceServerMsg → Option Device
  | .setHeartbeatInterval device _ => some device
  | _ => none

def DeviceServerMsg.isDowned : DeviceServerMsg → Bool
  | .downedDevice _ => true
  | _ => false

/-- What comes from the device. -/
def HBReqSenderMsg.isRemote : HBReqSenderMsg → Bool
  | .heartbeat | .multipleSenders => true
  | .interval _ | .tick => false

def SenderOutput.report? : SenderOutput → Option DeviceServerMsg
  | .supervisor msg => some msg
  | .heartbeatRequest _ | .scheduleTick _ => none

def SenderOutput.isTick : SenderOutput → Bool
  | .scheduleTick _ => true
  | .heartbeatRequest _ | .supervisor _ => false

structure SenderTask where
  actor : HBReqSender
  /-- `pre_start` has been called -/
  started : Bool
  inbox : List (LocalActorMsg HBReqSenderMsg)
  /-- how many `Tick`s are on their way -/
  scheduled : Nat
  ended : Bool
  /-- it has sent a `DownedDevice` -/
  reported : Bool
  deriving DecidableEq

namespace SenderTask

/-- `HBReqSender::new` -/
protected def new (device : Device) (interval : DeviceInterval) : SenderTask :=
  ⟨⟨device, interval⟩, false, [], 0, false, false⟩

/-- Sending to a task that has ended does nothing. -/
def send (t : SenderTask) (msg : LocalActorMsg HBReqSenderMsg) : SenderTask :=
  if t.ended then t else { t with inbox := t.inbox ++ [msg] }

/-- `HBReqSender::pre_start` -/
def preStart (t : SenderTask) : Option SenderTask :=
  if t.started then none else some ({ t with started := true }.send (.msg .tick))

/-- A `Tick` comes after its delay. -/
def fire (t : SenderTask) : Option SenderTask :=
  if t.scheduled = 0 then none
  else some ({ t with scheduled := t.scheduled - 1 }.send (.msg .tick))

/-- The task takes its next message and reports to the server. -/
def run (suspects : Bool) (t : SenderTask) : Option (SenderTask × List DeviceServerMsg) :=
  if t.started ∧ ¬ t.ended then
    match t.inbox with
    | [] => none
    | .term :: _ => some ({ t with inbox := [], ended := true }, [])
    | .msg msg :: rest =>
        let (actor, out) := t.actor.recv suspects msg
        let reports := out.filterMap SenderOutput.report?
        some ({ t with
          actor
          inbox := rest
          scheduled := t.scheduled + out.countP SenderOutput.isTick
          reported := t.reported || reports.any DeviceServerMsg.isDowned }, reports)
  else none

/-- A `Tick` stands before the first `Term` of the task. -/
def MayTick (t : SenderTask) : Prop :=
  t.ended = false ∧ .msg .tick ∈ t.inbox.takeWhile (· ≠ .term)

instance (t : SenderTask) : Decidable t.MayTick := inferInstanceAs (Decidable (_ ∧ _))

/-- The task has its `Term`. -/
def Signalled (t : SenderTask) : Prop :=
  t.ended = true ∨ .term ∈ t.inbox

end SenderTask

/-! ## The server and its senders -/

structure Supervision where
  server : DeviceServer
  /-- the channel of the server, with the sender a message comes from -/
  inbox : List (Option Nat × DeviceServerMsg)
  senders : List SenderTask
  deriving DecidableEq

namespace Supervision

inductive Move where
  /-- a message that no sender sends -/
  | post (msg : DeviceServerMsg)
  /-- the server handles a message, and these subscribers are there -/
  | serve (delivers : Nat → Bool)
  /-- a message comes from the device of a sender -/
  | deliver (sender : Nat) (msg : HBReqSenderMsg)
  | preStart (sender : Nat)
  | fire (sender : Nat)
  | run (sender : Nat) (suspects : Bool)

def send (c : Supervision) (sender : Nat) (msg : LocalActorMsg HBReqSenderMsg) : Supervision :=
  { c with senders := c.senders.modify sender fun t => t.send msg }

/-- What an output of the server does to the senders. -/
def perform (c : Supervision) : Output → Supervision
  | .spawn _ device interval => { c with senders := c.senders ++ [.new device interval] }
  | .interval sender interval => c.send sender (.msg (.interval interval))
  | .term sender => c.send sender .term
  | .mutate _ | .charges .. | .forward .. => c

/-- The state after the server has handled the first message. -/
def serve (c : Supervision) (rest : List (Option Nat × DeviceServerMsg)) (server : DeviceServer)
    (out : List Output) : Supervision :=
  out.foldl perform { c with server, inbox := rest }

def next (hash : Device → UInt64) (c : Supervision) : Move → Option Supervision
  | .post msg => if msg.isReport then none else some { c with inbox := c.inbox ++ [(none, msg)] }
  | .serve delivers =>
      match c.inbox with
      | [] => none
      | (_, msg) :: rest =>
          match c.server.recv hash delivers msg with
          | .ok (server, out) => some (c.serve rest server out)
          | .error _ => none
  | .deliver sender msg => if msg.isRemote then some (c.send sender (.msg msg)) else none
  | .preStart sender =>
      (c.senders[sender]?.bind SenderTask.preStart).map fun t =>
        { c with senders := c.senders.set sender t }
  | .fire sender =>
      (c.senders[sender]?.bind SenderTask.fire).map fun t =>
        { c with senders := c.senders.set sender t }
  | .run sender suspects =>
      (c.senders[sender]?.bind (SenderTask.run suspects)).map fun (t, reports) =>
        { c with
          inbox := c.inbox ++ reports.map fun msg => (some sender, msg)
          senders := c.senders.set sender t }

def start (subscribers : List Nat) : Supervision := ⟨.new subscribers, [], []⟩

/-- A device server from its start, with the senders it starts. -/
def system (hash : Device → UInt64) (subscribers : List Nat) : System Supervision Move :=
  .ofNext (start subscribers) (next hash)

/-- A report of a sender that the server has dropped leaves the senders of the
server, and tells the table nothing of a device whose sender has not reported. -/
def Unhurt (hash : Device → UInt64) (c : Supervision) : Prop :=
  ∀ sender device rest, c.inbox = (some sender, .downedDevice device) :: rest →
    c.server.senderOf device ≠ some sender →
    ∀ delivers server out,
      c.server.recv hash delivers (.downedDevice device) = .ok (server, out) →
      (∀ device' current, c.server.senderOf device' = some current →
        server.senderOf device' = some current ∧ .term current ∉ out) ∧
      (.mutate (.remove device) ∈ out → ∀ current, c.server.senderOf device = some current →
        ∃ t, c.senders[current]? = some t ∧ t.reported = true)

/-- The sender may still be heard to report its device down. -/
def MayReport (c : Supervision) (sender : Nat) (t : SenderTask) : Prop :=
  (some sender, .downedDevice t.actor.charge) ∈ c.inbox ∨ t.MayTick

instance (c : Supervision) (sender : Nat) (t : SenderTask) : Decidable (c.MayReport sender t) :=
  inferInstanceAs (Decidable (_ ∨ _))

/-- A sender is started for a device when no earlier one of it may report. -/
def Settled (hash : Device → UInt64) (c : Supervision) : Move → Prop
  | .serve _ => ∀ e ∈ c.inbox.head?, ∀ device ∈ e.2.asked?, c.server.starts hash device = true →
      ∀ n < c.senders.length, ∀ t ∈ c.senders[n]?, t.actor.charge = device → ¬ c.MayReport n t
  | .post _ | .deliver .. | .preStart _ | .fire _ | .run .. => True

end Supervision

/-! ## What becomes of a task -/

namespace SenderTask

/-- How a task changes: a `Term` stays, and no `Tick` comes before it any more. -/
structure Goes (t t' : SenderTask) : Prop where
  charge : t'.actor.charge = t.actor.charge
  reported : t.reported = true → t'.reported = true
  signalled : t.Signalled → t'.Signalled
  mayTick : t.Signalled → t'.MayTick → t.MayTick

theorem Goes.refl (t : SenderTask) : t.Goes t := ⟨rfl, id, id, fun _ => id⟩

theorem Goes.trans {t u v : SenderTask} (h : t.Goes u) (h' : u.Goes v) : t.Goes v where
  charge := h'.charge.trans h.charge
  reported := h'.reported ∘ h.reported
  signalled := h'.signalled ∘ h.signalled
  mayTick hsig hmay := h.mayTick hsig (h'.mayTick (h.signalled hsig) hmay)

/-- What is sent to a task with a `Term` comes after it. -/
theorem goes_send (t : SenderTask) (msg : LocalActorMsg HBReqSenderMsg) : t.Goes (t.send msg) := by
  unfold send
  split
  · exact .refl t
  · refine ⟨rfl, id, fun hsig => hsig.imp_right (List.mem_append_left _), fun hsig hmay => ?_⟩
    refine ⟨hmay.1, (mem_takeWhile_concat hmay.2).resolve_right fun hlast => ?_⟩
    rcases hsig with hended | hterm
    · rw [hended] at hmay
      cases hmay.1
    · exact absurd (hlast.2 _ hterm) (by simp)

theorem signalled_term (t : SenderTask) : (t.send .term).Signalled := by
  unfold send
  split
  · next hended => exact .inl hended
  · exact .inr (List.mem_append_right _ List.mem_cons_self)

theorem goes_preStart {t t' : SenderTask} (h : t.preStart = some t') : t.Goes t' := by
  unfold preStart at h
  split at h
  · cases h
  · cases h
    have hstart : t.Goes { t with started := true } := ⟨rfl, id, id, fun _ => id⟩
    exact hstart.trans (goes_send _ _)

theorem goes_fire {t t' : SenderTask} (h : t.fire = some t') : t.Goes t' := by
  unfold fire at h
  split at h
  · cases h
  · cases h
    have htake : t.Goes { t with scheduled := t.scheduled - 1 } := ⟨rfl, id, id, fun _ => id⟩
    exact htake.trans (goes_send _ _)

/-- A sender reports its own device down, on a `Tick`. -/
theorem downed_of_recv {suspects : Bool} {s : HBReqSender} {msg : HBReqSenderMsg}
    {device : Device}
    (h : .downedDevice device ∈ (s.recv suspects msg).2.filterMap SenderOutput.report?) :
    msg = .tick ∧ s.charge = device := by
  cases msg with
  | tick =>
      cases suspects with
      | true =>
          have hdown : DeviceServerMsg.downedDevice device = .downedDevice s.charge :=
            List.mem_singleton.mp h
          exact ⟨rfl, (DeviceServerMsg.downedDevice.inj hdown).symm⟩
      | false => cases h
  | interval | heartbeat => cases h
  | multipleSenders =>
      have hsender : DeviceServerMsg.downedDevice device = .amISender s.charge :=
        List.mem_singleton.mp h
      cases hsender

/-- A report that the device is down comes from a `Tick`. -/
theorem run_downed {suspects : Bool} {t t' : SenderTask} {reports : List DeviceServerMsg}
    (h : t.run suspects = some (t', reports)) : t.Goes t' ∧ ∀ device,
      .downedDevice device ∈ reports →
        t.actor.charge = device ∧ t.MayTick ∧ t'.reported = true := by
  unfold run at h
  split at h
  · next hruns =>
      split at h
      · cases h
      · cases h
        refine ⟨⟨rfl, id, fun _ => .inl rfl, fun _ hmay => ?_⟩, nofun⟩
        cases hmay.1
      · next msg rest hinbox =>
          cases h
          have hgoes : t.Goes { t with
              actor := (t.actor.recv suspects msg).1
              inbox := rest
              scheduled := t.scheduled +
                (t.actor.recv suspects msg).2.countP SenderOutput.isTick
              reported := t.reported || ((t.actor.recv suspects msg).2.filterMap
                SenderOutput.report?).any DeviceServerMsg.isDowned } := by
            refine ⟨HBReqSender.recv_charge suspects t.actor msg, fun hrep => ?_, fun hsig => ?_,
              fun _ hmay => ⟨hmay.1, ?_⟩⟩
            · rw [hrep, Bool.true_or]
            · refine hsig.imp_right fun hterm => ?_
              rw [hinbox] at hterm
              exact (List.mem_cons.mp hterm).resolve_left nofun
            · rw [hinbox, List.takeWhile_cons, if_pos (by simp)]
              exact List.mem_cons_of_mem _ hmay.2
          refine ⟨hgoes, fun device hdown => ?_⟩
          obtain ⟨rfl, hcharge⟩ := downed_of_recv hdown
          have hany : ((t.actor.recv suspects .tick).2.filterMap SenderOutput.report?).any
              DeviceServerMsg.isDowned = true := List.any_eq_true.mpr ⟨_, hdown, rfl⟩
          refine ⟨hcharge, ⟨by simpa using hruns.2, ?_⟩, ?_⟩
          · rw [hinbox, List.takeWhile_cons, if_pos (by simp)]
            exact List.mem_cons_self
          · exact (congrArg (t.reported || ·) hany).trans (Bool.or_true _)
  · cases h

end SenderTask

/-! ## Every run -/

namespace Supervision

/-- What holds of the server, its channel and the tasks while every start meets
its condition. -/
structure Kept (c : Supervision) : Prop where
  count : c.server.common.spawned = c.senders.length
  /-- the sender of a device is a task for it -/
  current : ∀ device n, c.server.senderOf device = some n →
    ∃ t, c.senders[n]? = some t ∧ t.actor.charge = device
  /-- a report comes from a task for the device -/
  reports : ∀ n device, (some n, .downedDevice device) ∈ c.inbox →
    ∃ t, c.senders[n]? = some t ∧ t.actor.charge = device ∧ t.reported = true
  /-- a sender that was dropped has its `Term` -/
  dropped : ∀ n t, c.senders[n]? = some t → c.server.senderOf t.actor.charge ≠ some n →
    t.Signalled
  /-- the sender of a device is the only one that may report it -/
  quiet : ∀ n t current, c.senders[n]? = some t →
    c.server.senderOf t.actor.charge = some current → current ≠ n → ¬ c.MayReport n t

theorem Kept.start (subscribers : List Nat) : (start subscribers).Kept where
  count := rfl
  current _ _ h := by cases h
  reports _ _ h := by cases h
  dropped _ _ h := by cases h
  quiet _ _ _ h := by cases h

/-- The tasks go on, and report what they may. -/
theorem Kept.go {c : Supervision} (h : c.Kept) {senders : List SenderTask}
    (hgo : List.Forall₂ SenderTask.Goes c.senders senders)
    {inbox : List (Option Nat × DeviceServerMsg)}
    (hinbox : ∀ n device, (some n, .downedDevice device) ∈ inbox →
      (some n, .downedDevice device) ∈ c.inbox ∨ ∃ t t', c.senders[n]? = some t ∧
        senders[n]? = some t' ∧ t.actor.charge = device ∧ t.MayTick ∧ t'.reported = true) :
    { c with senders, inbox }.Kept where
  count := h.count.trans hgo.length_eq
  current device n hn := by
    obtain ⟨t, ht, hcharge⟩ := h.current device n hn
    obtain ⟨t', ht', hgoes⟩ := exists_after hgo ht
    exact ⟨t', ht', hgoes.charge.trans hcharge⟩
  reports n device hmem := by
    rcases hinbox n device hmem with hmem | ⟨t, t', ht, ht', hcharge, -, hrep⟩
    · obtain ⟨t, ht, hcharge, hrep⟩ := h.reports n device hmem
      obtain ⟨t', ht', hgoes⟩ := exists_after hgo ht
      exact ⟨t', ht', hgoes.charge.trans hcharge, hgoes.reported hrep⟩
    · obtain ⟨u', hu', hgoes⟩ := exists_after hgo ht
      rw [ht'] at hu'
      cases hu'
      exact ⟨t', ht', hgoes.charge.trans hcharge, hrep⟩
  dropped n t' ht' hnot := by
    obtain ⟨t, ht, hgoes⟩ := exists_before hgo ht'
    rw [hgoes.charge] at hnot
    exact hgoes.signalled (h.dropped n t ht hnot)
  quiet n t' current ht' hcurrent hne hmay := by
    obtain ⟨t, ht, hgoes⟩ := exists_before hgo ht'
    rw [hgoes.charge] at hcurrent
    have hsig : t.Signalled := h.dropped n t ht fun hsame =>
      hne (Option.some.inj (hcurrent.symm.trans hsame))
    refine h.quiet n t current ht hcurrent hne ?_
    rcases hmay with hmem | htick
    · rw [hgoes.charge] at hmem
      rcases hinbox n _ hmem with hmem | ⟨u, _, hu, -, -, hmay, -⟩
      · exact .inl hmem
      · rw [ht] at hu
        cases hu
        exact .inr hmay
    · exact .inr (hgoes.mayTick hsig htick)

/-- The server drops the messages it has taken. -/
theorem Kept.take {c : Supervision} (h : c.Kept) {inbox : List (Option Nat × DeviceServerMsg)}
    (hinbox : ∀ e ∈ inbox, e ∈ c.inbox) : { c with inbox }.Kept :=
  h.go (List.forall₂_same.mpr fun t _ => .refl t) fun _ _ hmem => .inl (hinbox _ hmem)

theorem Kept.send {c : Supervision} (h : c.Kept) (n : Nat) (msg : LocalActorMsg HBReqSenderMsg) :
    (c.send n msg).Kept :=
  h.go (forall₂_modify .refl (fun t => t.goes_send msg) _ n) fun _ _ => .inl

/-- The server keeps its senders. -/
theorem Kept.same {c : Supervision} (h : c.Kept) {server : DeviceServer}
    (hsender : ∀ device, server.senderOf device = c.server.senderOf device)
    (hcount : server.common.spawned = c.server.common.spawned) : { c with server }.Kept where
  count := hcount.trans h.count
  current device n hn := h.current device n ((hsender device).symm.trans hn)
  reports := h.reports
  dropped n t ht hnot := h.dropped n t ht fun hsame => hnot ((hsender _).trans hsame)
  quiet n t current ht hcurrent := h.quiet n t current ht ((hsender _).symm.trans hcurrent)

/-- The server drops a sender that has its `Term`. -/
theorem Kept.drop {c : Supervision} (h : c.Kept) {server : DeviceServer} {device : Device}
    (hsender : ∀ device', server.senderOf device' =
      if device' = device then none else c.server.senderOf device')
    (hcount : server.common.spawned = c.server.common.spawned)
    (hterm : ∀ n t, c.senders[n]? = some t → c.server.senderOf device = some n → t.Signalled) :
    { c with server }.Kept where
  count := hcount.trans h.count
  current device' n hn := by
    replace hn : server.senderOf device' = some n := hn
    rw [hsender] at hn
    split at hn
    · cases hn
    · exact h.current device' n hn
  reports := h.reports
  dropped n t ht hnot := by
    by_cases hsame : c.server.senderOf t.actor.charge = some n
    · by_cases hdevice : t.actor.charge = device
      · exact hterm n t ht (hdevice ▸ hsame)
      · replace hnot : server.senderOf t.actor.charge ≠ some n := hnot
        rw [hsender, if_neg hdevice] at hnot
        exact absurd hsame hnot
    · exact h.dropped n t ht hsame
  quiet n t current ht hcurrent := by
    replace hcurrent : server.senderOf t.actor.charge = some current := hcurrent
    rw [hsender] at hcurrent
    split at hcurrent
    · cases hcurrent
    · exact h.quiet n t current ht hcurrent

/-- The server starts a sender for a device that no other one may report. -/
theorem Kept.spawn {c : Supervision} (h : c.Kept) {server : DeviceServer} {device : Device}
    (interval : DeviceInterval) (hnone : c.server.senderOf device = none)
    (hsender : ∀ device', server.senderOf device' =
      if device' = device then some c.senders.length else c.server.senderOf device')
    (hcount : server.common.spawned = c.server.common.spawned + 1)
    (hsettled : ∀ n t, c.senders[n]? = some t → t.actor.charge = device → ¬ c.MayReport n t) :
    { c with server, senders := c.senders ++ [SenderTask.new device interval] }.Kept := by
  refine ⟨?_, fun device' n hn => ?_, fun n device' hmem => ?_, fun n t ht hnot => ?_,
    fun n t current ht hcurrent hne => ?_⟩
  · rw [List.length_append, List.length_singleton, ← h.count]
    exact hcount
  · replace hn : server.senderOf device' = some n := hn
    rw [hsender] at hn
    split at hn
    · next heq =>
        cases hn
        exact ⟨_, List.getElem?_concat_length, heq.symm⟩
    · obtain ⟨t, ht, hcharge⟩ := h.current device' n hn
      exact ⟨t, getElem?_concat_of_some _ ht, hcharge⟩
  · obtain ⟨t, ht, hrest⟩ := h.reports n device' hmem
    exact ⟨t, getElem?_concat_of_some _ ht, hrest⟩
  · replace hnot : server.senderOf t.actor.charge ≠ some n := hnot
    rw [hsender] at hnot
    rcases getElem?_concat_cases ht with ht | ⟨rfl, rfl⟩
    · refine h.dropped n t ht ?_
      split at hnot
      · next heq =>
          rw [heq, hnone]
          exact nofun
      · exact hnot
    · exact absurd (if_pos rfl) hnot
  · replace hcurrent : server.senderOf t.actor.charge = some current := hcurrent
    rw [hsender] at hcurrent
    rcases getElem?_concat_cases ht with ht | ⟨rfl, rfl⟩
    · split at hcurrent
      · next heq => exact hsettled n t ht heq
      · exact h.quiet n t current ht hcurrent hne
    · exact absurd (Option.some.inj (hcurrent.symm.trans (if_pos rfl))) hne

/-! ### The server handles a message -/

theorem foldl_perform {out : List Output} (hout : ∀ o ∈ out, ∀ c, perform c o = c)
    (c : Supervision) : out.foldl perform c = c := by
  induction out with
  | nil => rfl
  | cons o out ih =>
      rw [List.foldl_cons, hout o List.mem_cons_self]
      exact ih fun o' ho' => hout o' (List.mem_cons_of_mem _ ho')

theorem foldl_perform_publish (ic : InCluster) (delivers : Nat → Bool) (common : Common)
    (c : Supervision) : (ic.publish delivers common).2.foldl perform c = c := by
  refine foldl_perform (fun o ho => ?_) c
  obtain ⟨_, -, rfl⟩ := List.mem_map.mp ho
  exact fun _ => rfl

theorem foldl_perform_removalOf (msg : DeviceServerMsg) (c : Supervision) :
    (DeviceServer.removalOf msg).foldl perform c = c := by
  cases msg <;> rfl

theorem Kept.serve {hash : Device → UInt64} {delivers : Nat → Bool} {c : Supervision}
    {source : Option Nat} {msg : DeviceServerMsg} {rest : List (Option Nat × DeviceServerMsg)}
    {server : DeviceServer} {out : List Output} (h : c.Kept)
    (hinbox : c.inbox = (source, msg) :: rest) (hsettled : c.Settled hash (.serve delivers))
    (hhandled : DeviceServer.Handled hash delivers c.server msg server out) :
    (c.serve rest server out).Kept := by
  have hrest : ∀ e ∈ rest, e ∈ c.inbox := fun e he => hinbox ▸ List.mem_cons_of_mem _ he
  have htake : { c with inbox := rest }.Kept := h.take hrest
  cases hhandled with
  | waits w' hstate =>
      refine htake.same (fun device => ?_) rfl
      exact (DeviceServer.senderOf_of_waiting hstate device).symm
  | enters member nodes ring devices hstate =>
      rw [Supervision.serve, foldl_perform_publish]
      refine htake.same (fun device => ?_) rfl
      rw [DeviceServer.senderOf_of_waiting hstate]
      exact ExtTreeMap.getElem?_empty
  | told interval => exact htake.send _ _
  | @spawns ic device interval ic' hstate hnone hmanager hic' =>
      have hstarts : c.server.starts hash device = true := by
        simp only [DeviceServer.starts, hstate]
        exact decide_eq_true ⟨hnone, hmanager⟩
      have hquiet : ∀ n t, c.senders[n]? = some t → t.actor.charge = device →
          ¬ c.MayReport n t := by
        intro n t ht
        have hlt := (List.getElem?_eq_some_iff.mp ht).1
        exact hsettled _ (by rw [hinbox]; rfl) device rfl hstarts n hlt t ht
      rw [Supervision.serve, List.foldl_append, foldl_perform_publish]
      refine Kept.send (htake.spawn interval ?_ ?_ rfl fun n t ht hcharge hmay => ?_) _ _
      · exact (DeviceServer.senderOf_of_inCluster hstate device).trans hnone
      · exact DeviceServer.senderOf_insert hstate (by rw [hic', h.count]) _
      · exact hquiet n t ht hcharge (hmay.imp_left (hrest _))
  | forwards | keeps => exact htake
  | updates update member hstate =>
      refine htake.same (fun device => ?_) rfl
      exact (DeviceServer.senderOf_of_inCluster hstate device).symm
  | data devices hstate =>
      rw [Supervision.serve, foldl_perform_publish]
      refine htake.same (fun device => ?_) rfl
      exact (DeviceServer.senderOf_of_inCluster hstate device).symm
  | subscribes subr _ hwaiting hinside =>
      have hout : ∀ o ∈ out, ∀ c, perform c o = c := by
        intro o ho c'
        cases hstate : c.server.state with
        | waiting w =>
            rw [hwaiting w hstate] at ho
            cases ho
        | inCluster ic =>
            rw [hinside ic hstate] at ho
            rw [List.mem_singleton.mp ho]
            rfl
      rw [Supervision.serve, foldl_perform hout]
      exact htake.same (fun _ => rfl) rfl
  | @removes ic _ device sender ic' hstate hdrops hsender hic' =>
      have hcurrent : c.server.senderOf device = some sender :=
        (DeviceServer.senderOf_of_inCluster hstate device).trans hsender
      rw [Supervision.serve, List.foldl_append, List.foldl_cons, foldl_perform_publish,
        foldl_perform_removalOf]
      have hsenders : ic'.reqSenders = ic.reqSenders.erase device := by rw [hic']
      refine (htake.send sender .term).drop (DeviceServer.senderOf_erase hstate hsenders _) rfl
        fun n t ht hn => ?_
      have hsame : n = sender := Option.some.inj (hn.symm.trans hcurrent)
      simp only [Supervision.send, hsame, List.getElem?_modify, if_pos] at ht
      obtain ⟨u, -, rfl⟩ := Option.map_eq_some_iff.mp ht
      exact u.signalled_term
  | absent =>
      rw [Supervision.serve, foldl_perform_removalOf]
      exact htake

theorem kept_of_reachable {hash : Device → UInt64} {subscribers : List Nat} {c : Supervision}
    (hreach : ((system hash subscribers).restrict (Settled hash)).Reachable c) : c.Kept := by
  refine hreach.invariant (fun c hinit => hinit ▸ .start subscribers)
    fun c move c' _ h ⟨hst, hsettled⟩ => ?_
  replace hst : next hash c move = some c' := hst
  cases move with
  | post msg =>
      simp only [next] at hst
      split at hst
      · cases hst
      · cases hst
        refine h.go (List.forall₂_same.mpr fun t _ => .refl t) fun n device hmem => .inl ?_
        exact (List.mem_append.mp hmem).resolve_right fun hlast => by simp at hlast
  | serve delivers =>
      simp only [next] at hst
      split at hst
      · cases hst
      · next source msg rest hinbox =>
          split at hst
          · next server out hrecv =>
              cases hst
              exact h.serve hinbox hsettled (DeviceServer.handled_of_recv hrecv)
          · cases hst
  | deliver sender msg =>
      simp only [next] at hst
      split at hst
      · cases hst
        exact h.send sender _
      · cases hst
  | preStart sender =>
      obtain ⟨t', hstart, rfl⟩ := Option.map_eq_some_iff.mp hst
      obtain ⟨t, ht, hstart⟩ := Option.bind_eq_some_iff.mp hstart
      exact h.go (forall₂_set .refl ht (SenderTask.goes_preStart hstart)) fun _ _ => .inl
  | fire sender =>
      obtain ⟨t', hfire, rfl⟩ := Option.map_eq_some_iff.mp hst
      obtain ⟨t, ht, hfire⟩ := Option.bind_eq_some_iff.mp hfire
      exact h.go (forall₂_set .refl ht (SenderTask.goes_fire hfire)) fun _ _ => .inl
  | run sender suspects =>
      obtain ⟨⟨t', reports⟩, hrun, rfl⟩ := Option.map_eq_some_iff.mp hst
      obtain ⟨t, ht, hrun⟩ := Option.bind_eq_some_iff.mp hrun
      obtain ⟨hgoes, hdowned⟩ := SenderTask.run_downed hrun
      refine h.go (forall₂_set .refl ht hgoes) fun n device hmem => ?_
      rcases List.mem_append.mp hmem with hmem | hmem
      · exact .inl hmem
      · obtain ⟨msg, hmsg, heq⟩ := List.mem_map.mp hmem
        cases heq
        obtain ⟨hcharge, hmay, hreported⟩ := hdowned device hmsg
        exact .inr ⟨t, t', ht, getElem?_set_of_some t' ht, hcharge, hmay, hreported⟩

/-- A report of a sender that was dropped finds no sender of the device. -/
theorem Kept.none_of_report {c : Supervision} (h : c.Kept) {sender : Nat} {device : Device}
    (hreport : (some sender, .downedDevice device) ∈ c.inbox)
    (hdropped : c.server.senderOf device ≠ some sender) : c.server.senderOf device = none := by
  obtain ⟨t, ht, rfl, -⟩ := h.reports sender device hreport
  cases hcurrent : c.server.senderOf t.actor.charge with
  | none => rfl
  | some current =>
      have hne : current ≠ sender := fun heq => hdropped (heq ▸ hcurrent)
      exact absurd (.inl hreport) (h.quiet sender t current ht hcurrent hne)

/-- The report of a sender that was dropped hurts exactly when the device has
another sender. -/
theorem unhurt_iff {hash : Device → UInt64} {c : Supervision} {sender : Nat} {device : Device}
    {rest : List (Option Nat × DeviceServerMsg)}
    (hinbox : c.inbox = (some sender, .downedDevice device) :: rest)
    (hdropped : c.server.senderOf device ≠ some sender) :
    c.Unhurt hash ↔ c.server.senderOf device = none := by
  constructor
  · intro hunhurt
    cases hcurrent : c.server.senderOf device with
    | none => rfl
    | some current =>
        obtain ⟨ic, hstate, hsender⟩ := DeviceServer.inCluster_of_senderOf hcurrent
        obtain ⟨-, hterm⟩ := (hunhurt sender device rest hinbox hdropped (fun _ => true) _ _
          (DeviceServer.recv_downedDevice hash _ hstate device)).1 device current hcurrent
        refine absurd (List.mem_append_left _ ?_) hterm
        simp only [InCluster.removeDevice, hsender]
        exact List.mem_cons_self
  · intro hnone sender' device' rest' hinbox' _ delivers server out hrecv
    rw [hinbox] at hinbox'
    cases hinbox'
    simp only [DeviceServer.recv] at hrecv
    split at hrecv
    · next ic hstate =>
        have hreq : ic.reqSenders[device]? = none :=
          (DeviceServer.senderOf_of_inCluster hstate device).symm.trans hnone
        simp only [InCluster.removeDevice, hreq] at hrecv
        cases hrecv
        refine ⟨fun device' current hcurrent => ⟨?_, by simp⟩, fun _ current hcurrent => ?_⟩
        · exact (DeviceServer.senderOf_of_inCluster hstate device').symm.trans hcurrent
        · rw [hnone] at hcurrent
          cases hcurrent
    · cases hrecv

/-- While every sender is started when no earlier one of its device may report, a
sender that was dropped hurts no other one. -/
theorem unhurt_of_settled (hash : Device → UInt64) (subscribers : List Nat) {c : Supervision}
    (hreach : ((system hash subscribers).restrict (Settled hash)).Reachable c) :
    c.Unhurt hash := by
  intro sender device rest hinbox hdropped
  have hreport : (some sender, .downedDevice device) ∈ c.inbox := hinbox ▸ List.mem_cons_self
  have hnone := (kept_of_reachable hreach).none_of_report hreport hdropped
  exact (unhurt_iff hinbox hdropped).mpr hnone sender device rest hinbox hdropped

/-- The server at port 10 and the one at port 11. -/
def here : Member := ⟨Socket.localhost 10, 1, 1⟩

def there : Member := ⟨Socket.localhost 11, 2, 1⟩

/-- The members of a cluster, as an update tells them. -/
def clusterOf (event : ClusterEvent) (members : List Member) : DeviceServerMsg :=
  .update ⟨[event], members.foldl (fun s m => s.insert m) ∅,
    members.foldl (fun ring m => ring.insert RingHash.byId m) (NodeRing.new 2)⟩

/-- Sender 0 is started; the ring gives its device to another server, and the
sender reports that it is one of several. -/
def severalSenders : List Move :=
  [.post (clusterOf (.alone here) [here]), .post (.deviceData .minimum),
    .serve fun _ => true, .serve fun _ => true,
    .post (.setHeartbeatInterval (DeviceServer.client 20) ⟨1, 50⟩), .serve fun _ => true,
    .preStart 0, .run 0 false, .run 0 false,
    .post (clusterOf (.added there) [here, there]), .serve fun _ => true,
    .deliver 0 .multipleSenders, .run 0 false]

/-- The ring gives the device back, and a new interval comes; only then does
sender 0 report the device down. -/
def lateReport : List Move :=
  severalSenders ++ [.post (clusterOf (.removed there) [here]),
    .post (.setHeartbeatInterval (DeviceServer.client 20) ⟨2, 50⟩), .fire 0, .run 0 true,
    .serve fun _ => true, .serve fun _ => true, .serve fun _ => true]

/-- The late report of sender 0 terminates sender 1, which has not reported. -/
theorem late_report_hurts : ∃ c, (system (fun _ => 2) []).Reachable c ∧
    c.inbox = [(some 0, .downedDevice (DeviceServer.client 20))] ∧
    c.server.senderOf (DeviceServer.client 20) = some 1 ∧
    ¬ c.Unhurt fun _ => 2 := by
  refine ⟨_, System.reachable_of_exec lateReport (.of_init rfl) rfl, by decide, by decide,
    fun hunhurt => ?_⟩
  obtain ⟨hkept, -⟩ := hunhurt 0 (DeviceServer.client 20) [] (by decide) (by decide)
    (fun _ => true) _ _ rfl
  exact (hkept (DeviceServer.client 20) 1 (by decide)).2 (by decide)

instance (hash : Device → UInt64) (c : Supervision) : DecidablePred (c.Settled hash)
  | .serve _ => inferInstanceAs (Decidable (∀ e ∈ c.inbox.head?, _))
  | .post _ => .isTrue trivial
  | .deliver .. => .isTrue trivial
  | .preStart _ => .isTrue trivial
  | .fire _ => .isTrue trivial
  | .run .. => .isTrue trivial

/-- The same without the new interval. -/
def reportOfDropped : List Move :=
  severalSenders ++ [.fire 0, .run 0 true, .serve fun _ => true]

theorem unhurt_of_settled_dropped : ∃ c,
    System.execWhere (Settled fun _ => 2) (next fun _ => 2) (start []) reportOfDropped = some c ∧
      c.inbox = [(some 0, .downedDevice (DeviceServer.client 20))] ∧
      c.server.senderOf (DeviceServer.client 20) ≠ some 0 ∧ c.Unhurt fun _ => 2 := by
  refine ⟨_, rfl, by decide, by decide, unhurt_of_settled (fun _ => 2) [] ?_⟩
  exact System.reachable_of_execWhere reportOfDropped (.of_init rfl) rfl

end Supervision

end AurumActors.Devices
