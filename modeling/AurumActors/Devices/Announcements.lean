/-
  Devices/Announcements.lean --- where the intervals of the devices come from.

  Every device runs its client.  Every server runs its device server with its
  senders, and a node of the replicated table.  Intervals go from the clients to
  the servers, from there to the senders and into the tables, between the tables,
  and back to the servers.  A packet that was ever sent may arrive any number of
  times, or never, and a table may tell its server any data that it has had.

  Scope disclosure: a client handles any `IntervalAck`, since no server sends one,
  and what it then takes its server to have is not traced.
-/
import AurumActors.Crdt.Exactness
import AurumActors.Devices.ClientRuns
import AurumActors.Devices.DeltaState
import AurumActors.Devices.Intervals
import AurumActors.Devices.Retired

set_option autoImplicit false
set_option linter.dupNamespace false

namespace AurumActors.Devices

open Std
open AurumActors.Core AurumActors.Cluster AurumActors.Foundation AurumActors.Crdt

attribute [local instance] lexOrd

/-! ## Known intervals

`K d j` says that `j` is known to be an interval of the device `d`. -/

section Known

variable (K : Device → DeviceInterval → Prop)

/-- The intervals in a table are known. -/
def Devices.Known (x : Devices) : Prop :=
  ∀ d e j, x.states[d]? = some e → e.interval = some j → K d j

def DeviceMutator.Known : DeviceMutator → Prop
  | .put d j => K d j
  | .remove _ => True

def DeviceServerMsg.Known : DeviceServerMsg → Prop
  | .setHeartbeatInterval d j => K d j
  | .deviceData x => x.Known K
  | .update _ | .subscribe _ | .amISender _ | .downedDevice _ => True

/-- The intervals that a server sends out are known. -/
def Output.Known : Output → Prop
  | .mutate op => op.Known K
  | .charges _ _ x => x.Known K
  | .forward _ d j => K d j
  | .spawn _ d j => K d j
  | .interval .. | .term _ => True

def State.Known : State → Prop
  | .inCluster ic => ic.devices.Known K
  | .waiting w => ∀ x ∈ w.devices, x.Known K

/-- A sender has and is sent known intervals of its device. -/
def SenderTask.Known (t : SenderTask) : Prop :=
  K t.actor.charge t.actor.interval ∧ ∀ j, .msg (.interval j) ∈ t.inbox → K t.actor.charge j

/-- What holds of a server, its channel and its senders. -/
structure Supervision.Known (c : Supervision) : Prop where
  inbox : ∀ e ∈ c.inbox, e.2.Known K
  state : c.server.state.Known K
  count : c.server.common.spawned = c.senders.length
  /-- the sender of a device is a task for it -/
  current : ∀ device n, c.server.senderOf device = some n →
    ∃ t, c.senders[n]? = some t ∧ t.actor.charge = device
  senders : ∀ t ∈ c.senders, t.Known K

end Known

variable {K : Device → DeviceInterval → Prop}

/-! ### Tables -/

theorem Devices.known_minimum : Devices.minimum.Known K := by
  intro d e j he
  rw [Devices.minimum, ExtTreeMap.getElem?_empty] at he
  cases he

theorem Devices.known_unit {dev : Device} {e : DeviceEntry} (h : ∀ j, e.interval = some j → K dev j) :
    (Devices.unit dev e).Known K := by
  intro d e' j he' hj
  rw [Devices.getElem?_unit] at he'
  split at he'
  · next hd =>
      cases he'
      rw [hd]
      exact h j hj
  · cases he'

/-- The greater of two entries is one of them. -/
theorem Devices.known_join {x y : Devices} (hx : x.Known K) (hy : y.Known K) :
    (x.join y).Known K := by
  intro d e j he hj
  rw [Devices.getElem?_join] at he
  cases hxd : x.states[d]? with
  | none =>
      rw [hxd, Option.merge_none_left] at he
      exact hy d e j he hj
  | some ex =>
      cases hyd : y.states[d]? with
      | none =>
          rw [hxd, hyd, Option.merge_none_right] at he
          exact hx d e j (hxd.trans he) hj
      | some ey =>
          rw [hxd, hyd] at he
          obtain rfl : max ex ey = e := Option.some.inj he
          rcases max_choice ex ey with hmax | hmax
          · exact hx d ex j hxd (hmax ▸ hj)
          · exact hy d ey j hyd (hmax ▸ hj)

theorem keptByJoins_known : KeptByJoins (S := Devices) (Devices.Known K) where
  minimum := Devices.known_minimum
  join _ _ := Devices.known_join

/-- The delta of an operation has its interval only. -/
theorem DeviceMutator.known_apply {op : DeviceMutator} (h : op.Known K) (x : Devices) :
    (op.apply x).Known K := by
  unfold DeviceMutator.apply
  split
  · split
    · split
      · exact Devices.known_unit fun j hj => Option.some.inj hj ▸ h
      · exact Devices.known_minimum
    · exact Devices.known_unit fun j hj => Option.some.inj hj ▸ h
  · split
    · split
      · exact Devices.known_unit fun j hj => by cases hj
      · exact Devices.known_minimum
    · exact Devices.known_minimum

/-! ### Servers -/

namespace DeviceServer

variable {hash : Device → UInt64} {delivers : Nat → Bool} {s s' : DeviceServer}
  {msg : DeviceServerMsg} {out : List Output}

theorem known_publish {ic : InCluster} (h : ic.devices.Known K) (delivers : Nat → Bool)
    (common : Common) :
    ∀ o ∈ (ic.publish delivers common).2, o.Known K := by
  intro o ho
  obtain ⟨subr, -, rfl⟩ := List.mem_map.mp ho
  exact h

theorem known_published {state : State} (h : state.Known K) {common : Common}
    (heq : published delivers common state = (s', out)) :
    s'.state.Known K ∧ ∀ o ∈ out, o.Known K := by
  unfold published at heq
  split at heq
  · cases heq
    exact ⟨h, known_publish h delivers common⟩
  · cases heq
    exact ⟨h, by simp⟩

theorem known_toIc {w : Waiting} (h : ∀ x ∈ w.devices, x.Known K) : w.toIc.Known K := by
  unfold Waiting.toIc
  split
  · exact h _ rfl
  · exact h

theorem known_removeDevice {ic : InCluster} (h : ic.devices.Known K) (common : Common)
    (device : Device) : (ic.removeDevice delivers common device).1.devices.Known K ∧
      ∀ o ∈ (ic.removeDevice delivers common device).2.2, o.Known K := by
  unfold InCluster.removeDevice
  split
  · refine ⟨h, fun o ho => ?_⟩
    rcases List.mem_cons.mp ho with rfl | ho
    · trivial
    · exact known_publish (by exact h) _ _ o ho
  · exact ⟨h, by simp⟩

/-- A server that knows the intervals it is told passes on known intervals. -/
theorem known_recv (h : s.recv hash delivers msg = .ok (s', out)) (hs : s.state.Known K)
    (hmsg : msg.Known K) : s'.state.Known K ∧ ∀ o ∈ out, o.Known K := by
  cases msg with
  | setHeartbeatInterval device interval =>
      have hinterval : K device interval := hmsg
      simp only [recv] at h
      split at h
      · cases h
        exact ⟨hs, by simp⟩
      · next ic hstate =>
          rw [hstate] at hs
          split at h
          · cases h
          · split at h
            · cases h
              rw [hstate]
              refine ⟨hs, fun o ho => ?_⟩
              rcases List.mem_pair.mp ho with rfl | rfl
              · exact hinterval
              · trivial
            · split at h
              · cases h
                refine ⟨hs, fun o ho => ?_⟩
                rcases List.mem_append.mp ho with ho | ho
                · simp only [List.mem_cons, List.not_mem_nil, or_false] at ho
                  rcases ho with rfl | rfl | rfl
                  · exact hinterval
                  · exact hinterval
                  · trivial
                · exact known_publish (by exact hs) _ _ o ho
              · cases h
                rw [hstate]
                refine ⟨hs, fun o ho => ?_⟩
                rw [List.mem_singleton.mp ho]
                exact hinterval
  | update update =>
      simp only [recv] at h
      split at h
      · next ic hstate =>
          cases h
          rw [hstate] at hs
          exact ⟨hs, by simp⟩
      · next w hstate =>
          rw [hstate] at hs
          exact known_published (known_toIc (by exact hs)) (Except.ok.inj h)
  | deviceData devices =>
      have hdevices : devices.Known K := hmsg
      simp only [recv] at h
      split at h
      · refine known_published (known_toIc fun x hx => ?_) (Except.ok.inj h)
        exact Option.some.inj hx ▸ hdevices
      · exact known_published (by exact hdevices) (Except.ok.inj h)
  | subscribe subr =>
      cases h
      refine ⟨hs, fun o ho => ?_⟩
      split at ho
      · next ic hstate =>
          rw [hstate] at hs
          rw [List.mem_singleton.mp ho]
          exact hs
      · cases ho
  | amISender device =>
      simp only [recv] at h
      split at h
      · next ic hstate =>
          split at h
          · cases h
            exact ⟨hs, by simp⟩
          · cases h
            rw [hstate] at hs
            exact known_removeDevice hs s.common device
      · cases h
  | downedDevice device =>
      simp only [recv] at h
      split at h
      · next ic hstate =>
          cases h
          rw [hstate] at hs
          obtain ⟨hdevices, hout⟩ := known_removeDevice hs s.common device
          refine ⟨hdevices, fun o ho => ?_⟩
          rcases List.mem_append.mp ho with ho | ho
          · exact hout o ho
          · rw [List.mem_singleton.mp ho]
            trivial
      · cases h

end DeviceServer

/-! ### Senders -/

namespace SenderTask

theorem Known.send {t : SenderTask} (h : t.Known K) {msg : LocalActorMsg HBReqSenderMsg}
    (hmsg : ∀ j, msg = .msg (.interval j) → K t.actor.charge j) : (t.send msg).Known K := by
  unfold SenderTask.send
  split
  · exact h
  · refine ⟨h.1, fun j hj => ?_⟩
    rcases List.mem_append.mp hj with hj | hj
    · exact h.2 j hj
    · exact hmsg j (List.mem_singleton.mp hj).symm

theorem charge_send (t : SenderTask) (msg : LocalActorMsg HBReqSenderMsg) :
    (t.send msg).actor.charge = t.actor.charge := by
  unfold SenderTask.send
  split <;> rfl

/-- A sender takes the interval of a message, or keeps its own. -/
theorem Known.run {suspects : Bool} {t t' : SenderTask} {reports : List DeviceServerMsg}
    (h : t.Known K) (hrun : t.run suspects = some (t', reports)) : t'.Known K := by
  unfold SenderTask.run at hrun
  split at hrun
  · split at hrun
    · cases hrun
    · cases hrun
      exact ⟨h.1, by simp⟩
    · next msg rest hinbox =>
        cases hrun
        refine ⟨?_, fun j hj => ?_⟩
        · change K (t.actor.recv suspects msg).1.charge (t.actor.recv suspects msg).1.interval
          rw [HBReqSender.recv_charge, HBReqSender.recv_interval]
          cases msg with
          | interval j =>
              refine h.2 j ?_
              rw [hinbox]
              exact List.mem_cons_self
          | _ => exact h.1
        · change K (t.actor.recv suspects msg).1.charge j
          rw [HBReqSender.recv_charge]
          refine h.2 j ?_
          rw [hinbox]
          exact List.mem_cons_of_mem _ hj
  · cases hrun

/-- A sender sends reports only. -/
theorem isReport_of_recv {suspects : Bool} {s : HBReqSender} {msg : HBReqSenderMsg}
    {report : DeviceServerMsg}
    (h : report ∈ (s.recv suspects msg).2.filterMap SenderOutput.report?) :
    report.isReport = true := by
  cases msg with
  | tick =>
      cases suspects with
      | true => rw [List.mem_singleton.mp h]; rfl
      | false => cases h
  | interval | heartbeat => cases h
  | multipleSenders => rw [List.mem_singleton.mp h]; rfl

theorem isReport_of_run {suspects : Bool} {t t' : SenderTask} {reports : List DeviceServerMsg}
    (hrun : t.run suspects = some (t', reports)) : ∀ msg ∈ reports, msg.isReport = true := by
  unfold SenderTask.run at hrun
  split at hrun
  · split at hrun
    · cases hrun
    · cases hrun
      simp
    · cases hrun
      exact fun report hreport => isReport_of_recv hreport
  · cases hrun

/-- What a sender reports names no interval. -/
theorem known_of_isReport {msg : DeviceServerMsg} (h : msg.isReport = true) : msg.Known K := by
  cases msg with
  | amISender | downedDevice => trivial
  | _ => cases h

end SenderTask

/-! ### A server and its senders -/

namespace Supervision

/-- What the server does outside in a move. -/
def outputs (hash : Device → UInt64) (c : Supervision) : Move → List Output
  | .serve delivers =>
      match c.inbox with
      | [] => []
      | (_, msg) :: _ =>
          match c.server.recv hash delivers msg with
          | .ok (_, out) => out
          | .error _ => []
  | _ => []

variable {hash : Device → UInt64} {c c' : Supervision}

theorem Known.start (subscribers : List Nat) : (start subscribers).Known K where
  inbox _ he := by cases he
  state _ hx := by cases hx
  count := rfl
  current _ _ hn := by cases hn
  senders _ ht := by cases ht

/-- The tasks go on. -/
theorem Known.go (h : c.Known K) {senders : List SenderTask}
    (hgo : List.Forall₂ (fun t t' => t'.actor.charge = t.actor.charge) c.senders senders)
    (hsenders : ∀ t ∈ senders, t.Known K) {inbox : List (Option Nat × DeviceServerMsg)}
    (hinbox : ∀ e ∈ inbox, e ∈ c.inbox ∨ e.2.Known K) :
    Supervision.Known K { c with senders, inbox } where
  inbox e he := (hinbox e he).elim (h.inbox e) id
  state := h.state
  count := h.count.trans hgo.length_eq
  current device n hn := by
    obtain ⟨t, ht, hcharge⟩ := h.current device n hn
    obtain ⟨t', ht', heq⟩ := exists_after hgo ht
    exact ⟨t', ht', heq.trans hcharge⟩
  senders := hsenders

theorem mem_set_cases {α : Type} {xs : List α} {n : Nat} {a x : α} (h : x ∈ xs.set n a) :
    x = a ∨ x ∈ xs := (List.mem_or_eq_of_mem_set h).symm

/-- One task goes on. -/
theorem Known.set (h : c.Known K) {n : Nat} {t t' : SenderTask} (ht : c.senders[n]? = some t)
    (hcharge : t'.actor.charge = t.actor.charge) (hknown : t'.Known K)
    {inbox : List (Option Nat × DeviceServerMsg)}
    (hinbox : ∀ e ∈ inbox, e ∈ c.inbox ∨ e.2.Known K) :
    Supervision.Known K { c with senders := c.senders.set n t', inbox } := by
  refine h.go (forall₂_set (fun _ => rfl) ht hcharge) (fun u hu => ?_) hinbox
  rcases mem_set_cases hu with rfl | hu
  · exact hknown
  · exact h.senders u hu

theorem Known.send (h : c.Known K) {n : Nat} {msg : LocalActorMsg HBReqSenderMsg}
    (hmsg : ∀ t, c.senders[n]? = some t → ∀ j, msg = .msg (.interval j) → K t.actor.charge j) :
    (c.send n msg).Known K := by
  cases ht : c.senders[n]? with
  | none =>
      have hsame : c.send n msg = c := by
        have hlen : c.senders.length ≤ n := List.getElem?_eq_none_iff.mp ht
        unfold Supervision.send
        rw [List.modify_eq_self hlen]
      rw [hsame]
      exact h
  | some t =>
      unfold Supervision.send
      rw [modify_of_some _ ht]
      have ht' : t ∈ c.senders := List.mem_of_getElem? ht
      exact h.set ht (t.charge_send msg) ((h.senders t ht').send (hmsg t ht)) fun _ => .inl

/-- The server goes on and starts no sender. -/
theorem Known.same (h : c.Known K) {server : DeviceServer} (hstate : server.state.Known K)
    (hsender : ∀ device n, server.senderOf device = some n → c.server.senderOf device = some n)
    (hcount : server.common.spawned = c.server.common.spawned) :
    Supervision.Known K { c with server } where
  inbox := h.inbox
  state := hstate
  count := hcount.trans h.count
  current device n hn := h.current device n (hsender device n hn)
  senders := h.senders

/-- The server starts a sender with a known interval of the device. -/
theorem Known.spawn (h : c.Known K) {server : DeviceServer} {device : Device}
    {interval : DeviceInterval} (hknown : K device interval) (hstate : server.state.Known K)
    (hsender : ∀ device', server.senderOf device' =
      if device' = device then some c.senders.length else c.server.senderOf device')
    (hcount : server.common.spawned = c.server.common.spawned + 1) :
    Supervision.Known K { c with server, senders := c.senders ++ [.new device interval] } where
  inbox := h.inbox
  state := hstate
  count := by
    rw [List.length_append, List.length_singleton, ← h.count]
    exact hcount
  current device' n hn := by
    replace hn : server.senderOf device' = some n := hn
    rw [hsender] at hn
    split at hn
    · next heq =>
        cases hn
        exact ⟨_, List.getElem?_concat_length, heq.symm⟩
    · obtain ⟨t, ht, hcharge⟩ := h.current device' n hn
      exact ⟨t, getElem?_concat_of_some _ ht, hcharge⟩
  senders t ht := by
    rcases List.mem_append.mp ht with ht | ht
    · exact h.senders t ht
    · rw [List.mem_singleton.mp ht]
      exact ⟨hknown, by simp [SenderTask.new]⟩

theorem Known.serve {delivers : Nat → Bool} {source : Option Nat} {msg : DeviceServerMsg}
    {rest : List (Option Nat × DeviceServerMsg)} {server : DeviceServer} {out : List Output}
    (h : c.Known K) (hinbox : c.inbox = (source, msg) :: rest)
    (hrecv : c.server.recv hash delivers msg = .ok (server, out)) :
    (c.serve rest server out).Known K := by
  have hmsg : msg.Known K := h.inbox (source, msg) (hinbox ▸ List.mem_cons_self)
  obtain ⟨hstate', -⟩ := DeviceServer.known_recv hrecv h.state hmsg
  have htake : Supervision.Known K { c with inbox := rest } :=
    h.go (List.forall₂_same.mpr fun _ _ => rfl) h.senders fun e he =>
      .inl (hinbox ▸ List.mem_cons_of_mem _ he)
  cases DeviceServer.handled_of_recv hrecv with
  | waits w' hstate =>
      refine htake.same hstate' (fun device n hn => ?_) rfl
      rw [DeviceServer.senderOf_of_waiting rfl] at hn
      cases hn
  | enters member nodes ring devices hstate =>
      rw [Supervision.serve, foldl_perform_publish]
      refine htake.same hstate' (fun device n hn => ?_) rfl
      rw [DeviceServer.senderOf_of_inCluster rfl] at hn
      simp [InCluster.start] at hn
  | @told ic device sender interval hstate hsender =>
      refine htake.send fun t ht j hj => ?_
      cases hj
      have hcurrent : c.server.senderOf device = some sender :=
        (DeviceServer.senderOf_of_inCluster hstate device).trans hsender
      obtain ⟨u, hu, rfl⟩ := h.current device sender hcurrent
      obtain rfl : u = t := Option.some.inj (hu.symm.trans ht)
      exact hmsg
  | @spawns ic device interval ic' hstate hnone hmanager hic' =>
      rw [Supervision.serve, List.foldl_append, foldl_perform_publish]
      have hspawn := htake.spawn hmsg hstate'
        (DeviceServer.senderOf_insert hstate (by rw [hic', h.count]) _) rfl
      refine hspawn.send fun t ht j hj => ?_
      cases hj
      have hnew : (c.senders ++ [SenderTask.new device interval])[c.senders.length]? =
          some (.new device interval) := List.getElem?_concat_length
      rw [h.count] at ht
      obtain rfl : SenderTask.new device interval = t := Option.some.inj (hnew.symm.trans ht)
      exact hmsg
  | forwards | keeps => exact htake
  | updates update member hstate =>
      refine htake.same hstate' (fun device n hn => ?_) rfl
      exact (DeviceServer.senderOf_of_inCluster hstate device).trans hn
  | data devices hstate =>
      rw [Supervision.serve, foldl_perform_publish]
      refine htake.same hstate' (fun device n hn => ?_) rfl
      exact (DeviceServer.senderOf_of_inCluster hstate device).trans hn
  | subscribes subr _ hwaiting hinside =>
      have hout : ∀ o ∈ out, ∀ c, perform c o = c := by
        intro o ho c'
        cases hstate : c.server.state with
        | waiting w =>
            rw [hwaiting w hstate] at ho
            cases ho
        | inCluster ic =>
            rw [hinside ic hstate] at ho
            rw [List.mem_singleton.mp ho]
            rfl
      rw [Supervision.serve, foldl_perform hout]
      exact htake.same hstate' (fun _ _ => id) rfl
  | @removes ic _ device sender ic' hstate hdrops hsender hic' =>
      rw [Supervision.serve, List.foldl_append, List.foldl_cons, foldl_perform_publish,
        foldl_perform_removalOf]
      have hsenders : ic'.reqSenders = ic.reqSenders.erase device := by rw [hic']
      have hterm : (Supervision.send { c with inbox := rest } sender .term).Known K :=
        htake.send fun t ht j hj => by cases hj
      refine hterm.same hstate' (fun device' n hn => ?_) rfl
      rw [DeviceServer.senderOf_erase hstate hsenders] at hn
      split at hn
      · cases hn
      · exact hn
  | absent =>
      rw [Supervision.serve, foldl_perform_removalOf]
      exact htake

/-- A move keeps the intervals known, if a message from outside names a known one. -/
theorem Known.next {move : Move} (h : c.Known K) (hst : next hash c move = some c')
    (hpost : ∀ msg, move = .post msg → msg.Known K) :
    c'.Known K ∧ ∀ o ∈ c.outputs hash move, o.Known K := by
  cases move with
  | post msg =>
      simp only [Supervision.next] at hst
      split at hst
      · cases hst
      · cases hst
        refine ⟨h.go (List.forall₂_same.mpr fun _ _ => rfl) h.senders fun e he => ?_,
          by simp [outputs]⟩
        rcases List.mem_append.mp he with he | he
        · exact .inl he
        · rw [List.mem_singleton.mp he]
          exact .inr (hpost msg rfl)
  | serve delivers =>
      simp only [Supervision.next] at hst
      split at hst
      · cases hst
      · next source msg rest hinbox =>
          split at hst
          · next server out hrecv =>
              cases hst
              refine ⟨h.serve hinbox hrecv, fun o ho => ?_⟩
              simp only [outputs, hinbox, hrecv] at ho
              have hmsg : msg.Known K := h.inbox (source, msg) (hinbox ▸ List.mem_cons_self)
              exact (DeviceServer.known_recv hrecv h.state hmsg).2 o ho
          · cases hst
  | deliver sender msg =>
      simp only [Supervision.next] at hst
      split at hst
      · next hremote =>
          cases hst
          refine ⟨h.send fun t ht j hj => ?_, by simp [outputs]⟩
          obtain rfl : msg = .interval j := LocalActorMsg.msg.inj hj
          cases hremote
      · cases hst
  | preStart sender =>
      obtain ⟨t', hstart, rfl⟩ := Option.map_eq_some_iff.mp hst
      obtain ⟨t, ht, hstart⟩ := Option.bind_eq_some_iff.mp hstart
      refine ⟨?_, by simp [outputs]⟩
      unfold SenderTask.preStart at hstart
      split at hstart
      · cases hstart
      · cases hstart
        have hknown : SenderTask.Known K { t with started := true } :=
          h.senders t (List.mem_of_getElem? ht)
        have hsent : (SenderTask.send { t with started := true } (.msg .tick)).Known K :=
          hknown.send fun j hj => by cases hj
        exact h.set ht (SenderTask.charge_send { t with started := true } _) hsent fun _ => .inl
  | fire sender =>
      obtain ⟨t', hfire, rfl⟩ := Option.map_eq_some_iff.mp hst
      obtain ⟨t, ht, hfire⟩ := Option.bind_eq_some_iff.mp hfire
      refine ⟨?_, by simp [outputs]⟩
      unfold SenderTask.fire at hfire
      split at hfire
      · cases hfire
      · cases hfire
        have hknown : SenderTask.Known K { t with scheduled := t.scheduled - 1 } :=
          h.senders t (List.mem_of_getElem? ht)
        have hsent : (SenderTask.send { t with scheduled := t.scheduled - 1 } (.msg .tick)).Known K :=
          hknown.send fun j hj => by cases hj
        exact h.set ht (SenderTask.charge_send { t with scheduled := t.scheduled - 1 } _) hsent fun _ => .inl
  | run sender suspects =>
      obtain ⟨⟨t', reports⟩, hrun, rfl⟩ := Option.map_eq_some_iff.mp hst
      obtain ⟨t, ht, hrun⟩ := Option.bind_eq_some_iff.mp hrun
      refine ⟨?_, by simp [outputs]⟩
      refine h.set ht (SenderTask.run_downed hrun).1.charge
        ((h.senders t (List.mem_of_getElem? ht)).run hrun) fun e he => ?_
      rcases List.mem_append.mp he with he | he
      · exact .inl he
      · obtain ⟨msg, hmsg, rfl⟩ := List.mem_map.mp he
        exact .inr (SenderTask.known_of_isReport (SenderTask.isReport_of_run hrun msg hmsg))

end Supervision

/-! ### More becomes known -/

section Mono

variable {K' : Device → DeviceInterval → Prop} (hK : ∀ d j, K d j → K' d j)

include hK

theorem Devices.Known.mono {x : Devices} (h : x.Known K) : x.Known K' :=
  fun d e j he hj => hK d j (h d e j he hj)

theorem DeviceMutator.Known.mono {op : DeviceMutator} (h : op.Known K) : op.Known K' := by
  cases op with
  | put d j => exact hK d j h
  | remove d => trivial

theorem DeviceServerMsg.Known.mono {msg : DeviceServerMsg} (h : msg.Known K) : msg.Known K' := by
  cases msg with
  | setHeartbeatInterval d j => exact hK d j h
  | deviceData x => exact Devices.Known.mono hK h
  | _ => trivial

theorem Supervision.Known.mono {c : Supervision} (h : c.Known K) : c.Known K' where
  inbox e he := (h.inbox e he).mono hK
  state := by
    have hstate := h.state
    cases hs : c.server.state with
    | inCluster ic =>
        rw [hs] at hstate
        exact Devices.Known.mono hK hstate
    | waiting w =>
        rw [hs] at hstate
        exact fun x hx => (hstate x hx).mono hK
  count := h.count
  current := h.current
  senders t ht := ⟨hK _ _ (h.senders t ht).1, fun j hj => hK _ _ ((h.senders t ht).2 j hj)⟩

end Mono

/-! ### Tables in the network -/

/-- All data, and all operations that wait, in the tables are known. -/
structure TablesKnown {ι : Type} (K : Device → DeviceInterval → Prop) (w : Net ι Devices) : Prop where
  supports : w.Supports (Devices.Known K)
  queued : ∀ i q, (w.node i).state = .waiting q → ∀ op ∈ q.opsQueue, DeviceMutator.Known K op

theorem TablesKnown.start {ι : Type} (preference : ι → DispersalPreference) :
    TablesKnown K (Net.start preference) where
  supports := Net.supports_start preference _
  queued i q hq op hop := by
    cases hq
    cases hop

/-- The operations that wait come from before or are the one that is handled. -/
theorem queue_of_handled {a a' : CausalDisperse Devices} {msg : CausalMsg Devices}
    {out : List (Crdt.Output Devices)} (h : CausalDisperse.Handled a msg a' out)
    {q : Crdt.Waiting Devices} (hq : a'.state = .waiting q) :
    ∃ q₀, a.state = .waiting q₀ ∧ ∀ op ∈ q.opsQueue, op ∈ q₀.opsQueue ∨ msg = .mutate op := by
  cases h with
  | «prefer» p p' state => exact ⟨q, hq, fun _ => .inl⟩
  | queue p w op =>
      cases hq
      refine ⟨w, rfl, fun op' hop => ?_⟩
      rcases List.mem_append.mp hop with hop | hop
      · exact .inl hop
      · rw [List.mem_singleton.mp hop]
        exact .inr rfl
  | ignore p w msg hmsg => exact ⟨q, hq, fun _ => .inl⟩
  | _ => cases hq

theorem known_foldl_apply {ops : List DeviceMutator} (h : ∀ op ∈ ops, op.Known K) {x : Devices}
    (hx : x.Known K) : (ops.foldl (fun data op => data.join (op.apply data)) x).Known K := by
  induction ops generalizing x with
  | nil => exact hx
  | cons op ops ih =>
      refine ih (fun op' hop => h op' (List.mem_cons_of_mem _ hop)) ?_
      exact Devices.known_join hx (DeviceMutator.known_apply (h op List.mem_cons_self) x)

/-- The data of every node are known. -/
theorem TablesKnown.data {ι : Type} {w : Net ι Devices} (h : TablesKnown K w) (i : ι) :
    Devices.Known K (w.node i).data := by
  unfold CausalDisperse.data
  split
  · next ic hstate => exact (h.supports.node i ic hstate).1
  · exact Devices.known_minimum

/-- A node of the table that is told known operations adds known intervals. -/
theorem TablesKnown.introduced {ι : Type} {w : Net ι Devices} (h : TablesKnown K w) (i : ι)
    {msg : CausalMsg Devices} (hmsg : ∀ op, msg = .mutate op → DeviceMutator.Known K op) :
    ((w.node i).introduced msg).Known K := by
  unfold CausalDisperse.introduced
  split
  · next op =>
      split
      · exact DeviceMutator.known_apply (hmsg op rfl) _
      · exact Devices.known_minimum
  · split
    · exact Devices.known_minimum
    · next q hstate => exact known_foldl_apply (h.queued i q hstate) Devices.known_minimum
  · exact Devices.known_minimum

theorem TablesKnown.next {ι : Type} [DecidableEq ι] {placement : Placement ι} {w w' : Net ι Devices}
    {move : Net.Move ι Devices} (h : TablesKnown K w) (hst : w.next placement move = some w')
    (hmsg : ∀ i op, move = .local i (.mutate op) → DeviceMutator.Known K op) : TablesKnown K w' := by
  obtain ⟨harr, a, out, hrecv, rfl⟩ := Issuing.recv_of_next hst
  have hhandled := CausalDisperse.handled_of_recv hrecv
  have hops : ∀ op, Issuing.message move = .mutate op → DeviceMutator.Known K op := by
    intro op hop
    cases move with
    | «local» i msg =>
        obtain rfl : msg = .mutate op := hop
        exact hmsg i op rfl
    | deliver => cases hop
  refine ⟨h.supports.step keptByJoins_known harr hhandled (h.introduced _ hops), fun i q hq => ?_⟩
  by_cases hi : i = Issuing.actor move
  · subst hi
    simp only [Function.update_self] at hq
    obtain ⟨q₀, hq₀, hcases⟩ := queue_of_handled hhandled hq
    exact fun op hop => (hcases op hop).elim (h.queued _ q₀ hq₀ op) (hops op)
  · simp only [Function.update_of_ne hi] at hq
    exact h.queued i q hq

/-! ## Clients, servers and tables -/

/-- The packet in which a client announces its interval. -/
def ClientOutput.packet? : ClientOutput → Option (Socket × Device × DeviceInterval)
  | .setHeartbeatInterval dest device interval => some (dest, device, interval)
  | _ => none

/-- The packet in which a server passes an interval on. -/
def Output.packet? : Output → Option (Socket × Device × DeviceInterval)
  | .forward dest device j => some (dest, device, j)
  | _ => none

structure Subsystem (ι : Type) where
  client : Device → DeviceClient
  /-- the intervals that a client has announced, in order -/
  announced : Device → List DeviceInterval
  server : ι → Supervision
  table : Net ι Devices
  /-- what a server has told its table -/
  ops : ι → List DeviceMutator
  /-- the data that a table has had -/
  had : ι → List Devices
  /-- every `SetHeartbeatInterval` ever sent, with its destination -/
  sent : List (Socket × Device × DeviceInterval)

namespace Subsystem

variable {ι : Type}

inductive Move (ι : Type) where
  /-- `pre_start` of a client -/
  | begin (device : Device)
  /-- a client handles a message -/
  | client (device : Device) (msg : DeviceClientMsg) (delivers : Nat → Bool) (fuel now : Nat)
  | server (i : ι) (move : Supervision.Move)
  | table (move : Net.Move ι Devices)

/-- The state after client `device` has gone on to `c`. -/
def announce (s : Subsystem ι) (device : Device) (c : DeviceClient) (out : List ClientOutput) :
    Subsystem ι :=
  { s with
    client := Function.update s.client device c
    announced := Function.update s.announced device
      (s.announced device ++ out.filterMap ClientOutput.announced?)
    sent := s.sent ++ out.filterMap ClientOutput.packet? }

section Moves

variable [DecidableEq ι]

/-- A message to the server at `i` was sent there, or comes from its own node. -/
def Posts (placement : Placement ι) (s : Subsystem ι) (i : ι) : Supervision.Move → Prop
  | .post (.setHeartbeatInterval device interval) =>
      (placement.socket i, device, interval) ∈ s.sent
  | .post (.deviceData devices) => devices ∈ s.had i
  | _ => True

def Asked (s : Subsystem ι) (i : ι) (op : DeviceMutator) : Prop := op ∈ s.ops i

instance (s : Subsystem ι) (i : ι) (op : DeviceMutator) : Decidable (s.Asked i op) :=
  inferInstanceAs (Decidable (op ∈ s.ops i))

/-- Operations come from the server. -/
def Asks (s : Subsystem ι) : Net.Move ι Devices → Prop
  | .local i (.mutate op) => s.Asked i op
  | _ => True

instance (placement : Placement ι) (s : Subsystem ι) (i : ι) :
    DecidablePred (s.Posts placement i)
  | .post (.setHeartbeatInterval device interval) =>
      inferInstanceAs (Decidable ((placement.socket i, device, interval) ∈ s.sent))
  | .post (.deviceData devices) => inferInstanceAs (Decidable (devices ∈ s.had i))
  | .post (.update _) | .post (.subscribe _) | .post (.amISender _) | .post (.downedDevice _)
  | .serve _ | .deliver .. | .preStart _ | .fire _ | .run .. => isTrue trivial

instance (s : Subsystem ι) : DecidablePred s.Asks
  | .local i (.mutate op) => inferInstanceAs (Decidable (s.Asked i op))
  | .local _ (.setDispersalPreference _) | .local _ (.intra _) | .local _ (.update _)
  | .local _ .disperseTimeout | .deliver .. => isTrue trivial

def next (hash : Device → UInt64) (checks : Bool) (suspects : IntervalStorage → Nat → Bool)
    (placement : Placement ι) (s : Subsystem ι) : Move ι → Option (Subsystem ι)
  | .begin device => some (s.announce device (s.client device) (s.client device).preStart)
  | .client device msg delivers fuel now =>
      match (s.client device).recv checks suspects delivers fuel now msg with
      | some (.ok (c, out)) => some (s.announce device c out)
      | _ => none
  | .server i move =>
      if s.Posts placement i move then
        ((s.server i).next hash move).map fun c =>
          let out := (s.server i).outputs hash move
          { s with
            server := Function.update s.server i c
            ops := Function.update s.ops i (s.ops i ++ out.filterMap Output.mutation?)
            sent := s.sent ++ out.filterMap Output.packet? }
      else none
  | .table move =>
      if s.Asks move then
        (s.table.next placement move).map fun table =>
          let i := Issuing.actor move
          { s with
            table
            had := Function.update s.had i (s.had i ++ [(table.node i).data]) }
      else none

/-- No server and no table has started, and nothing was sent. -/
def start (clients : Device → DeviceClient) (preference : ι → DispersalPreference) :
    Subsystem ι where
  client := clients
  announced _ := []
  server _ := .start []
  table := Net.start preference
  ops _ := []
  had _ := []
  sent := []

/-- The clients of all devices, the servers and the tables. -/
def system (hash : Device → UInt64) (checks : Bool) (suspects : IntervalStorage → Nat → Bool)
    (placement : Placement ι) (clients : Device → DeviceClient)
    (preference : ι → DispersalPreference) : System (Subsystem ι) (Move ι) :=
  .ofNext (start clients preference) (next hash checks suspects placement)

/-- No clock of a client wraps around, where the build does not check that. -/
def Counts (checks : Bool) (s : Subsystem ι) : Move ι → Prop
  | .client device msg _ _ _ => checks = true ∨ (s.client device).Countable msg
  | _ => True

omit [DecidableEq ι] in
instance (checks : Bool) (s : Subsystem ι) : DecidablePred (s.Counts checks)
  | .client device msg _ _ _ =>
      inferInstanceAs (Decidable (checks = true ∨ (s.client device).Countable msg))
  | .begin _ | .server _ _ | .table _ => isTrue trivial

end Moves

/-- Where an interval of a device can be, beside its client: at a server or one of
its senders, in a table, or on the way between them. -/
inductive Uses (s : Subsystem ι) (device : Device) (interval : DeviceInterval) : Prop
  | sent (dest : Socket) (h : (dest, device, interval) ∈ s.sent)
  | received (i : ι) (source : Option Nat)
      (h : (source, .setHeartbeatInterval device interval) ∈ (s.server i).inbox)
  | informed (i : ι) (source : Option Nat) (x : Devices) (e : DeviceEntry)
      (hx : (source, .deviceData x) ∈ (s.server i).inbox)
      (h : x.states[device]? = some e) (hinterval : e.interval = some interval)
  | waits (i : ι) (w : Waiting) (x : Devices) (e : DeviceEntry)
      (hstate : (s.server i).server.state = .waiting w) (hx : w.devices = some x)
      (h : x.states[device]? = some e) (hinterval : e.interval = some interval)
  | shown (i : ι) (ic : InCluster) (e : DeviceEntry)
      (hstate : (s.server i).server.state = .inCluster ic)
      (h : ic.devices.states[device]? = some e) (hinterval : e.interval = some interval)
  | used (i : ι) (t : SenderTask) (ht : t ∈ (s.server i).senders)
      (hcharge : t.actor.charge = device) (h : t.actor.interval = interval)
  | told (i : ι) (t : SenderTask) (ht : t ∈ (s.server i).senders)
      (hcharge : t.actor.charge = device) (h : .msg (.interval interval) ∈ t.inbox)
  | put (i : ι) (h : .put device interval ∈ s.ops i)
  | queued (i : ι) (q : Crdt.Waiting Devices) (hstate : (s.table.node i).state = .waiting q)
      (h : DeviceMutator.put device interval ∈ q.opsQueue)
  | tabled (i : ι) (e : DeviceEntry) (h : (s.table.node i).data.states[device]? = some e)
      (hinterval : e.interval = some interval)
  | kept (i : ι) (ic : Crdt.InCluster Devices) (delta : Devices) (e : DeviceEntry)
      (hstate : (s.table.node i).state = .inCluster ic) (hdelta : delta ∈ ic.deltas)
      (h : delta.states[device]? = some e) (hinterval : e.interval = some interval)
  | dispersed (dest : Member) (delta : Devices) (id : UInt64) (clock : Nat) (e : DeviceEntry)
      (hsent : (dest, .delta delta id clock) ∈ s.table.sent)
      (h : delta.states[device]? = some e) (hinterval : e.interval = some interval)
  | had (i : ι) (x : Devices) (e : DeviceEntry) (hx : x ∈ s.had i)
      (h : x.states[device]? = some e) (hinterval : e.interval = some interval)

/-! ### Every run -/

/-- An interval that the client of a device has announced. -/
def Announced (s : Subsystem ι) (device : Device) (interval : DeviceInterval) : Prop :=
  interval ∈ s.announced device

/-- What holds of the clients, and that all else has announced intervals. -/
structure Traced (s : Subsystem ι) : Prop where
  own : ∀ d, (s.client d).myInfo = d
  /-- the clocks go up where the interval changes -/
  ordered : ∀ d, (s.announced d).Pairwise fun i j => i = j ∨ i.clock < j.clock
  latest : ∀ d, ∀ j ∈ s.announced d,
    j = (s.client d).interval ∨ j.clock < (s.client d).interval.clock
  sent : ∀ q ∈ s.sent, s.Announced q.2.1 q.2.2
  server : ∀ i, (s.server i).Known s.Announced
  table : TablesKnown s.Announced s.table
  ops : ∀ i, ∀ op ∈ s.ops i, DeviceMutator.Known s.Announced op
  had : ∀ i, ∀ x ∈ s.had i, Devices.Known s.Announced x

theorem Traced.start {clients : Device → DeviceClient} (hown : ∀ d, (clients d).myInfo = d)
    (preference : ι → DispersalPreference) : (start clients preference).Traced where
  own := hown
  ordered _ := .nil
  latest _ _ hj := by cases hj
  sent _ hq := by cases hq
  server _ := .start []
  table := .start preference
  ops _ _ hop := by cases hop
  had _ _ hx := by cases hx

/-- A client goes on and announces its interval. -/
theorem Traced.announce {s : Subsystem ι} (h : s.Traced) (device : Device) {c : DeviceClient}
    {out : List ClientOutput} (hinfo : c.myInfo = device)
    (hinterval : c.interval = (s.client device).interval ∨
      (s.client device).interval.clock < c.interval.clock)
    (hout : ∀ dest d j, .setHeartbeatInterval dest d j ∈ out → d = device ∧ j = c.interval) :
    (s.announce device c out).Traced := by
  have hannounced : ∀ j ∈ out.filterMap ClientOutput.announced?, j = c.interval := by
    intro j hj
    obtain ⟨o, ho, heq⟩ := List.mem_filterMap.mp hj
    cases o with
    | setHeartbeatInterval dest d j' =>
        obtain rfl : j' = j := Option.some.inj heq
        exact (hout dest d j' ho).2
    | _ => cases heq
  have hbefore : ∀ j ∈ s.announced device, j = c.interval ∨ j.clock < c.interval.clock := by
    intro j hj
    rcases h.latest device j hj with rfl | hlt
    · exact hinterval.imp_left Eq.symm
    · rcases hinterval with heq | hlt'
      · exact .inr (heq ▸ hlt)
      · exact .inr (UInt64.lt_trans hlt hlt')
  have hgrows : ∀ d j, s.Announced d j → (s.announce device c out).Announced d j := by
    intro d j hj
    rcases eq_or_ne d device with rfl | hd
    · simpa only [Announced, Subsystem.announce, Function.update_self] using
        List.mem_append_left _ hj
    · simpa only [Announced, Subsystem.announce, Function.update_of_ne hd] using hj
  refine ⟨fun d => ?_, fun d => ?_, fun d j hj => ?_, fun q hq => ?_, fun i => (h.server i).mono hgrows,
    ⟨⟨fun i ic hic => ?_, fun q hq delta id clock hd => ?_⟩, fun i q hq op hop => ?_⟩,
    fun i op hop => (h.ops i op hop).mono hgrows, fun i x hx => (h.had i x hx).mono hgrows⟩
  · rcases eq_or_ne d device with rfl | hd
    · simpa only [Subsystem.announce, Function.update_self] using hinfo
    · simpa only [Subsystem.announce, Function.update_of_ne hd] using h.own d
  · rcases eq_or_ne d device with rfl | hd
    · simp only [Subsystem.announce, Function.update_self]
      refine List.pairwise_append.mpr ⟨h.ordered d, ?_, fun i hi j hj => ?_⟩
      · refine List.pairwise_iff_forall_sublist.mpr fun {i j} hsub => .inl ?_
        rw [hannounced i (hsub.subset (by simp)), hannounced j (hsub.subset (by simp))]
      · rw [hannounced j hj]
        exact hbefore i hi
    · simpa only [Subsystem.announce, Function.update_of_ne hd] using h.ordered d
  · rcases eq_or_ne d device with rfl | hd
    · simp only [Subsystem.announce, Function.update_self] at hj ⊢
      rcases List.mem_append.mp hj with hj | hj
      · exact hbefore j hj
      · exact .inl (hannounced j hj)
    · simp only [Subsystem.announce, Function.update_of_ne hd] at hj ⊢
      exact h.latest d j hj
  · rcases List.mem_append.mp hq with hq | hq
    · exact hgrows _ _ (h.sent q hq)
    · obtain ⟨o, ho, heq⟩ := List.mem_filterMap.mp hq
      cases o with
      | setHeartbeatInterval dest d j =>
          cases heq
          obtain ⟨rfl, -⟩ := hout dest d j ho
          simp only [Announced, Subsystem.announce, Function.update_self]
          exact List.mem_append_right _ (List.mem_filterMap.mpr ⟨_, ho, rfl⟩)
      | _ => cases heq
  · obtain ⟨hdata, hdeltas⟩ := h.table.supports.node i ic hic
    exact ⟨hdata.mono hgrows, fun x hx => (hdeltas x hx).mono hgrows⟩
  · exact (h.table.supports.sent q hq delta id clock hd).mono hgrows
  · exact (h.table.queued i q hq op hop).mono hgrows

/-- A move keeps the intervals announced. -/
theorem Traced.next [DecidableEq ι] {hash : Device → UInt64} {checks : Bool}
    {suspects : IntervalStorage → Nat → Bool} {placement : Placement ι} {s s' : Subsystem ι}
    {move : Move ι} (h : s.Traced) (hst : s.next hash checks suspects placement move = some s')
    (hcounts : s.Counts checks move) : s'.Traced := by
  cases move with
  | begin device =>
      cases hst
      refine h.announce device (h.own device) (.inl rfl) fun dest d j hmem => ?_
      have hnotify := (List.mem_append.mp hmem).resolve_right (by simp)
      obtain ⟨rfl, rfl⟩ := DeviceClient.of_mem_notifyServer hnotify
      exact ⟨h.own device, rfl⟩
  | client device msg delivers fuel now =>
      simp only [Subsystem.next] at hst
      split at hst
      · next c out hrecv =>
          cases hst
          have hhandled := DeviceClient.handled_of_recv ⟨fuel, hrecv⟩
          have hinfo : c.myInfo = device := hhandled.myInfo.trans (h.own device)
          refine h.announce device hinfo ?_ fun dest d j hmem => ?_
          · exact (hhandled.interval_cases hcounts).imp_right And.left
          · obtain ⟨hd, hj⟩ := hhandled.announces hmem
            exact ⟨hd.trans hinfo, hj⟩
      · cases hst
  | server i move =>
      simp only [Subsystem.next] at hst
      split at hst
      · next hposts =>
          obtain ⟨c, hc, rfl⟩ := Option.map_eq_some_iff.mp hst
          have hpost : ∀ msg, move = .post msg → msg.Known s.Announced := by
            rintro msg rfl
            cases msg with
            | setHeartbeatInterval device interval => exact h.sent _ hposts
            | deviceData devices => exact h.had i devices hposts
            | _ => trivial
          obtain ⟨hknown, hout⟩ := (h.server i).next hc hpost
          refine ⟨h.own, h.ordered, h.latest, fun q hq => ?_, fun j => ?_, h.table,
            fun j op hop => ?_, h.had⟩
          · rcases List.mem_append.mp hq with hq | hq
            · exact h.sent q hq
            · obtain ⟨o, ho, heq⟩ := List.mem_filterMap.mp hq
              cases o with
              | forward dest device interval =>
                  cases heq
                  exact hout _ ho
              | _ => cases heq
          · change (Function.update s.server i c j).Known s.Announced
            by_cases hj : j = i
            · subst hj
              rw [Function.update_self]
              exact hknown
            · rw [Function.update_of_ne hj]
              exact h.server j
          · by_cases hj : j = i
            · subst hj
              simp only [Function.update_self] at hop
              rcases List.mem_append.mp hop with hop | hop
              · exact h.ops j op hop
              · obtain ⟨o, ho, heq⟩ := List.mem_filterMap.mp hop
                cases o with
                | mutate op' =>
                    cases heq
                    exact hout _ ho
                | _ => cases heq
            · simp only [Function.update_of_ne hj] at hop
              exact h.ops j op hop
      · cases hst
  | table move =>
      simp only [Subsystem.next] at hst
      split at hst
      · next hasks =>
          obtain ⟨w, hw, rfl⟩ := Option.map_eq_some_iff.mp hst
          have htable : TablesKnown s.Announced w := by
            refine h.table.next hw ?_
            rintro i op rfl
            exact h.ops i op hasks
          refine ⟨h.own, h.ordered, h.latest, h.sent, h.server, htable, h.ops, fun i x hx => ?_⟩
          by_cases hi : i = Issuing.actor move
          · subst hi
            simp only [Function.update_self] at hx
            rcases List.mem_append.mp hx with hx | hx
            · exact h.had _ x hx
            · rw [List.mem_singleton.mp hx]
              exact htable.data _
          · simp only [Function.update_of_ne hi] at hx
            exact h.had i x hx
      · cases hst

/-- An interval is announced wherever it is. -/
theorem Traced.announced_of_uses {s : Subsystem ι} (h : s.Traced) {d : Device}
    {j : DeviceInterval} (huses : s.Uses d j) : j ∈ s.announced d := by
  cases huses with
  | sent dest hmem => exact h.sent _ hmem
  | received i source hmem => exact (h.server i).inbox _ hmem
  | informed i source x e hx he hj => exact (h.server i).inbox _ hx d e j he hj
  | waits i w x e hstate hx he hj =>
      have hknown := (h.server i).state
      rw [hstate] at hknown
      exact hknown x hx d e j he hj
  | shown i ic e hstate he hj =>
      have hknown := (h.server i).state
      rw [hstate] at hknown
      exact hknown d e j he hj
  | used i t ht hcharge hj => exact hj ▸ hcharge ▸ ((h.server i).senders t ht).1
  | told i t ht hcharge hj => exact hcharge ▸ ((h.server i).senders t ht).2 j hj
  | put i hmem => exact h.ops i _ hmem
  | queued i q hstate hmem => exact h.table.queued i q hstate _ hmem
  | kept i ic delta e hstate hdelta he hj =>
      exact (h.table.supports.node i ic hstate).2 delta hdelta d e j he hj
  | had i x e hx he hj => exact h.had i x hx d e j he hj
  | tabled i e he hj => exact h.table.data i d e j he hj
  | dispersed dest delta id clock e hsent he hj =>
      exact h.table.supports.sent _ hsent delta id clock rfl d e j he hj

/-- Two announced intervals of a device with one clock are the same. -/
theorem Traced.eq_of_clock {s : Subsystem ι} (h : s.Traced) {d : Device} {i j : DeviceInterval}
    (hi : i ∈ s.announced d) (hj : j ∈ s.announced d) (hclock : i.clock = j.clock) : i = j := by
  have hsymm : Std.Symm fun i j : DeviceInterval => i.clock = j.clock → i = j :=
    ⟨fun _ _ hij heq => (hij heq.symm).symm⟩
  have hpair : (s.announced d).Pairwise fun i j => i.clock = j.clock → i = j := by
    refine (h.ordered d).imp fun hij heq => hij.resolve_right fun hlt => ?_
    exact UInt64.lt_irrefl _ (heq ▸ hlt)
  exact hpair.forall_of_forall (fun _ _ _ => rfl) hi hj hclock

theorem traced_of_reachable [DecidableEq ι] {hash : Device → UInt64} {checks : Bool}
    {suspects : IntervalStorage → Nat → Bool} {placement : Placement ι}
    {clients : Device → DeviceClient} {preference : ι → DispersalPreference}
    (hown : ∀ d, (clients d).myInfo = d) {s : Subsystem ι}
    (h : ((system hash checks suspects placement clients preference).restrict
      (Counts checks)).Reachable s) : s.Traced := by
  refine h.invariant (fun s hs => ?_) fun s move s' _ htraced ⟨hst, hcounts⟩ => ?_
  · obtain rfl : s = start clients preference := hs
    exact .start hown preference
  · exact htraced.next hst hcounts

/-- In every run of clients, servers, senders and tables in which no clock of a
client wraps around (`Counts`, which a build with overflow checks does not need),
an interval of a device that a server, a sender or a table has, or that is on its
way between them, is one that the client of the device has announced; none has a
later clock than the client; and two with one clock are the same interval, the
client's own among them. -/
theorem intervals_of_clients [DecidableEq ι] (hash : Device → UInt64) (checks : Bool)
    (suspects : IntervalStorage → Nat → Bool) (placement : Placement ι)
    (clients : Device → DeviceClient)
    (hnew : ∀ d, ∃ config subscribers now,
      DeviceClient.new checks d.socket config subscribers now = .ok (clients d))
    (preference : ι → DispersalPreference) {s : Subsystem ι}
    (h : ((system hash checks suspects placement clients preference).restrict
      (Counts checks)).Reachable s) :
    (∀ d j, s.Uses d j → j ∈ s.announced d ∧
      (j = (s.client d).interval ∨ j.clock < (s.client d).interval.clock)) ∧
    ∀ d j j', (s.Uses d j ∨ j = (s.client d).interval) →
      (s.Uses d j' ∨ j' = (s.client d).interval) → j.clock = j'.clock → j = j' := by
  have hown : ∀ d, (clients d).myInfo = d := by
    intro d
    obtain ⟨config, subscribers, now, hd⟩ := hnew d
    obtain ⟨storage, -, heq⟩ := bind_eq_ok_iff.mp hd
    exact (Except.ok.inj heq) ▸ rfl
  have htraced := traced_of_reachable hown h
  refine ⟨fun d j hj => ?_, fun d j j' hj hj' hclock => ?_⟩
  · have hmem := htraced.announced_of_uses hj
    exact ⟨hmem, htraced.latest d j hmem⟩
  · have hown : ∀ {j}, s.Uses d j → j.clock = (s.client d).interval.clock →
        j = (s.client d).interval := fun huses heq =>
      (htraced.latest d _ (htraced.announced_of_uses huses)).resolve_right fun hlt =>
        UInt64.lt_irrefl _ (heq ▸ hlt)
    rcases hj with hj | rfl <;> rcases hj' with hj' | rfl
    · exact htraced.eq_of_clock (htraced.announced_of_uses hj) (htraced.announced_of_uses hj') hclock
    · exact hown hj hclock
    · exact (hown hj' hclock.symm).symm
    · rfl

/-! ### One server and a device -/

/-- Every member id belongs to the server at port 10. -/
def onlyNode : Placement Unit where
  owner _ := ()
  socket _ := Socket.localhost 10
  socket_injective _ _ _ := rfl

/-- Clients that know the server. -/
def seedConfig : DeviceClientConfig :=
  ⟨2, 1, 3, (∅ : ExtTreeSet Socket compare).insert (Socket.localhost 10), 1000000000⟩

def seededClient (d : Device) : DeviceClient where
  myInfo := d
  interval := ⟨1, 1000000000⟩
  config := seedConfig
  server := none
  serverPov := ⟨0, 1000000000⟩
  storage := ⟨2, [2000, 0], 2000, 4000000, 0⟩
  serverLog := .new 3
  subscribers := []

theorem new_eq_seededClient (d : Device) :
    DeviceClient.new true d.socket seedConfig [] 0 = .ok (seededClient d) := by
  obtain ⟨socket⟩ := d
  rfl

/-- The members of a cluster of one. -/
def updateOfOne : ClusterUpdate :=
  ⟨[.alone Supervision.here], (∅ : MemberSet).insert Supervision.here,
    (NodeRing.new 2).insert RingHash.byId Supervision.here⟩

/-- The node is alone in its cluster, and the client of a device tells it an interval. -/
def firstInterval : List (Move Unit) :=
  [.table (.local () (.update updateOfOne)), .server () (.post (.update updateOfOne)),
    .server () (.serve fun _ => true), .server () (.post (.deviceData .minimum)),
    .server () (.serve fun _ => true), .begin (DeviceServer.client 20),
    .server () (.post (.setHeartbeatInterval (DeviceServer.client 20) ⟨1, 1000000000⟩)),
    .server () (.serve fun _ => true)]

/-- The sender of the device has the interval that the client announced. -/
theorem intervals_of_clients_first : ∃ s : Subsystem Unit,
    System.execWhere (Counts true) (next (fun _ => 2) true (fun _ _ => false) onlyNode)
        (start seededClient fun _ => .default) firstInterval = some s ∧
      s.Uses (DeviceServer.client 20) ⟨1, 1000000000⟩ ∧
      ∀ j, s.Uses (DeviceServer.client 20) j → j ∈ s.announced (DeviceServer.client 20) := by
  refine ⟨_, rfl, .used () _ List.mem_cons_self rfl rfl, fun j hj => ?_⟩
  refine ((intervals_of_clients (fun _ => 2) true (fun _ _ => false) onlyNode seededClient
    (fun d => ⟨_, _, _, new_eq_seededClient d⟩) (fun _ => .default) ?_).1 _ j hj).1
  exact System.reachable_of_execWhere firstInterval (.of_init rfl) rfl

end Subsystem

end AurumActors.Devices
