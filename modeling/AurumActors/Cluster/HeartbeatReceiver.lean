/-
  Cluster/HeartbeatReceiver.lean --- one receiver of `cluster/heartbeat_receiver.rs`,
  from its start on.

  `IntervalStorage::duration_phi` evaluates a normal distribution in floating
  point and may panic; it is an argument.  A handler gives the new state and the
  new timeout, in nanoseconds.
-/
import AurumActors.Cluster.Cluster
import AurumActors.Cluster.IntervalStorage

set_option autoImplicit false
set_option linter.dupNamespace false

namespace AurumActors.Cluster

open AurumActors.Core AurumActors.Foundation

/-- The part of `HBRConfig` that is not floating point. -/
structure HBRConfig where
  capacity : Nat
  times : Nat
  reqTries : Nat
  reqTimeout : Nat
  deriving DecidableEq, Repr

/-- `HBRConfig::default` -/
def HBRConfig.default : HBRConfig where
  capacity := 10
  times := 5
  reqTries := 3
  reqTimeout := 100000000

inductive HBRState where
  | initial (reqsLeft : Nat)
  | receiving (storage : IntervalStorage) (cnt : UInt32)
  | downed
  deriving DecidableEq, Repr

structure HeartbeatReceiver where
  charge : Member
  /-- `ReqHeartbeat(..)` -/
  req : IntraClusterMsg
  state : HBRState
  config : HBRConfig
  deriving DecidableEq

namespace HeartbeatReceiver

/-- What a receiver does outside the actor. -/
inductive Output where
  | udp (dest : Socket) (msg : IntraClusterMsg)
  /-- a message to the supervisor -/
  | supervisor (msg : ClusterMsg)
  deriving DecidableEq

/-- `HeartbeatReceiver::spawn` -/
def spawn (member charge : Member) (config : HBRConfig) : HeartbeatReceiver where
  charge := charge
  req := .reqHeartbeat member charge.id
  state := .initial config.reqTries
  config := config

/-- `HeartbeatReceiver::send_req` -/
def sendReq (s : HeartbeatReceiver) : Output := .udp s.charge.socket s.req

/-- `HeartbeatReceiver::pre_start` -/
def preStart (s : HeartbeatReceiver) : List Output := [s.sendReq]

/-- `Duration::from_secs(u32::MAX as u64)` -/
def never : Nat := (2 ^ 32 - 1) * 1000000000

/-- `HeartbeatReceiver::recv` of a `Heartbeat(dur, cnt)` -/
def recv (checks : Bool) (durationPhi : IntervalStorage → Except Trap Nat) (fuel now : Nat)
    (s : HeartbeatReceiver) (dur : Nat) (cnt : UInt32) :
    Option (Except Trap (HeartbeatReceiver × Nat)) :=
  match s.state with
  | .initial _ => some do
      let double ← twice dur
      let is ← IntervalStorage.new checks s.config.capacity double s.config.times none now
      let newDur ← durationPhi is
      return ({ s with state := .receiving is cnt }, newDur)
  | .receiving storage oldCnt =>
      if oldCnt < cnt then some do
        let double ← twice dur
        let storage ← IntervalStorage.new checks s.config.capacity double s.config.times none now
        let newTo ← durationPhi storage
        return ({ s with state := .receiving storage oldCnt }, newTo)
      else (storage.pushInstant checks fuel now).map fun pushed => do
        let storage ← pushed
        let newTo ← durationPhi storage
        return ({ s with state := .receiving storage oldCnt }, newTo)
  | .downed => some (.ok (s, never))

/-- `HeartbeatReceiver::timeout` -/
def timeout (s : HeartbeatReceiver) : HeartbeatReceiver × List Output × Nat :=
  match s.state with
  | .initial 0 => ({ s with state := .downed }, [.supervisor (.downed s.charge)], never)
  | .receiving _ _ =>
      ({ s with state := .initial s.config.reqTries }, [], s.config.reqTimeout)
  | .initial (reqsLeft + 1) =>
      ({ s with state := .initial reqsLeft }, [s.sendReq], s.config.reqTimeout)
  | .downed => (s, [], never)

/-- A heartbeat leaves `Downed` as it is, and starts `Receiving` in every other
state. -/
theorem of_recv {checks : Bool} {durationPhi : IntervalStorage → Except Trap Nat} {now : Nat}
    {s t : HeartbeatReceiver} {dur timeout : Nat} {cnt : UInt32}
    (h : Returns (fun fuel => recv checks durationPhi fuel now s dur cnt) (t, timeout)) :
    t.config = s.config ∧ ((s.state = .downed ∧ t = s) ∨
      (s.state ≠ .downed ∧ ∃ storage cnt', t.state = .receiving storage cnt')) := by
  obtain ⟨fuel, h⟩ := h
  unfold recv at h
  split at h
  · next reqsLeft hstate =>
      obtain ⟨_, -, h⟩ := bind_eq_ok_iff.mp (Option.some.inj h)
      obtain ⟨_, -, h⟩ := bind_eq_ok_iff.mp h
      obtain ⟨_, -, h⟩ := bind_eq_ok_iff.mp h
      cases h
      exact ⟨rfl, .inr ⟨by simp [hstate], _, _, rfl⟩⟩
  · next storage oldCnt hstate =>
      split at h
      · obtain ⟨_, -, h⟩ := bind_eq_ok_iff.mp (Option.some.inj h)
        obtain ⟨_, -, h⟩ := bind_eq_ok_iff.mp h
        obtain ⟨_, -, h⟩ := bind_eq_ok_iff.mp h
        cases h
        exact ⟨rfl, .inr ⟨by simp [hstate], _, _, rfl⟩⟩
      · obtain ⟨pushed, -, h⟩ := Option.map_eq_some_iff.mp h
        obtain ⟨_, -, h⟩ := bind_eq_ok_iff.mp h
        obtain ⟨_, -, h⟩ := bind_eq_ok_iff.mp h
        cases h
        exact ⟨rfl, .inr ⟨by simp [hstate], _, _, rfl⟩⟩
  · next hstate =>
      cases h
      exact ⟨rfl, .inl ⟨hstate, rfl⟩⟩

/-! ## The log of a run -/

/-- What the loop of a receiver gets. -/
inductive Input where
  | heartbeat (now dur : Nat) (cnt : UInt32)
  | timeout
  deriving DecidableEq

/-- What happens in a run. -/
inductive Event where
  | input (i : Input)
  /-- a `ReqHeartbeat` is sent -/
  | request
  /-- `Downed` is reported -/
  | downed
  deriving DecidableEq

def Output.event : Output → Event
  | .udp .. => .request
  | .supervisor _ => .downed

def Event.input? : Event → Option Input
  | .input i => some i
  | _ => none

def Event.isHeartbeat : Event → Bool
  | .input (.heartbeat ..) => true
  | _ => false

/-- A receiver and what happened since its start. -/
structure Logged where
  receiver : HeartbeatReceiver
  log : List Event

/-- A receiver after `pre_start`. -/
def start (member charge : Member) (config : HBRConfig) : Logged :=
  ⟨spawn member charge config, (spawn member charge config).preStart.map Output.event⟩

/-- The runs of a receiver: heartbeats and timeouts in any order. -/
def running (checks : Bool) (durationPhi : IntervalStorage → Except Trap Nat)
    (member charge : Member) (config : HBRConfig) : System Logged Input where
  init s := s = start member charge config
  step s i t :=
    match i with
    | .heartbeat now dur cnt => t.log = s.log ++ [.input i] ∧ ∃ timeout,
        Returns (fun fuel => recv checks durationPhi fuel now s.receiver dur cnt)
          (t.receiver, timeout)
    | .timeout => t.receiver = s.receiver.timeout.1 ∧
        t.log = s.log ++ .input i :: s.receiver.timeout.2.1.map Output.event

/-- The inputs in a log. -/
def inputsOf (log : List Event) : List Input := log.filterMap Event.input?

/-- The requests since the start or the last heartbeat, whichever is later. -/
def requestsSince (log : List Event) : Nat :=
  (log.reverse.takeWhile fun e => !e.isHeartbeat).count .request

theorem inputsOf_concat (log : List Event) (e : Event) :
    inputsOf (log ++ [e]) = inputsOf log ++ e.input?.toList := by
  rw [inputsOf, List.filterMap_append, inputsOf]
  congr 1

theorem requestsSince_concat (log : List Event) (e : Event) :
    requestsSince (log ++ [e]) =
      if e.isHeartbeat then 0 else requestsSince log + if e = .request then 1 else 0 := by
  unfold requestsSince
  rw [List.reverse_append, List.reverse_singleton, List.singleton_append,
    List.takeWhile_cons]
  cases e.isHeartbeat with
  | true => rfl
  | false => simp [List.count_cons]

/-- Every report of a log is within the budget: at most `tries` requests went out
since the start or the last heartbeat, there was no report before, and the last
`tries + 1` inputs are timeouts. -/
def Budget (tries : Nat) (log : List Event) : Prop :=
  ∀ pre post, log = pre ++ .downed :: post →
    requestsSince pre ≤ tries ∧ Event.downed ∉ pre ∧
      List.replicate (tries + 1) Input.timeout <:+ inputsOf pre

/-! ## What a run keeps -/

/-- A heartbeat is among the first `tries + 1` inputs. -/
def HeardEarly (tries : Nat) (inputs : List Input) : Prop :=
  ∃ i ∈ inputs.take (tries + 1), i ≠ .timeout

theorem HeardEarly.append {tries : Nat} {inputs : List Input} (h : HeardEarly tries inputs)
    (more : List Input) : HeardEarly tries (inputs ++ more) := by
  obtain ⟨i, hi, hne⟩ := h
  exact ⟨i, ((List.prefix_append inputs more).take (tries + 1)).subset hi, hne⟩

/-- Then the run does not begin with `tries + 1` timeouts. -/
theorem HeardEarly.not_replicate {tries : Nat} {inputs : List Input}
    (h : HeardEarly tries inputs) : ¬ List.replicate (tries + 1) Input.timeout <+: inputs := by
  intro hprefix
  obtain ⟨i, hi, hne⟩ := h
  have htake := List.prefix_iff_eq_take.mp hprefix
  rw [List.length_replicate] at htake
  rw [← htake] at hi
  exact hne (List.eq_of_mem_replicate hi)

/-- What holds between the state of a receiver and its log. -/
inductive Kept (tries : Nat) : HBRState → List Event → Prop
  /-- before the first heartbeat, where the request of `pre_start` counts too -/
  | fresh {reqsLeft : Nat} {log : List Event} (hle : reqsLeft ≤ tries)
      (hdowned : Event.downed ∉ log)
      (hinputs : inputsOf log = List.replicate (tries - reqsLeft) .timeout)
      (hrequests : requestsSince log = tries - reqsLeft + 1) : Kept tries (.initial reqsLeft) log
  | receiving {storage : IntervalStorage} {cnt : UInt32} {log : List Event}
      (hdowned : Event.downed ∉ log) (hheard : HeardEarly tries (inputsOf log))
      (hrequests : requestsSince log = 0) : Kept tries (.receiving storage cnt) log
  | silent {reqsLeft : Nat} {log : List Event} (hle : reqsLeft ≤ tries)
      (hdowned : Event.downed ∉ log) (hheard : HeardEarly tries (inputsOf log))
      (hrequests : requestsSince log = tries - reqsLeft)
      (hinputs : List.replicate (tries - reqsLeft + 1) .timeout <:+ inputsOf log) :
      Kept tries (.initial reqsLeft) log
  | unheard {pre post : List Event} (hpre : Event.downed ∉ pre) (hpost : Event.downed ∉ post)
      (hrequests : requestsSince pre = tries + 1)
      (hinputs : List.replicate (tries + 1) .timeout <+: inputsOf pre) :
      Kept tries .downed (pre ++ .downed :: post)
  | lost {pre post : List Event} (hpre : Event.downed ∉ pre) (hpost : Event.downed ∉ post)
      (hheard : HeardEarly tries (inputsOf pre)) (hrequests : requestsSince pre = tries)
      (hinputs : List.replicate (tries + 1) .timeout <:+ inputsOf pre) :
      Kept tries .downed (pre ++ .downed :: post)

theorem suffix_replicate_succ {n : Nat} {inputs : List Input}
    (h : List.replicate n .timeout <:+ inputs) :
    List.replicate (n + 1) .timeout <:+ inputs ++ [.timeout] := by
  obtain ⟨pre, rfl⟩ := h
  rw [List.replicate_succ', List.append_assoc]
  exact List.suffix_append _ _

/-- A timeout changes no request count. -/
theorem requestsSince_timeout (log : List Event) :
    requestsSince (log ++ [.input .timeout]) = requestsSince log := by
  simp [requestsSince_concat, Event.isHeartbeat]

theorem requestsSince_request (log : List Event) :
    requestsSince (log ++ [.request]) = requestsSince log + 1 := by
  simp [requestsSince_concat, Event.isHeartbeat]

section Steps

variable {tries : Nat} {state : HBRState} {log : List Event}

/-- After a heartbeat the count starts again, unless the receiver is done. -/
theorem Kept.heartbeat (h : Kept tries state log) (now dur : Nat) (cnt : UInt32) :
    (state = .downed → Kept tries .downed (log ++ [.input (.heartbeat now dur cnt)])) ∧
      ∀ storage cnt', state ≠ .downed →
        Kept tries (.receiving storage cnt') (log ++ [.input (.heartbeat now dur cnt)]) := by
  have hdowned : Event.downed ∉ log →
      Event.downed ∉ log ++ [Event.input (.heartbeat now dur cnt)] := by
    intro hlog
    simpa using hlog
  have hrequests : requestsSince (log ++ [.input (.heartbeat now dur cnt)]) = 0 := by
    rw [requestsSince_concat]
    rfl
  have hinputs : inputsOf (log ++ [.input (.heartbeat now dur cnt)]) =
      inputsOf log ++ [.heartbeat now dur cnt] := inputsOf_concat _ _
  cases h with
  | @fresh reqsLeft log hle hlog htimeouts _ =>
      refine ⟨nofun, fun storage cnt' _ => .receiving (hdowned hlog) ?_ hrequests⟩
      refine ⟨.heartbeat now dur cnt, ?_, nofun⟩
      rw [hinputs, htimeouts, List.take_of_length_le (by simp)]
      exact List.mem_append_right _ List.mem_cons_self
  | receiving hlog hheard _ =>
      refine ⟨nofun, fun storage cnt' _ => .receiving (hdowned hlog) ?_ hrequests⟩
      rw [hinputs]
      exact hheard.append _
  | silent _ hlog hheard _ _ =>
      refine ⟨nofun, fun storage cnt' _ => .receiving (hdowned hlog) ?_ hrequests⟩
      rw [hinputs]
      exact hheard.append _
  | @unheard pre post hpre hpost hsent hprefix =>
      refine ⟨fun _ => ?_, fun _ _ hne => absurd rfl hne⟩
      rw [List.append_assoc, List.cons_append]
      exact .unheard hpre (by simpa using hpost) hsent hprefix
  | @lost pre post hpre hpost hheard hsent hsuffix =>
      refine ⟨fun _ => ?_, fun _ _ hne => absurd rfl hne⟩
      rw [List.append_assoc, List.cons_append]
      exact .lost hpre (by simpa using hpost) hheard hsent hsuffix

/-- What a timeout does to the count. -/
theorem Kept.timeout {s : HeartbeatReceiver} (h : Kept s.config.reqTries s.state log) :
    Kept s.config.reqTries s.timeout.1.state
      (log ++ .input .timeout :: s.timeout.2.1.map Output.event) := by
  have hinputs : inputsOf (log ++ [.input .timeout]) = inputsOf log ++ [.timeout] :=
    inputsOf_concat _ _
  have hdowned : Event.downed ∉ log → Event.downed ∉ log ++ [Event.input .timeout] := by
    intro hlog
    simpa using hlog
  rw [List.append_cons]
  unfold HeartbeatReceiver.timeout
  generalize hstate : s.state = state at h
  cases h with
  | @fresh reqsLeft log hle hlog htimeouts hrequests =>
      cases reqsLeft with
      | zero =>
          -- one request more than the budget went out
          refine .unheard (hdowned hlog) List.not_mem_nil ?_ ?_
          · rw [requestsSince_timeout]
            omega
          · rw [hinputs, htimeouts, ← List.replicate_succ']
            exact List.prefix_refl _
      | succ reqsLeft =>
          change Kept _ (.initial reqsLeft) (log ++ [.input .timeout] ++ [.request])
          refine .fresh (by omega) (by simpa using hlog) ?_ ?_
          · rw [inputsOf_concat, hinputs, htimeouts, ← List.replicate_succ']
            simp only [Event.input?, Option.toList_none, List.append_nil]
            congr 1
            omega
          · rw [requestsSince_request, requestsSince_timeout, hrequests]
            omega
  | receiving hlog hheard hrequests =>
      change Kept _ (.initial s.config.reqTries) (_ ++ [.input .timeout] ++ [])
      rw [List.append_nil]
      refine .silent (Nat.le_refl _) (hdowned hlog) ?_ ?_ ?_
      · rw [hinputs]
        exact hheard.append _
      · rw [requestsSince_timeout, hrequests, Nat.sub_self]
      · rw [hinputs, Nat.sub_self]
        exact List.suffix_append _ _
  | @silent reqsLeft log hle hlog hheard hrequests hsuffix =>
      have hnext := suffix_replicate_succ hsuffix
      cases reqsLeft with
      | zero =>
          refine .lost (hdowned hlog) List.not_mem_nil ?_ ?_ ?_
          · rw [hinputs]
            exact hheard.append _
          · rw [requestsSince_timeout, hrequests, Nat.sub_zero]
          · rw [hinputs]
            exact (List.suffix_cons Input.timeout _).trans hnext
      | succ reqsLeft =>
          change Kept _ (.initial reqsLeft) (log ++ [.input .timeout] ++ [.request])
          have hlast : inputsOf (log ++ [.input .timeout] ++ [.request]) =
              inputsOf log ++ [.timeout] := by
            rw [inputsOf_concat, hinputs]
            exact List.append_nil _
          refine .silent (by omega) (by simpa using hlog) ?_ ?_ ?_
          · rw [hlast]
            exact hheard.append _
          · rw [requestsSince_request, requestsSince_timeout, hrequests]
            omega
          · rw [hlast, show s.config.reqTries - reqsLeft =
              s.config.reqTries - (reqsLeft + 1) + 1 by omega]
            exact hnext
  | @unheard pre post hpre hpost hrequests hprefix =>
      change Kept _ s.state (_ ++ [])
      rw [hstate, List.append_nil, List.append_assoc, List.cons_append]
      exact .unheard hpre (by simpa using hpost) hrequests hprefix
  | @lost pre post hpre hpost hheard hrequests hsuffix =>
      change Kept _ s.state (_ ++ [])
      rw [hstate, List.append_nil, List.append_assoc, List.cons_append]
      exact .lost hpre (by simpa using hpost) hheard hrequests hsuffix

/-- The reports are within the budget, unless the run begins with too many
timeouts. -/
theorem Kept.within_iff (h : Kept tries state log) :
    Budget tries log ↔ ¬ List.replicate (tries + 1) Input.timeout <+: inputsOf log := by
  have hvacuous : Event.downed ∉ log → Budget tries log := by
    rintro hlog pre post rfl
    exact absurd (List.mem_append_right _ List.mem_cons_self) hlog
  cases h with
  | fresh hle hlog hinputs _ =>
      refine iff_of_true (hvacuous hlog) fun hprefix => ?_
      have hlen := hprefix.length_le
      rw [hinputs, List.length_replicate, List.length_replicate] at hlen
      omega
  | receiving hlog hheard _ => exact iff_of_true (hvacuous hlog) hheard.not_replicate
  | silent _ hlog hheard _ _ => exact iff_of_true (hvacuous hlog) hheard.not_replicate
  | @unheard pre post hpre hpost hrequests hinputs =>
      refine iff_of_false (fun hbudget => ?_) (not_not.mpr ?_)
      · have := (hbudget pre post rfl).1
        omega
      · rw [inputsOf, List.filterMap_append]
        exact hinputs.trans (List.prefix_append _ _)
  | @lost pre post hpre hpost hheard hrequests hinputs =>
      refine iff_of_true (fun pre' post' heq => ?_) ?_
      · obtain ⟨rfl, -, -⟩ := (List.append_cons_inj_of_notMem hpre hpost).mp heq
        exact ⟨Nat.le_of_eq hrequests, hpre, hinputs⟩
      · rw [inputsOf, List.filterMap_append]
        exact (hheard.append _).not_replicate

end Steps

/-- A run keeps the configuration, its inputs and the count of the requests. -/
theorem kept_of_run {checks : Bool} {durationPhi : IntervalStorage → Except Trap Nat}
    {member charge : Member} {config : HBRConfig} {inputs : List Input} {t : Logged}
    (h : (running checks durationPhi member charge config).Run (start member charge config)
      inputs t) :
    t.receiver.config = config ∧ inputsOf t.log = inputs ∧
      Kept config.reqTries t.receiver.state t.log := by
  induction h with
  | nil =>
      refine ⟨rfl, rfl, .fresh (Nat.le_refl _) ?_ ?_ ?_⟩
      · simp [start, preStart, sendReq, Output.event]
      · rw [Nat.sub_self]
        rfl
      · rw [Nat.sub_self]
        rfl
  | @snoc inputs i s t hrun hstep ih =>
      obtain ⟨hconfig, hinputs, hkept⟩ := ih
      cases i with
      | heartbeat now dur cnt =>
          obtain ⟨hlog, timeout, hrecv⟩ := hstep
          obtain ⟨hconfig', hstate⟩ := of_recv hrecv
          obtain ⟨hdowned, hreceiving⟩ := hkept.heartbeat now dur cnt
          refine ⟨hconfig'.trans hconfig, ?_, ?_⟩
          · rw [hlog, inputsOf_concat, hinputs]
            rfl
          · rw [hlog]
            rcases hstate with ⟨hstate, heq⟩ | ⟨hne, storage, cnt', hstate⟩
            · rw [heq, hstate]
              exact hdowned hstate
            · rw [hstate]
              exact hreceiving storage cnt' hne
      | timeout =>
          obtain ⟨hreceiver, hlog⟩ := hstep
          rw [← hconfig] at hkept
          have hconfig' : s.receiver.timeout.1.config = s.receiver.config := by
            unfold HeartbeatReceiver.timeout
            split <;> rfl
          have hnone : (s.receiver.timeout.2.1.map Output.event).filterMap Event.input? = [] := by
            rw [List.filterMap_map]
            refine List.filterMap_eq_nil_iff.mpr fun out _ => ?_
            cases out <;> rfl
          refine ⟨?_, ?_, ?_⟩
          · rw [hreceiver, hconfig', hconfig]
          · rw [hlog, inputsOf, List.filterMap_append, List.filterMap_cons, hnone]
            exact congrArg (· ++ [Input.timeout]) hinputs
          · rw [hreceiver, hlog, ← hconfig]
            exact hkept.timeout

/-- The budget of requests: a run reports `Downed` within it exactly if its first
`req_tries + 1` inputs are not all timeouts. -/
theorem budget_iff {checks : Bool} {durationPhi : IntervalStorage → Except Trap Nat}
    {member charge : Member} {config : HBRConfig} {inputs : List Input} {t : Logged}
    (h : (running checks durationPhi member charge config).Run (start member charge config)
      inputs t) :
    Budget config.reqTries t.log ↔
      ¬ List.replicate (config.reqTries + 1) Input.timeout <+: inputs := by
  obtain ⟨-, hinputs, hkept⟩ := kept_of_run h
  rw [hkept.within_iff, hinputs]

/-- The state after an input, with fuel for the loop of the storage. -/
def Logged.next (checks : Bool) (durationPhi : IntervalStorage → Except Trap Nat) (fuel : Nat)
    (s : Logged) (i : Input) : Option Logged :=
  match i with
  | .heartbeat now dur cnt =>
      match recv checks durationPhi fuel now s.receiver dur cnt with
      | some (.ok (receiver, _)) => some ⟨receiver, s.log ++ [.input i]⟩
      | _ => none
  | .timeout =>
      some ⟨s.receiver.timeout.1, s.log ++ .input i :: s.receiver.timeout.2.1.map Output.event⟩

theorem step_of_next {checks : Bool} {durationPhi : IntervalStorage → Except Trap Nat}
    {member charge : Member} {config : HBRConfig} (fuel : Nat) (s : Logged) (i : Input)
    (t : Logged) (h : s.next checks durationPhi fuel i = some t) :
    (running checks durationPhi member charge config).step s i t := by
  cases i with
  | heartbeat now dur cnt =>
      simp only [Logged.next] at h
      split at h
      · next receiver timeout hrecv =>
          cases h
          exact ⟨rfl, timeout, fuel, hrecv⟩
      · cases h
  | timeout =>
      cases h
      exact ⟨rfl, rfl⟩

/-- A member at a port of the local host. -/
def memberAt (port : UInt16) : Member := ⟨Socket.localhost port, port.toUInt64, 1⟩

/-- A receiver with two requests reports after a heartbeat and four timeouts. -/
theorem budget_after_heartbeat :
    ∃ t, (running true (fun _ => .ok 0) (memberAt 1) (memberAt 2) ⟨10, 5, 2, 100000000⟩).Run
        (start (memberAt 1) (memberAt 2) ⟨10, 5, 2, 100000000⟩)
        [.heartbeat 0 50000000 0, .timeout, .timeout, .timeout, .timeout] t ∧
      t.log.count .request = 3 ∧ Event.downed ∈ t.log ∧ Budget 2 t.log := by
  have hrun := System.run_of_exec (S := running true (fun _ => .ok 0) (memberAt 1) (memberAt 2)
    ⟨10, 5, 2, 100000000⟩) (step_of_next 0)
    [.heartbeat 0 50000000 0, .timeout, .timeout, .timeout, .timeout]
    (s := start (memberAt 1) (memberAt 2) ⟨10, 5, 2, 100000000⟩) rfl
  exact ⟨_, hrun, by decide, by decide, (budget_iff hrun).mpr (by decide)⟩

/-- Four timeouts from the start, with the default of three requests: four
requests go out before the report. -/
theorem budget_exceeded :
    ∃ t, (running true (fun _ => .ok 0) (memberAt 1) (memberAt 2) .default).Run
        (start (memberAt 1) (memberAt 2) .default) [.timeout, .timeout, .timeout, .timeout] t ∧
      t.log.count .request = 4 ∧ Event.downed ∈ t.log ∧
        ¬ Budget HBRConfig.default.reqTries t.log := by
  have hrun := System.run_of_exec (S := running true (fun _ => .ok 0) (memberAt 1) (memberAt 2)
    .default) (step_of_next 0) [.timeout, .timeout, .timeout, .timeout]
    (s := start (memberAt 1) (memberAt 2) .default) rfl
  refine ⟨_, hrun, by decide, by decide, fun hbudget => ?_⟩
  have hle := (hbudget [.request, .input .timeout, .request, .input .timeout, .request,
    .input .timeout, .request, .input .timeout] [] rfl).1
  exact absurd hle (by decide)

end HeartbeatReceiver

end AurumActors.Cluster
