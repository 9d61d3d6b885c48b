/-
  Core/ActorTasks.lean --- the tasks behind an actor, from
  `core/actor_tasks_unit.rs`.

  `unitSingle` is the loop of a single-threaded actor over the content of its
  channel.  A double-threaded actor has two tasks: the secondary reads the
  channel and queues, the primary runs the actor and asks for the next message
  with a request that travels through the same channel.  Every channel
  operation and every call into the actor is a step of its own, and the steps
  of both tasks and of the senders interleave freely.
-/
import AurumActors.Foundation.Run
import Mathlib.Tactic.Common

set_option autoImplicit false

namespace AurumActors.Core

open AurumActors.Foundation

/-- A message or the only signal, `ActorSignal::Term`. -/
inductive LocalActorMsg (S : Type) where
  | msg (m : S)
  | term
  deriving DecidableEq

/-- What the channel of an actor carries.  A serialized message is given by what
it deserializes to, if it does. -/
inductive ActorMsg (S : Type) where
  | msg (x : LocalActorMsg S)
  | serial (x : Option (LocalActorMsg S))
  | primaryRequest
  | die
  deriving DecidableEq

/-- What the secondary hands over to the primary. -/
inductive PrimaryMsg (S : Type) where
  | msg (m : S)
  | die
  deriving DecidableEq

/-! ## The single-threaded actor -/

/-- How a loop over a channel ends. -/
inductive End where
  | blocked
  | postStop
  | panicked
  deriving DecidableEq

section Single

variable {S : Type}

/-- The loop of `unit_single`: the messages it calls `recv` on, and its end. -/
def unitSingle : List (ActorMsg S) → List S × End
  | [] => ([], .blocked)
  | .msg (.msg m) :: rx | .serial (some (.msg m)) :: rx =>
      let (calls, e) := unitSingle rx
      (m :: calls, e)
  | .msg .term :: _ | .serial (some .term) :: _ => ([], .postStop)
  | .serial none :: _ | .primaryRequest :: _ | .die :: _ => ([], .panicked)

end Single

/-! ## The double-threaded actor -/

/-- The panics of both tasks. -/
inductive TaskPanic where
  /-- "single got a primary request" -/
  | gotPrimaryRequest
  /-- "lost connection with primary" -/
  | lostPrimary
  /-- "secondary is unreachable" -/
  | secondaryUnreachable
  /-- "the secondary seems to have crashed" -/
  | secondaryCrashed
  /-- the `unwrap` of `deserialize_as` -/
  | deserialize
  deriving DecidableEq

/-- Where `unit_secondary` is. -/
inductive SecondaryPc (S : Type) where
  /-- at `rx.recv()` -/
  | recv
  | handle (msg : ActorMsg S)
  /-- after the loop -/
  | leaving
  | stopped
  | panicked (p : TaskPanic)
  deriving DecidableEq

/-- Where `unit_primary` is. -/
inductive PrimaryPc (S : Type) where
  | preStart
  | request
  /-- at `rx.recv()` -/
  | receive
  /-- in `actor.recv` -/
  | handle (m : S)
  | postStop
  | sendDie
  | leaving
  | stopped
  | panicked (p : TaskPanic)
  deriving DecidableEq

structure Tasks (S : Type) where
  /-- the channel of the actor -/
  mailbox : List (ActorMsg S)
  secondary : SecondaryPc S
  queue : List (PrimaryMsg S)
  primaryWaiting : Bool
  /-- the channel from the secondary to the primary -/
  primaryRx : List (PrimaryMsg S)
  primary : PrimaryPc S
  /-- the messages `actor.recv` was called on -/
  calls : List S
  /-- what was sent to the actor from outside -/
  sent : List (ActorMsg S)
  deriving DecidableEq

namespace Tasks

variable {S : Type}

/-- Both tasks at their start. -/
def start : Tasks S := ⟨[], .recv, [], false, [], .preStart, [], []⟩

/-- A task that ended has dropped its end of the channels. -/
def mailboxClosed (t : Tasks S) : Bool :=
  match t.secondary with
  | .stopped | .panicked _ => true
  | _ => false

def primaryClosed (t : Tasks S) : Bool :=
  match t.primary with
  | .stopped | .panicked _ => true
  | _ => false

/-- `send_to_primary`, after which the secondary goes on with its loop. -/
def sendToPrimary (t : Tasks S) (msg : PrimaryMsg S) : Tasks S :=
  if t.primaryClosed then { t with secondary := .panicked .lostPrimary }
  else { t with primaryRx := t.primaryRx ++ [msg], secondary := .recv }

/-- The message of `unit_secondary` for a message from outside. -/
def toPrimary : LocalActorMsg S → PrimaryMsg S
  | .msg m => .msg m
  | .term => .die

/-- The end of the loop body of `unit_secondary`. -/
def handOver (t : Tasks S) (x : LocalActorMsg S) : Tasks S :=
  if t.primaryWaiting then
    { t.sendToPrimary (toPrimary x) with primaryWaiting := false }
  else
    { t with queue := t.queue ++ [toPrimary x], secondary := .recv }

/-- A step of `unit_secondary`. -/
def secondaryStep (t : Tasks S) : Option (Tasks S) :=
  match t.secondary with
  | .recv =>
      match t.mailbox with
      | [] => none
      | msg :: mailbox => some { t with mailbox, secondary := .handle msg }
  | .handle (.msg x) => some (t.handOver x)
  | .handle .die => some { t with secondary := .leaving }
  | .handle .primaryRequest =>
      if t.primaryWaiting then some { t with secondary := .panicked .gotPrimaryRequest }
      else match t.queue with
        | msg :: queue => some ({ t with queue }.sendToPrimary msg)
        | [] => some { t with primaryWaiting := true, secondary := .recv }
  | .handle (.serial x) =>
      match x with
      | some x => some (t.handOver x)
      | none => some { t with secondary := .panicked .deserialize }
  | .leaving => some { t with secondary := .stopped }
  | .stopped | .panicked _ => none

/-- `send_to_secondary`, after which the primary is at `next`. -/
def sendToSecondary (t : Tasks S) (msg : ActorMsg S) (next : PrimaryPc S) : Tasks S :=
  if t.mailboxClosed then { t with primary := .panicked .secondaryUnreachable }
  else { t with mailbox := t.mailbox ++ [msg], primary := next }

/-- A step of `unit_primary`. -/
def primaryStep (t : Tasks S) : Option (Tasks S) :=
  match t.primary with
  | .preStart => some { t with primary := .request }
  | .request => some (t.sendToSecondary .primaryRequest .receive)
  | .receive =>
      match t.primaryRx with
      | .msg m :: primaryRx =>
          some { t with primaryRx, primary := .handle m, calls := t.calls ++ [m] }
      | .die :: primaryRx => some { t with primaryRx, primary := .postStop }
      | [] =>
          if t.mailboxClosed then some { t with primary := .panicked .secondaryCrashed }
          else none
  | .handle _ => some { t with primary := .request }
  | .postStop => some { t with primary := .sendDie }
  | .sendDie => some (t.sendToSecondary .die .leaving)
  | .leaving => some { t with primary := .stopped }
  | .stopped | .panicked _ => none

/-- Something is sent to the actor from outside. -/
def post (t : Tasks S) (msg : ActorMsg S) : Tasks S :=
  { t with
    mailbox := if t.mailboxClosed then t.mailbox else t.mailbox ++ [msg]
    sent := t.sent ++ [msg] }

inductive Move (S : Type) where
  | send (x : LocalActorMsg S)
  /-- a message that was serialized, and deserializes -/
  | sendSerial (x : LocalActorMsg S)
  | secondary
  | primary

def next (t : Tasks S) : Move S → Option (Tasks S)
  | .send x => some (t.post (.msg x))
  | .sendSerial x => some (t.post (.serial (some x)))
  | .secondary => t.secondaryStep
  | .primary => t.primaryStep

/-- A double-threaded actor among its senders. -/
def system (S : Type) : System (Tasks S) (Move S) := .ofNext start next

/-! ## The request as a token -/

theorem sendToPrimary_sent (t : Tasks S) (msg : PrimaryMsg S) :
    (t.sendToPrimary msg).sent = t.sent := by
  unfold sendToPrimary
  split <;> rfl

theorem handOver_sent (t : Tasks S) (x : LocalActorMsg S) : (t.handOver x).sent = t.sent := by
  unfold handOver
  split
  · exact sendToPrimary_sent t _
  · rfl

/-- Only the senders add to what was sent. -/
theorem secondaryStep_sent {t t' : Tasks S} (hst : t.secondaryStep = some t') :
    t'.sent = t.sent := by
  unfold secondaryStep at hst
  split at hst
  · split at hst
    · cases hst
    · cases hst; rfl
  · cases hst; exact handOver_sent t _
  · cases hst; rfl
  · split at hst
    · cases hst; rfl
    · split at hst
      · cases hst; exact sendToPrimary_sent _ _
      · cases hst; rfl
  · split at hst
    · cases hst; exact handOver_sent t _
    · cases hst; rfl
  · cases hst; rfl
  · cases hst
  · cases hst

theorem primaryStep_sent {t t' : Tasks S} (hst : t.primaryStep = some t') :
    t'.sent = t.sent := by
  have hsend : ∀ msg pc, (t.sendToSecondary msg pc).sent = t.sent := by
    intro msg pc
    unfold sendToSecondary
    split <;> rfl
  unfold primaryStep at hst
  split at hst
  · cases hst; rfl
  · cases hst; exact hsend _ _
  · split at hst
    · cases hst; rfl
    · cases hst; rfl
    · split at hst
      · cases hst; rfl
      · cases hst
  · cases hst; rfl
  · cases hst; rfl
  · cases hst; exact hsend _ _
  · cases hst; rfl
  · cases hst
  · cases hst

/-- What the secondary has not handled yet. -/
def toCome (t : Tasks S) : List (ActorMsg S) :=
  match t.secondary with
  | .handle msg => msg :: t.mailbox
  | _ => t.mailbox

/-- The messages from outside in a channel, as they are handed over. -/
def external (rx : List (ActorMsg S)) : List (PrimaryMsg S) :=
  rx.filterMap fun
    | .msg x | .serial (some x) => some (toPrimary x)
    | _ => none

/-- How many requests are in a channel. -/
def requests (rx : List (ActorMsg S)) : Nat :=
  rx.countP fun
    | .primaryRequest => true
    | _ => false

/-- The primary is past the loop. -/
def PostStop (t : Tasks S) : Prop :=
  t.primary = .postStop ∨ t.primary = .sendDie ∨ t.primary = .leaving ∨ t.primary = .stopped

instance [DecidableEq S] (t : Tasks S) : Decidable t.PostStop :=
  inferInstanceAs (Decidable (_ ∨ _))

/-- What the primary took from its channel. -/
def served (t : Tasks S) : List (PrimaryMsg S) :=
  t.calls.map .msg ++
    match t.primary with
    | .postStop | .sendDie | .leaving | .stopped => [.die]
    | _ => []

/-- The primary has a message in hand. -/
def inHand (t : Tasks S) : Nat :=
  match t.primary with
  | .handle _ => 1
  | _ => 0

/-- The primary does not wait for an answer. -/
def primaryToken (t : Tasks S) : Nat :=
  match t.primary with
  | .receive => 0
  | _ => 1

structure Inv (t : Tasks S) : Prop where
  secondary_ok : ∀ p, t.secondary ≠ .panicked p
  primary_ok : ∀ p, t.primary ≠ .panicked p
  serial_ok : .serial none ∉ t.toCome
  /-- there is one token: a request, the flag, an answer or the primary itself -/
  token : requests t.toCome + t.primaryWaiting.toNat + t.primaryRx.length + t.primaryToken = 1
  waiting : t.primaryWaiting = true → t.queue = []
  /-- before the primary says so, the secondary does not end -/
  running : t.primary ≠ .leaving → t.primary ≠ .stopped →
    .die ∉ t.toCome ∧ t.secondary ≠ .leaving ∧ t.secondary ≠ .stopped
  /-- nothing is lost, doubled or reordered -/
  order : ∃ rest, t.served ++ t.primaryRx ++ t.queue ++ rest = external t.sent ∧
    (t.secondary ≠ .leaving → t.secondary ≠ .stopped → rest = external t.toCome)

@[simp] theorem external_nil : external ([] : List (ActorMsg S)) = [] := rfl

@[simp] theorem external_append (rx rx' : List (ActorMsg S)) :
    external (rx ++ rx') = external rx ++ external rx' := List.filterMap_append

@[simp] theorem external_msg (x : LocalActorMsg S) (rx : List (ActorMsg S)) :
    external (.msg x :: rx) = toPrimary x :: external rx := rfl

@[simp] theorem external_serial (x : LocalActorMsg S) (rx : List (ActorMsg S)) :
    external (.serial (some x) :: rx) = toPrimary x :: external rx := rfl

@[simp] theorem external_primaryRequest (rx : List (ActorMsg S)) :
    external (.primaryRequest :: rx) = external rx := rfl

@[simp] theorem external_die (rx : List (ActorMsg S)) :
    external (.die :: rx) = external rx := rfl

@[simp] theorem requests_nil : requests ([] : List (ActorMsg S)) = 0 := rfl

@[simp] theorem requests_append (rx rx' : List (ActorMsg S)) :
    requests (rx ++ rx') = requests rx + requests rx' := List.countP_append

@[simp] theorem requests_msg (x : LocalActorMsg S) (rx : List (ActorMsg S)) :
    requests (.msg x :: rx) = requests rx := by simp [requests]

@[simp] theorem requests_serial (x : Option (LocalActorMsg S)) (rx : List (ActorMsg S)) :
    requests (.serial x :: rx) = requests rx := by simp [requests]

@[simp] theorem requests_primaryRequest (rx : List (ActorMsg S)) :
    requests (.primaryRequest :: rx) = requests rx + 1 := by simp [requests]

@[simp] theorem requests_die (rx : List (ActorMsg S)) :
    requests (.die :: rx) = requests rx := by simp [requests]

theorem Inv.start : Inv (start : Tasks S) where
  secondary_ok p := by simp [Tasks.start]
  primary_ok p := by simp [Tasks.start]
  serial_ok := by simp [Tasks.start, toCome]
  token := by simp [Tasks.start, toCome, primaryToken]
  waiting := by simp [Tasks.start]
  running _ _ := by simp [Tasks.start, toCome]
  order := ⟨[], by simp [Tasks.start, served], fun _ _ => by simp [Tasks.start, toCome]⟩

/-- A message from outside goes to the end of what the secondary has to handle. -/
theorem Inv.post {t : Tasks S} (h : Inv t) {msg : ActorMsg S}
    (hmsg : ∃ x, msg = .msg x ∨ msg = .serial (some x)) : Inv (t.post msg) := by
  obtain ⟨x, hx⟩ := hmsg
  have hreq : requests [msg] = 0 := by rcases hx with rfl | rfl <;> simp
  have hext : external [msg] = [toPrimary x] := by rcases hx with rfl | rfl <;> simp
  have hser : ActorMsg.serial none ≠ msg := by rcases hx with rfl | rfl <;> simp
  have hdie : ActorMsg.die ≠ msg := by rcases hx with rfl | rfl <;> simp
  obtain ⟨rest, horder, hrest⟩ := h.order
  by_cases hc : t.mailboxClosed = true
  · -- the secondary stopped, and nobody reads the channel any more
    have hsec : t.secondary = .stopped := by
      unfold mailboxClosed at hc
      split at hc
      · assumption
      · next p hp => exact absurd hp (h.secondary_ok p)
      · cases hc
    have htc : (t.post msg).toCome = t.toCome := by
      simp [Tasks.post, toCome, hc, hsec]
    refine ⟨h.secondary_ok, h.primary_ok, htc ▸ h.serial_ok, ?_, h.waiting, ?_,
      rest ++ [toPrimary x], ?_, fun _ hs => absurd hsec hs⟩
    · rw [htc]; exact h.token
    · rw [htc]; exact h.running
    · change t.served ++ t.primaryRx ++ t.queue ++ (rest ++ [toPrimary x]) =
        external (t.sent ++ [msg])
      rw [external_append, hext, ← horder, List.append_assoc _ rest]
  · have htc : (t.post msg).toCome = t.toCome ++ [msg] := by
      simp only [Tasks.post, toCome, hc, Bool.false_eq_true, if_false]
      split <;> simp
    refine ⟨h.secondary_ok, h.primary_ok, ?_, ?_, h.waiting, fun hl hs => ?_,
      rest ++ [toPrimary x], ?_, fun hl hs => ?_⟩
    · rw [htc, List.mem_append, List.mem_singleton]
      exact fun hm => hm.elim h.serial_ok hser
    · rw [htc, requests_append, hreq]
      exact h.token
    · rw [htc, List.mem_append, List.mem_singleton]
      obtain ⟨hd, hsec⟩ := h.running hl hs
      exact ⟨fun hm => hm.elim hd hdie, hsec⟩
    · change t.served ++ t.primaryRx ++ t.queue ++ (rest ++ [toPrimary x]) =
        external (t.sent ++ [msg])
      rw [external_append, hext, ← horder, List.append_assoc _ rest]
    · rw [htc, external_append, hext, hrest hl hs]

/-- While an answer is due, the primary waits for it. -/
theorem Inv.primary_receives {t : Tasks S} (h : Inv t)
    (hdue : 0 < requests t.toCome ∨ t.primaryWaiting = true) :
    t.primary = .receive ∧ t.primaryRx = [] := by
  have htoken := h.token
  have hzero : t.primaryToken = 0 ∧ t.primaryRx.length = 0 := by
    rcases hdue with hdue | hdue
    · omega
    · rw [hdue, Bool.toNat_true] at htoken
      omega
  refine ⟨?_, List.eq_nil_of_length_eq_zero hzero.2⟩
  have hp := hzero.1
  unfold primaryToken at hp
  split at hp
  · assumption
  · cases hp

/-- Handing over a message from outside. -/
theorem Inv.handOver {t : Tasks S} (h : Inv t) {msg : ActorMsg S} {x : LocalActorMsg S}
    (hpc : t.secondary = .handle msg) (hx : msg = .msg x ∨ msg = .serial (some x)) :
    Inv (t.handOver x) := by
  have htc : t.toCome = msg :: t.mailbox := by simp [toCome, hpc]
  have hreq : requests t.toCome = requests t.mailbox := by
    rw [htc]
    rcases hx with rfl | rfl <;> simp
  have hext : external t.toCome = toPrimary x :: external t.mailbox := by
    rw [htc]
    rcases hx with rfl | rfl <;> simp
  obtain ⟨rest, horder, hrest⟩ := h.order
  have hrest := hrest (by simp [hpc]) (by simp [hpc])
  have hser : ActorMsg.serial none ∉ t.mailbox := fun hm =>
    h.serial_ok (htc ▸ List.mem_cons_of_mem _ hm)
  have hdie : ∀ hl hs, ActorMsg.die ∉ t.mailbox := fun hl hs hm =>
    (h.running hl hs).1 (htc ▸ List.mem_cons_of_mem _ hm)
  have htoken := h.token
  rw [hreq] at htoken
  rw [hrest, hext] at horder
  by_cases hw : t.primaryWaiting = true
  · -- the primary waits: the queue is empty and the message is the answer
    obtain ⟨hp, hrx⟩ := h.primary_receives (.inr hw)
    have hq := h.waiting hw
    have hout : t.handOver x = { t with
        primaryRx := [toPrimary x], secondary := .recv, primaryWaiting := false } := by
      simp [Tasks.handOver, hw, sendToPrimary, primaryClosed, hp, hrx]
    rw [hout]
    refine ⟨by simp, h.primary_ok, hser, ?_, by simp, fun hl hs => ⟨hdie hl hs, by simp, by simp⟩,
      external t.mailbox, ?_, fun _ _ => rfl⟩
    · change requests t.mailbox + 0 + 1 + t.primaryToken = 1
      rw [hw, hrx] at htoken
      simpa using htoken
    · rw [hrx, hq] at horder
      rw [← horder]
      simp [served, hq]
  · have hout : t.handOver x = { t with
        queue := t.queue ++ [toPrimary x], secondary := .recv } := by
      simp [Tasks.handOver, hw]
    rw [hout]
    refine ⟨by simp, h.primary_ok, hser, htoken, fun hw' => absurd hw' hw,
      fun hl hs => ⟨hdie hl hs, by simp, by simp⟩, external t.mailbox, ?_, fun _ _ => rfl⟩
    rw [← horder]
    simp [served]

/-- Answering a request. -/
theorem Inv.answer {t t' : Tasks S} (h : Inv t) (hpc : t.secondary = .handle .primaryRequest)
    (hst : t.secondaryStep = some t') : Inv t' := by
  have htc : t.toCome = .primaryRequest :: t.mailbox := by simp [toCome, hpc]
  obtain ⟨hp, hrx⟩ := h.primary_receives (.inl (by simp [htc]))
  have htoken := h.token
  have hw : t.primaryWaiting = false := by
    rw [htc, requests_primaryRequest] at htoken
    rcases hw : t.primaryWaiting with _ | _
    · rfl
    · rw [hw, Bool.toNat_true] at htoken
      omega
  obtain ⟨rest, horder, hrest⟩ := h.order
  have hrest := hrest (by simp [hpc]) (by simp [hpc])
  have hser : ActorMsg.serial none ∉ t.mailbox := fun hm =>
    h.serial_ok (htc ▸ List.mem_cons_of_mem _ hm)
  have hdie : ∀ hl hs, ActorMsg.die ∉ t.mailbox := fun hl hs hm =>
    (h.running hl hs).1 (htc ▸ List.mem_cons_of_mem _ hm)
  have hpt : t.primaryToken = 0 := by simp [primaryToken, hp]
  rw [htc, requests_primaryRequest, hw, hrx, hpt] at htoken
  rw [hrest, htc, external_primaryRequest, hrx] at horder
  rcases hq : t.queue with _ | ⟨msg, queue⟩
  · -- nothing is queued: the flag keeps the token
    have hout : t' = { t with primaryWaiting := true, secondary := .recv } := by
      simpa [secondaryStep, hpc, hw, hq, eq_comm] using hst
    subst hout
    refine ⟨by simp, h.primary_ok, hser, ?_, fun _ => hq,
      fun hl hs => ⟨hdie hl hs, by simp, by simp⟩, external t.mailbox, ?_, fun _ _ => rfl⟩
    · change requests t.mailbox + 1 + t.primaryRx.length + t.primaryToken = 1
      rw [hrx, hpt]
      simpa using htoken
    · rw [← horder]
      simp [served, hrx]
  · -- the answer is the head of the queue
    have hout : t' = { t with queue, primaryRx := [msg], secondary := .recv } := by
      simpa [secondaryStep, hpc, hw, hq, sendToPrimary, primaryClosed, hp, hrx, eq_comm] using hst
    subst hout
    refine ⟨by simp, h.primary_ok, hser, ?_, fun hw' => ?_,
      fun hl hs => ⟨hdie hl hs, by simp, by simp⟩, external t.mailbox, ?_, fun _ _ => rfl⟩
    · change requests t.mailbox + t.primaryWaiting.toNat + 1 + t.primaryToken = 1
      rw [hw, hpt]
      simpa using htoken
    · exact absurd hw' (by simp [hw])
    · rw [← horder, hq]
      simp [served]

/-- A step of the secondary keeps the invariant. -/
theorem Inv.secondaryStep {t t' : Tasks S} (h : Inv t) (hst : t.secondaryStep = some t') :
    Inv t' := by
  cases hpc : t.secondary with
  | recv =>
      rcases hmb : t.mailbox with _ | ⟨msg, mailbox⟩
      · simp [Tasks.secondaryStep, hpc, hmb] at hst
      · -- taking a message from the channel changes nothing of what is to come
        have hout : t' = { t with mailbox, secondary := .handle msg } := by
          simpa [Tasks.secondaryStep, hpc, hmb, eq_comm] using hst
        have htc : t'.toCome = t.toCome := by simp [hout, toCome, hpc, hmb]
        obtain ⟨rest, horder, hrest⟩ := h.order
        have hrest := hrest (by simp [hpc]) (by simp [hpc])
        have hserial := h.serial_ok
        have htoken := h.token
        have hrunning := h.running
        rw [← htc] at hserial htoken hrunning hrest
        subst hout
        exact ⟨by simp, h.primary_ok, hserial, htoken, h.waiting,
          fun hl hs => ⟨(hrunning hl hs).1, by simp, by simp⟩, rest, horder, fun _ _ => hrest⟩
  | handle msg =>
      cases msg with
      | msg x =>
          have hout : t' = t.handOver x := by
            simpa [Tasks.secondaryStep, hpc, eq_comm] using hst
          exact hout ▸ h.handOver hpc (.inl rfl)
      | serial x =>
          cases x with
          | none => exact absurd (by simp [toCome, hpc]) h.serial_ok
          | some x =>
              have hout : t' = t.handOver x := by
                simpa [Tasks.secondaryStep, hpc, eq_comm] using hst
              exact hout ▸ h.handOver hpc (.inr rfl)
      | primaryRequest => exact h.answer hpc hst
      | die =>
          have hout : t' = { t with secondary := .leaving } := by
            simpa [Tasks.secondaryStep, hpc, eq_comm] using hst
          have htc : t.toCome = .die :: t.mailbox := by simp [toCome, hpc]
          have htoken := h.token
          have hser : ActorMsg.serial none ∉ t.mailbox := fun hm =>
            h.serial_ok (htc ▸ List.mem_cons_of_mem _ hm)
          rw [htc, requests_die] at htoken
          obtain ⟨rest, horder, -⟩ := h.order
          subst hout
          refine ⟨by simp, h.primary_ok, hser, htoken, h.waiting, fun hl hs => ?_,
            rest, horder, fun hl => absurd rfl hl⟩
          exact absurd (htc ▸ List.mem_cons_self) (h.running hl hs).1
  | leaving =>
      have hout : t' = { t with secondary := .stopped } := by
        simpa [Tasks.secondaryStep, hpc, eq_comm] using hst
      have htc : t.toCome = t.mailbox := by simp [toCome, hpc]
      have hser := h.serial_ok
      have htoken := h.token
      rw [htc] at hser htoken
      obtain ⟨rest, horder, -⟩ := h.order
      subst hout
      exact ⟨by simp, h.primary_ok, hser, htoken, h.waiting,
        fun hl hs => absurd hpc (h.running hl hs).2.1, rest, horder, fun _ hs => absurd rfl hs⟩
  | stopped => simp [Tasks.secondaryStep, hpc] at hst
  | panicked p => exact absurd hpc (h.secondary_ok p)

/-- The primary goes on between two operations on its channels. -/
theorem Inv.goto {t : Tasks S} (h : Inv t) (hleaving : t.primary ≠ .leaving)
    (hstopped : t.primary ≠ .stopped) {pc : PrimaryPc S} (hok : ∀ p, pc ≠ .panicked p)
    (htoken : ({ t with primary := pc } : Tasks S).primaryToken = t.primaryToken)
    (hserved : ({ t with primary := pc } : Tasks S).served = t.served) :
    Inv { t with primary := pc } where
  secondary_ok := h.secondary_ok
  primary_ok := hok
  serial_ok := h.serial_ok
  token := by
    rw [htoken]
    exact h.token
  waiting := h.waiting
  running _ _ := h.running hleaving hstopped
  order := by
    rw [hserved]
    exact h.order

/-- A channel that the primary still writes to is open. -/
theorem Inv.mailboxClosed_eq_false {t : Tasks S} (h : Inv t) (hleaving : t.primary ≠ .leaving)
    (hstopped : t.primary ≠ .stopped) : t.mailboxClosed = false := by
  obtain ⟨-, -, hsec⟩ := h.running hleaving hstopped
  unfold mailboxClosed
  split
  · next hs => exact absurd hs hsec
  · next p hp => exact absurd hp (h.secondary_ok p)
  · rfl

/-- The primary goes on by writing a message of its own to the secondary. -/
theorem Inv.push {t : Tasks S} (h : Inv t) (hleaving : t.primary ≠ .leaving)
    (hstopped : t.primary ≠ .stopped) {msg : ActorMsg S} {pc : PrimaryPc S}
    (hser : msg ≠ .serial none) (hext : external [msg] = []) (hok : ∀ p, pc ≠ .panicked p)
    (hdie : msg = .die → pc = .leaving)
    (htoken : requests [msg] + ({ t with primary := pc } : Tasks S).primaryToken = t.primaryToken)
    (hserved : ({ t with primary := pc } : Tasks S).served = t.served) :
    Inv { t with mailbox := t.mailbox ++ [msg], primary := pc } := by
  have htc : ({ t with mailbox := t.mailbox ++ [msg], primary := pc } : Tasks S).toCome =
      t.toCome ++ [msg] := by
    simp only [toCome]
    split <;> simp
  obtain ⟨hnotDie, hsec⟩ := h.running hleaving hstopped
  obtain ⟨rest, horder, hrest⟩ := h.order
  refine ⟨h.secondary_ok, hok, ?_, ?_, h.waiting, fun hl _ => ⟨?_, hsec⟩, rest, ?_,
    fun hl hs => ?_⟩
  · rw [htc, List.mem_append, List.mem_singleton]
    exact fun hm => hm.elim h.serial_ok hser.symm
  · have hold := h.token
    rw [htc, requests_append]
    change requests t.toCome + requests [msg] + t.primaryWaiting.toNat + t.primaryRx.length +
      ({ t with primary := pc } : Tasks S).primaryToken = 1
    omega
  · rw [htc, List.mem_append, List.mem_singleton]
    exact fun hm => hm.elim hnotDie fun heq => hl (hdie heq.symm)
  · rw [← horder, ← hserved]
    rfl
  · rw [htc, external_append, hext, List.append_nil]
    exact hrest hl hs

/-- The primary takes the next answer, which is its token. -/
theorem Inv.take {t : Tasks S} (h : Inv t) (hprimary : t.primary = .receive)
    {msg : PrimaryMsg S} {primaryRx : List (PrimaryMsg S)} (hrx : t.primaryRx = msg :: primaryRx)
    {pc : PrimaryPc S} {calls : List S} (hok : ∀ p, pc ≠ .panicked p)
    (htoken : ({ t with primary := pc } : Tasks S).primaryToken = 1)
    (hserved : ({ t with primary := pc, calls } : Tasks S).served = t.served ++ [msg]) :
    Inv { t with primaryRx, primary := pc, calls } := by
  have hrunning := h.running (by simp [hprimary]) (by simp [hprimary])
  obtain ⟨rest, horder, hrest⟩ := h.order
  refine ⟨h.secondary_ok, hok, h.serial_ok, ?_, h.waiting, fun _ _ => hrunning, rest, ?_, hrest⟩
  · have hold := h.token
    have hwaits : t.primaryToken = 0 := by simp only [primaryToken, hprimary]
    rw [hrx, List.length_cons] at hold
    change requests t.toCome + t.primaryWaiting.toNat + primaryRx.length +
      ({ t with primary := pc } : Tasks S).primaryToken = 1
    omega
  · change ({ t with primary := pc, calls } : Tasks S).served ++ primaryRx ++ t.queue ++ rest =
      external t.sent
    rw [← horder, hserved, hrx, List.append_assoc t.served, List.singleton_append]

/-- A step of the primary keeps the invariant. -/
theorem Inv.primaryStep {t t' : Tasks S} (h : Inv t) (hst : t.primaryStep = some t') :
    Inv t' := by
  cases hpc : t.primary with
  | preStart =>
      have hout : t' = { t with primary := .request } := by
        simpa [Tasks.primaryStep, hpc, eq_comm] using hst
      rw [hout]
      exact h.goto (by simp [hpc]) (by simp [hpc]) (by simp) (by simp [primaryToken, hpc])
        (by simp [served, hpc])
  | request =>
      have hc := h.mailboxClosed_eq_false (by simp [hpc]) (by simp [hpc])
      have hout : t' = { t with
          mailbox := t.mailbox ++ [.primaryRequest], primary := .receive } := by
        simpa [Tasks.primaryStep, hpc, sendToSecondary, hc, eq_comm] using hst
      rw [hout]
      exact h.push (by simp [hpc]) (by simp [hpc]) (by simp) (by simp) (by simp) (by simp)
        (by simp [primaryToken, hpc]) (by simp [served, hpc])
  | receive =>
      rcases hrx : t.primaryRx with _ | ⟨msg, primaryRx⟩
      · have hc := h.mailboxClosed_eq_false (by simp [hpc]) (by simp [hpc])
        simp [Tasks.primaryStep, hpc, hrx, hc] at hst
      · cases msg with
        | msg m =>
            have hout : t' = { t with
                primaryRx, primary := .handle m, calls := t.calls ++ [m] } := by
              simpa [Tasks.primaryStep, hpc, hrx, eq_comm] using hst
            rw [hout]
            exact h.take hpc hrx (by simp) rfl (by simp [served, hpc])
        | die =>
            have hout : t' = { t with primaryRx, primary := .postStop } := by
              simpa [Tasks.primaryStep, hpc, hrx, eq_comm] using hst
            rw [hout]
            exact h.take hpc hrx (by simp) rfl (by simp [served, hpc])
  | handle m =>
      have hout : t' = { t with primary := .request } := by
        simpa [Tasks.primaryStep, hpc, eq_comm] using hst
      rw [hout]
      exact h.goto (by simp [hpc]) (by simp [hpc]) (by simp) (by simp [primaryToken, hpc])
        (by simp [served, hpc])
  | postStop =>
      have hout : t' = { t with primary := .sendDie } := by
        simpa [Tasks.primaryStep, hpc, eq_comm] using hst
      rw [hout]
      exact h.goto (by simp [hpc]) (by simp [hpc]) (by simp) (by simp [primaryToken, hpc])
        (by simp [served, hpc])
  | sendDie =>
      have hc := h.mailboxClosed_eq_false (by simp [hpc]) (by simp [hpc])
      have hout : t' = { t with mailbox := t.mailbox ++ [.die], primary := .leaving } := by
        simpa [Tasks.primaryStep, hpc, sendToSecondary, hc, eq_comm] using hst
      rw [hout]
      exact h.push (by simp [hpc]) (by simp [hpc]) (by simp) (by simp) (by simp) (by simp)
        (by simp [primaryToken, hpc]) (by simp [served, hpc])
  | leaving =>
      have hout : t' = { t with primary := .stopped } := by
        simpa [Tasks.primaryStep, hpc, eq_comm] using hst
      have htoken := h.token
      obtain ⟨rest, horder, hrest⟩ := h.order
      subst hout
      simp only [primaryToken, hpc] at htoken
      simp only [served, hpc] at horder
      exact ⟨h.secondary_ok, by simp, h.serial_ok, htoken, h.waiting,
        fun _ hs => absurd rfl hs, rest, horder, hrest⟩
  | stopped => simp [Tasks.primaryStep, hpc] at hst
  | panicked p => exact absurd hpc (h.primary_ok p)

/-- The invariant holds in every run. -/
theorem inv_of_reachable {t : Tasks S} (h : (system S).Reachable t) : Inv t := by
  refine h.invariant (fun t ht => by rw [ht]; exact .start) fun t move t' _ hinv hst => ?_
  cases move with
  | send x =>
      have hout : t.post (.msg x) = t' := Option.some.inj hst
      exact hout ▸ hinv.post ⟨x, .inl rfl⟩
  | sendSerial x =>
      have hout : t.post (.serial (some x)) = t' := Option.some.inj hst
      exact hout ▸ hinv.post ⟨x, .inr rfl⟩
  | secondary => exact hinv.secondaryStep hst
  | primary => exact hinv.primaryStep hst

/-! ## Refinement of the single-threaded actor -/

/-- What comes from outside carries no request, no end and nothing that does not
deserialize. -/
def FromOutside (rx : List (ActorMsg S)) : Prop :=
  ∀ msg ∈ rx, ∃ x, msg = .msg x ∨ msg = .serial (some x)

theorem fromOutside_of_reachable {t : Tasks S} (h : (system S).Reachable t) :
    FromOutside t.sent := by
  refine h.invariant (I := fun t => FromOutside t.sent)
    (fun t ht => by rw [ht]; simp [FromOutside, start]) fun t move t' _ hsent hst => ?_
  have hpost : ∀ msg, (∃ x, msg = .msg x ∨ msg = .serial (some x)) →
      FromOutside (t.sent ++ [msg]) := by
    intro msg hmsg a ha
    rcases List.mem_append.mp ha with ha | ha
    · exact hsent a ha
    · rw [List.mem_singleton.mp ha]
      exact hmsg
  have hsame : t'.sent = t.sent → FromOutside t'.sent := fun heq => heq ▸ hsent
  cases move with
  | send x =>
      have hout : t.post (.msg x) = t' := Option.some.inj hst
      exact hout ▸ hpost _ ⟨x, .inl rfl⟩
  | sendSerial x =>
      have hout : t.post (.serial (some x)) = t' := Option.some.inj hst
      exact hout ▸ hpost _ ⟨x, .inr rfl⟩
  | secondary => exact hsame (secondaryStep_sent hst)
  | primary => exact hsame (primaryStep_sent hst)

/-- The loop of `unit_single` over what the secondary hands over. -/
def serve : List (PrimaryMsg S) → List S × End
  | [] => ([], .blocked)
  | .msg m :: rest =>
      let (calls, e) := serve rest
      (m :: calls, e)
  | .die :: _ => ([], .postStop)

theorem unitSingle_eq_serve {sent : List (ActorMsg S)} (h : FromOutside sent) :
    unitSingle sent = serve (external sent) := by
  induction sent with
  | nil => rfl
  | cons msg sent ih =>
      have ih := ih (fun a ha => h a (List.mem_cons_of_mem _ ha))
      obtain ⟨x, rfl | rfl⟩ := h msg List.mem_cons_self
      · cases x with
        | msg m => rw [unitSingle, ih, external_msg, toPrimary, serve]
        | term => rfl
      · cases x with
        | msg m => rw [unitSingle, ih, external_serial, toPrimary, serve]
        | term => rfl

theorem serve_append (ms : List S) (rest : List (PrimaryMsg S)) :
    serve (ms.map .msg ++ rest) = (ms ++ (serve rest).1, (serve rest).2) := by
  induction ms with
  | nil => rfl
  | cons m ms ih => rw [List.map_cons, List.cons_append, serve, ih, List.cons_append]

/-- Double-threaded actors refine single-threaded ones.  The calls are a prefix
of those of `unit_single` on the same channel, and all of them once `post_stop`
is reached; the primary has at most one message to work on; it waits only while
the queue is empty; and neither task panics. -/
theorem double_refines_single (t : Tasks S) (h : (system S).Reachable t) :
    t.calls <+: (unitSingle t.sent).1 ∧
      (t.PostStop → unitSingle t.sent = (t.calls, .postStop)) ∧
      t.primaryRx.length + t.inHand ≤ 1 ∧
      (t.primaryWaiting = true → t.queue = []) ∧
      (∀ p, t.secondary ≠ .panicked p) ∧ ∀ p, t.primary ≠ .panicked p := by
  have hinv := inv_of_reachable h
  obtain ⟨rest, horder, -⟩ := hinv.order
  have hserve := unitSingle_eq_serve (fromOutside_of_reachable h)
  simp only [served, List.append_assoc] at horder
  rw [← horder, serve_append] at hserve
  refine ⟨?_, fun hstop => ?_, ?_, hinv.waiting, hinv.secondary_ok, hinv.primary_ok⟩
  · rw [hserve]
    exact List.prefix_append _ _
  · have hdie : (match t.primary with
        | .postStop | .sendDie | .leaving | .stopped => [PrimaryMsg.die]
        | _ => ([] : List (PrimaryMsg S))) = [.die] := by
      rcases hstop with hp | hp | hp | hp <;> rw [hp]
    rw [hserve, hdie]
    simp [serve]
  · have htoken := hinv.token
    have hhand : t.inHand ≤ t.primaryToken := by
      unfold inHand primaryToken
      split
      · next hp => simp [hp]
      · exact Nat.zero_le _
    omega

/-- Message 7, then `Term`, up to the start of `post_stop`. -/
def sevenThenTerm : List (Move Nat) :=
  [.primary, .primary, .send (.msg 7), .sendSerial .term, .secondary, .secondary, .secondary,
    .secondary, .primary, .secondary, .secondary, .primary, .primary, .secondary, .secondary,
    .primary]

theorem double_refines_single_seven :
    ∃ t : Tasks Nat, System.exec next start sevenThenTerm = some t ∧ t.PostStop ∧
      t.calls = [7] ∧ t.calls <+: (unitSingle t.sent).1 ∧
      (t.PostStop → unitSingle t.sent = (t.calls, .postStop)) ∧
      t.primaryRx.length + t.inHand ≤ 1 ∧
      (t.primaryWaiting = true → t.queue = []) ∧
      (∀ p, t.secondary ≠ .panicked p) ∧ ∀ p, t.primary ≠ .panicked p := by
  refine ⟨_, rfl, .inl rfl, rfl, double_refines_single _ ?_⟩
  exact System.reachable_of_exec sevenThenTerm (.of_init rfl) rfl

end Tasks

end AurumActors.Core
