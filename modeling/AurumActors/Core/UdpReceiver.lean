/-
  Core/UdpReceiver.lean --- the receiving task of `core/udp_receiver.rs`.

  One iteration of the loop takes one of the two branches of `select!`:
  `peek` looks at the datagram at the head of the socket, `expire` takes a
  message id from the timeout channel.  The timeout tasks run beside the loop.
  Forwarded builders are logged under the message id of their header.
-/
import AurumActors.Core.Packets
import AurumActors.Foundation.Maps
import AurumActors.Foundation.Run

set_option autoImplicit false

namespace AurumActors.Core

open AurumActors.Foundation Std

structure Receiver where
  /-- `recvd`, with the number of the timeout task in place of its handle -/
  recvd : ExtTreeMap UInt64 (Nat × MessageBuilder) compare
  headerBuf : List UInt8
  /-- the datagrams in the socket of the node -/
  socket : List Datagram
  /-- the timeout tasks that sleep, with their message ids -/
  timers : List (Nat × UInt64)
  nextTimer : Nat
  /-- the channel that the timeout tasks send to -/
  rx : List UInt64
  /-- the builders sent to the registry -/
  forwarded : List (UInt64 × MessageBuilder)
  deriving DecidableEq

namespace Receiver

/-- The state before the loop. -/
def start : Receiver where
  recvd := ∅
  headerBuf := List.replicate DatagramHeader.size 0
  socket := []
  timers := []
  nextTimer := 0
  rx := []
  forwarded := []

/-- `node.registry(RegistryMsg::Forward(mb))` -/
def forward (r : Receiver) (msgId : UInt64) (mb : MessageBuilder) : Receiver :=
  { r with forwarded := r.forwarded ++ [(msgId, mb)] }

/-- The branch of `select!` for the socket. -/
def peek (r : Receiver) : Except Halt Receiver :=
  match r.socket with
  | [] => .error .blocked
  | datagram :: rest =>
      let headerBuf := overlay r.headerBuf datagram
      match DatagramHeader.tryFrom headerBuf with
      | none => .ok { r with headerBuf := overlay headerBuf datagram, socket := rest }
      | some header =>
          if header.maxSeqNum = 0 then do
            let (mb, socket) ← (MessageBuilder.new header).insert header r.socket
            return { r with headerBuf, socket }.forward header.msgId mb
          else
            match r.recvd[header.msgId]? with
            | some (hdl, mb) => do
                let (mb, socket) ← mb.insert header r.socket
                if mb.finished then
                  let recvd := r.recvd.erase header.msgId
                  let timers := r.timers.filter (fun t => t.1 ≠ hdl)
                  return { r with headerBuf, socket, recvd, timers }.forward header.msgId mb
                else
                  return { r with
                    headerBuf, socket, recvd := r.recvd.insert header.msgId (hdl, mb) }
            | none => do
                let (mb, socket) ← (MessageBuilder.new header).insert header r.socket
                return { r with
                  headerBuf, socket
                  recvd := r.recvd.insert header.msgId (r.nextTimer, mb)
                  timers := r.timers ++ [(r.nextTimer, header.msgId)]
                  nextTimer := r.nextTimer + 1 }

/-- The branch of `select!` for the timeouts. -/
def expire (r : Receiver) : Except Halt Receiver :=
  match r.rx with
  | [] => .error .blocked
  | msgId :: rx => .ok { r with rx, recvd := r.recvd.erase msgId }

/-- A timeout task wakes up and sends its message id. -/
def wake (r : Receiver) (timer : Nat × UInt64) : Receiver :=
  { r with timers := r.timers.erase timer, rx := r.rx ++ [timer.2] }

/-- `n` iterations that all take the branch of the socket. -/
def peeks : Nat → Receiver → Except Halt Receiver
  | 0, r => .ok r
  | n + 1, r => r.peek >>= peeks n

/-! ## The task among the others -/

/-- What happens at a receiver: a datagram arrives in its socket, the loop takes
one of its branches, or a timeout task wakes up. -/
inductive Move where
  | arrive (datagram : Datagram)
  | peek
  | expire
  | wake (timer : Nat × UInt64)

def Step (r : Receiver) : Move → Receiver → Prop
  | .arrive datagram, r' => r' = { r with socket := r.socket ++ [datagram] }
  | .peek, r' => r.peek = .ok r'
  | .expire, r' => r.expire = .ok r'
  | .wake timer, r' => timer ∈ r.timers ∧ r' = r.wake timer

/-- The receiver from its start, with any datagrams arriving. -/
def system : System Receiver Move where
  init r := r = start
  step := Step

/-- Any datagrams may wait in the socket before the loop starts. -/
theorem reachable_arrivals (datagrams : List Datagram) :
    system.Reachable { start with socket := datagrams } := by
  induction datagrams using List.reverseRecOn with
  | nil => exact .of_init rfl
  | append_singleton ds d ih =>
      have hst : system.step { start with socket := ds } (.arrive d)
          { start with socket := ds ++ [d] } := rfl
      exact ih.step hst

/-! ## One iteration -/

/-- The builder that the packet of a header goes to. -/
def builderFor (r : Receiver) (header : DatagramHeader) : MessageBuilder :=
  if header.maxSeqNum = 0 then .new header
  else match r.recvd[header.msgId]? with
    | some (_, mb) => mb
    | none => .new header

/-- What an iteration stores after `insert` gave `mb` and left `socket`. -/
def store (r : Receiver) (header : DatagramHeader) (mb : MessageBuilder)
    (socket : List Datagram) : Receiver :=
  if header.maxSeqNum = 0 then { r with socket }.forward header.msgId mb
  else match r.recvd[header.msgId]? with
    | some (hdl, _) =>
        if mb.finished then
          { r with
            socket
            recvd := r.recvd.erase header.msgId
            timers := r.timers.filter (fun t => t.1 ≠ hdl) }.forward header.msgId mb
        else { r with socket, recvd := r.recvd.insert header.msgId (hdl, mb) }
    | none =>
        { r with
          socket
          recvd := r.recvd.insert header.msgId (r.nextTimer, mb)
          timers := r.timers ++ [(r.nextTimer, header.msgId)]
          nextTimer := r.nextTimer + 1 }

section Store

variable {r : Receiver} {header : DatagramHeader} {mb : MessageBuilder}

/-- A message of one packet is forwarded at once. -/
theorem store_single (socket : List Datagram) (hmax : header.maxSeqNum = 0) :
    r.store header mb socket = { r with socket }.forward header.msgId mb := by
  rw [store, if_pos hmax]

/-- The last packet of a message. -/
theorem store_last (socket : List Datagram) (hmax : header.maxSeqNum ≠ 0) {e : Nat × MessageBuilder}
    (hget : r.recvd[header.msgId]? = some e) (hfin : mb.finished = true) :
    r.store header mb socket =
      { r with
        socket
        recvd := r.recvd.erase header.msgId
        timers := r.timers.filter (fun t => t.1 ≠ e.1) }.forward header.msgId mb := by
  simp only [store, if_neg hmax, hget, if_pos hfin]

/-- A packet between the first and the last one. -/
theorem store_more (socket : List Datagram) (hmax : header.maxSeqNum ≠ 0) {e : Nat × MessageBuilder}
    (hget : r.recvd[header.msgId]? = some e) (hfin : mb.finished = false) :
    r.store header mb socket =
      { r with socket, recvd := r.recvd.insert header.msgId (e.1, mb) } := by
  simp only [store, if_neg hmax, hget, hfin, Bool.false_eq_true, if_false]

/-- The first packet of a message of several ones. -/
theorem store_first (socket : List Datagram) (hmax : header.maxSeqNum ≠ 0)
    (hget : r.recvd[header.msgId]? = none) :
    r.store header mb socket =
      { r with
        socket
        recvd := r.recvd.insert header.msgId (r.nextTimer, mb)
        timers := r.timers ++ [(r.nextTimer, header.msgId)]
        nextTimer := r.nextTimer + 1 } := by
  simp only [store, if_neg hmax, hget]

end Store

/-- The branch needs a datagram. -/
theorem socket_of_peek {r r' : Receiver} (h : r.peek = .ok r') :
    ∃ datagram rest, r.socket = datagram :: rest := by
  cases hs : r.socket with
  | nil => simp [peek, hs] at h
  | cons datagram rest => exact ⟨datagram, rest, rfl⟩

/-- A datagram whose header is not accepted is received and dropped. -/
theorem peek_of_reject {r : Receiver} {datagram : Datagram} {rest : List Datagram}
    (hs : r.socket = datagram :: rest)
    (hh : DatagramHeader.tryFrom (overlay r.headerBuf datagram) = none) :
    r.peek = .ok { r with
      headerBuf := overlay (overlay r.headerBuf datagram) datagram, socket := rest } := by
  simp only [peek, hs, hh]

/-- All branches for an accepted header insert into one builder and store it. -/
theorem peek_of_header {r : Receiver} {datagram : Datagram} {rest : List Datagram}
    {header : DatagramHeader} (hs : r.socket = datagram :: rest)
    (hh : DatagramHeader.tryFrom (overlay r.headerBuf datagram) = some header) :
    r.peek = (r.builderFor header).insert header r.socket >>= fun p =>
      .ok ({ r with headerBuf := overlay r.headerBuf datagram }.store header p.1 p.2) := by
  simp only [peek, hs, hh, builderFor, store]
  by_cases hmax : header.maxSeqNum = 0
  · simp only [if_pos hmax]
    rfl
  · simp only [if_neg hmax]
    rcases r.recvd[header.msgId]? with _ | ⟨hdl, mb⟩
    · rfl
    · simp only
      congr 1
      funext p
      split <;> rfl

/-- An iteration whose `insert` ends. -/
theorem peek_of_insert {r : Receiver} {datagram : Datagram} {rest socket : List Datagram}
    {header : DatagramHeader} {mb : MessageBuilder} (hs : r.socket = datagram :: rest)
    (hh : DatagramHeader.tryFrom (overlay r.headerBuf datagram) = some header)
    (hins : (r.builderFor header).insert header (datagram :: rest) = .ok (mb, socket)) :
    r.peek = .ok ({ r with headerBuf := overlay r.headerBuf datagram }.store header mb socket) := by
  rw [peek_of_header hs hh, hs, hins]
  rfl

@[simp] theorem store_socket (r : Receiver) (header : DatagramHeader) (mb : MessageBuilder)
    (socket : List Datagram) : (r.store header mb socket).socket = socket := by
  unfold store
  split
  · rfl
  · split
    · split <;> rfl
    · rfl

theorem peek_eq_ok {r r' : Receiver} {datagram : Datagram} {rest : List Datagram}
    {header : DatagramHeader} (hs : r.socket = datagram :: rest)
    (hh : DatagramHeader.tryFrom (overlay r.headerBuf datagram) = some header)
    (h : r.peek = .ok r') :
    ∃ mb socket, (r.builderFor header).insert header (datagram :: rest) = .ok (mb, socket) ∧
      r' = { r with headerBuf := overlay r.headerBuf datagram }.store header mb socket := by
  rw [peek_of_header hs hh, hs] at h
  cases hins : (r.builderFor header).insert header (datagram :: rest) with
  | error e => rw [hins] at h; cases h
  | ok p =>
      rw [hins] at h
      injection h with h
      exact ⟨p.1, p.2, rfl, h.symm⟩

/-- What an iteration of the branch of the socket does. -/
inductive Peeked (r : Receiver) : Receiver → Prop
  | rejected {datagram : Datagram} {rest : List Datagram} (hs : r.socket = datagram :: rest)
      (hh : DatagramHeader.tryFrom (overlay r.headerBuf datagram) = none) :
      Peeked r { r with
        headerBuf := overlay (overlay r.headerBuf datagram) datagram, socket := rest }
  | accepted {datagram : Datagram} {rest : List Datagram} {header : DatagramHeader}
      {mb : MessageBuilder} {socket : List Datagram} (hs : r.socket = datagram :: rest)
      (hh : DatagramHeader.tryFrom (overlay r.headerBuf datagram) = some header)
      (hins : (r.builderFor header).insert header (datagram :: rest) = .ok (mb, socket)) :
      Peeked r ({ r with headerBuf := overlay r.headerBuf datagram }.store header mb socket)

theorem peeked_of_ok {r r' : Receiver} (h : r.peek = .ok r') : r.Peeked r' := by
  obtain ⟨datagram, rest, hs⟩ := socket_of_peek h
  cases hh : DatagramHeader.tryFrom (overlay r.headerBuf datagram) with
  | none =>
      rw [peek_of_reject hs hh] at h
      cases h
      exact .rejected hs hh
  | some header =>
      obtain ⟨mb, socket, hins, rfl⟩ := peek_eq_ok hs hh h
      exact .accepted hs hh hins

theorem forwarded_store (r : Receiver) (header : DatagramHeader) (mb : MessageBuilder)
    (socket : List Datagram) : r.forwarded <+: (r.store header mb socket).forwarded := by
  unfold store
  split
  · exact List.prefix_append _ _
  · split
    · split
      · exact List.prefix_append _ _
      · exact List.prefix_rfl
    · exact List.prefix_rfl

/-- What the branch for the timeouts leaves. -/
theorem expire_cases {r r' : Receiver} (h : r.expire = .ok r') :
    ∃ msgId rx, r.rx = msgId :: rx ∧ r' = { r with rx, recvd := r.recvd.erase msgId } := by
  unfold expire at h
  split at h
  · cases h
  · next msgId rx hrx =>
      cases h
      exact ⟨msgId, rx, hrx, rfl⟩

/-- A receiver forwards behind what it has forwarded. -/
theorem forwarded_grows {r r' : Receiver} {move : Move} (h : r.Step move r') :
    r.forwarded <+: r'.forwarded := by
  cases move with
  | arrive d =>
      cases h
      exact List.prefix_rfl
  | wake timer =>
      obtain ⟨-, rfl⟩ := h
      exact List.prefix_rfl
  | expire =>
      obtain ⟨msgId, rx, -, rfl⟩ := expire_cases h
      exact List.prefix_rfl
  | peek =>
      cases peeked_of_ok h with
      | rejected hs hh => exact List.prefix_rfl
      | @accepted datagram =>
          exact forwarded_store { r with headerBuf := overlay r.headerBuf datagram } _ _ _

/-- An iteration of the branch of the socket leaves the channel of the timeouts. -/
theorem rx_of_peek {r r' : Receiver} (h : r.peek = .ok r') : r'.rx = r.rx := by
  cases peeked_of_ok h with
  | rejected hs hh => rfl
  | accepted hs hh hins =>
      unfold store
      split
      · rfl
      · split
        · split <;> rfl
        · rfl

/-! ## Progress -/

/-- An iteration that peeks an accepted header takes exactly that datagram from
the socket if and only if its packet has a free place in its builder. -/
theorem peek_takes_iff {r : Receiver} {datagram : Datagram} {rest : List Datagram}
    {header : DatagramHeader} (hs : r.socket = datagram :: rest)
    (hh : DatagramHeader.tryFrom (overlay r.headerBuf datagram) = some header) :
    (∃ r', r.peek = .ok r' ∧ r'.socket = rest) ↔ (r.builderFor header).Fits header := by
  rw [← MessageBuilder.insert_takes_iff _ _ datagram rest]
  constructor
  · rintro ⟨r', h, hrest⟩
    obtain ⟨mb, socket, hins, rfl⟩ := peek_eq_ok hs hh h
    rw [store_socket] at hrest
    exact ⟨mb, hrest ▸ hins⟩
  · rintro ⟨mb, hins⟩
    exact ⟨_, peek_of_insert hs hh hins, store_socket _ _ _ _⟩

theorem overlay_overlay {α : Type*} (buf bytes : List α) :
    overlay (overlay buf bytes) bytes = overlay buf bytes := by
  apply List.ext_getElem?
  intro k
  by_cases hk : k < buf.length
  · rw [getElem?_overlay _ _ (by simpa using hk), getElem?_overlay _ _ hk]
    split <;> rfl
  · rw [List.getElem?_eq_none (by simpa using Nat.le_of_not_lt hk),
      List.getElem?_eq_none (by simpa using Nat.le_of_not_lt hk)]

/-- The header that the datagram at the head of the socket decodes to. -/
def header? (r : Receiver) : Option DatagramHeader :=
  r.socket.head?.bind fun datagram => DatagramHeader.tryFrom (overlay r.headerBuf datagram)

end Receiver

end AurumActors.Core
