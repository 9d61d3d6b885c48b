/-
  Core/Progress.lean --- which datagrams the receiving task takes, and what a copy
  of a packet does to the ones behind it.

  A header is only peeked, and `insert` receives the datagram unless it has its
  packet already.  Two runs stand side by side: one with a copy at the head of the
  socket and one without it.  They are compared as long as the message of the copy
  is incomplete, so up to its timeout.
-/
import AurumActors.Core.UdpReceiver

set_option autoImplicit false

namespace AurumActors.Core

open AurumActors.Foundation Std

namespace Receiver

/-! ## Copies -/

/-- The header of a copy of a packet that an incomplete builder has. -/
structure Copy (r : Receiver) (header : DatagramHeader) : Prop where
  multi : header.maxSeqNum ≠ 0
  stored : ∃ hdl mb, r.recvd[header.msgId]? = some (hdl, mb) ∧ mb.finished = false ∧
    header.seqNum.toNat / 8 < mb.seqsRecvd.length ∧ mb.Received header.seqNum.toNat

/-- An iteration that peeks such a copy only reads its header. -/
theorem peek_of_copy {r : Receiver} {datagram : Datagram} {rest : List Datagram}
    {header : DatagramHeader} (hs : r.socket = datagram :: rest)
    (hh : DatagramHeader.tryFrom (overlay r.headerBuf datagram) = some header)
    (hcopy : r.Copy header) :
    r.peek = .ok { r with headerBuf := overlay r.headerBuf datagram } := by
  obtain ⟨hmulti, hdl, mb, hget, hfin, hindex, hrecv⟩ := hcopy
  have hbuilder : r.builderFor header = mb := by
    simp only [builderFor, if_neg hmulti, hget]
  have hsame : r.recvd.insert header.msgId (hdl, mb) = r.recvd := insert_eq_self hget
  rw [peek_of_header hs hh, hbuilder, MessageBuilder.insert_of_received hindex hrecv]
  have hstore := store_more (r := { r with headerBuf := overlay r.headerBuf datagram }) r.socket
    hmulti hget hfin
  rw [hsame] at hstore
  exact congrArg Except.ok hstore

/-- However often the loop peeks such a copy, it stays where it is. -/
theorem peeks_of_copy {datagram : Datagram} {rest : List Datagram} {header : DatagramHeader}
    (n : Nat) {r : Receiver} (hs : r.socket = datagram :: rest)
    (hh : DatagramHeader.tryFrom (overlay r.headerBuf datagram) = some header)
    (hcopy : r.Copy header) :
    ∃ headerBuf, peeks n r = .ok { r with headerBuf } := by
  induction n generalizing r with
  | zero => exact ⟨r.headerBuf, rfl⟩
  | succ n ih =>
      obtain ⟨headerBuf, h⟩ := ih (r := { r with headerBuf := overlay r.headerBuf datagram }) hs
        (by rw [overlay_overlay]; exact hh) ⟨hcopy.multi, hcopy.stored⟩
      refine ⟨headerBuf, ?_⟩
      rw [peeks, peek_of_copy hs hh hcopy]
      exact h

/-- An iteration takes the head of the socket, forwards a message, or finds a
copy. -/
theorem peek_cases {r r' : Receiver} (h : r.peek = .ok r') :
    r'.socket.length < r.socket.length ∨
      r.forwarded.length < r'.forwarded.length ∧ r'.socket = r.socket ∨
      (∃ header, r.header? = some header ∧ r.Copy header) ∧ r'.socket = r.socket := by
  cases peeked_of_ok h with
  | rejected hs hh => exact .inl (by simp [hs])
  | @accepted datagram rest header mb socket hs hh hins =>
      rw [store_socket]
      rcases MessageBuilder.insert_cases hins with rfl | ⟨rfl, rfl, hindex, hrecv⟩
      · exact .inl (by simp [hs])
      · right
        by_cases hmulti : header.maxSeqNum = 0
        · rw [builderFor, if_pos hmulti] at hrecv
          exact absurd hrecv (not_bitSet_replicate _ _)
        · cases hget : r.recvd[header.msgId]? with
          | none =>
              simp only [builderFor, if_neg hmulti, hget] at hrecv
              exact absurd hrecv (not_bitSet_replicate _ _)
          | some e =>
              have hbuilder : r.builderFor header = e.2 := by
                simp only [builderFor, if_neg hmulti, hget]
              rw [hbuilder] at hindex hrecv ⊢
              by_cases hfin : e.2.finished = true
              · left
                rw [store_last (r := { r with headerBuf := overlay r.headerBuf datagram }) _
                  hmulti hget hfin]
                exact ⟨by simp [forward], hs.symm⟩
              · right
                refine ⟨⟨header, by simp [header?, hs, hh], hmulti, e.1, e.2, hget, ?_, hindex,
                  hrecv⟩, hs.symm⟩
                exact Bool.eq_false_iff.mpr hfin

/-! ## Runs up to the timeout of a message -/

/-- The timeout of the message is not taken. -/
def BeforeTimeout (msgId : UInt64) (r : Receiver) : Move → Prop
  | .expire => r.rx.head? ≠ some msgId
  | .arrive _ | .peek | .wake _ => True

/-- The branch of the socket finds copies only. -/
def OnlyCopies (r : Receiver) : Move → Prop
  | .peek => ∃ header, r.header? = some header ∧ r.Copy header
  | .arrive _ | .expire | .wake _ => True

/-- The datagrams that arrive in a run. -/
def arrivals (moves : List Move) : List Datagram :=
  moves.filterMap fun
    | .arrive datagram => some datagram
    | .peek | .expire | .wake _ => none

theorem arrivals_snoc (moves : List Move) (m : Move) :
    arrivals (moves ++ [m]) = arrivals moves ++ arrivals [m] := List.filterMap_append

theorem Copy.expire {r : Receiver} {header : DatagramHeader} {msgId : UInt64} {rx : List UInt64}
    (h : r.Copy header) (hne : msgId ≠ header.msgId) :
    ({ r with rx, recvd := r.recvd.erase msgId } : Receiver).Copy header := by
  obtain ⟨hmulti, hdl, mb, hget, hstored⟩ := h
  refine ⟨hmulti, hdl, mb, ?_, hstored⟩
  rw [getElem?_erase_eq, if_neg (Ne.symm hne)]
  exact hget

/-- A copy waits at the head of the socket. -/
structure Waits (copy : Datagram) (header : DatagramHeader) (r : Receiver) : Prop where
  head : r.socket.head? = some copy
  accepted : DatagramHeader.tryFrom (overlay r.headerBuf copy) = some header
  copy : r.Copy header

/-- What a move does to a receiver at which a copy waits. -/
theorem Waits.step {copy : Datagram} {header : DatagramHeader} {r r' : Receiver} {m : Move}
    (h : r.Waits copy header) (hm : r.BeforeTimeout header.msgId m)
    (hst : system.step r m r') : r'.Waits copy header ∧ r'.forwarded = r.forwarded ∧
      r'.socket = r.socket ++ arrivals [m] := by
  obtain ⟨hhead, haccepted, hcopy⟩ := h
  cases m with
  | arrive datagram =>
      obtain rfl : r' = { r with socket := r.socket ++ [datagram] } := hst
      refine ⟨⟨?_, haccepted, hcopy.multi, hcopy.stored⟩, rfl, rfl⟩
      simp [List.head?_append, hhead]
  | wake timer =>
      obtain ⟨-, rfl⟩ : timer ∈ r.timers ∧ r' = r.wake timer := hst
      exact ⟨⟨hhead, haccepted, hcopy.multi, hcopy.stored⟩, rfl, (List.append_nil _).symm⟩
  | expire =>
      have hexpire : r.expire = .ok r' := hst
      obtain ⟨msgId, rx, hrx, rfl⟩ := expire_cases hexpire
      have hm : r.rx.head? ≠ some header.msgId := hm
      rw [hrx, List.head?_cons, ne_eq, Option.some.injEq] at hm
      exact ⟨⟨hhead, haccepted, hcopy.expire hm⟩, rfl, (List.append_nil _).symm⟩
  | peek =>
      obtain ⟨rest, hs⟩ := List.head?_eq_some_iff.mp hhead
      have hpeek : r.peek = .ok r' := hst
      rw [peek_of_copy hs haccepted hcopy] at hpeek
      cases hpeek
      refine ⟨⟨hhead, ?_, hcopy.multi, hcopy.stored⟩, rfl, (List.append_nil _).symm⟩
      rw [overlay_overlay]
      exact haccepted

/-- As long as a copy waits, nothing is taken and nothing is forwarded. -/
theorem Waits.run {copy : Datagram} {header : DatagramHeader} {r r' : Receiver}
    {moves : List Move} (hrun : (system.restrict (BeforeTimeout header.msgId)).Run r moves r')
    (h : r.Waits copy header) : r'.Waits copy header ∧ r'.forwarded = r.forwarded ∧
      r'.socket = r.socket ++ arrivals moves := by
  induction hrun with
  | nil => exact ⟨h, rfl, (List.append_nil _).symm⟩
  | snoc hrun hst ih =>
      obtain ⟨hwaits, hforwarded, hsocket⟩ := ih
      obtain ⟨hwaits', hforwarded', hsocket'⟩ := hwaits.step hst.2 hst.1
      refine ⟨hwaits', hforwarded'.trans hforwarded, ?_⟩
      rw [hsocket', hsocket, arrivals_snoc, List.append_assoc]

/-! ## With and without the copy -/

/-- Nothing tells a receiver with the copy from one without it: they have stored
the same packets and forwarded the same messages, and the same datagrams wait
behind the copy, or where it was. -/
structure Unnoticed (copy : Datagram) (without withCopy : Receiver) : Prop where
  recvd : withCopy.recvd = without.recvd
  forwarded : withCopy.forwarded = without.forwarded
  behind : withCopy.socket = without.socket ∨ withCopy.socket = copy :: without.socket

/-- A receiver that only finds copies does all that it does with one more copy at
the head of its socket. -/
theorem unnoticed_step {copy : Datagram} {header : DatagramHeader} {s s' t : Receiver} {m : Move}
    (hR : t.Waits copy header ∧
      t = { s with socket := copy :: s.socket, headerBuf := t.headerBuf })
    (hst : ((system.restrict (BeforeTimeout header.msgId)).restrict OnlyCopies).step s m s') :
    ∃ t', (system.restrict (BeforeTimeout header.msgId)).step t m t' ∧ t'.Waits copy header ∧
      t' = { s' with socket := copy :: s'.socket, headerBuf := t'.headerBuf } := by
  obtain ⟨hwaits, hstate⟩ := hR
  obtain ⟨⟨hst, hbefore⟩, hcopies⟩ := hst
  have hbefore' : t.BeforeTimeout header.msgId m := by
    rw [hstate]
    cases m <;> exact hbefore
  suffices hmove : ∃ t', system.step t m t' ∧
      t' = { s' with socket := copy :: s'.socket, headerBuf := t'.headerBuf } by
    obtain ⟨t', ht', hstate'⟩ := hmove
    exact ⟨t', ⟨ht', hbefore'⟩, (hwaits.step hbefore' ht').1, hstate'⟩
  cases m with
  | arrive datagram =>
      obtain rfl : s' = { s with socket := s.socket ++ [datagram] } := hst
      exact ⟨{ t with socket := t.socket ++ [datagram] }, rfl, by rw [hstate]; rfl⟩
  | wake timer =>
      obtain ⟨hmem, rfl⟩ : timer ∈ s.timers ∧ s' = s.wake timer := hst
      refine ⟨t.wake timer, ⟨?_, rfl⟩, by rw [hstate]; rfl⟩
      rw [hstate]
      exact hmem
  | expire =>
      have hexpire : s.expire = .ok s' := hst
      obtain ⟨msgId, rx, hrx, rfl⟩ := expire_cases hexpire
      refine ⟨{ t with rx, recvd := t.recvd.erase msgId }, ?_, by rw [hstate]⟩
      have hrx' : t.rx = msgId :: rx := by
        rw [hstate]
        exact hrx
      change t.expire = _
      simp only [Receiver.expire, hrx']
  | peek =>
      -- both only look at the header of a copy
      obtain ⟨other, hother, hcopy⟩ := hcopies
      have hpeek : s.peek = .ok s' := hst
      obtain ⟨datagram, rest, hs⟩ := socket_of_peek hpeek
      simp only [header?, hs, List.head?_cons, Option.bind_some] at hother
      rw [peek_of_copy hs hother hcopy] at hpeek
      cases hpeek
      obtain ⟨tail, htail⟩ := List.head?_eq_some_iff.mp hwaits.head
      refine ⟨_, peek_of_copy htail hwaits.accepted hwaits.copy, ?_⟩
      rw [hstate]

/-- A move takes no more datagrams than there are.  If it takes none and forwards
none, it finds a copy or does not look. -/
theorem onlyCopies_of_step {r r' : Receiver} {m : Move} (hst : system.step r m r') :
    r'.socket.length ≤ r.socket.length + (arrivals [m]).length ∧
      (r'.socket.length = r.socket.length + (arrivals [m]).length →
        r'.forwarded.length = r.forwarded.length → r.OnlyCopies m) := by
  cases m with
  | arrive datagram =>
      obtain rfl : r' = { r with socket := r.socket ++ [datagram] } := hst
      exact ⟨by simp [arrivals], fun _ _ => trivial⟩
  | wake timer =>
      obtain ⟨-, rfl⟩ : timer ∈ r.timers ∧ r' = r.wake timer := hst
      exact ⟨Nat.le_refl _, fun _ _ => trivial⟩
  | expire =>
      have hexpire : r.expire = .ok r' := hst
      obtain ⟨msgId, rx, -, rfl⟩ := expire_cases hexpire
      exact ⟨Nat.le_refl _, fun _ _ => trivial⟩
  | peek =>
      have hpeek : r.peek = .ok r' := hst
      simp only [arrivals, List.filterMap_cons, List.filterMap_nil, List.length_nil]
      rcases peek_cases hpeek with htaken | ⟨hmore, hsame⟩ | ⟨hcopy, hsame⟩
      · exact ⟨by omega, fun heq _ => by omega⟩
      · exact ⟨by rw [hsame]; omega, fun _ heq => by omega⟩
      · exact ⟨by rw [hsame]; omega, fun _ _ => hcopy⟩

/-- A run takes no more datagrams than arrive, and forwards nothing back.  If it
takes none and forwards none, it finds copies only. -/
theorem onlyCopies_of_run {msgId : UInt64} {r s : Receiver} {moves : List Move}
    (hrun : (system.restrict (BeforeTimeout msgId)).Run r moves s) :
    s.socket.length ≤ r.socket.length + (arrivals moves).length ∧
      r.forwarded.length ≤ s.forwarded.length ∧
      (s.socket.length = r.socket.length + (arrivals moves).length →
        s.forwarded.length = r.forwarded.length →
        ((system.restrict (BeforeTimeout msgId)).restrict OnlyCopies).Run r moves s) := by
  induction hrun with
  | nil => exact ⟨Nat.le_refl _, Nat.le_refl _, fun _ _ => .nil⟩
  | @snoc moves m t s hrun hst ih =>
      obtain ⟨hsocket, hforwarded, hcopies⟩ := ih
      have hgrows : t.forwarded.length ≤ s.forwarded.length :=
        (forwarded_grows hst.1).length_le
      have hcount : (arrivals (moves ++ [m])).length =
          (arrivals moves).length + (arrivals [m]).length := by
        rw [arrivals_snoc, List.length_append]
      obtain ⟨hmove, honly⟩ := onlyCopies_of_step hst.1
      refine ⟨by omega, by omega, fun hs hf => ?_⟩
      have hrun' := hcopies (by omega) (by omega)
      exact .snoc hrun' ⟨hst, honly (by omega) (by omega)⟩

/-- A copy at the head of the socket goes unnoticed in a run up to the timeout of
its message if and only if the loop without the copy finds copies only. -/
theorem unnoticed_iff {r s : Receiver} {copy : Datagram} {rest : List Datagram}
    {header : DatagramHeader} (hwaits : ({ r with socket := copy :: rest } : Receiver).Waits copy
      header) {moves : List Move}
    (hrun : (system.restrict (BeforeTimeout header.msgId)).Run { r with socket := rest } moves s) :
    (∃ moves' t, arrivals moves' = arrivals moves ∧
      (system.restrict (BeforeTimeout header.msgId)).Run { r with socket := copy :: rest }
        moves' t ∧ Unnoticed copy s t) ↔
      ((system.restrict (BeforeTimeout header.msgId)).restrict OnlyCopies).Run
        { r with socket := rest } moves s := by
  constructor
  · rintro ⟨moves', t, harrivals, hrun', hsame⟩
    obtain ⟨-, hforwarded, hsocket⟩ := Waits.run hrun' hwaits
    obtain ⟨hle, -, hcopies⟩ := onlyCopies_of_run hrun
    have hlength : t.socket.length = rest.length + (arrivals moves).length + 1 := by
      rw [hsocket, harrivals, List.length_append, List.length_cons]
      omega
    refine hcopies ?_ ?_
    · rcases hsame.behind with hbehind | hbehind
      · rw [hbehind] at hlength
        simp only at hle
        omega
      · rw [hbehind, List.length_cons] at hlength
        simp only
        omega
    · rw [← hsame.forwarded, hforwarded]
  · intro hcopies
    obtain ⟨t, hrun', -, hstate⟩ := hcopies.simulates
      (R := fun s (t : Receiver) => t.Waits copy header ∧
        t = { s with socket := copy :: s.socket, headerBuf := t.headerBuf })
      (fun _ _ _ _ => unnoticed_step) ⟨hwaits, rfl⟩
    refine ⟨moves, t, rfl, hrun', ?_, ?_, .inr ?_⟩ <;> rw [hstate]

/-! ## Progress -/

/-- Progress of the receiver, exactly.  An iteration that peeks an accepted header
takes the datagram if and only if its packet has a free place in its builder.  A
copy of a packet of an incomplete message has none, and no number of iterations
of the branch of the socket takes it, handles a datagram behind it or forwards a
message.  Against a run without the copy, up to the timeout of its message, it
makes no difference if and only if that run finds other copies only. -/
theorem progress_iff (r : Receiver) (datagram : Datagram) (rest : List Datagram)
    (header : DatagramHeader) (hs : r.socket = datagram :: rest)
    (hh : DatagramHeader.tryFrom (overlay r.headerBuf datagram) = some header) :
    ((∃ r', r.peek = .ok r' ∧ r'.socket = rest) ↔ (r.builderFor header).Fits header) ∧
      (r.Copy header → (¬ (r.builderFor header).Fits header ∧
        ∀ n, ∃ r', peeks n r = .ok r' ∧ r'.socket = datagram :: rest ∧ r'.recvd = r.recvd ∧
          r'.forwarded = r.forwarded) ∧
        ∀ (moves : List Move) (s : Receiver),
          (system.restrict (BeforeTimeout header.msgId)).Run { r with socket := rest } moves s →
          ((∃ moves' t, arrivals moves' = arrivals moves ∧
            (system.restrict (BeforeTimeout header.msgId)).Run r moves' t ∧
            Unnoticed datagram s t) ↔
            ((system.restrict (BeforeTimeout header.msgId)).restrict OnlyCopies).Run
              { r with socket := rest } moves s)) := by
  refine ⟨peek_takes_iff hs hh, fun hcopy => ⟨⟨fun hfits => ?_, fun n => ?_⟩,
    fun moves s hrun => ?_⟩⟩
  · obtain ⟨hmulti, hdl, mb, hget, -, -, hrecv⟩ := hcopy
    simp only [builderFor, if_neg hmulti, hget] at hfits
    exact hfits.fresh hrecv
  · obtain ⟨headerBuf, h⟩ := peeks_of_copy n hs hh hcopy
    exact ⟨_, h, hs, rfl, rfl⟩
  · have hr : ({ r with socket := datagram :: rest } : Receiver) = r := by rw [← hs]
    have hwaits : ({ r with socket := datagram :: rest } : Receiver).Waits datagram header :=
      ⟨rfl, hh, hcopy.multi, hcopy.stored⟩
    have hiff := unnoticed_iff hwaits hrun
    rwa [hr] at hiff

/-- The header of packet `seqNum` of a message of 57 bytes. -/
def headerOfTwo (seqNum : UInt16) : DatagramHeader where
  msgId := 5
  seqNum := seqNum
  maxSeqNum := 1
  msgSize := 56
  destSize := 1
  intp := .message

/-- The first packet of that message. -/
def firstOfTwo : Datagram := (headerOfTwo 0).put ++ List.replicate payloadPerPacket 7

/-- The second packet of that message. -/
def secondOfTwo : Datagram := (headerOfTwo 1).put ++ [9]

/-- The first copy is taken.  Of three copies the second one then waits at the
head, and goes unnoticed by one that looks at the third. -/
theorem progress_iff_first :
    (∃ r', ({ start with socket := [firstOfTwo] } : Receiver).peek = .ok r' ∧ r'.socket = []) ∧
      ∃ r s moves' t, r.socket = [firstOfTwo, firstOfTwo] ∧ r.Copy (headerOfTwo 0) ∧
        (system.restrict (BeforeTimeout 5)).Run { r with socket := [firstOfTwo] } [.peek] s ∧
        (system.restrict (BeforeTimeout 5)).Run r moves' t ∧ Unnoticed firstOfTwo s t := by
  constructor
  · have hfits : (({ start with socket := [firstOfTwo] } : Receiver).builderFor
        (headerOfTwo 0)).Fits (headerOfTwo 0) := by decide
    exact (progress_iff { start with socket := [firstOfTwo] } firstOfTwo [] (headerOfTwo 0) rfl
      (by decide)).1.mpr hfits
  · have hpeek : ∃ r ∈ ({ start with
          socket := [firstOfTwo, firstOfTwo, firstOfTwo] } : Receiver).peek.toOption,
        r.socket = [firstOfTwo, firstOfTwo] ∧
          DatagramHeader.tryFrom (overlay r.headerBuf firstOfTwo) = some (headerOfTwo 0) ∧
          ∃ e ∈ r.recvd[(5 : UInt64)]?, e.2.finished = false ∧ 0 < e.2.seqsRecvd.length ∧
            e.2.Received 0 := by decide
    obtain ⟨r, -, hs, hh, e, hget, hfin, hindex, hrecv⟩ := hpeek
    have hcopy : r.Copy (headerOfTwo 0) :=
      ⟨by decide, e.1, e.2, hget, hfin, hindex, hrecv⟩
    -- without the copy at the head, the loop looks at the one behind it
    have hlook : ({ r with socket := [firstOfTwo] } : Receiver).peek =
        .ok { r with socket := [firstOfTwo], headerBuf := overlay r.headerBuf firstOfTwo } :=
      peek_of_copy rfl hh ⟨hcopy.multi, hcopy.stored⟩
    have hrun : (system.restrict (BeforeTimeout 5)).Run { r with socket := [firstOfTwo] }
        ([] ++ [.peek])
        { r with socket := [firstOfTwo], headerBuf := overlay r.headerBuf firstOfTwo } :=
      .snoc .nil ⟨hlook, trivial⟩
    have hcopies : ((system.restrict (BeforeTimeout 5)).restrict OnlyCopies).Run
        { r with socket := [firstOfTwo] } ([] ++ [.peek])
        { r with socket := [firstOfTwo], headerBuf := overlay r.headerBuf firstOfTwo } :=
      .snoc .nil ⟨⟨hlook, trivial⟩, headerOfTwo 0, hh, hcopy.multi, hcopy.stored⟩
    obtain ⟨moves', t, -, hrun', hsame⟩ := (((progress_iff r firstOfTwo [firstOfTwo]
      (headerOfTwo 0) hs hh).2 hcopy).2 _ _ hrun).mpr hcopies
    exact ⟨r, _, moves', t, hs, hcopy, hrun, hrun', hsame⟩

/-- A second copy of the first packet arrives before the second packet.  The
loop takes the first copy, and then never takes the head of the socket. -/
theorem copy_blocks_receiver :
    ∃ r, system.Reachable r ∧ r.socket = [firstOfTwo, secondOfTwo] ∧
      DatagramHeader.tryFrom (overlay r.headerBuf firstOfTwo) = some (headerOfTwo 0) ∧
      ¬ ∃ r', r.peek = .ok r' ∧ r'.socket = [secondOfTwo] := by
  have hhead : ∀ buf : List UInt8, buf.length = DatagramHeader.size →
      DatagramHeader.tryFrom (overlay buf firstOfTwo) = some (headerOfTwo 0) := by
    intro buf hbuf
    rw [firstOfTwo, DatagramHeader.overlay_put_append hbuf]
    decide
  have hlen : start.headerBuf.length = DatagramHeader.size := rfl
  -- the first copy opens a builder, in which its bit is set
  have hfits : (MessageBuilder.new (headerOfTwo 0)).Fits (headerOfTwo 0) :=
    MessageBuilder.new_fits_of_seqNum_zero _ rfl
  obtain ⟨mb, hins, hmb⟩ :=
    MessageBuilder.insert_of_fits hfits firstOfTwo [firstOfTwo, secondOfTwo]
  have hpeek := peek_of_header (r := { start with
    socket := [firstOfTwo, firstOfTwo, secondOfTwo] }) rfl (hhead _ hlen)
  have hbuilder : ({ start with socket := [firstOfTwo, firstOfTwo, secondOfTwo] } :
      Receiver).builderFor (headerOfTwo 0) = .new (headerOfTwo 0) := rfl
  rw [hbuilder, hins] at hpeek
  have hreach := (reachable_arrivals [firstOfTwo, firstOfTwo, secondOfTwo]).step
    (show system.step _ .peek _ from hpeek)
  have hlen' : (overlay start.headerBuf firstOfTwo).length = DatagramHeader.size := by
    rw [length_overlay, hlen]
  refine ⟨_, hreach, rfl, hhead _ hlen', ?_⟩
  -- the second copy meets that bit
  rw [peek_takes_iff rfl (hhead _ hlen')]
  intro h
  refine h.fresh ?_
  change mb.Received 0
  exact (hmb.received 0).mpr (.inl rfl)

end Receiver

end AurumActors.Core
