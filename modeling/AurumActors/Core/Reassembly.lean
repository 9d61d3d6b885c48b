/-
  Core/Reassembly.lean --- messages cut by `UdpSerial::send` and put together by
  `udp_receiver`.

  Any messages with distinct ids are sent.  Their datagrams arrive in any order,
  each at most once, some never, and timeouts go off at any moment.  The
  invariant says of each message id which packets its builder holds, where their
  bytes are, and when the message was forwarded.
-/
import AurumActors.Core.UdpReceiver
import AurumActors.Core.UdpSerial
import Mathlib.Data.List.Nodup
import Mathlib.Data.Set.Defs

set_option autoImplicit false

namespace AurumActors.Core

open AurumActors.Foundation Std

/-! ## Messages -/

/-- What a `UdpSerial` is made from, within the limits of the header fields. -/
structure Message where
  msgId : UInt64
  item : List UInt8
  intp : Interpretations
  dest : List UInt8
  item_ne_nil : item ≠ []
  dest_pos : 1 ≤ dest.length
  dest_le : dest.length ≤ 65535
  total_le : item.length + dest.length ≤ 65536 * payloadPerPacket

namespace Message

/-- The serialized message. -/
def serial (m : Message) : UdpSerial := .new m.msgId m.item m.intp m.dest

/-- The item and behind it the destination. -/
def content (m : Message) : List UInt8 := m.item ++ m.dest

/-- The sequence number of the last packet. -/
def maxSeq (m : Message) : Nat := (m.item.length + m.dest.length - 1) / payloadPerPacket

/-- The header of packet `i`. -/
def header (m : Message) (i : Nat) : DatagramHeader :=
  { UdpSerial.firstHeader m.msgId m.item m.intp m.dest with seqNum := i.toUInt16 }

/-- Packet `i`. -/
def packet (m : Message) (i : Nat) : Datagram :=
  (m.header i).put ++ (m.content.drop (i * payloadPerPacket)).take payloadPerPacket

theorem total_pos (m : Message) : 0 < m.item.length + m.dest.length := by
  have := m.dest_pos
  omega

theorem length_content (m : Message) : m.content.length = m.item.length + m.dest.length := by
  simp [content]

theorem maxSeq_le (m : Message) : m.maxSeq ≤ 65535 := by
  have := m.total_le
  simp only [maxSeq, payloadPerPacket, packetSize, DatagramHeader.size] at this ⊢
  omega

/-- The sender sends packet 0 to packet `maxSeq`. -/
theorem send_serial (m : Message) : m.serial.send = (List.range (m.maxSeq + 1)).map m.packet :=
  UdpSerial.send_new m.msgId m.item m.intp m.dest m.total_pos

theorem mem_send {m : Message} {d : Datagram} :
    d ∈ m.serial.send ↔ ∃ i ≤ m.maxSeq, d = m.packet i := by
  rw [send_serial, List.mem_map]
  constructor
  · rintro ⟨i, hi, rfl⟩
    exact ⟨i, Nat.lt_succ_iff.mp (List.mem_range.mp hi), rfl⟩
  · rintro ⟨i, hi, rfl⟩
    exact ⟨i, List.mem_range.mpr (Nat.lt_succ_iff.mpr hi), rfl⟩

theorem seqNum_header {m : Message} {i : Nat} (hi : i ≤ m.maxSeq) :
    (m.header i).seqNum.toNat = i := by
  have := m.maxSeq_le
  exact UInt16.toNat_ofNat_of_lt' (by simp only [UInt16.size]; omega)

theorem maxSeqNum_header (m : Message) (i : Nat) : (m.header i).maxSeqNum.toNat = m.maxSeq := by
  have := m.maxSeq_le
  exact UInt16.toNat_ofNat_of_lt' (by
    simp only [UInt16.size]
    exact Nat.lt_succ_iff.mpr this)

theorem msgSize_header (m : Message) (i : Nat) :
    (m.header i).msgSize.toNat = m.item.length := by
  have := m.total_le
  exact UInt32.toNat_ofNat_of_lt' (by
    simp only [UInt32.size, payloadPerPacket, packetSize, DatagramHeader.size] at this ⊢
    omega)

theorem destSize_header (m : Message) (i : Nat) :
    (m.header i).destSize.toNat = m.dest.length := by
  have := m.dest_le
  exact UInt16.toNat_ofNat_of_lt' (by simp only [UInt16.size]; omega)

/-- The receiver reads the header that the sender wrote. -/
theorem tryFrom_header {m : Message} {i : Nat} (hi : i ≤ m.maxSeq) :
    DatagramHeader.tryFrom (m.header i).put = some (m.header i) := by
  apply DatagramHeader.tryFrom_put
  · rw [UInt16.le_iff_toNat_le, seqNum_header hi, maxSeqNum_header]
    exact hi
  · intro h
    have hd := m.destSize_header i
    have := m.dest_pos
    rw [h] at hd
    simp at hd
    omega

theorem tryFrom_packet {m : Message} {i : Nat} (hi : i ≤ m.maxSeq) {buf : List UInt8}
    (hbuf : buf.length = DatagramHeader.size) :
    DatagramHeader.tryFrom (overlay buf (m.packet i)) = some (m.header i) := by
  rw [packet, DatagramHeader.overlay_put_append hbuf, tryFrom_header hi]

/-- Packets are equal only if they are the same packet of messages of one id. -/
theorem packet_inj {m m' : Message} {i i' : Nat} (hi : i ≤ m.maxSeq) (hi' : i' ≤ m'.maxSeq)
    (h : m.packet i = m'.packet i') : m.msgId = m'.msgId ∧ i = i' := by
  have hbuf : (List.replicate DatagramHeader.size (0 : UInt8)).length = DatagramHeader.size := by
    simp
  have hp := tryFrom_packet hi hbuf
  rw [h, tryFrom_packet hi' hbuf] at hp
  have heq := Option.some.inj hp
  refine ⟨congrArg DatagramHeader.msgId heq.symm, ?_⟩
  rw [← seqNum_header hi, ← seqNum_header hi', heq]

theorem length_packet (m : Message) (i : Nat) :
    (m.packet i).length =
      DatagramHeader.size + min payloadPerPacket (m.content.length - i * payloadPerPacket) := by
  simp [packet]

theorem getElem?_packet (m : Message) (i j : Nat) (hj : j < payloadPerPacket) :
    (m.packet i)[DatagramHeader.size + j]? = m.content[i * payloadPerPacket + j]? := by
  rw [packet, List.getElem?_append_right (by simp), DatagramHeader.length_put,
    Nat.add_sub_cancel_left, List.getElem?_take_of_lt hj, List.getElem?_drop]

end Message

/-! ## Builders of a message -/

/-- The builder holds packets of `m` that are among the handled datagrams, each
at its place. -/
structure Partial (m : Message) (handled : List Datagram) (b : MessageBuilder) : Prop where
  msgSize : b.msgSize = (m.header 0).msgSize
  maxSeqNum : b.maxSeqNum = (m.header 0).maxSeqNum
  intp : b.intp = m.intp
  length_seqsRecvd : b.seqsRecvd.length = m.maxSeq / 8 + 1
  received : ∀ k, b.Received k → k ≤ m.maxSeq ∧ m.packet k ∈ handled
  numRecvd : b.numRecvd = ((Finset.range (m.maxSeq + 1)).filter b.Received).card
  length_buf : b.buf.length = DatagramHeader.size + m.content.length
  buf : ∀ k < m.content.length, b.Received (k / payloadPerPacket) →
    b.buf[DatagramHeader.size + k]? = m.content[k]?

namespace Partial

variable {m : Message} {handled : List Datagram} {b : MessageBuilder}

/-- A new builder holds nothing. -/
theorem new (m : Message) (i : Nat) (handled : List Datagram) :
    Partial m handled (MessageBuilder.new (m.header i)) := by
  have hnone : ∀ k, ¬ (MessageBuilder.new (m.header i)).Received k :=
    fun k => not_bitSet_replicate _ k
  refine ⟨rfl, rfl, rfl, ?_, fun k hk => absurd hk (hnone k), ?_, ?_, fun k _ hk =>
    absurd hk (hnone _)⟩
  · have hmax := m.maxSeqNum_header i
    have := (m.header i).maxSeqNum.toNat_lt
    simp only [MessageBuilder.new, List.length_replicate, UInt16.toNat_add, UInt16.toNat_div,
      UInt16.reduceToNat]
    omega
  · rw [Finset.filter_false_of_mem (fun k _ => hnone k)]
    rfl
  · simp only [MessageBuilder.new, List.length_replicate, m.msgSize_header, m.destSize_header,
      m.length_content]
    omega

/-- A packet that was not handled before has a free place. -/
theorem fits (h : Partial m handled b) {i : Nat} (hi : i ≤ m.maxSeq)
    (hnew : m.packet i ∉ handled) : b.Fits (m.header i) := by
  refine ⟨?_, ?_, ?_⟩
  · rw [Message.seqNum_header hi, h.length_seqsRecvd]
    omega
  · rw [Message.seqNum_header hi]
    exact fun hr => hnew (h.received i hr).2
  · rw [Message.seqNum_header hi, h.length_buf, m.length_content]
    have hmul := Nat.mul_le_mul_right payloadPerPacket hi
    have htotal := m.total_pos
    simp only [Message.maxSeq, payloadPerPacket, packetSize, DatagramHeader.size] at hmul ⊢
    omega

/-- The bytes of the buffer that packet `i` writes are those of its share. -/
theorem share_iff {k len : Nat} (hk : k < len) (i : Nat) :
    (i * payloadPerPacket + DatagramHeader.size ≤ DatagramHeader.size + k ∧
        DatagramHeader.size + k < i * payloadPerPacket + min packetSize
          (DatagramHeader.size + min payloadPerPacket (len - i * payloadPerPacket))) ↔
      k / payloadPerPacket = i := by
  simp only [payloadPerPacket, packetSize, DatagramHeader.size]
  omega

/-- Inserting a packet keeps the others where they are. -/
theorem inserted (h : Partial m handled b) {b' : MessageBuilder} {i : Nat}
    (hi : i ≤ m.maxSeq) (hnew : m.packet i ∉ handled)
    (hb : b.Inserted (m.header i) (m.packet i) b') :
    Partial m (handled ++ [m.packet i]) b' := by
  have hseq := Message.seqNum_header hi
  have hrecv : ∀ k, b'.Received k ↔ k = i ∨ b.Received k := by
    intro k
    rw [hb.received, hseq]
  refine ⟨hb.msgSize.trans h.msgSize, hb.maxSeqNum.trans h.maxSeqNum, hb.intp.trans h.intp,
    hb.length_seqsRecvd.trans h.length_seqsRecvd, ?_, ?_, hb.length_buf.trans h.length_buf, ?_⟩
  · intro k hk
    rcases (hrecv k).mp hk with rfl | hk
    · exact ⟨hi, by simp⟩
    · exact ⟨(h.received k hk).1, List.mem_append_left _ (h.received k hk).2⟩
  · -- the new bit is one more of the counted ones
    have hnot : i ∉ (Finset.range (m.maxSeq + 1)).filter b.Received :=
      fun hmem => hnew (h.received i (Finset.mem_filter.mp hmem).2).2
    have hinsert : (Finset.range (m.maxSeq + 1)).filter b'.Received =
        insert i ((Finset.range (m.maxSeq + 1)).filter b.Received) := by
      ext k
      simp only [Finset.mem_filter, Finset.mem_insert, Finset.mem_range, hrecv]
      constructor
      · rintro ⟨hk, rfl | hb⟩
        · exact .inl rfl
        · exact .inr ⟨hk, hb⟩
      · rintro (rfl | ⟨hk, hb⟩)
        · exact ⟨by omega, .inl rfl⟩
        · exact ⟨hk, .inr hb⟩
    rw [hb.numRecvd, h.numRecvd, hinsert, Finset.card_insert_of_notMem hnot]
  · intro k hk hrk
    have hpos : 0 < payloadPerPacket := by decide
    rw [hb.buf _ (by rw [h.length_buf]; omega), hseq, m.length_packet]
    by_cases hki : k / payloadPerPacket = i
    · -- a byte of the new packet
      have hcut : k = i * payloadPerPacket + k % payloadPerPacket := by
        rw [← hki, Nat.mul_comm, Nat.div_add_mod]
      rw [if_pos ((share_iff hk i).mpr hki), show DatagramHeader.size + k - i * payloadPerPacket =
        DatagramHeader.size + k % payloadPerPacket by omega,
        m.getElem?_packet _ _ (Nat.mod_lt k hpos), ← hcut]
    · rw [if_neg (fun hc => hki ((share_iff hk i).mp hc))]
      exact h.buf k hk (((hrecv _).mp hrk).resolve_left hki)

theorem finished_iff (h : Partial m handled b) :
    b.finished = true ↔ ∀ k ≤ m.maxSeq, b.Received k := by
  have hmax : b.maxSeqNum.toNat = m.maxSeq := by
    rw [h.maxSeqNum, m.maxSeqNum_header]
  rw [MessageBuilder.finished, decide_eq_true_eq, hmax, h.numRecvd]
  constructor
  · intro hcard k hk
    have hall : (Finset.range (m.maxSeq + 1)).filter b.Received = Finset.range (m.maxSeq + 1) :=
      Finset.eq_of_subset_of_card_le (Finset.filter_subset _ _) (by simp [hcard])
    have hmem : k ∈ (Finset.range (m.maxSeq + 1)).filter b.Received := by
      rw [hall, Finset.mem_range]
      omega
    exact (Finset.mem_filter.mp hmem).2
  · intro hall
    rw [Finset.filter_true_of_mem (fun k hk => hall k (by
      have := Finset.mem_range.mp hk
      omega)), Finset.card_range]

/-- A builder with all packets gives back what was sent. -/
theorem complete (h : Partial m handled b) (hall : ∀ k ≤ m.maxSeq, b.Received k) :
    b.msg = m.item ∧ b.dest = m.dest := by
  have hdrop : b.buf.drop DatagramHeader.size = m.content := by
    apply List.ext_getElem?
    intro k
    rw [List.getElem?_drop]
    by_cases hk : k < m.content.length
    · refine h.buf k hk (hall _ ?_)
      rw [m.length_content] at hk
      simp only [Message.maxSeq]
      exact Nat.div_le_div_right (by omega)
    · rw [List.getElem?_eq_none (by rw [h.length_buf]; omega),
        List.getElem?_eq_none (by omega)]
  have hsize : b.msgSize.toNat = m.item.length := by
    rw [h.msgSize, m.msgSize_header]
  constructor
  · rw [MessageBuilder.msg, hdrop, hsize, Message.content, List.take_left]
  · rw [MessageBuilder.dest, ← List.drop_drop, hdrop, hsize, Message.content, List.drop_left]

end Partial

/-! ## The receiver and the network -/

/-- A receiver with its history: the datagrams that arrived in its socket, the
message ids whose timers went off, and those of the partial builders that a
timeout removed. -/
structure World where
  receiver : Receiver
  arrived : List Datagram
  woken : List UInt64
  dropped : List UInt64

/-- One move, where the datagrams that arrive are packets of `M` that did not
arrive before. -/
def World.Step (M : Set Message) (w : World) (move : Receiver.Move) (w' : World) : Prop :=
  w.receiver.Step move w'.receiver ∧
    match move with
    | .arrive d => (∃ m ∈ M, d ∈ m.serial.send) ∧ d ∉ w.arrived ∧
        w'.arrived = w.arrived ++ [d] ∧ w'.woken = w.woken ∧ w'.dropped = w.dropped
    | .expire => w'.arrived = w.arrived ∧ w'.woken = w.woken ∧
        w'.dropped = w.dropped ++ w.receiver.rx.head?.toList.filter (· ∈ w.receiver.recvd)
    | .peek => w'.arrived = w.arrived ∧ w'.woken = w.woken ∧ w'.dropped = w.dropped
    | .wake timer => w'.arrived = w.arrived ∧ w'.woken = w.woken ++ [timer.2] ∧
        w'.dropped = w.dropped

/-- A receiver among the senders of `M`. -/
def network (M : Set Message) : System World Receiver.Move where
  init w := w = ⟨Receiver.start, [], [], []⟩
  step := World.Step M

/-- No two messages have the same id. -/
def DistinctIds (M : Set Message) : Prop := ∀ m ∈ M, ∀ m' ∈ M, m.msgId = m'.msgId → m = m'

/-- What the receiver knows after it handled the datagrams `handled`. -/
structure Inv (M : Set Message) (handled : List Datagram) (dropped : List UInt64)
    (r : Receiver) : Prop where
  header : r.headerBuf.length = DatagramHeader.size
  nodup : (handled ++ r.socket).Nodup
  sent : ∀ d ∈ handled ++ r.socket, ∃ m ∈ M, ∃ i ≤ m.maxSeq, d = m.packet i
  stored : ∀ id hdl b, r.recvd[id]? = some (hdl, b) → ∃ m ∈ M, m.msgId = id ∧ m.maxSeq ≠ 0 ∧
    Partial m handled b ∧ b.finished = false ∧
    (id ∉ dropped → ∀ k ≤ m.maxSeq, m.packet k ∈ handled → b.Received k)
  absent : ∀ m ∈ M, m.msgId ∉ dropped → r.recvd[m.msgId]? = none →
    m.msgId ∉ r.forwarded.map (·.1) → ∀ k ≤ m.maxSeq, m.packet k ∉ handled
  forwarded : ∀ e ∈ r.forwarded, ∃ m ∈ M, m.msgId = e.1 ∧ e.2.msg = m.item ∧ e.2.dest = m.dest ∧
    e.2.intp = m.intp ∧ ∀ k ≤ m.maxSeq, m.packet k ∈ handled
  once : (r.forwarded.map (·.1)).Nodup

namespace Inv

variable {M : Set Message} {handled rest : List Datagram} {dropped : List UInt64}
  {r r' : Receiver} {m : Message} {i : Nat} {b : MessageBuilder}

/-- The packet at the head of the socket was not handled before. -/
theorem head_fresh (h : Inv M handled dropped r) (hs : r.socket = m.packet i :: rest) :
    m.packet i ∉ handled := by
  have hnd := h.nodup
  rw [hs, List.nodup_append] at hnd
  exact fun hmem => hnd.2.2 _ hmem _ List.mem_cons_self rfl

/-- A message with an unhandled packet is not forwarded yet. -/
theorem not_forwarded (hids : DistinctIds M) (h : Inv M handled dropped r) (hm : m ∈ M)
    (hi : i ≤ m.maxSeq) (hnew : m.packet i ∉ handled) :
    m.msgId ∉ r.forwarded.map (·.1) := by
  intro hmem
  obtain ⟨e, he, hid⟩ := List.mem_map.mp hmem
  obtain ⟨m', hm', hid', -, -, -, hall⟩ := h.forwarded e he
  rw [hids m' hm' m hm (hid'.trans hid)] at hall
  exact hnew (hall i hi)

/-- The builder for the packet at the head holds every handled packet of its
message, unless a timeout dropped some. -/
theorem builderFor (hids : DistinctIds M) (h : Inv M handled dropped r) (hm : m ∈ M)
    (hi : i ≤ m.maxSeq) (hnew : m.packet i ∉ handled) :
    Partial m handled (r.builderFor (m.header i)) ∧
      (m.msgId ∉ dropped → ∀ k ≤ m.maxSeq, m.packet k ∈ handled →
        (r.builderFor (m.header i)).Received k) := by
  unfold Receiver.builderFor
  split
  · next hmax =>
      refine ⟨.new m i handled, fun _ k hk hmem => ?_⟩
      have hzero : m.maxSeq = 0 := by
        rw [← m.maxSeqNum_header i, hmax]
        rfl
      rw [show k = i by omega] at hmem
      exact absurd hmem hnew
  · next hmax =>
      split
      · next hdl b hget =>
          obtain ⟨m', hm', hid, -, hpart, -, hall⟩ := h.stored _ _ _ hget
          rw [hids m' hm' m hm hid] at hpart hall
          exact ⟨hpart, hall⟩
      · next hget =>
          refine ⟨.new m i handled, fun hdrop k hk hmem => ?_⟩
          exact absurd hmem
            (h.absent m hm hdrop hget (h.not_forwarded hids hm hi hnew) k hk)

/-- The datagrams are the same after the head moved to the handled ones. -/
theorem datagrams (handled : List Datagram) (hs : r.socket = m.packet i :: rest)
    (hs' : r'.socket = rest) :
    handled ++ [m.packet i] ++ r'.socket = handled ++ r.socket := by
  simp [hs, hs']

/-- Of another message no packet is handled in this step. -/
theorem mem_handled_other (hi : i ≤ m.maxSeq) {m' : Message} {k : Nat} (hk : k ≤ m'.maxSeq)
    (hne : m'.msgId ≠ m.msgId) (hmem : m'.packet k ∈ handled ++ [m.packet i]) :
    m'.packet k ∈ handled := by
  rcases List.mem_append.mp hmem with hmem | hmem
  · exact hmem
  · exact absurd (Message.packet_inj hk hi (List.mem_singleton.mp hmem)).1 hne

/-- What an iteration keeps of the other message ids. -/
theorem stored_other (h : Inv M handled dropped r) (hi : i ≤ m.maxSeq) {id : UInt64} {hdl : Nat}
    {b' : MessageBuilder} (hne : id ≠ m.msgId) (hget : r.recvd[id]? = some (hdl, b')) :
    ∃ m' ∈ M, m'.msgId = id ∧ m'.maxSeq ≠ 0 ∧ Partial m' (handled ++ [m.packet i]) b' ∧
      b'.finished = false ∧ (id ∉ dropped → ∀ k ≤ m'.maxSeq,
        m'.packet k ∈ handled ++ [m.packet i] → b'.Received k) := by
  obtain ⟨m', hm', hid, hmax, hpart, hfin, hall⟩ := h.stored _ _ _ hget
  refine ⟨m', hm', hid, hmax, { hpart with received := fun k hk => ?_ }, hfin,
    fun hdrop k hk hmem => ?_⟩
  · exact ⟨(hpart.received k hk).1, List.mem_append_left _ (hpart.received k hk).2⟩
  · exact hall hdrop k hk (mem_handled_other hi hk (by rwa [hid]) hmem)

/-- A forwarded message stays as it is. -/
theorem forwarded_mono (h : Inv M handled dropped r) (d : Datagram) :
    ∀ e ∈ r.forwarded, ∃ m ∈ M, m.msgId = e.1 ∧ e.2.msg = m.item ∧ e.2.dest = m.dest ∧
      e.2.intp = m.intp ∧ ∀ k ≤ m.maxSeq, m.packet k ∈ handled ++ [d] := by
  intro e he
  obtain ⟨m', hm', hid, hmsg, hdest, hintp, hall⟩ := h.forwarded e he
  exact ⟨m', hm', hid, hmsg, hdest, hintp, fun k hk => List.mem_append_left _ (hall k hk)⟩

/-- An iteration that keeps an incomplete builder. -/
theorem keep (h : Inv M handled dropped r) (hm : m ∈ M)
    (hi : i ≤ m.maxSeq) (hmax : m.maxSeq ≠ 0) (hs : r.socket = m.packet i :: rest)
    (hpart : Partial m (handled ++ [m.packet i]) b) (hfin : b.finished = false)
    (hall : m.msgId ∉ dropped → ∀ k ≤ m.maxSeq, m.packet k ∈ handled ++ [m.packet i] →
      b.Received k)
    (hheader : r'.headerBuf.length = DatagramHeader.size) (hs' : r'.socket = rest)
    (hfwd : r'.forwarded = r.forwarded) (hdl : Nat)
    (hrecvd : ∀ id, r'.recvd[id]? = if id = m.msgId then some (hdl, b) else r.recvd[id]?) :
    Inv M (handled ++ [m.packet i]) dropped r' := by
  have hsame := datagrams handled hs hs'
  refine ⟨hheader, hsame ▸ h.nodup, hsame ▸ h.sent, ?_, ?_, hfwd ▸ h.forwarded_mono _,
    hfwd ▸ h.once⟩
  · intro id hdl' b' hget
    rw [hrecvd] at hget
    split at hget
    · next hid =>
        obtain ⟨-, rfl⟩ := Prod.mk.inj (Option.some.inj hget)
        subst hid
        exact ⟨m, hm, rfl, hmax, hpart, hfin, hall⟩
    · next hid => exact h.stored_other hi hid hget
  · intro m' hm' hdrop hnone hfwd' k hk hmem
    rw [hrecvd] at hnone
    split at hnone
    · cases hnone
    · next hid =>
        exact h.absent m' hm' hdrop hnone (hfwd ▸ hfwd') k hk (mem_handled_other hi hk hid hmem)

/-- An iteration that forwards a complete builder. -/
theorem forward (hids : DistinctIds M) (h : Inv M handled dropped r) (hm : m ∈ M)
    (hi : i ≤ m.maxSeq) (hs : r.socket = m.packet i :: rest)
    (hpart : Partial m (handled ++ [m.packet i]) b) (hall : ∀ k ≤ m.maxSeq, b.Received k)
    (hheader : r'.headerBuf.length = DatagramHeader.size) (hs' : r'.socket = rest)
    (hfwd : r'.forwarded = r.forwarded ++ [(m.msgId, b)])
    (hrecvd : ∀ id, r'.recvd[id]? = if id = m.msgId then none else r.recvd[id]?) :
    Inv M (handled ++ [m.packet i]) dropped r' := by
  have hsame := datagrams handled hs hs'
  obtain ⟨hmsg, hdest⟩ := hpart.complete hall
  refine ⟨hheader, hsame ▸ h.nodup, hsame ▸ h.sent, ?_, ?_, ?_, ?_⟩
  · intro id hdl b' hget
    rw [hrecvd] at hget
    split at hget
    · cases hget
    · next hid => exact h.stored_other hi hid hget
  · intro m' hm' hdrop hnone hfwd' k hk hmem
    simp only [hfwd, List.map_append, List.map_cons, List.map_nil, List.mem_append,
      List.mem_singleton, not_or] at hfwd'
    rw [hrecvd, if_neg hfwd'.2] at hnone
    exact h.absent m' hm' hdrop hnone hfwd'.1 k hk (mem_handled_other hi hk hfwd'.2 hmem)
  · intro e he
    rw [hfwd] at he
    rcases List.mem_append.mp he with he | he
    · exact h.forwarded_mono _ e he
    · rw [List.mem_singleton.mp he]
      exact ⟨m, hm, rfl, hmsg, hdest, hpart.intp, fun k hk => (hpart.received k (hall k hk)).2⟩
  · rw [hfwd, List.map_append, List.map_cons, List.map_nil, List.nodup_append]
    refine ⟨h.once, List.nodup_singleton _, ?_⟩
    intro id hid id' hid' heq
    rw [heq, List.mem_singleton.mp hid'] at hid
    exact h.not_forwarded hids hm hi (h.head_fresh hs) hid

/-- The branch of the socket takes the packet at its head and keeps the
invariant. -/
theorem peek (hids : DistinctIds M) (h : Inv M handled dropped r) {d : Datagram}
    (hs : r.socket = d :: rest) :
    ∃ r', r.peek = .ok r' ∧ r'.socket = rest ∧ Inv M (handled ++ [d]) dropped r' := by
  obtain ⟨m, hm, i, hi, rfl⟩ := h.sent d (by simp [hs])
  have hnew := h.head_fresh hs
  have hhead := Message.tryFrom_packet hi h.header
  obtain ⟨hpart, hold⟩ := h.builderFor hids hm hi hnew
  obtain ⟨b, hins, hinserted⟩ :=
    MessageBuilder.insert_of_fits (hpart.fits hi hnew) (m.packet i) rest
  have hpart' := hpart.inserted hi hnew hinserted
  have hpeek := Receiver.peek_of_header hs hhead
  rw [hs, hins] at hpeek
  refine ⟨_, hpeek, Receiver.store_socket _ _ _ _, ?_⟩
  change Inv M _ dropped (({ r with headerBuf := overlay r.headerBuf (m.packet i) } :
    Receiver).store (m.header i) b rest)
  set r₁ : Receiver := { r with headerBuf := overlay r.headerBuf (m.packet i) }
  have hrecv : ∀ k, b.Received k ↔ k = i ∨ (r.builderFor (m.header i)).Received k := by
    intro k
    rw [hinserted.received, Message.seqNum_header hi]
  have hall : m.msgId ∉ dropped → ∀ k ≤ m.maxSeq, m.packet k ∈ handled ++ [m.packet i] →
      b.Received k := by
    intro hdrop k hk hmem
    rw [hrecv]
    rcases List.mem_append.mp hmem with hmem | hmem
    · exact .inr (hold hdrop k hk hmem)
    · exact .inl (Message.packet_inj hk hi (List.mem_singleton.mp hmem)).2
  have hmaxSeq : (m.header i).maxSeqNum = 0 ↔ m.maxSeq = 0 := by
    rw [← UInt16.toNat_inj, m.maxSeqNum_header]
    rfl
  have hlen : (overlay r.headerBuf (m.packet i)).length = DatagramHeader.size := by
    rw [length_overlay, h.header]
  by_cases hmax : (m.header i).maxSeqNum = 0
  · -- a message of one packet
    rw [Receiver.store_single rest hmax]
    have hzero := hmaxSeq.mp hmax
    have habsent : r.recvd[m.msgId]? = none := by
      rcases hget : r.recvd[m.msgId]? with _ | ⟨hdl, b'⟩
      · rfl
      · obtain ⟨m', hm', hid, hmax', -⟩ := h.stored _ _ _ hget
        rw [hids m' hm' m hm hid] at hmax'
        exact absurd hzero hmax'
    refine h.forward hids hm hi hs hpart' (fun k hk => (hrecv k).mpr (.inl (by omega))) hlen rfl
      rfl (fun id => ?_)
    split
    · next hid => rw [hid]; exact habsent
    · rfl
  have hmax' : m.maxSeq ≠ 0 := fun hzero => hmax (hmaxSeq.mpr hzero)
  rcases hget : r.recvd[(m.header i).msgId]? with _ | ⟨hdl, b₀⟩
  · -- the first packet of a message
    have hbuilder : r.builderFor (m.header i) = .new (m.header i) := by
      simp only [Receiver.builderFor, if_neg hmax, hget]
    have hfin : b.finished = false := by
      rw [Bool.eq_false_iff, Ne, hpart'.finished_iff]
      intro hfull
      obtain ⟨k, hk, hki⟩ : ∃ k ≤ m.maxSeq, k ≠ i := by
        by_cases h0 : i = 0
        · exact ⟨1, by omega, by omega⟩
        · exact ⟨0, by omega, fun hc => h0 hc.symm⟩
      rcases (hrecv k).mp (hfull k hk) with hc | hc
      · exact hki hc
      · rw [hbuilder] at hc
        exact not_bitSet_replicate _ _ hc
    rw [Receiver.store_first (r := r₁) _ hmax hget]
    exact h.keep hm hi hmax' hs hpart' hfin hall hlen rfl rfl r.nextTimer
      (getElem?_insert_eq _ _ _)
  by_cases hfin : b.finished = true
  · -- the last packet of a message
    rw [Receiver.store_last (r := r₁) _ hmax hget hfin]
    exact h.forward hids hm hi hs hpart' (hpart'.finished_iff.mp hfin) hlen rfl rfl
      (getElem?_erase_eq _ _)
  · have hfin := Bool.eq_false_iff.mpr hfin
    rw [Receiver.store_more (r := r₁) _ hmax hget hfin]
    exact h.keep hm hi hmax' hs hpart' hfin hall hlen rfl rfl hdl (getElem?_insert_eq _ _ _)

/-- A datagram of a sender arrives. -/
theorem arrive (h : Inv M handled dropped r) {d : Datagram}
    (hsent : ∃ m ∈ M, d ∈ m.serial.send) (hnew : d ∉ handled ++ r.socket) :
    Inv M handled dropped { r with socket := r.socket ++ [d] } := by
  refine { h with nodup := ?_, sent := ?_ }
  · change (handled ++ (r.socket ++ [d])).Nodup
    rw [← List.append_assoc, List.nodup_append]
    refine ⟨h.nodup, List.nodup_singleton d, fun a ha b hb hab => ?_⟩
    rw [List.mem_singleton.mp hb] at hab
    exact hnew (hab ▸ ha)
  · intro e he
    rw [← List.append_assoc] at he
    rcases List.mem_append.mp he with he | he
    · exact h.sent e he
    · obtain ⟨m, hm, hd⟩ := hsent
      obtain ⟨i, hi, rfl⟩ := Message.mem_send.mp hd
      exact ⟨m, hm, i, hi, List.mem_singleton.mp he⟩

/-- A timeout removes the builder of its message, if there is one. -/
theorem expire (h : Inv M handled dropped r) {id : UInt64} {rx : List UInt64} :
    Inv M handled (dropped ++ [id].filter (· ∈ r.recvd))
      { r with rx, recvd := r.recvd.erase id } := by
  have hkeep : ∀ id', id' ∉ dropped ++ [id].filter (· ∈ r.recvd) → id' ∉ dropped :=
    fun id' hid' hmem => hid' (List.mem_append_left _ hmem)
  refine { h with stored := ?_, absent := ?_ }
  · intro id' hdl b hget
    rw [getElem?_erase_eq] at hget
    split at hget
    · cases hget
    · obtain ⟨m, hm, hid', hmax, hpart, hfin, hall⟩ := h.stored _ _ _ hget
      exact ⟨m, hm, hid', hmax, hpart, hfin, fun hdrop => hall (hkeep id' hdrop)⟩
  · intro m hm hdrop hnone hfwd
    refine h.absent m hm (hkeep _ hdrop) ?_ hfwd
    rw [getElem?_erase_eq] at hnone
    split at hnone
    · next hid =>
        -- an id that was removed from the map is among the dropped ones
        by_contra hsome
        refine hdrop (List.mem_append_right _ (List.mem_filter.mpr ⟨by simp [hid], ?_⟩))
        rw [decide_eq_true_eq, ExtTreeMap.mem_iff_isSome_getElem?]
        exact Option.isSome_iff_ne_none.mpr hsome
    · exact hnone

theorem start (M : Set Message) : Inv M [] [] Receiver.start := by
  refine ⟨rfl, List.nodup_nil, by simp [Receiver.start], ?_, ?_, by simp [Receiver.start],
    List.nodup_nil⟩
  · intro id hdl b hget
    simp [Receiver.start] at hget
  · intro m _ _ _ _ k _
    simp

end Inv

/-- The datagrams that arrived are the handled ones and those in the socket, and
timeouts are from timers that went off. -/
def WorldInv (M : Set Message) (w : World) : Prop :=
  (∃ handled, w.arrived = handled ++ w.receiver.socket ∧ Inv M handled w.dropped w.receiver) ∧
    w.receiver.rx ⊆ w.woken ∧ w.dropped ⊆ w.woken

theorem WorldInv.step {M : Set Message} (hids : DistinctIds M) {w w' : World}
    {move : Receiver.Move} (h : WorldInv M w) (hst : (network M).step w move w') :
    WorldInv M w' := by
  obtain ⟨⟨handled, harrived, hinv⟩, hrx, hdropped⟩ := h
  obtain ⟨r', arrived', woken', dropped'⟩ := w'
  obtain ⟨hmove, hghost⟩ := hst
  cases move with
  | arrive d =>
      obtain ⟨hsent, hnew, harr, hwoken, hdrop⟩ := hghost
      simp only [Receiver.Step] at hmove harr hwoken hdrop
      subst hmove hwoken hdrop
      refine ⟨⟨handled, ?_, hinv.arrive hsent (harrived ▸ hnew)⟩, hrx, hdropped⟩
      rw [harr, harrived, List.append_assoc]
  | peek =>
      obtain ⟨harr, hwoken, hdrop⟩ := hghost
      simp only [Receiver.Step] at hmove harr hwoken hdrop
      subst harr hwoken hdrop
      refine ⟨?_, Receiver.rx_of_peek hmove ▸ hrx, hdropped⟩
      rcases hs : w.receiver.socket with _ | ⟨d, rest⟩
      · simp [Receiver.peek, hs] at hmove
      · obtain ⟨r, hr, hrest, hinv'⟩ := hinv.peek hids hs
        rw [hmove] at hr
        injection hr with hr
        subst hr
        exact ⟨handled ++ [d], by rw [harrived, hs, hrest]; simp, hinv'⟩
  | expire =>
      obtain ⟨harr, hwoken, hdrop⟩ := hghost
      simp only [Receiver.Step] at hmove harr hwoken hdrop
      obtain ⟨id, rx, hhead, rfl⟩ := Receiver.expire_cases hmove
      subst harr hwoken
      rw [hhead] at hdrop hrx
      refine ⟨⟨handled, harrived, hdrop ▸ hinv.expire⟩,
        fun i hi => hrx (List.mem_cons_of_mem _ hi), fun i hi => ?_⟩
      -- a dropped id was in the channel
      rw [hdrop] at hi
      rcases List.mem_append.mp hi with hi | hi
      · exact hdropped hi
      · rw [List.mem_singleton.mp (List.mem_of_mem_filter hi)]
        exact hrx List.mem_cons_self
  | wake timer =>
      obtain ⟨harr, hwoken, hdrop⟩ := hghost
      simp only [Receiver.Step] at hmove harr hwoken hdrop
      obtain ⟨-, rfl⟩ := hmove
      subst harr hwoken hdrop
      refine ⟨⟨handled, harrived, { hinv with }⟩, fun i hi => ?_,
        fun i hi => List.mem_append_left _ (hdropped hi)⟩
      rcases List.mem_append.mp hi with hi | hi
      · exact List.mem_append_left _ (hrx hi)
      · exact List.mem_append_right _ hi

theorem worldInv_of_reachable {M : Set Message} (hids : DistinctIds M) {w : World}
    (h : (network M).Reachable w) : WorldInv M w :=
  h.invariant
    (fun w hw => by subst hw; exact ⟨⟨[], rfl, .start M⟩, List.Subset.refl _, List.Subset.refl _⟩)
    (fun _ _ _ _ hinv hst => hinv.step hids hst)

/-! ## The round trip -/

/-- How often the message was forwarded. -/
def Receiver.timesForwarded (r : Receiver) (m : Message) : Nat :=
  (r.forwarded.map (·.1)).count m.msgId

/-- A message whose packets are all handled, and whose builder no timeout
removed, was forwarded once. -/
theorem Inv.timesForwarded {M : Set Message} (hids : DistinctIds M) {handled : List Datagram}
    {dropped : List UInt64} {r : Receiver} (h : Inv M handled dropped r) {m : Message}
    (hm : m ∈ M) (hdrop : m.msgId ∉ dropped) (hall : ∀ k ≤ m.maxSeq, m.packet k ∈ handled) :
    r.timesForwarded m = 1 := by
  refine List.count_eq_one_of_mem h.once ?_
  by_contra hfwd
  rcases hget : r.recvd[m.msgId]? with _ | ⟨hdl, b⟩
  · exact h.absent m hm hdrop hget hfwd 0 (Nat.zero_le _) (hall 0 (Nat.zero_le _))
  · -- a stored builder would have all packets, and so be finished
    obtain ⟨m', hm', hid, -, hpart, hfin, hrecv⟩ := h.stored _ _ _ hget
    rw [hids m' hm' m hm hid] at hpart hrecv
    have hfull := hpart.finished_iff.mpr (fun k hk => hrecv hdrop k hk (hall k hk))
    rw [hfin] at hfull
    cases hfull

/-- The loop handles what is in the socket, one datagram an iteration. -/
theorem Inv.drain {M : Set Message} (hids : DistinctIds M) {dropped : List UInt64} :
    ∀ (socket handled : List Datagram) {r : Receiver}, Inv M handled dropped r →
      r.socket = socket → ∃ r', Receiver.peeks socket.length r = .ok r' ∧
        Inv M (handled ++ socket) dropped r' := by
  intro socket
  induction socket with
  | nil =>
      intro handled r h hs
      exact ⟨r, rfl, by simpa using h⟩
  | cons d socket ih =>
      intro handled r h hs
      obtain ⟨r', hpeek, hs', h'⟩ := h.peek hids hs
      obtain ⟨r'', hpeeks, h''⟩ := ih (handled ++ [d]) h' hs'
      refine ⟨r'', ?_, by simpa using h''⟩
      rw [List.length_cons, Receiver.peeks, hpeek]
      exact hpeeks

/-- A message that was forwarded once stays so. -/
theorem timesForwarded_of_run {M : Set Message} (hids : DistinctIds M) {w w' : World}
    (hreach : (network M).Reachable w) {moves : List Receiver.Move}
    (hrun : (network M).Run w moves w') {m : Message}
    (honce : w.receiver.timesForwarded m = 1) : w'.receiver.timesForwarded m = 1 := by
  have hmem : m.msgId ∈ w.receiver.forwarded.map (·.1) :=
    List.count_pos_iff.mp (Nat.lt_of_lt_of_eq Nat.one_pos honce.symm)
  have hprefix : w.receiver.forwarded <+: w'.receiver.forwarded :=
    hrun.relates (S := network M) (R := fun w w' => w.receiver.forwarded <+: w'.receiver.forwarded)
      (fun _ => List.prefix_rfl) (fun _ _ _ => List.IsPrefix.trans)
      fun _ _ _ hst => Receiver.forwarded_grows hst.1
  obtain ⟨⟨handled, -, hinv⟩, -⟩ := worldInv_of_reachable hids (hreach.run hrun)
  exact List.count_eq_one_of_mem hinv.once (List.map_subset _ hprefix.subset hmem)

/-- Fragmentation and reassembly.  What is forwarded under an id is the message
of that id, and no id is forwarded twice.  A message whose packets the loop has
all taken before its timer goes off is forwarded exactly once, then and ever
after.  Where they have all arrived before that, the loop takes them with what
else is in the socket. -/
theorem reassembly (M : Set Message) (hids : DistinctIds M) (w : World)
    (h : (network M).Reachable w) :
    (∀ e ∈ w.receiver.forwarded, ∃ m ∈ M, m.msgId = e.1 ∧ e.2.msg = m.item ∧
      e.2.dest = m.dest ∧ e.2.intp = m.intp) ∧
    (w.receiver.forwarded.map (·.1)).Nodup ∧
    (∀ m ∈ M, m.msgId ∉ w.woken →
      (∀ d ∈ m.serial.send, d ∈ w.arrived ∧ d ∉ w.receiver.socket) →
      ∀ (moves : List Receiver.Move) (w' : World), (network M).Run w moves w' →
        w'.receiver.timesForwarded m = 1) ∧
    ∃ r', Receiver.peeks w.receiver.socket.length w.receiver = .ok r' ∧
      ∀ m ∈ M, m.msgId ∉ w.woken → (∀ d ∈ m.serial.send, d ∈ w.arrived) →
        r'.timesForwarded m = 1 := by
  obtain ⟨⟨handled, harrived, hinv⟩, -, hdropped⟩ := worldInv_of_reachable hids h
  refine ⟨fun e he => ?_, hinv.once, fun m hm hwoken hall moves w' hrun => ?_, ?_⟩
  · obtain ⟨m, hm, hid, hmsg, hdest, hintp, -⟩ := hinv.forwarded e he
    exact ⟨m, hm, hid, hmsg, hdest, hintp⟩
  · refine timesForwarded_of_run hids h hrun ?_
    refine hinv.timesForwarded hids hm (fun hd => hwoken (hdropped hd)) fun k hk => ?_
    obtain ⟨harr, hsock⟩ := hall _ (Message.mem_send.mpr ⟨k, hk, rfl⟩)
    rw [harrived] at harr
    exact (List.mem_append.mp harr).resolve_right hsock
  · obtain ⟨r', hpeeks, hinv'⟩ := hinv.drain hids _ _ rfl
    refine ⟨r', hpeeks, fun m hm hwoken hall => ?_⟩
    refine hinv'.timesForwarded hids hm (fun hd => hwoken (hdropped hd)) fun k hk => ?_
    exact harrived ▸ hall _ (Message.mem_send.mpr ⟨k, hk, rfl⟩)

/-- A message of two packets. -/
def longMessage : Message where
  msgId := 3
  item := List.replicate payloadPerPacket 1
  intp := .signal
  dest := [2]
  item_ne_nil := by decide
  dest_pos := by decide
  dest_le := by decide
  total_le := by decide

/-- Its second packet arrives first, and the loop takes both. -/
theorem reassembly_long :
    ∃ w : World, w.arrived = [longMessage.packet 1, longMessage.packet 0] ∧
      w.receiver.socket = [] ∧ w.woken = [] ∧ longMessage.serial.send.length = 2 ∧
      (∀ e ∈ w.receiver.forwarded, e.1 = 3 ∧ e.2.msg = longMessage.item ∧ e.2.dest = [2]) ∧
      w.receiver.timesForwarded longMessage = 1 := by
  have hmax : longMessage.maxSeq = 1 := by decide
  have hids : DistinctIds {longMessage} := fun m hm m' hm' _ => hm.trans hm'.symm
  have hsent : ∀ i ≤ 1, ∃ m ∈ ({longMessage} : Set Message), longMessage.packet i ∈ m.serial.send :=
    fun i hi => ⟨longMessage, rfl, Message.mem_send.mpr ⟨i, hmax ▸ hi, rfl⟩⟩
  have hother : longMessage.packet 0 ∉ [longMessage.packet 1] := fun hmem =>
    absurd (Message.packet_inj (Nat.zero_le _) (Nat.le_of_eq hmax.symm)
      (List.mem_singleton.mp hmem)).2 (by decide)
  let both := [longMessage.packet 1, longMessage.packet 0]
  let first : World :=
    ⟨{ Receiver.start with socket := [longMessage.packet 1] }, [longMessage.packet 1], [], []⟩
  let second : World := ⟨{ Receiver.start with socket := both }, both, [], []⟩
  have hst₁ : (network {longMessage}).step ⟨Receiver.start, [], [], []⟩
      (.arrive (longMessage.packet 1)) first :=
    ⟨rfl, hsent 1 (Nat.le_refl 1), List.not_mem_nil, rfl, rfl, rfl⟩
  have hst₂ : (network {longMessage}).step first (.arrive (longMessage.packet 0)) second :=
    ⟨rfl, hsent 0 (Nat.zero_le 1), hother, rfl, rfl, rfl⟩
  have h₂ := ((System.Reachable.of_init rfl).step hst₁).step hst₂
  have hstart : Inv {longMessage} [] [] second.receiver :=
    ((Inv.start _).arrive (hsent 1 (Nat.le_refl 1)) List.not_mem_nil).arrive
      (hsent 0 (Nat.zero_le 1)) hother
  -- the loop takes one packet and then the other
  obtain ⟨r₃, hpeek₃, hsocket₃, hinv₃⟩ := hstart.peek hids rfl
  obtain ⟨r₄, hpeek₄, hsocket₄, -⟩ := hinv₃.peek hids hsocket₃
  have hst₃ : (network {longMessage}).step second .peek ⟨r₃, both, [], []⟩ :=
    ⟨hpeek₃, rfl, rfl, rfl⟩
  have hst₄ : (network {longMessage}).step ⟨r₃, both, [], []⟩ .peek ⟨r₄, both, [], []⟩ :=
    ⟨hpeek₄, rfl, rfl, rfl⟩
  have h₄ := (h₂.step hst₃).step hst₄
  obtain ⟨hright, -, honce, -⟩ := reassembly {longMessage} hids _ h₄
  refine ⟨_, rfl, hsocket₄, rfl, ?_, fun e he => ?_,
    honce longMessage rfl (by simp) (fun d hd => ?_) [] _ .nil⟩
  · rw [Message.send_serial, hmax, List.length_map, List.length_range]
  · obtain ⟨m, rfl, hid, hmsg, hdest, -⟩ := hright e he
    exact ⟨hid.symm, hmsg, hdest⟩
  · obtain ⟨i, hi, rfl⟩ := Message.mem_send.mp hd
    rw [hmax] at hi
    refine ⟨?_, by rw [hsocket₄]; exact List.not_mem_nil⟩
    rcases Nat.le_one_iff_eq_zero_or_eq_one.mp hi with rfl | rfl
    · exact List.mem_cons_of_mem _ List.mem_cons_self
    · exact List.mem_cons_self

end AurumActors.Core
