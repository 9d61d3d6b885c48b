/-
  Core/Packets.lean --- datagram headers and message builders of
  `core/packets.rs`.

  A datagram is the list of its bytes.  A socket is the queue of the datagrams
  that arrived and were not received yet.  What ends a task (an index or a
  slice out of bounds) or blocks it is an error value.
-/
import AurumActors.Foundation.Bytes
import Mathlib.Data.Finset.Card

set_option autoImplicit false

namespace AurumActors.Core

open AurumActors.Foundation

/-- The bytes of one UDP packet. -/
abbrev Datagram := List UInt8

/-- Why a task does not go on. -/
inductive Halt where
  | indexOutOfBounds
  | sliceOutOfBounds
  /-- it waits at a socket or a channel without content -/
  | blocked
  deriving DecidableEq, Repr

theorem ok_of_toOption {α : Type} {x : Except Halt α} {a : α} (h : x.toOption = some a) :
    x = .ok a := by
  cases x with
  | error e => cases h
  | ok b =>
      injection h with h
      rw [h]

/-! ## Headers -/

/-- Whether a message is read as an `ActorSignal`. -/
inductive Interpretations where
  | message
  | signal
  deriving DecidableEq, Repr

/-- `IntoPrimitive` -/
def Interpretations.toByte : Interpretations → UInt8
  | .message => 0
  | .signal => 1

/-- `TryFromPrimitive` -/
def Interpretations.tryFrom (b : UInt8) : Option Interpretations :=
  if b = 0 then some .message else if b = 1 then some .signal else none

@[simp] theorem Interpretations.tryFrom_toByte (i : Interpretations) :
    Interpretations.tryFrom i.toByte = some i := by
  cases i <;> rfl

theorem Interpretations.toByte_of_tryFrom {b : UInt8} {i : Interpretations}
    (h : Interpretations.tryFrom b = some i) : i.toByte = b := by
  unfold Interpretations.tryFrom at h
  split at h
  · next hb =>
      cases h
      exact hb.symm
  · split at h
    · next hb =>
        cases h
        exact hb.symm
    · cases h

structure DatagramHeader where
  msgId : UInt64
  seqNum : UInt16
  maxSeqNum : UInt16
  msgSize : UInt32
  destSize : UInt16
  intp : Interpretations
  deriving DecidableEq, Repr

namespace DatagramHeader

/-- `DatagramHeader::SIZE` -/
def size : Nat := 19

/-- `DatagramHeader::put`, as the bytes it writes. -/
def put (h : DatagramHeader) : List UInt8 :=
  [(h.msgId >>> 56).toUInt8, (h.msgId >>> 48).toUInt8, (h.msgId >>> 40).toUInt8,
    (h.msgId >>> 32).toUInt8, (h.msgId >>> 24).toUInt8, (h.msgId >>> 16).toUInt8,
    (h.msgId >>> 8).toUInt8, h.msgId.toUInt8,
    (h.seqNum >>> 8).toUInt8, h.seqNum.toUInt8,
    (h.maxSeqNum >>> 8).toUInt8, h.maxSeqNum.toUInt8,
    (h.msgSize >>> 24).toUInt8, (h.msgSize >>> 16).toUInt8,
    (h.msgSize >>> 8).toUInt8, h.msgSize.toUInt8,
    (h.destSize >>> 8).toUInt8, h.destSize.toUInt8,
    h.intp.toByte]

/-- `TryFrom<&[u8]> for DatagramHeader` -/
def tryFrom : List UInt8 → Option DatagramHeader
  | [b0, b1, b2, b3, b4, b5, b6, b7, b8, b9, b10, b11, b12, b13, b14, b15, b16, b17, b18] => do
      let intp ← Interpretations.tryFrom b18
      let ret : DatagramHeader :=
        { msgId := b0.toUInt64 <<< 56 ||| b1.toUInt64 <<< 48 ||| b2.toUInt64 <<< 40 |||
            b3.toUInt64 <<< 32 ||| b4.toUInt64 <<< 24 ||| b5.toUInt64 <<< 16 |||
            b6.toUInt64 <<< 8 ||| b7.toUInt64
          seqNum := b8.toUInt16 <<< 8 ||| b9.toUInt16
          maxSeqNum := b10.toUInt16 <<< 8 ||| b11.toUInt16
          msgSize := b12.toUInt32 <<< 24 ||| b13.toUInt32 <<< 16 ||| b14.toUInt32 <<< 8 |||
            b15.toUInt32
          destSize := b16.toUInt16 <<< 8 ||| b17.toUInt16
          intp }
      if ret.seqNum > ret.maxSeqNum ∨ ret.destSize = 0 then none else some ret
  | _ => none

@[simp] theorem length_put (h : DatagramHeader) : h.put.length = size := rfl

/-- Peeking a packet reads its header, whatever the buffer held before. -/
theorem overlay_put_append {buf : List UInt8} (hbuf : buf.length = size) (h : DatagramHeader)
    (payload : List UInt8) : overlay buf (h.put ++ payload) = h.put := by
  have hdrop : buf.drop (h.put ++ payload).length = [] :=
    List.drop_of_length_le (by simp [hbuf])
  rw [overlay, hdrop, List.append_nil, hbuf, ← h.length_put, List.take_left]

/-- Reading back what `put` wrote gives the header, unless it is one that
`tryFrom` rejects. -/
theorem tryFrom_put (h : DatagramHeader) (hseq : h.seqNum ≤ h.maxSeqNum)
    (hdest : h.destSize ≠ 0) : tryFrom h.put = some h := by
  simp only [put, tryFrom, Interpretations.tryFrom_toByte, u64_of_bytes, u32_of_bytes,
    u16_of_bytes, Option.bind_eq_bind, Option.bind_some]
  rw [if_neg]
  simp only [not_or]
  exact ⟨UInt16.not_lt.mpr hseq, hdest⟩

/-- An accepted header counts from 0 to its `maxSeqNum` and has a destination. -/
theorem tryFrom_wf {bytes : List UInt8} {h : DatagramHeader} (heq : tryFrom bytes = some h) :
    h.seqNum ≤ h.maxSeqNum ∧ h.destSize ≠ 0 := by
  unfold tryFrom at heq
  split at heq
  · simp only [Option.bind_eq_bind, Option.bind_eq_some_iff] at heq
    obtain ⟨i, -, heq⟩ := heq
    split at heq
    · cases heq
    · next hok =>
        simp only [not_or, gt_iff_lt, UInt16.not_lt] at hok
        cases heq
        exact hok
  · cases heq

/-- Writing what was read gives the buffer again. -/
theorem put_of_tryFrom {bytes : List UInt8} {h : DatagramHeader}
    (heq : tryFrom bytes = some h) : h.put = bytes := by
  unfold tryFrom at heq
  split at heq
  · next b0 b1 b2 b3 b4 b5 b6 b7 b8 b9 b10 b11 b12 b13 b14 b15 b16 b17 b18 =>
      simp only [Option.bind_eq_bind, Option.bind_eq_some_iff] at heq
      obtain ⟨i, hi, heq⟩ := heq
      split at heq
      · cases heq
      · cases heq
        obtain ⟨h0, h1, h2, h3, h4, h5, h6, h7⟩ := bytes_of_u64 b0 b1 b2 b3 b4 b5 b6 b7 rfl
        obtain ⟨h8, h9⟩ := bytes_of_u16 b8 b9
        obtain ⟨h10, h11⟩ := bytes_of_u16 b10 b11
        obtain ⟨h12, h13, h14, h15⟩ := bytes_of_u32 b12 b13 b14 b15 rfl
        obtain ⟨h16, h17⟩ := bytes_of_u16 b16 b17
        simp only [put, h0, h1, h2, h3, h4, h5, h6, h7, h8, h9, h10, h11, h12, h13, h14, h15,
          h16, h17, Interpretations.toByte_of_tryFrom hi]
  · cases heq

/-- Different headers are written differently. -/
theorem put_injective : Function.Injective put := by
  intro h h' heq
  simp only [put, List.cons.injEq, and_true] at heq
  obtain ⟨h0, h1, h2, h3, h4, h5, h6, h7, h8, h9, h10, h11, h12, h13, h14, h15, h16, h17,
    h18⟩ := heq
  have hmsgId : h.msgId = h'.msgId := by
    rw [← u64_of_bytes h.msgId, h0, h1, h2, h3, h4, h5, h6, h7, u64_of_bytes]
  have hseqNum : h.seqNum = h'.seqNum := by
    rw [← u16_of_bytes h.seqNum, h8, h9, u16_of_bytes]
  have hmaxSeqNum : h.maxSeqNum = h'.maxSeqNum := by
    rw [← u16_of_bytes h.maxSeqNum, h10, h11, u16_of_bytes]
  have hmsgSize : h.msgSize = h'.msgSize := by
    rw [← u32_of_bytes h.msgSize, h12, h13, h14, h15, u32_of_bytes]
  have hdestSize : h.destSize = h'.destSize := by
    rw [← u16_of_bytes h.destSize, h16, h17, u16_of_bytes]
  have hintp : h.intp = h'.intp := by
    have hread := congrArg Interpretations.tryFrom h18
    rw [Interpretations.tryFrom_toByte, Interpretations.tryFrom_toByte] at hread
    exact Option.some.inj hread
  cases h
  cases h'
  simp only [mk.injEq]
  exact ⟨hmsgId, hseqNum, hmaxSeqNum, hmsgSize, hdestSize, hintp⟩

/-- The buffers that hold a header: their length, the code in their last byte,
and what their bytes say of the sequence numbers and the destination size. -/
structure Accepted (bytes : List UInt8) : Prop where
  length : bytes.length = size
  intp : ∃ i : Interpretations, bytes.getLast? = some i.toByte
  seqNum : beNat ((bytes.drop 8).take 2) ≤ beNat ((bytes.drop 10).take 2)
  destSize : beNat ((bytes.drop 16).take 2) ≠ 0

theorem isSome_tryFrom_iff (bytes : List UInt8) :
    (tryFrom bytes).isSome ↔ Accepted bytes := by
  constructor
  · intro h
    obtain ⟨header, heq⟩ := Option.isSome_iff_exists.mp h
    have hput := put_of_tryFrom heq
    obtain ⟨hseq, hdest⟩ := tryFrom_wf heq
    subst hput
    refine ⟨rfl, ⟨header.intp, rfl⟩, ?_, ?_⟩
    · change beNat [(header.seqNum >>> 8).toUInt8, header.seqNum.toUInt8] ≤
        beNat [(header.maxSeqNum >>> 8).toUInt8, header.maxSeqNum.toUInt8]
      rw [← toNat_u16_of_bytes, ← toNat_u16_of_bytes, u16_of_bytes, u16_of_bytes]
      exact hseq
    · change beNat [(header.destSize >>> 8).toUInt8, header.destSize.toUInt8] ≠ 0
      rw [← toNat_u16_of_bytes, u16_of_bytes]
      exact fun h0 => hdest (UInt16.toNat_inj.mp h0)
  · rintro ⟨hlen, ⟨i, hi⟩, hseq, hdest⟩
    match bytes, hlen with
    | [b0, b1, b2, b3, b4, b5, b6, b7, b8, b9, b10, b11, b12, b13, b14, b15, b16, b17, b18],
        _ =>
      have h18 : b18 = i.toByte := Option.some.inj hi
      subst h18
      simp only [tryFrom, Interpretations.tryFrom_toByte, Option.bind_eq_bind,
        Option.bind_some]
      rw [if_neg]
      · rfl
      · simp only [not_or, gt_iff_lt, UInt16.not_lt]
        refine ⟨?_, fun h0 => ?_⟩
        · rw [UInt16.le_iff_toNat_le, toNat_u16_of_bytes, toNat_u16_of_bytes]
          exact hseq
        · refine hdest ?_
          change beNat [b16, b17] = 0
          rw [← toNat_u16_of_bytes, h0]
          rfl

/-- `put` and `tryFrom` are inverse to each other between the headers that count
from 0 to their `maxSeqNum` and have a destination, and the accepted buffers. -/
theorem codec :
    (∀ h : DatagramHeader, h.seqNum ≤ h.maxSeqNum → h.destSize ≠ 0 →
      tryFrom h.put = some h) ∧
    (∀ (bytes : List UInt8) (h : DatagramHeader), tryFrom bytes = some h → h.put = bytes) ∧
    ∀ bytes : List UInt8, (tryFrom bytes).isSome ↔ Accepted bytes :=
  ⟨tryFrom_put, fun _ _ => put_of_tryFrom, isSome_tryFrom_iff⟩

/-- The header of `test_datagram_header_serde`. -/
def testHeader : DatagramHeader where
  msgId := 0x0f0e0d0c0b0a0908
  seqNum := 0x90f4
  maxSeqNum := 0xea01
  msgSize := 0x8b5d7015
  destSize := 0x8531
  intp := .message

theorem codec_testHeader :
    tryFrom testHeader.put = some testHeader ∧ Accepted testHeader.put := by
  have hread : tryFrom testHeader.put = some testHeader :=
    codec.1 testHeader (by decide) (by decide)
  exact ⟨hread, (codec.2.2 testHeader.put).mp (Option.isSome_iff_exists.mpr ⟨_, hread⟩)⟩

end DatagramHeader

/-! ## Message builders -/

/-- `UdpSerial::PACKET_SIZE` -/
def packetSize : Nat := 75

/-- `UdpSerial::PAYLOAD_PER_PACKET` -/
def payloadPerPacket : Nat := packetSize - DatagramHeader.size

structure MessageBuilder where
  msgSize : UInt32
  maxSeqNum : UInt16
  seqsRecvd : List UInt8
  numRecvd : Nat
  buf : List UInt8
  intp : Interpretations
  deriving DecidableEq, Repr

namespace MessageBuilder

/-- `MessageBuilder::new` -/
protected def new (header : DatagramHeader) : MessageBuilder where
  msgSize := header.msgSize
  maxSeqNum := header.maxSeqNum
  seqsRecvd := List.replicate (header.maxSeqNum / 8 + 1).toNat 0
  numRecvd := 0
  buf := List.replicate (header.msgSize.toNat + header.destSize.toNat + DatagramHeader.size) 0
  intp := header.intp

/-- The packet `seqNum` is in the builder already. -/
def Received (mb : MessageBuilder) (seqNum : Nat) : Prop := bitSet mb.seqsRecvd seqNum

instance (mb : MessageBuilder) (seqNum : Nat) : Decidable (mb.Received seqNum) :=
  inferInstanceAs (Decidable (bitSet _ _))

/-- `MessageBuilder::insert`.  A sequence number that was received before
returns without receiving from the socket.  Otherwise the datagram is received
in place, and what its header overwrote is put back. -/
protected def insert (mb : MessageBuilder) (header : DatagramHeader) (socket : List Datagram) :
    Except Halt (MessageBuilder × List Datagram) :=
  let seqNum := header.seqNum.toNat
  if seqNum / 8 < mb.seqsRecvd.length then
    if mb.Received seqNum then .ok (mb, socket)
    else
      let start := seqNum * (packetSize - DatagramHeader.size)
      let stop := min (start + packetSize) mb.buf.length
      if start ≤ stop ∧ DatagramHeader.size ≤ stop - start then
        match socket with
        | [] => .error .blocked
        | datagram :: socket =>
            .ok ({ mb with
              numRecvd := mb.numRecvd + 1
              seqsRecvd := mb.seqsRecvd.set (seqNum / 8)
                (mb.seqsRecvd.getD (seqNum / 8) 0 ||| bitMask seqNum)
              buf := receiveAt mb.buf datagram start stop DatagramHeader.size }, socket)
      else .error .sliceOutOfBounds
  else .error .indexOutOfBounds

/-- `MessageBuilder::finished` -/
def finished (mb : MessageBuilder) : Bool := mb.numRecvd = mb.maxSeqNum.toNat + 1

/-- `MessageBuilder::dest` -/
def dest (mb : MessageBuilder) : List UInt8 :=
  mb.buf.drop (DatagramHeader.size + mb.msgSize.toNat)

/-- `MessageBuilder::msg` -/
def msg (mb : MessageBuilder) : List UInt8 :=
  (mb.buf.drop DatagramHeader.size).take mb.msgSize.toNat

/-- `dest` with the check of its slice. -/
def destSlice (mb : MessageBuilder) : Except Halt (List UInt8) :=
  if DatagramHeader.size + mb.msgSize.toNat ≤ mb.buf.length then .ok mb.dest
  else .error .sliceOutOfBounds

/-- `msg` with the check of its slice. -/
def msgSlice (mb : MessageBuilder) : Except Halt (List UInt8) :=
  if DatagramHeader.size + mb.msgSize.toNat ≤ mb.buf.length then .ok mb.msg
  else .error .sliceOutOfBounds

/-- The builder has a free place for the packet of the header. -/
structure Fits (mb : MessageBuilder) (header : DatagramHeader) : Prop where
  index : header.seqNum.toNat / 8 < mb.seqsRecvd.length
  fresh : ¬ mb.Received header.seqNum.toNat
  room : header.seqNum.toNat * payloadPerPacket + DatagramHeader.size ≤ mb.buf.length

instance (mb : MessageBuilder) (header : DatagramHeader) : Decidable (mb.Fits header) :=
  decidable_of_iff (header.seqNum.toNat / 8 < mb.seqsRecvd.length ∧
      ¬ mb.Received header.seqNum.toNat ∧
      header.seqNum.toNat * payloadPerPacket + DatagramHeader.size ≤ mb.buf.length)
    ⟨fun ⟨h₁, h₂, h₃⟩ => ⟨h₁, h₂, h₃⟩, fun h => ⟨h.index, h.fresh, h.room⟩⟩

/-! ### What `insert` does -/

/-- A packet that was received before stays in the socket. -/
theorem insert_of_received {mb : MessageBuilder} {header : DatagramHeader}
    (hindex : header.seqNum.toNat / 8 < mb.seqsRecvd.length)
    (h : mb.Received header.seqNum.toNat) (socket : List Datagram) :
    mb.insert header socket = .ok (mb, socket) := by
  simp only [MessageBuilder.insert, if_pos hindex]
  rw [if_pos h]

/-- `mb'` is `mb` with the packet of the datagram in it: only the count, its bit
and the bytes of its payload differ. -/
structure Inserted (mb : MessageBuilder) (header : DatagramHeader) (datagram : Datagram)
    (mb' : MessageBuilder) : Prop where
  msgSize : mb'.msgSize = mb.msgSize
  maxSeqNum : mb'.maxSeqNum = mb.maxSeqNum
  intp : mb'.intp = mb.intp
  numRecvd : mb'.numRecvd = mb.numRecvd + 1
  length_seqsRecvd : mb'.seqsRecvd.length = mb.seqsRecvd.length
  received : ∀ k, mb'.Received k ↔ k = header.seqNum.toNat ∨ mb.Received k
  length_buf : mb'.buf.length = mb.buf.length
  buf : ∀ k < mb.buf.length, mb'.buf[k]? =
    if header.seqNum.toNat * payloadPerPacket + DatagramHeader.size ≤ k ∧
        k < header.seqNum.toNat * payloadPerPacket + min packetSize datagram.length
    then datagram[k - header.seqNum.toNat * payloadPerPacket]? else mb.buf[k]?

/-- A packet that fits is taken from the socket. -/
theorem insert_of_fits {mb : MessageBuilder} {header : DatagramHeader} (h : mb.Fits header)
    (datagram : Datagram) (socket : List Datagram) :
    ∃ mb', mb.insert header (datagram :: socket) = .ok (mb', socket) ∧
      mb.Inserted header datagram mb' := by
  have hroom : header.seqNum.toNat * (packetSize - DatagramHeader.size) + DatagramHeader.size ≤
      mb.buf.length := h.room
  have hstart : header.seqNum.toNat * (packetSize - DatagramHeader.size) + DatagramHeader.size ≤
      min (header.seqNum.toNat * (packetSize - DatagramHeader.size) + packetSize)
        mb.buf.length := by
    simp only [packetSize, DatagramHeader.size] at hroom ⊢
    omega
  have hstop : min (header.seqNum.toNat * (packetSize - DatagramHeader.size) + packetSize)
      mb.buf.length ≤ mb.buf.length := min_le_right _ _
  simp only [MessageBuilder.insert, if_pos h.index]
  rw [if_neg h.fresh, if_pos (by omega)]
  refine ⟨_, rfl, rfl, rfl, rfl, rfl, by simp, bitSet_set_iff h.index,
    length_receiveAt _ _ (by omega) hstop, fun k hk => ?_⟩
  refine (getElem?_receiveAt _ _ hstart hstop).trans (if_congr (and_congr Iff.rfl ?_) rfl rfl)
  simp only [payloadPerPacket]
  omega

/-- `insert` receives the datagram, or has its packet already. -/
theorem insert_cases {mb mb' : MessageBuilder} {header : DatagramHeader} {datagram : Datagram}
    {rest socket : List Datagram} (h : mb.insert header (datagram :: rest) = .ok (mb', socket)) :
    socket = rest ∨ mb' = mb ∧ socket = datagram :: rest ∧
      header.seqNum.toNat / 8 < mb.seqsRecvd.length ∧ mb.Received header.seqNum.toNat := by
  simp only [MessageBuilder.insert] at h
  split at h
  · next hindex =>
      split at h
      · next hrecv =>
          cases h
          exact .inr ⟨rfl, rfl, hindex, hrecv⟩
      · split at h
        · cases h
          exact .inl rfl
        · cases h
  · cases h

/-- `insert` takes the datagram at the head of the socket exactly when its
packet fits. -/
theorem insert_takes_iff (mb : MessageBuilder) (header : DatagramHeader) (datagram : Datagram)
    (socket : List Datagram) :
    (∃ mb', mb.insert header (datagram :: socket) = .ok (mb', socket)) ↔ mb.Fits header := by
  constructor
  · rintro ⟨mb', h⟩
    simp only [MessageBuilder.insert] at h
    split at h
    · next hindex =>
        split at h
        · -- a received packet stays, so the queue is not shorter
          injection h with h
          exact absurd (congrArg List.length (Prod.mk.inj h).2) (by simp)
        · next hfresh =>
            split at h
            · next hroom =>
                refine ⟨hindex, hfresh, ?_⟩
                simp only [payloadPerPacket, packetSize, DatagramHeader.size] at hroom ⊢
                omega
            · cases h
    · cases h
  · intro h
    obtain ⟨mb', h', -⟩ := insert_of_fits h datagram socket
    exact ⟨mb', h'⟩

/-- The only packet of a message has its place in a new builder. -/
theorem new_fits_of_seqNum_zero (header : DatagramHeader) (h : header.seqNum = 0) :
    (MessageBuilder.new header).Fits header := by
  refine ⟨?_, not_bitSet_replicate _ _, ?_⟩
  · simp only [MessageBuilder.new, h, List.length_replicate]
    have : (header.maxSeqNum / 8 + 1).toNat = header.maxSeqNum.toNat / 8 + 1 := by
      have := header.maxSeqNum.toNat_lt
      simp only [UInt16.toNat_add, UInt16.toNat_div, UInt16.reduceToNat]
      omega
    simp [this]
  · simp [MessageBuilder.new, h]

end MessageBuilder

end AurumActors.Core
