/-
  Core/UdpSerial.lean --- serialized messages cut into packets, from
  `core/udp_serial.rs`.

  The serialized item and destination are byte lists and the random message id
  is an argument.  `cut` is the loop of `new`, `sendLoop` the loop of `send`.
-/
import AurumActors.Core.Packets

set_option autoImplicit false

namespace AurumActors.Core

/-- The bytes of all packets of a message, one packet after the other. -/
structure UdpSerial where
  bytes : List UInt8
  deriving DecidableEq, Repr

namespace UdpSerial

/-- The header of the first packet, with the total that counts the packets. -/
def firstHeader (msgId : UInt64) (item : List UInt8) (intp : Interpretations)
    (dest : List UInt8) : DatagramHeader where
  msgId := msgId
  seqNum := 0
  maxSeqNum := ((item.length + dest.length - 1) / payloadPerPacket).toUInt16
  msgSize := item.length.toUInt32
  destSize := dest.length.toUInt16
  intp := intp

/-- The packets from offset `idx` on: `n` full ones and the last one. -/
def cut (content : List UInt8) : Nat → Nat → DatagramHeader → List UInt8
  | 0, idx, header => header.put ++ content.drop idx
  | n + 1, idx, header =>
      header.put ++ (content.drop idx).take payloadPerPacket ++
        cut content n (idx + payloadPerPacket) { header with seqNum := header.seqNum + 1 }

/-- `UdpSerial::new` -/
protected def new (msgId : UInt64) (item : List UInt8) (intp : Interpretations)
    (dest : List UInt8) : UdpSerial where
  bytes := cut (item ++ dest) ((item.length + dest.length - 1) / payloadPerPacket) 0
    (firstHeader msgId item intp dest)

/-- `UdpSerial::packets` -/
def packets (s : UdpSerial) : Nat :=
  s.bytes.length / packetSize - (if s.bytes.length % packetSize = 0 then 1 else 0) + 1

/-- `UdpSerial::len` -/
def len (s : UdpSerial) : Nat := s.bytes.length

/-- `UdpSerial::payload_len` -/
def payloadLen (s : UdpSerial) : Nat := s.len - DatagramHeader.size * s.packets

/-- The packets that `send` cuts from offset `idx` on: `n` full ones and the
rest. -/
def sendLoop (bytes : List UInt8) : Nat → Nat → List Datagram
  | 0, idx => [bytes.drop idx]
  | n + 1, idx => (bytes.drop idx).take packetSize :: sendLoop bytes n (idx + packetSize)

/-- The datagrams of `UdpSerial::send`, in their order. -/
def send (s : UdpSerial) : List Datagram := sendLoop s.bytes (s.packets - 1) 0

/-! ## The packets of a message -/

/-- Packet `i` of a content under a header: its own header and its share of the
content. -/
def packet (header : DatagramHeader) (content : List UInt8) (i : Nat) : Datagram :=
  { header with seqNum := i.toUInt16 }.put ++
    (content.drop (i * payloadPerPacket)).take payloadPerPacket

theorem length_cut (content : List UInt8) (n : Nat) :
    ∀ (idx : Nat) (header : DatagramHeader), idx + n * payloadPerPacket ≤ content.length →
      (cut content n idx header).length =
        (n + 1) * DatagramHeader.size + (content.length - idx) := by
  induction n with
  | zero =>
      intro idx header h
      simp [cut]
  | succ n ih =>
      intro idx header h
      simp only [payloadPerPacket, packetSize, DatagramHeader.size] at h ih ⊢
      simp only [cut, payloadPerPacket, packetSize, DatagramHeader.size, List.length_append,
        DatagramHeader.length_put, List.length_take, List.length_drop]
      rw [ih _ _ (by omega)]
      omega

/-- `send` finds the packet boundaries of `new` again. -/
theorem sendLoop_cut (content : List UInt8) (header : DatagramHeader) (n : Nat) :
    ∀ (i : Nat) (pre : List UInt8),
      (i + n) * payloadPerPacket ≤ content.length →
      content.length ≤ (i + n + 1) * payloadPerPacket →
      sendLoop (pre ++ cut content n (i * payloadPerPacket)
          { header with seqNum := i.toUInt16 }) n pre.length =
        (List.range' i (n + 1)).map (packet header content) := by
  induction n with
  | zero =>
      intro i pre hlo hhi
      have hlen : (content.drop (i * payloadPerPacket)).length ≤ payloadPerPacket := by
        simp only [payloadPerPacket, packetSize, DatagramHeader.size] at hhi ⊢
        simp
        omega
      simp [sendLoop, cut, packet, List.take_of_length_le hlen]
  | succ n ih =>
      intro i pre hlo hhi
      have hnext : ({ ({ header with seqNum := i.toUInt16 } : DatagramHeader) with
          seqNum := i.toUInt16 + 1 } : DatagramHeader) =
          { header with seqNum := (i + 1).toUInt16 } := by
        simp [UInt16.ofNat_add]
      have hidx : i * payloadPerPacket + payloadPerPacket = (i + 1) * payloadPerPacket := by
        rw [Nat.succ_mul]
      have hfull : ((content.drop (i * payloadPerPacket)).take payloadPerPacket).length =
          payloadPerPacket := by
        simp only [payloadPerPacket, packetSize, DatagramHeader.size] at hlo ⊢
        simp
        omega
      -- the first packet, after which the loop goes on behind it
      have hpacket : (packet header content i).length = packetSize := by
        rw [packet, List.length_append, hfull, DatagramHeader.length_put]
        rfl
      have hcut : cut content (n + 1) (i * payloadPerPacket)
          { header with seqNum := i.toUInt16 } = packet header content i ++
            cut content n ((i + 1) * payloadPerPacket)
              { header with seqNum := (i + 1).toUInt16 } := by
        rw [cut, hidx, hnext]
        rfl
      rw [hcut, sendLoop, List.drop_left, ← hpacket, List.take_left, List.range'_succ,
        List.map_cons, ← List.append_assoc, ← List.length_append]
      congr 1
      exact ih (i + 1) (pre ++ packet header content i)
        (by rw [show i + 1 + n = i + (n + 1) by omega]; exact hlo)
        (by rw [show i + 1 + n + 1 = i + (n + 1) + 1 by omega]; exact hhi)

section New

variable (msgId : UInt64) (item : List UInt8) (intp : Interpretations) (dest : List UInt8)

theorem len_new (h : 0 < item.length + dest.length) :
    (UdpSerial.new msgId item intp dest).len =
      ((item.length + dest.length - 1) / payloadPerPacket + 1) * DatagramHeader.size +
        (item.length + dest.length) := by
  rw [len, UdpSerial.new, length_cut]
  · simp
  · simp only [payloadPerPacket, packetSize, DatagramHeader.size, List.length_append]
    omega

/-- `packets` counts the packets of `new`. -/
theorem packets_new (h : 0 < item.length + dest.length) :
    (UdpSerial.new msgId item intp dest).packets =
      (item.length + dest.length - 1) / payloadPerPacket + 1 := by
  have hlen := len_new msgId item intp dest h
  simp only [len] at hlen
  simp only [packets, hlen, payloadPerPacket, packetSize, DatagramHeader.size]
  split <;> omega

/-- `send` sends packet 0 to packet `max_seq_num`. -/
theorem send_new (h : 0 < item.length + dest.length) :
    (UdpSerial.new msgId item intp dest).send =
      (List.range ((item.length + dest.length - 1) / payloadPerPacket + 1)).map
        (packet (firstHeader msgId item intp dest) (item ++ dest)) := by
  have hloop := sendLoop_cut (item ++ dest) (firstHeader msgId item intp dest)
    ((item.length + dest.length - 1) / payloadPerPacket) 0 []
    (by simp only [payloadPerPacket, packetSize, DatagramHeader.size, List.length_append]; omega)
    (by simp only [payloadPerPacket, packetSize, DatagramHeader.size, List.length_append]; omega)
  rw [send, packets_new msgId item intp dest h, Nat.add_sub_cancel, List.range_eq_range']
  simpa [firstHeader, UdpSerial.new] using hloop

end New

end UdpSerial

end AurumActors.Core
