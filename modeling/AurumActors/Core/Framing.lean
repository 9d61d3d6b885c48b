/-
  Core/Framing.lean --- the arithmetic of `UdpSerial::new`.

  Lengths are computed in `usize`, narrowed to the fields of the header, and
  counted in its `seq_num`.  Here the steps that can overflow or panic are in
  the function, which gives the packets of `UdpSerial.new` where they do not.
-/
import AurumActors.Core.UdpSerial
import AurumActors.Foundation.While
import AurumActors.Foundation.Words

set_option autoImplicit false

namespace AurumActors.Core

open AurumActors.Foundation

namespace UdpSerial

/-- `isize::MAX`: no vector has more bytes. -/
def maxBytes : Nat := 2 ^ 63 - 1

/-- `Vec::with_capacity` and `Vec::append` panic when a vector would have more
than `maxBytes`. -/
def reserve (bytes : Nat) : Except Trap Unit :=
  if bytes ≤ maxBytes then .ok () else .error .capacityOverflow

/-- The loop of `new` from offset `idx` on: `n` full packets, each with an
increment of `seq_num`, and the last one. -/
def pack (checks : Bool) (content : List UInt8) :
    Nat → Nat → DatagramHeader → Except Trap (List UInt8)
  | 0, idx, header =>
      if idx ≤ content.length then .ok (header.put ++ content.drop idx)
      else .error .sliceOutOfBounds
  | n + 1, idx, header =>
      if idx + payloadPerPacket ≤ content.length then do
        let seqNum ← Word.add checks header.seqNum.toBitVec 1
        let rest ← pack checks content n (idx + payloadPerPacket)
          { header with seqNum := UInt16.ofBitVec seqNum }
        return header.put ++ (content.drop idx).take payloadPerPacket ++ rest
      else .error .sliceOutOfBounds

/-- `UdpSerial::new`, in a build with overflow checks or without. -/
def build (checks : Bool) (msgId : UInt64) (item : List UInt8) (intp : Interpretations)
    (dest : List UInt8) : Except Trap UdpSerial := do
  let total ← Word.add checks (BitVec.ofNat 64 item.length) (BitVec.ofNat 64 dest.length)
  let last ← Word.sub checks total 1
  let maxSeqNum := last.toNat / payloadPerPacket
  let headers ← Word.mul checks (BitVec.ofNat 64 (maxSeqNum + 1))
    (BitVec.ofNat 64 DatagramHeader.size)
  let capacity ← Word.add checks total headers
  reserve capacity.toNat
  let header : DatagramHeader :=
    { msgId, seqNum := 0, maxSeqNum := maxSeqNum.toUInt16, msgSize := item.length.toUInt32
      destSize := dest.length.toUInt16, intp }
  reserve (item.length + dest.length)
  let bytes ← pack checks (item ++ dest) maxSeqNum 0 header
  return { bytes }

/-- How many packets a content of `total` bytes needs. -/
def packetCount (total : Nat) : Nat := (total - 1) / payloadPerPacket + 1

/-- Every header states the true values. -/
def Truthful (item dest : List UInt8) (s : UdpSerial) : Prop :=
  ∀ (k : Nat) (datagram : Datagram), s.send[k]? = some datagram →
    ∃ h : DatagramHeader, datagram.take DatagramHeader.size = h.put ∧ h.seqNum.toNat = k ∧
      h.maxSeqNum.toNat + 1 = s.send.length ∧ h.msgSize.toNat = item.length ∧
      h.destSize.toNat = dest.length

/-! ## What the arithmetic computes -/

/-- The loop gives the packets of `cut`, unless a build that checks finds too
many of them. -/
theorem pack_eq_ok_iff (checks : Bool) (content : List UInt8) (n : Nat) :
    ∀ (idx : Nat) (header : DatagramHeader) (bytes : List UInt8),
      idx + n * payloadPerPacket ≤ content.length →
      (pack checks content n idx header = .ok bytes ↔
        (checks = true → header.seqNum.toNat + n < 2 ^ 16) ∧
          bytes = cut content n idx header) := by
  induction n with
  | zero =>
      intro idx header bytes hlen
      have hlt := header.seqNum.toNat_lt
      rw [pack, if_pos (by omega), Except.ok.injEq, cut, eq_comm]
      exact ⟨fun h => ⟨fun _ => hlt, h⟩, fun h => h.2⟩
  | succ n ih =>
      intro idx header bytes hlen
      rw [Nat.succ_mul] at hlen
      have hroom : idx + payloadPerPacket ≤ content.length := by omega
      have hnext : idx + payloadPerPacket + n * payloadPerPacket ≤ content.length := by omega
      have hseq : UInt16.ofBitVec (header.seqNum.toBitVec + 1) = header.seqNum + 1 := rfl
      rw [pack, if_pos hroom, cut]
      constructor
      · intro h
        obtain ⟨seqNum, hadd, h⟩ := bind_eq_ok_iff.mp h
        obtain ⟨rest, hrest, h⟩ := bind_eq_ok_iff.mp h
        obtain ⟨hfits, rfl⟩ := Word.checked_eq_ok_iff.mp hadd
        obtain ⟨hlt, rfl⟩ := (ih _ _ _ hnext).mp hrest
        rw [hseq] at hlt h
        refine ⟨fun hc => ?_, (Except.ok.inj h).symm⟩
        have hone : header.seqNum.toNat + 1 < 2 ^ 16 := hfits hc
        have hsucc : (header.seqNum + 1).toNat = header.seqNum.toNat + 1 := by
          rw [UInt16.toNat_add]
          exact Nat.mod_eq_of_lt hone
        have hrest : (header.seqNum + 1).toNat + n < 2 ^ 16 := hlt hc
        omega
      · rintro ⟨hlt, rfl⟩
        have hfits : checks = true → header.seqNum.toBitVec.toNat + (1 : BitVec 16).toNat <
            2 ^ 16 := by
          intro hc
          have := hlt hc
          change header.seqNum.toNat + 1 < 2 ^ 16
          omega
        refine bind_eq_ok_iff.mpr ⟨_, Word.add_eq_ok hfits, bind_eq_ok_iff.mpr
          ⟨_, (ih _ _ _ hnext).mpr ⟨fun hc => ?_, rfl⟩, ?_⟩⟩
        · have hone := hfits hc
          have hsucc : (header.seqNum + 1).toNat = header.seqNum.toNat + 1 := by
            rw [UInt16.toNat_add]
            exact Nat.mod_eq_of_lt hone
          have hn := hlt hc
          change (header.seqNum + 1).toNat + n < 2 ^ 16
          omega
        · rw [hseq]
          rfl

theorem reserve_eq_ok_iff (bytes : Nat) : reserve bytes = .ok () ↔ bytes ≤ maxBytes := by
  unfold reserve
  split
  · next h => exact ⟨fun _ => h, fun _ => rfl⟩
  · next h => exact ⟨nofun, fun hle => absurd hle h⟩

section Build

variable {checks : Bool} {msgId : UInt64} {item dest : List UInt8} {intp : Interpretations}

/-- An empty content has no last packet. -/
theorem build_empty_ne_ok (h : item.length + dest.length = 0) (s : UdpSerial) :
    build checks msgId item intp dest ≠ .ok s := by
  intro hbuild
  have hitem : item = [] := List.length_eq_zero_iff.mp (by omega)
  have hdest : dest = [] := List.length_eq_zero_iff.mp (by omega)
  subst hitem hdest
  obtain ⟨total, htotal, hbuild⟩ := bind_eq_ok_iff.mp hbuild
  obtain ⟨last, hlast, hbuild⟩ := bind_eq_ok_iff.mp hbuild
  obtain ⟨headers, -, hbuild⟩ := bind_eq_ok_iff.mp hbuild
  obtain ⟨capacity, -, hbuild⟩ := bind_eq_ok_iff.mp hbuild
  obtain ⟨_, -, hbuild⟩ := bind_eq_ok_iff.mp hbuild
  obtain ⟨_, -, hbuild⟩ := bind_eq_ok_iff.mp hbuild
  obtain ⟨bytes, hpack, -⟩ := bind_eq_ok_iff.mp hbuild
  obtain ⟨-, rfl⟩ := Word.checked_eq_ok_iff.mp htotal
  obtain ⟨-, rfl⟩ := Word.checked_eq_ok_iff.mp hlast
  -- a build without checks goes on with the largest word, and finds no bytes
  obtain ⟨n, hn⟩ : ∃ n, (BitVec.ofNat 64 ([] : List UInt8).length +
      BitVec.ofNat 64 ([] : List UInt8).length - 1).toNat / payloadPerPacket = n + 1 :=
    ⟨329406144173384849, rfl⟩
  rw [hn, pack, if_neg (by decide)] at hpack
  cases hpack

/-- The steps of `new` before its loop lose nothing. -/
theorem build_eq (hpos : 0 < item.length + dest.length)
    (hmax : item.length + dest.length ≤ maxBytes) :
    build checks msgId item intp dest =
      ((reserve (item.length + dest.length +
          packetCount (item.length + dest.length) * DatagramHeader.size)).bind fun _ =>
        (reserve (item.length + dest.length)).bind fun _ =>
          (pack checks (item ++ dest) ((item.length + dest.length - 1) / payloadPerPacket) 0
            (firstHeader msgId item intp dest)).bind fun bytes => .ok { bytes }) := by
  simp only [maxBytes] at hmax
  have hitem : (BitVec.ofNat 64 item.length).toNat = item.length :=
    Nat.mod_eq_of_lt (by omega)
  have hdest : (BitVec.ofNat 64 dest.length).toNat = dest.length :=
    Nat.mod_eq_of_lt (by omega)
  have htotal : (BitVec.ofNat 64 item.length).toNat + (BitVec.ofNat 64 dest.length).toNat <
      2 ^ 64 := by omega
  have htotal' : (BitVec.ofNat 64 item.length + BitVec.ofNat 64 dest.length).toNat =
      item.length + dest.length := by
    rw [BitVec.toNat_add_of_lt htotal, hitem, hdest]
  have hlast : (1 : BitVec 64).toNat ≤
      (BitVec.ofNat 64 item.length + BitVec.ofNat 64 dest.length).toNat := by
    rw [htotal']
    exact hpos
  have hlast' : (BitVec.ofNat 64 item.length + BitVec.ofNat 64 dest.length - 1).toNat =
      item.length + dest.length - 1 := by
    rw [BitVec.toNat_sub_of_le hlast, htotal']
    rfl
  have hcount : packetCount (item.length + dest.length) * DatagramHeader.size ≤
      (item.length + dest.length) / 2 + DatagramHeader.size := by
    simp only [packetCount, payloadPerPacket, packetSize, DatagramHeader.size]
    omega
  have hcount' : (BitVec.ofNat 64 ((item.length + dest.length - 1) / payloadPerPacket + 1)).toNat =
      packetCount (item.length + dest.length) := by
    refine Nat.mod_eq_of_lt ?_
    simp only [payloadPerPacket, packetSize, DatagramHeader.size]
    omega
  have hsize : (BitVec.ofNat 64 DatagramHeader.size).toNat = DatagramHeader.size := rfl
  have hheaders : (BitVec.ofNat 64 ((item.length + dest.length - 1) / payloadPerPacket + 1)).toNat *
      (BitVec.ofNat 64 DatagramHeader.size).toNat < 2 ^ 64 := by
    rw [hcount', hsize]
    simp only [DatagramHeader.size] at hcount ⊢
    omega
  have hcapacity : (BitVec.ofNat 64 item.length + BitVec.ofNat 64 dest.length).toNat +
      (BitVec.ofNat 64 ((item.length + dest.length - 1) / payloadPerPacket + 1) *
        BitVec.ofNat 64 DatagramHeader.size).toNat < 2 ^ 64 := by
    rw [htotal', Word.toNat_mul_of_lt hheaders, hcount', hsize]
    simp only [DatagramHeader.size] at hcount ⊢
    omega
  refine (bind_of_ok (Word.add_eq_ok fun _ => htotal) _).trans ?_
  refine (bind_of_ok (Word.sub_eq_ok fun _ => hlast) _).trans ?_
  rw [hlast']
  refine (bind_of_ok (Word.mul_eq_ok fun _ => hheaders) _).trans ?_
  refine (bind_of_ok (Word.add_eq_ok fun _ => hcapacity) _).trans ?_
  rw [BitVec.toNat_add_of_lt hcapacity, htotal', Word.toNat_mul_of_lt hheaders, hcount', hsize]
  rfl

/-- `new` succeeds on the contents that are not empty, fit a vector with their
headers, and, in a build that checks, need no more packets than `seq_num` can
count. -/
theorem build_eq_ok_iff (s : UdpSerial) :
    build checks msgId item intp dest = .ok s ↔
      0 < item.length + dest.length ∧
      item.length + dest.length +
        packetCount (item.length + dest.length) * DatagramHeader.size ≤ maxBytes ∧
      (checks = true → packetCount (item.length + dest.length) ≤ 65536) ∧
      s = UdpSerial.new msgId item intp dest := by
  rcases Nat.eq_zero_or_pos (item.length + dest.length) with hzero | hpos
  · constructor
    · exact fun h => absurd h (build_empty_ne_ok hzero s)
    · rintro ⟨hpos, -⟩
      omega
  have hlen : 0 + (item.length + dest.length - 1) / payloadPerPacket * payloadPerPacket ≤
      (item ++ dest).length := by
    simp only [payloadPerPacket, packetSize, DatagramHeader.size, List.length_append]
    omega
  have hloop := fun bytes => pack_eq_ok_iff checks (item ++ dest) _ _
    (firstHeader msgId item intp dest) bytes hlen
  have hcount : (firstHeader msgId item intp dest).seqNum.toNat +
      (item.length + dest.length - 1) / payloadPerPacket < 2 ^ 16 ↔
      packetCount (item.length + dest.length) ≤ 65536 := by
    change 0 + _ < _ ↔ _
    rw [packetCount]
    omega
  simp only [hcount] at hloop
  constructor
  · intro h
    by_cases hmax : item.length + dest.length ≤ maxBytes
    · rw [build_eq hpos hmax] at h
      obtain ⟨_, hreserve, h⟩ := bind_eq_ok_iff.mp h
      obtain ⟨_, -, h⟩ := bind_eq_ok_iff.mp h
      obtain ⟨bytes, hpack, h⟩ := bind_eq_ok_iff.mp h
      obtain ⟨hfew, rfl⟩ := (hloop bytes).mp hpack
      exact ⟨hpos, (reserve_eq_ok_iff _).mp hreserve, hfew, (Except.ok.inj h).symm⟩
    · -- the item and the destination do not fit one vector
      obtain ⟨_, -, h⟩ := bind_eq_ok_iff.mp h
      obtain ⟨_, -, h⟩ := bind_eq_ok_iff.mp h
      obtain ⟨_, -, h⟩ := bind_eq_ok_iff.mp h
      obtain ⟨_, -, h⟩ := bind_eq_ok_iff.mp h
      obtain ⟨_, -, h⟩ := bind_eq_ok_iff.mp h
      obtain ⟨_, hreserve, -⟩ := bind_eq_ok_iff.mp h
      exact absurd ((reserve_eq_ok_iff _).mp hreserve) hmax
  · rintro ⟨-, hfits, hfew, rfl⟩
    have hmax : item.length + dest.length ≤ maxBytes := by omega
    rw [build_eq hpos hmax]
    exact bind_eq_ok_iff.mpr ⟨_, (reserve_eq_ok_iff _).mpr hfits, bind_eq_ok_iff.mpr
      ⟨_, (reserve_eq_ok_iff _).mpr hmax, bind_eq_ok_iff.mpr
        ⟨_, (hloop _).mpr ⟨hfew, rfl⟩, rfl⟩⟩⟩

/-! ## What the headers state -/

/-- A packet starts with its header. -/
theorem take_packet (header : DatagramHeader) (content : List UInt8) (i : Nat) :
    (packet header content i).take DatagramHeader.size =
      { header with seqNum := i.toUInt16 }.put :=
  List.take_left' (DatagramHeader.length_put _)

/-- The headers are true exactly when the fields can hold the number of the
packets and the length of the destination. -/
theorem truthful_new_iff (hpos : 0 < item.length + dest.length) :
    Truthful item dest (UdpSerial.new msgId item intp dest) ↔
      packetCount (item.length + dest.length) ≤ 65536 ∧ dest.length ≤ 65535 := by
  have hsend : (UdpSerial.new msgId item intp dest).send =
      (List.range (packetCount (item.length + dest.length))).map
        (packet (firstHeader msgId item intp dest) (item ++ dest)) :=
    send_new msgId item intp dest hpos
  have hmaxSeqNum : (firstHeader msgId item intp dest).maxSeqNum.toNat =
      (packetCount (item.length + dest.length) - 1) % 2 ^ 16 := rfl
  have hmsgSize : (firstHeader msgId item intp dest).msgSize.toNat = item.length % 2 ^ 32 := rfl
  have hdestSize : (firstHeader msgId item intp dest).destSize.toNat = dest.length % 2 ^ 16 := rfl
  have hcount : 0 < packetCount (item.length + dest.length) := Nat.succ_pos _
  constructor
  · intro h
    obtain ⟨header, hput, -, hmax, -, hdest⟩ := h 0 _ (by
      rw [hsend, List.getElem?_map, List.getElem?_range hcount, Option.map_some])
    rw [take_packet] at hput
    obtain rfl := DatagramHeader.put_injective hput
    rw [hsend, List.length_map, List.length_range] at hmax
    change (firstHeader msgId item intp dest).maxSeqNum.toNat + 1 = _ at hmax
    change (firstHeader msgId item intp dest).destSize.toNat = _ at hdest
    omega
  · rintro ⟨hfew, hdest⟩ k datagram hk
    have hsize : item.length < 2 ^ 32 := by
      simp only [packetCount, payloadPerPacket, packetSize, DatagramHeader.size] at hfew
      omega
    rw [hsend, List.getElem?_map, Option.map_eq_some_iff] at hk
    obtain ⟨i, hi, rfl⟩ := hk
    obtain ⟨hlt, rfl⟩ := List.getElem?_eq_some_iff.mp hi
    rw [List.length_range] at hlt
    rw [List.getElem_range]
    refine ⟨{ firstHeader msgId item intp dest with seqNum := k.toUInt16 }, take_packet _ _ _,
      ?_, ?_, ?_, ?_⟩
    · exact Nat.mod_eq_of_lt (by omega)
    · rw [hsend, List.length_map, List.length_range]
      change (firstHeader msgId item intp dest).maxSeqNum.toNat + 1 = _
      omega
    · change (firstHeader msgId item intp dest).msgSize.toNat = _
      omega
    · change (firstHeader msgId item intp dest).destSize.toNat = _
      omega

end Build

/-- `new` fails or gives packets whose headers are true: exactly for the empty
content, for the contents that do not fit a vector with their headers, for those
of more than 65536 packets in a build that checks, and for those of at most
65536 packets with a destination of at most 65535 bytes. -/
theorem build_truthful_iff (checks : Bool) (msgId : UInt64) (item : List UInt8)
    (intp : Interpretations) (dest : List UInt8) :
    (∀ s, build checks msgId item intp dest = .ok s → Truthful item dest s) ↔
      item.length + dest.length = 0 ∨
      maxBytes < item.length + dest.length +
        packetCount (item.length + dest.length) * DatagramHeader.size ∨
      (checks = true ∧ 65536 < packetCount (item.length + dest.length)) ∨
      (packetCount (item.length + dest.length) ≤ 65536 ∧ dest.length ≤ 65535) := by
  simp only [build_eq_ok_iff]
  constructor
  · intro h
    by_cases hpos : 0 < item.length + dest.length
    · by_cases hfits : item.length + dest.length +
          packetCount (item.length + dest.length) * DatagramHeader.size ≤ maxBytes
      · by_cases hfew : checks = true → packetCount (item.length + dest.length) ≤ 65536
        · have htrue := h (UdpSerial.new msgId item intp dest) ⟨hpos, hfits, hfew, rfl⟩
          exact .inr (.inr (.inr ((truthful_new_iff hpos).mp htrue)))
        · rw [Classical.not_imp, Nat.not_le] at hfew
          exact .inr (.inr (.inl hfew))
      · exact .inr (.inl (Nat.not_le.mp hfits))
    · exact .inl (by omega)
  · rintro h s ⟨hpos, hfits, hfew, rfl⟩
    rcases h with h | h | ⟨hc, h⟩ | h
    · omega
    · omega
    · have := hfew hc
      omega
    · exact (truthful_new_iff hpos).mpr h

/-- A destination of 65536 bytes: its size is stated as 0. -/
theorem build_not_truthful :
    ∃ s, build true 0 [0] .message (List.replicate 65536 0) = .ok s ∧
      s.send.length = 1171 ∧ ¬ Truthful [0] (List.replicate 65536 0) s := by
  have hlen : ([0] : List UInt8).length + (List.replicate 65536 (0 : UInt8)).length = 65537 := by
    rw [List.length_replicate]
    rfl
  refine ⟨_, (build_eq_ok_iff _).mpr ⟨?_, ?_, ?_, rfl⟩, ?_, fun h => ?_⟩
  · rw [hlen]
    decide
  · rw [hlen]
    decide
  · rw [hlen]
    decide
  · rw [send_new _ _ _ _ (by rw [hlen]; decide), hlen, List.length_map, List.length_range]
    rfl
  · have hdest := ((truthful_new_iff (by rw [hlen]; decide)).mp h).2
    rw [List.length_replicate] at hdest
    omega

end UdpSerial

end AurumActors.Core
