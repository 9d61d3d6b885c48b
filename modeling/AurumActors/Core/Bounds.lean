/-
  Core/Bounds.lean --- the slices and indices of the receiving task.

  Every builder keeps the length of its bit field and room for its message, so
  `dest` and `msg` are always in bounds.  `insert` is in bounds exactly when the
  header names a place of the builder; `DatagramHeader::try_from` compares no
  header with the sizes it is used with.
-/
import AurumActors.Core.Progress

set_option autoImplicit false

namespace AurumActors.Core

open AurumActors.Foundation Std

namespace MessageBuilder

/-! ## Builders -/

/-- The slices of `dest` and `msg` are in bounds. -/
def InBounds (mb : MessageBuilder) : Prop :=
  mb.destSlice = .ok mb.dest ∧ mb.msgSlice = .ok mb.msg

/-- The lengths that a builder has from its first header. -/
structure Shaped (mb : MessageBuilder) : Prop where
  seqs : mb.seqsRecvd.length = mb.maxSeqNum.toNat / 8 + 1
  message : DatagramHeader.size + mb.msgSize.toNat ≤ mb.buf.length

/-- The builder has a bit for the packet of the header, and has received it or
has room for it. -/
structure Placed (mb : MessageBuilder) (header : DatagramHeader) : Prop where
  bit : header.seqNum.toNat / 8 ≤ mb.maxSeqNum.toNat / 8
  room : mb.Received header.seqNum.toNat ∨
    header.seqNum.toNat * payloadPerPacket + DatagramHeader.size ≤ mb.buf.length

theorem Shaped.inBounds {mb : MessageBuilder} (h : mb.Shaped) : mb.InBounds := by
  constructor
  · rw [destSlice, if_pos h.message]
  · rw [msgSlice, if_pos h.message]

theorem shaped_new (header : DatagramHeader) : (MessageBuilder.new header).Shaped := by
  constructor
  · have hmax : (header.maxSeqNum / 8 + 1).toNat = header.maxSeqNum.toNat / 8 + 1 := by
      have hlt := header.maxSeqNum.toNat_lt
      simp only [UInt16.toNat_add, UInt16.toNat_div, UInt16.reduceToNat]
      omega
    simp [MessageBuilder.new, hmax]
  · simp only [MessageBuilder.new, List.length_replicate]
    omega

theorem Inserted.shaped {mb mb' : MessageBuilder} {header : DatagramHeader} {datagram : Datagram}
    (h : mb.Inserted header datagram mb') (hmb : mb.Shaped) : mb'.Shaped := by
  constructor
  · rw [h.length_seqsRecvd, h.maxSeqNum]
    exact hmb.seqs
  · rw [h.length_buf, h.msgSize]
    exact hmb.message

section Insert

variable {mb : MessageBuilder} {header : DatagramHeader} (datagram : Datagram)
  (rest : List Datagram)

/-- At a socket with a datagram, `insert` ends if and only if the header is
placed; the builder keeps its lengths. -/
theorem insert_of_placed (hmb : mb.Shaped) (h : mb.Placed header) :
    ∃ mb' socket, mb.insert header (datagram :: rest) = .ok (mb', socket) ∧ mb'.Shaped := by
  have hindex : header.seqNum.toNat / 8 < mb.seqsRecvd.length := by
    rw [hmb.seqs]
    exact Nat.lt_succ_of_le h.bit
  by_cases hrecv : mb.Received header.seqNum.toNat
  · exact ⟨mb, _, insert_of_received hindex hrecv _, hmb⟩
  · have hfits : mb.Fits header := ⟨hindex, hrecv, h.room.resolve_left hrecv⟩
    obtain ⟨mb', hins, hmb'⟩ := insert_of_fits hfits datagram rest
    exact ⟨mb', rest, hins, hmb'.shaped hmb⟩

theorem placed_of_insert (hmb : mb.Shaped) {p : MessageBuilder × List Datagram}
    (h : mb.insert header (datagram :: rest) = .ok p) : mb.Placed header := by
  simp only [MessageBuilder.insert] at h
  split at h
  · next hindex =>
      have hbit : header.seqNum.toNat / 8 ≤ mb.maxSeqNum.toNat / 8 := by
        rw [hmb.seqs] at hindex
        exact Nat.le_of_lt_succ hindex
      split at h
      · next hrecv => exact ⟨hbit, .inl hrecv⟩
      · split at h
        · next hroom =>
            refine ⟨hbit, .inr ?_⟩
            simp only [payloadPerPacket, packetSize, DatagramHeader.size] at hroom ⊢
            omega
        · cases h
  · cases h

end Insert

end MessageBuilder

namespace Receiver

/-! ## The receiving task -/

/-- All builders of the receiver, stored and forwarded ones. -/
def Holds (P : MessageBuilder → Prop) (r : Receiver) : Prop :=
  (∀ (msgId : UInt64) (e : Nat × MessageBuilder), r.recvd[msgId]? = some e → P e.2) ∧
    ∀ e ∈ r.forwarded, P e.2

/-- The iteration at the socket ends, and leaves only builders whose slices are
in bounds. -/
def Safe (r : Receiver) : Prop :=
  ∃ r', r.peek = .ok r' ∧ r'.Holds MessageBuilder.InBounds

/-- The datagrams that arrive have at least the bytes of a header. -/
def WholeHeader (_ : Receiver) : Move → Prop
  | .arrive datagram => DatagramHeader.size ≤ datagram.length
  | _ => True

theorem Holds.builderFor {P : MessageBuilder → Prop} {r : Receiver} (h : r.Holds P)
    (hnew : ∀ header, P (.new header)) (header : DatagramHeader) : P (r.builderFor header) := by
  unfold Receiver.builderFor
  split
  · exact hnew header
  · split
    · next hget => exact h.1 _ _ hget
    · exact hnew header

theorem Holds.store {P : MessageBuilder → Prop} {r : Receiver} (h : r.Holds P)
    (header : DatagramHeader) {mb : MessageBuilder} (hmb : P mb) (socket : List Datagram) :
    (r.store header mb socket).Holds P := by
  have hlog : ∀ e ∈ r.forwarded ++ [(header.msgId, mb)], P e.2 := by
    intro e he
    rcases List.mem_append.mp he with he | he
    · exact h.2 e he
    · rw [List.mem_singleton.mp he]
      exact hmb
  have hinsert : ∀ (n : Nat) (msgId : UInt64) (e : Nat × MessageBuilder),
      (r.recvd.insert header.msgId (n, mb))[msgId]? = some e → P e.2 := by
    intro n msgId e he
    rw [getElem?_insert_eq] at he
    split at he
    · cases he
      exact hmb
    · exact h.1 _ _ he
  unfold Receiver.store
  split
  · exact ⟨h.1, hlog⟩
  · split
    · split
      · refine ⟨fun msgId e he => ?_, hlog⟩
        simp only [forward, getElem?_erase_eq] at he
        split at he
        · cases he
        · exact h.1 _ _ he
      · exact ⟨hinsert _, h.2⟩
    · exact ⟨hinsert _, h.2⟩

theorem Holds.mono {P Q : MessageBuilder → Prop} {r : Receiver} (h : r.Holds P)
    (himp : ∀ mb, P mb → Q mb) : r.Holds Q :=
  ⟨fun msgId e he => himp _ (h.1 msgId e he), fun e he => himp _ (h.2 e he)⟩

/-- One move keeps the lengths of all builders. -/
theorem shaped_step {r r' : Receiver} {m : Move} (h : r.Holds MessageBuilder.Shaped)
    (hst : system.step r m r') : r'.Holds MessageBuilder.Shaped := by
  cases m with
  | arrive datagram =>
      obtain rfl : r' = { r with socket := r.socket ++ [datagram] } := hst
      exact h
  | wake timer =>
      obtain ⟨-, rfl⟩ : timer ∈ r.timers ∧ r' = r.wake timer := hst
      exact h
  | expire =>
      have hst : r.expire = .ok r' := hst
      obtain ⟨msgId, rx, -, rfl⟩ := expire_cases hst
      refine ⟨fun msgId' e he => ?_, h.2⟩
      simp only [getElem?_erase_eq] at he
      split at he
      · cases he
      · exact h.1 _ _ he
  | peek =>
      have hst : r.peek = .ok r' := hst
      cases peeked_of_ok hst with
      | rejected hs hh => exact h
      | @accepted datagram rest header mb socket hs hh hins =>
          have hbuilder := h.builderFor MessageBuilder.shaped_new header
          have hplaced := MessageBuilder.placed_of_insert datagram rest hbuilder hins
          obtain ⟨mb', socket', hins', hmb'⟩ :=
            MessageBuilder.insert_of_placed datagram rest hbuilder hplaced
          obtain ⟨rfl, rfl⟩ : mb' = mb ∧ socket' = socket := by
            rw [hins] at hins'
            injection hins' with hins'
            exact ⟨(congrArg Prod.fst hins').symm, (congrArg Prod.snd hins').symm⟩
          exact Holds.store (r := { r with headerBuf := overlay r.headerBuf datagram })
            h header hmb' _

/-- Every builder of every run has the lengths of its first header. -/
theorem shaped_reachable {r : Receiver} (h : system.Reachable r) :
    r.Holds MessageBuilder.Shaped := by
  refine h.invariant ?_ fun s m t _ hs hst => shaped_step hs hst
  rintro s rfl
  exact ⟨fun msgId e he => by simp [start] at he, by simp [start]⟩

/-- After any datagrams and timeouts, the iteration for an accepted header has
all its slices and indices in bounds if and only if its builder (the stored one
of its message, or the one that it opens) has a place for it. -/
theorem safe_iff_placed {r : Receiver} (hreach : system.Reachable r) {datagram : Datagram}
    {rest : List Datagram} {header : DatagramHeader} (hs : r.socket = datagram :: rest)
    (hh : DatagramHeader.tryFrom (overlay r.headerBuf datagram) = some header) :
    r.Safe ↔ (r.builderFor header).Placed header := by
  have hshaped := shaped_reachable hreach
  have hbuilder := hshaped.builderFor MessageBuilder.shaped_new header
  constructor
  · rintro ⟨r', hpeek, -⟩
    obtain ⟨mb, socket, hins, -⟩ := peek_eq_ok hs hh hpeek
    exact MessageBuilder.placed_of_insert datagram rest hbuilder hins
  · intro hplaced
    obtain ⟨mb, socket, hins, -⟩ :=
      MessageBuilder.insert_of_placed datagram rest hbuilder hplaced
    have hpeek := peek_of_insert hs hh hins
    have hst : system.step r .peek _ := hpeek
    refine ⟨_, hpeek, (shaped_step hshaped hst).mono fun mb' hmb' => ?_⟩
    exact hmb'.inBounds

/-- The header of the second packet of a message without bytes, with a
destination of one byte. -/
def headerPastEnd : DatagramHeader where
  msgId := 7
  seqNum := 1
  maxSeqNum := 1
  msgSize := 0
  destSize := 1
  intp := .message

/-- The first packet of two has its place in the builder that it opens. -/
theorem safe_iff_placed_headerOfTwo :
    (({ start with socket := [firstOfTwo] } : Receiver).builderFor (headerOfTwo 0)).Placed
        (headerOfTwo 0) ∧
      ({ start with socket := [firstOfTwo] } : Receiver).Safe := by
  have hplaced : (({ start with socket := [firstOfTwo] } : Receiver).builderFor
      (headerOfTwo 0)).Placed (headerOfTwo 0) := ⟨by decide, .inr (by decide)⟩
  exact ⟨hplaced, (safe_iff_placed (reachable_arrivals [firstOfTwo]) rfl (by decide)).mpr hplaced⟩

/-- One datagram of 19 bytes whose header is accepted ends the task: its packet
would begin at byte 56 of a buffer of 20 bytes. -/
theorem headerPastEnd_ends_task :
    ∃ r, (system.restrict WholeHeader).Reachable r ∧ r.socket = [headerPastEnd.put] ∧
      DatagramHeader.tryFrom (overlay r.headerBuf headerPastEnd.put) = some headerPastEnd ∧
      r.peek = .error .sliceOutOfBounds ∧ ¬ r.Safe := by
  have harrive : (system.restrict WholeHeader).step start (.arrive headerPastEnd.put)
      { start with socket := [headerPastEnd.put] } :=
    ⟨rfl, Nat.le_refl _⟩
  have hpeek : ({ start with socket := [headerPastEnd.put] } : Receiver).peek =
      .error .sliceOutOfBounds := by decide
  refine ⟨_, (System.Reachable.of_init rfl).step harrive, rfl, by decide, hpeek, ?_⟩
  rintro ⟨r', h, -⟩
  rw [hpeek] at h
  cases h

end Receiver

end AurumActors.Core
