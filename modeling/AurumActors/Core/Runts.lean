/-
  Core/Runts.lean --- datagrams shorter than a header at the receiving task.

  `peek_from` writes only as many bytes of the header buffer as the datagram
  has, and its length is not looked at.  What a short datagram decodes to, and
  what it leaves for the next one, depends on the buffer.
-/
import AurumActors.Core.UdpReceiver

set_option autoImplicit false

namespace AurumActors.Core

open AurumActors.Foundation Std

/-! ## Buffers -/

/-- All datagrams decode to one header over both buffers. -/
def Alike (buf buf' : List UInt8) : Prop :=
  ∀ datagram, DatagramHeader.tryFrom (overlay buf datagram) =
    DatagramHeader.tryFrom (overlay buf' datagram)

theorem Alike.symm {buf buf' : List UInt8} (h : Alike buf buf') : Alike buf' buf :=
  fun datagram => (h datagram).symm

/-- What is peeked next keeps the buffers alike. -/
theorem Alike.overlay {buf buf' : List UInt8} (h : Alike buf buf') (bytes : Datagram) :
    Alike (overlay buf bytes) (overlay buf' bytes) := by
  intro datagram
  rw [overlay_overlay_append, overlay_overlay_append]
  exact h _

/-- Only datagrams shorter than the runt can tell whether it was peeked. -/
theorem alike_overlay_iff (buf : List UInt8) (runt : Datagram) :
    Alike buf (Foundation.overlay buf runt) ↔
      ∀ datagram : Datagram, datagram.length < runt.length →
        DatagramHeader.tryFrom (Foundation.overlay buf datagram) =
          DatagramHeader.tryFrom (Foundation.overlay (Foundation.overlay buf runt) datagram) := by
  constructor
  · intro h datagram _
    exact h datagram
  · intro h datagram
    by_cases hlen : datagram.length < runt.length
    · exact h datagram hlen
    · rw [overlay_overlay_of_le buf (Nat.le_of_not_lt hlen)]

namespace Receiver

/-! ## Two receivers side by side -/

/-- Two receivers that agree on everything but the bytes of the header buffer,
and handle the next datagram alike. -/
structure SameOutside (r r' : Receiver) : Prop where
  state : r' = { r with headerBuf := r'.headerBuf }
  header : r.header? = r'.header?

/-- Every run of one receiver is a run of the other, and leads to the same
state. -/
def Twins (r r' : Receiver) : Prop :=
  ∀ moves, (∀ s, system.Run r moves s → ∃ s', system.Run r' moves s' ∧ s.SameOutside s') ∧
    ∀ s', system.Run r' moves s' → ∃ s, system.Run r moves s ∧ s.SameOutside s'

/-- The loop discards the runt at the head of its socket, whatever follows, and
goes on as if it had not arrived. -/
def Inert (r : Receiver) (runt : Datagram) : Prop :=
  ∀ rest, ∃ r', { r with socket := runt :: rest }.peek = .ok r' ∧
    r'.Twins { r with socket := rest }

/-- The invariant of twins: their buffers are alike. -/
structure AlikeOutside (r r' : Receiver) : Prop where
  state : r' = { r with headerBuf := r'.headerBuf }
  alike : Alike r.headerBuf r'.headerBuf

theorem AlikeOutside.symm {r r' : Receiver} (h : r.AlikeOutside r') : r'.AlikeOutside r := by
  refine ⟨?_, h.alike.symm⟩
  rw [h.state]

theorem AlikeOutside.sameOutside {r r' : Receiver} (h : r.AlikeOutside r') :
    r.SameOutside r' := by
  refine ⟨h.state, ?_⟩
  rw [h.state]
  unfold header?
  cases r.socket with
  | nil => rfl
  | cons datagram rest => exact h.alike datagram

theorem store_headerBuf (r : Receiver) (buf : List UInt8) (header : DatagramHeader)
    (mb : MessageBuilder) (socket : List Datagram) :
    { r with headerBuf := buf }.store header mb socket =
      { r.store header mb socket with headerBuf := buf } := by
  unfold store
  by_cases hmax : header.maxSeqNum = 0
  · simp only [if_pos hmax]
    rfl
  · simp only [if_neg hmax]
    rcases r.recvd[header.msgId]? with _ | ⟨hdl, stored⟩
    · rfl
    · by_cases hfin : mb.finished = true
      · simp only [if_pos hfin]
        rfl
      · simp only [if_neg hfin]

/-- An iteration over another buffer that is alike. -/
theorem peek_headerBuf {r r' : Receiver} {buf : List UInt8} (halike : Alike r.headerBuf buf)
    (h : r.peek = .ok r') : ∃ buf', { r with headerBuf := buf }.peek =
      .ok { r' with headerBuf := buf' } ∧ Alike r'.headerBuf buf' := by
  cases peeked_of_ok h with
  | @rejected datagram rest hs hh =>
      have hs' : ({ r with headerBuf := buf } : Receiver).socket = datagram :: rest := hs
      exact ⟨_, peek_of_reject hs' ((halike datagram).symm.trans hh),
        (halike.overlay _).overlay _⟩
  | @accepted datagram rest header mb socket hs hh hins =>
      have hs' : ({ r with headerBuf := buf } : Receiver).socket = datagram :: rest := hs
      have hpeek := peek_of_insert hs' ((halike datagram).symm.trans hh) hins
      refine ⟨overlay buf datagram, hpeek.trans (congrArg Except.ok ?_), ?_⟩
      · rw [store_headerBuf r (overlay buf datagram),
          store_headerBuf r (overlay r.headerBuf datagram)]
      · rw [store_headerBuf]
        exact halike.overlay _

theorem alikeOutside_step {r s r' : Receiver} {m : Move} (h : r.AlikeOutside r')
    (hst : system.step r m s) : ∃ s', system.step r' m s' ∧ s.AlikeOutside s' := by
  rw [h.state]
  cases m with
  | arrive datagram =>
      obtain rfl : s = { r with socket := r.socket ++ [datagram] } := hst
      exact ⟨_, rfl, rfl, h.alike⟩
  | wake timer =>
      obtain ⟨hmem, rfl⟩ : timer ∈ r.timers ∧ s = r.wake timer := hst
      exact ⟨_, ⟨hmem, rfl⟩, rfl, h.alike⟩
  | expire =>
      have hst : r.expire = .ok s := hst
      obtain ⟨msgId, rx, hrx, rfl⟩ := expire_cases hst
      refine ⟨{ r with headerBuf := r'.headerBuf, rx, recvd := r.recvd.erase msgId }, ?_,
        rfl, h.alike⟩
      change Receiver.expire _ = _
      simp only [Receiver.expire, hrx]
  | peek =>
      obtain ⟨buf', hpeek, halike⟩ := peek_headerBuf h.alike hst
      exact ⟨_, hpeek, rfl, halike⟩

theorem AlikeOutside.twins {r r' : Receiver} (h : r.AlikeOutside r') : r.Twins r' := by
  intro moves
  constructor
  · intro s hrun
    obtain ⟨s', hrun', hs'⟩ := hrun.simulates (fun _ _ _ _ => alikeOutside_step) h
    exact ⟨s', hrun', hs'.sameOutside⟩
  · intro s' hrun'
    obtain ⟨s, hrun, hs⟩ := hrun'.simulates (fun _ _ _ _ => alikeOutside_step) h.symm
    exact ⟨s, hrun, hs.symm.sameOutside⟩

/-! ## Runts -/

/-- An accepted header changes more than the socket and the buffer. -/
theorem not_discarded_of_header {r r' : Receiver} {datagram : Datagram} {rest : List Datagram}
    {header : DatagramHeader} (hs : r.socket = datagram :: rest)
    (hh : DatagramHeader.tryFrom (overlay r.headerBuf datagram) = some header)
    (h : r.peek = .ok r') : r' ≠ { r with headerBuf := r'.headerBuf, socket := rest } := by
  intro hsame
  have htakes : ∃ r', r.peek = .ok r' ∧ r'.socket = rest := ⟨r', h, by rw [hsame]⟩
  have hfits := (peek_takes_iff hs hh).mp htakes
  obtain ⟨mb, hins, hmb⟩ := MessageBuilder.insert_of_fits hfits datagram rest
  obtain ⟨mb', socket, hins', rfl⟩ := peek_eq_ok hs hh h
  rw [hins] at hins'
  obtain ⟨rfl, rfl⟩ : mb = mb' ∧ rest = socket := by
    injection hins' with hins'
    exact ⟨congrArg Prod.fst hins', congrArg Prod.snd hins'⟩
  rw [store_headerBuf] at hsame
  by_cases hmax : header.maxSeqNum = 0
  · -- the message is forwarded
    rw [store_single _ hmax] at hsame
    have hforwarded := congrArg (fun s => s.forwarded.length) hsame
    simp [forward] at hforwarded
  · cases hget : r.recvd[header.msgId]? with
    | none =>
        -- a timer is started
        rw [store_first _ hmax hget] at hsame
        have htimers := congrArg (fun s => s.timers.length) hsame
        simp at htimers
    | some e =>
        by_cases hfin : mb.finished = true
        · rw [store_last _ hmax hget hfin] at hsame
          have hforwarded := congrArg (fun s => s.forwarded.length) hsame
          simp [forward] at hforwarded
        · -- the stored builder counts one packet more
          rw [store_more _ hmax hget (by simpa using hfin)] at hsame
          have hrecvd := congrArg (fun s => s.recvd[header.msgId]?) hsame
          simp only [getElem?_insert_eq, if_pos, hget] at hrecvd
          have hbuilder : r.builderFor header = e.2 := by
            simp only [builderFor, if_neg hmax, hget]
          have hcount := hmb.numRecvd
          rw [hbuilder] at hcount
          have hsame := congrArg Prod.snd (Option.some.inj hrecvd)
          rw [← hsame] at hcount
          simp at hcount

/-- A datagram is inert exactly when it is rejected over the header buffer as it
is, and no shorter datagram decodes to another header after it. -/
theorem inert_iff (r : Receiver) (runt : Datagram) :
    r.Inert runt ↔ DatagramHeader.tryFrom (overlay r.headerBuf runt) = none ∧
      ∀ datagram : Datagram, datagram.length < runt.length →
        DatagramHeader.tryFrom (overlay r.headerBuf datagram) =
          DatagramHeader.tryFrom (overlay (overlay r.headerBuf runt) datagram) := by
  rw [← alike_overlay_iff]
  constructor
  · intro hinert
    obtain ⟨r', hpeek, htwins⟩ := hinert []
    obtain ⟨s, hrun, hs⟩ := (htwins []).1 r' .nil
    have hstate := hs.state
    rw [← hrun.eq_of_nil] at hstate
    cases hh : DatagramHeader.tryFrom (overlay r.headerBuf runt) with
    | some header =>
        refine absurd ?_
          (not_discarded_of_header (r := { r with socket := [runt] }) rfl hh hpeek)
        exact (congrArg (fun s : Receiver => { s with headerBuf := r'.headerBuf }) hstate).symm
    | none =>
        refine ⟨rfl, fun datagram => ?_⟩
        rw [peek_of_reject (r := { r with socket := [runt] }) rfl hh, overlay_overlay] at hpeek
        injection hpeek with hpeek
        subst hpeek
        -- the next datagram decodes to the same header in both
        obtain ⟨s', hrun', hs'⟩ := (htwins [.arrive datagram]).1
          { r with headerBuf := overlay r.headerBuf runt, socket := [datagram] }
          (System.Run.snoc .nil rfl)
        obtain ⟨t, hnil, hst⟩ := System.Run.of_snoc [] hrun'
        have hst : s' = { t with socket := t.socket ++ [datagram] } := hst
        have hheader := hs'.header
        rw [hst, ← hnil.eq_of_nil] at hheader
        exact hheader.symm
  · rintro ⟨hh, halike⟩ rest
    refine ⟨_, peek_of_reject rfl hh, AlikeOutside.twins ⟨rfl, ?_⟩⟩
    rw [overlay_overlay]
    exact halike.symm

/-- The header of a message of one packet, with one byte of content. -/
def headerOfOne : DatagramHeader where
  msgId := 9
  seqNum := 0
  maxSeqNum := 0
  msgSize := 1
  destSize := 1
  intp := .message

/-- After that message an empty datagram decodes to its header again, and a
second message is forwarded. -/
theorem empty_runt_forwards :
    ∃ r, system.Reachable r ∧ r.socket = [[]] ∧ r.forwarded.length = 1 ∧
      (∃ r', r.peek = .ok r' ∧ r'.forwarded.length = 2) ∧ ¬ r.Inert [] := by
  have hpeeks : ∃ r ∈ ({ start with socket := [headerOfOne.put ++ [3], []] } :
        Receiver).peek.toOption, r.socket = [[]] ∧ r.forwarded.length = 1 ∧
      DatagramHeader.tryFrom (overlay r.headerBuf []) = some headerOfOne ∧
      ∃ r' ∈ r.peek.toOption, r'.forwarded.length = 2 := by decide
  obtain ⟨r, hr, hs, hlength, hh, r', hr', hlength'⟩ := hpeeks
  have hst : system.step _ .peek r := ok_of_toOption hr
  refine ⟨r, (reachable_arrivals _).step hst, hs, hlength, ⟨r', ok_of_toOption hr', hlength'⟩, ?_⟩
  intro hinert
  have hreject := ((inert_iff r []).mp hinert).1
  rw [hh] at hreject
  cases hreject

end Receiver

end AurumActors.Core
