/-
  Core/RemoteMessages.lean --- what the messages from other nodes do to the
  registry.

  The receiving task forwards builders with any bytes for the item and for the
  destination.  `Registry::recv` unwraps the deserialized destination, and the
  serialized receiver of an actor is closed when its mailbox is.
-/
import AurumActors.Core.Bounds
import AurumActors.Core.Registry

set_option autoImplicit false

namespace AurumActors.Core

open AurumActors.Foundation Std

attribute [local instance] lexOrd

/-- A run of the receiving task forwards the builder. -/
def Forwardable (mb : MessageBuilder) : Prop :=
  ∃ r, Receiver.system.Reachable r ∧ ∃ msgId, (msgId, mb) ∈ r.forwarded

/-- The destination of a forwarded builder is in bounds. -/
theorem Forwardable.destSlice {mb : MessageBuilder} (h : Forwardable mb) :
    mb.destSlice = .ok mb.dest := by
  obtain ⟨r, hr, msgId, hmem⟩ := h
  exact ((Receiver.shaped_reachable hr).2 _ hmem).inBounds.1

namespace NodeTasks

variable {U S : Type} [Ord U] [TransOrd U]

/-- The receiver of a task is closed. -/
def Closed (w : NodeTasks U S) (task : Nat) : Prop :=
  ∀ t, w.tasks[task]? = some t → t.mailboxClosed = true

/-- The registry goes on, with its register unchanged or without the addressed
entry, whose receiver is closed. -/
def Survives (serde : Serde U S) (w : NodeTasks U S) (reg : Registry U) (mb : MessageBuilder) :
    Prop :=
  ∃ reg', (w.recv serde reg (.forward mb)).registry = some reg' ∧
    (reg' = reg ∨ ∃ dest task, serde.destination mb.dest = some dest ∧
      reg.register[dest.name]? = some task ∧ w.Closed task ∧
      reg' = ⟨reg.register.erase dest.name⟩)

/-- The registry handles forwarded messages, as long as it goes on. -/
def deliver (serde : Serde U S) (w : NodeTasks U S) (mbs : List MessageBuilder) :
    NodeTasks U S :=
  mbs.foldl (fun w mb => match w.registry with
    | some reg => w.recv serde reg (.forward mb)
    | none => w) w

/-- After the messages the registry goes on, with the entries of all actors
whose receivers are open. -/
def KeepsLive (serde : Serde U S) (w : NodeTasks U S) (reg : Registry U)
    (mbs : List MessageBuilder) : Prop :=
  ∃ reg', (w.deliver serde mbs).registry = some reg' ∧
    ∀ (name : ActorId U) (task : Nat), reg.register[name]? = some task → ¬ w.Closed task →
      reg'.register[name]? = some task

/-! ## One message -/

section Forward

variable {serde : Serde U S} {w : NodeTasks U S} {reg : Registry U} {mb : MessageBuilder}

omit [TransOrd U] in
/-- A send fails exactly at a closed receiver, and closes none. -/
theorem send_closed (w : NodeTasks U S) (task : Nat) (msg : ActorMsg S) :
    (w.send task msg = none ↔ w.Closed task) ∧
      ∀ w', w.send task msg = some w' → w'.registry = w.registry ∧
        ∀ i, w'.Closed i → w.Closed i := by
  unfold send Closed
  split
  · next ht => exact ⟨⟨fun _ t h => by simp [ht] at h, fun _ => rfl⟩, nofun⟩
  · next t ht =>
      split
      · next hclosed =>
          refine ⟨⟨fun _ u hu => ?_, fun _ => rfl⟩, nofun⟩
          rw [ht] at hu
          cases hu
          exact hclosed
      · next hopen =>
          refine ⟨⟨nofun, fun h => absurd (h t ht) hopen⟩, ?_⟩
          rintro w' hw'
          cases hw'
          refine ⟨rfl, fun i hi u hu => ?_⟩
          have hmodified := hi (if task = i then { u with mailbox := u.mailbox ++ [msg] } else u)
            (by rw [List.getElem?_modify, hu]; rfl)
          split at hmodified
          · exact hmodified
          · exact hmodified

/-- A message whose destination cannot be read ends the registry. -/
theorem recv_of_unreadable (hslice : mb.destSlice = .ok mb.dest)
    (h : serde.destination mb.dest = none) :
    w.recv serde reg (.forward mb) = w.panic := by
  simp only [recv, destinationOf, hslice, h]

/-- A message whose destination can be read ends no live actor's entry. -/
theorem recv_of_readable (hslice : mb.destSlice = .ok mb.dest) (hreg : w.registry = some reg)
    {dest : DestinationUntyped U} (h : serde.destination mb.dest = some dest) :
    ∃ reg', (w.recv serde reg (.forward mb)).registry = some reg' ∧
      (reg' = reg ∨ ∃ task, reg.register[dest.name]? = some task ∧ w.Closed task ∧
        reg' = ⟨reg.register.erase dest.name⟩) ∧
      ∀ i, (w.recv serde reg (.forward mb)).Closed i → w.Closed i := by
  simp only [recv, destinationOf, hslice, h]
  cases hentry : reg.register[dest.name]? with
  | none => exact ⟨reg, hreg, .inl rfl, fun _ hi => hi⟩
  | some task =>
      obtain ⟨hnone, hsome⟩ := send_closed w task (serialOf serde dest mb)
      cases hsend : w.send task (serialOf serde dest mb) with
      | none =>
          simp only [hsend]
          exact ⟨_, rfl, .inr ⟨task, rfl, hnone.mp hsend, rfl⟩, fun _ hi => hi⟩
      | some w' =>
          obtain ⟨hregistry, hclosed⟩ := hsome w' hsend
          simp only [hsend]
          exact ⟨reg, hregistry.trans hreg, .inl rfl, hclosed⟩

theorem survives_iff_readable (hslice : mb.destSlice = .ok mb.dest)
    (hreg : w.registry = some reg) :
    Survives serde w reg mb ↔ (serde.destination mb.dest).isSome := by
  cases hdest : serde.destination mb.dest with
  | none =>
      refine iff_of_false ?_ (by simp)
      rintro ⟨reg', hreg', -⟩
      rw [recv_of_unreadable hslice hdest] at hreg'
      cases hreg'
  | some dest =>
      refine iff_of_true ?_ rfl
      obtain ⟨reg', hreg', hcases, -⟩ := recv_of_readable hslice hreg hdest
      refine ⟨reg', hreg', hcases.imp_right ?_⟩
      rintro ⟨task, hentry, hclosed, rfl⟩
      exact ⟨dest, task, hdest, hentry, hclosed, rfl⟩

end Forward

/-! ## Any sequence of messages -/

section Sequence

variable {serde : Serde U S}

theorem deliver_of_none {w : NodeTasks U S} (h : w.registry = none)
    (mbs : List MessageBuilder) : w.deliver serde mbs = w := by
  unfold deliver
  induction mbs with
  | nil => rfl
  | cons mb mbs ih =>
      rw [List.foldl_cons]
      simp only [h]
      exact ih

theorem deliver_cons {w : NodeTasks U S} {reg : Registry U} (h : w.registry = some reg)
    (mb : MessageBuilder) (mbs : List MessageBuilder) :
    w.deliver serde (mb :: mbs) = (w.recv serde reg (.forward mb)).deliver serde mbs := by
  rw [deliver, List.foldl_cons]
  simp only [h]
  rfl

/-- A registry that goes on could read all destinations. -/
theorem readable_of_deliver (mbs : List MessageBuilder)
    (hslices : ∀ mb ∈ mbs, mb.destSlice = .ok mb.dest) {w : NodeTasks U S} {reg : Registry U}
    (hreg : w.registry = some reg) (h : (w.deliver serde mbs).registry.isSome) :
    ∀ mb ∈ mbs, (serde.destination mb.dest).isSome := by
  induction mbs generalizing w reg with
  | nil => nofun
  | cons mb mbs ih =>
      have hslice := hslices mb List.mem_cons_self
      rw [deliver_cons hreg] at h
      rw [List.forall_mem_cons]
      cases hdest : serde.destination mb.dest with
      | none =>
          rw [recv_of_unreadable hslice hdest, deliver_of_none rfl] at h
          cases h
      | some dest =>
          obtain ⟨reg', hreg', -, -⟩ := recv_of_readable hslice hreg hdest
          exact ⟨rfl, ih (fun mb hmb => hslices mb (List.mem_cons_of_mem _ hmb)) hreg' h⟩

variable [LawfulEqOrd U] [DecidableEq U]

/-- A registry that can read all destinations keeps the entries of live actors. -/
theorem keepsLive_of_readable (mbs : List MessageBuilder)
    (hslices : ∀ mb ∈ mbs, mb.destSlice = .ok mb.dest) {w : NodeTasks U S} {reg : Registry U}
    (hreg : w.registry = some reg) (h : ∀ mb ∈ mbs, (serde.destination mb.dest).isSome) :
    KeepsLive serde w reg mbs := by
  induction mbs generalizing w reg with
  | nil => exact ⟨reg, hreg, fun _ _ hentry _ => hentry⟩
  | cons mb mbs ih =>
      obtain ⟨dest, hdest⟩ := Option.isSome_iff_exists.mp (h mb List.mem_cons_self)
      obtain ⟨reg₁, hreg₁, hcases, hclosed⟩ :=
        recv_of_readable (hslices mb List.mem_cons_self) hreg hdest
      obtain ⟨reg', hreg', hlive⟩ := ih (fun mb hmb => hslices mb (List.mem_cons_of_mem _ hmb))
        hreg₁ fun mb hmb => h mb (List.mem_cons_of_mem _ hmb)
      rw [KeepsLive, deliver_cons hreg]
      refine ⟨reg', hreg', fun name task hentry hopen =>
        hlive name task ?_ fun hi => hopen (hclosed task hi)⟩
      rcases hcases with rfl | ⟨task', hentry', hclosed', rfl⟩
      · exact hentry
      · -- the entry that goes has a closed receiver
        rw [getElem?_erase_eq, if_neg]
        · exact hentry
        · rintro rfl
          rw [hentry] at hentry'
          cases hentry'
          exact hopen hclosed'

/-- Malformed messages and the registry: whatever the register holds, it
survives a message that the receiving task can forward exactly if the bytes of
its destination can be read, and a sequence of such messages leaves the entries
of all live actors there exactly if all destinations can be read. -/
theorem survives_iff (serde : Serde U S) :
    (∀ mb, Forwardable mb → ∀ (w : NodeTasks U S) (reg : Registry U), w.registry = some reg →
      (Survives serde w reg mb ↔ (serde.destination mb.dest).isSome)) ∧
    ∀ mbs : List MessageBuilder, (∀ mb ∈ mbs, Forwardable mb) →
      ∀ (w : NodeTasks U S) (reg : Registry U), w.registry = some reg →
        (KeepsLive serde w reg mbs ↔ ∀ mb ∈ mbs, (serde.destination mb.dest).isSome) := by
  refine ⟨fun mb hmb w reg hreg => survives_iff_readable hmb.destSlice hreg,
    fun mbs hmbs w reg hreg => ?_⟩
  have hslices : ∀ mb ∈ mbs, mb.destSlice = .ok mb.dest := fun mb hmb => (hmbs mb hmb).destSlice
  constructor
  · rintro ⟨reg', hreg', -⟩
    exact readable_of_deliver mbs hslices hreg (Option.isSome_iff_exists.mpr ⟨reg', hreg'⟩)
  · exact keepsLive_of_readable mbs hslices hreg

end Sequence

section Break

/-- A builder for the destination bytes `0xff`, which is no CBOR item. -/
def breakCode : MessageBuilder where
  msgSize := 0
  maxSeqNum := 0
  seqsRecvd := [1]
  numRecvd := 1
  buf := List.replicate DatagramHeader.size 0 ++ [0xff]
  intp := .message

/-- The datagram that the receiving task makes `breakCode` of. -/
def breakDatagram : Datagram :=
  ({ msgId := 5, seqNum := 0, maxSeqNum := 0, msgSize := 0, destSize := 1, intp := .message } :
    DatagramHeader).put ++ [0xff]

theorem forwardable_breakCode : Forwardable breakCode := by
  have hpeek : Receiver.system.step { Receiver.start with socket := [breakDatagram] } .peek
      { Receiver.start with
        headerBuf := breakDatagram.take DatagramHeader.size, forwarded := [(5, breakCode)] } := rfl
  exact ⟨_, (Receiver.reachable_arrivals [breakDatagram]).step hpeek, 5, List.mem_cons_self⟩

/-- Every destination but the bytes `0xff` is read as `seat`. -/
def seatOrBreak : Serde Nat Unit where
  destination bytes := if bytes = [0xff] then none else some ⟨seat, 1⟩
  deserializeAs _ _ _ _ := some (.msg ())

/-- A live actor that is registered as `seat`. -/
def seated : NodeTasks Nat Unit :=
  ⟨some ⟨(∅ : ExtTreeMap (ActorId Nat) Nat compare).insert seat 0⟩, [], [⟨seat, true, .loop, []⟩]⟩

theorem survives_iff_seated :
    Survives toSeat seated ⟨(∅ : ExtTreeMap (ActorId Nat) Nat compare).insert seat 0⟩ breakCode ∧
      KeepsLive toSeat seated ⟨(∅ : ExtTreeMap (ActorId Nat) Nat compare).insert seat 0⟩
        [breakCode, breakCode] := by
  refine ⟨((survives_iff toSeat).1 breakCode forwardable_breakCode seated _ rfl).mpr rfl,
    ((survives_iff toSeat).2 [breakCode, breakCode] ?_ seated _ rfl).mpr ?_⟩
  · simp [forwardable_breakCode]
  · simp [toSeat]

/-- One message with the destination `0xff` ends the registry, and with it the
entry of a live actor. -/
theorem break_ends_registry :
    Forwardable breakCode ∧ (seated.deliver seatOrBreak [breakCode]).registry = none ∧
      ¬ Survives seatOrBreak seated ⟨(∅ : ExtTreeMap (ActorId Nat) Nat compare).insert seat 0⟩
        breakCode ∧
      ¬ KeepsLive seatOrBreak seated
        ⟨(∅ : ExtTreeMap (ActorId Nat) Nat compare).insert seat 0⟩ [breakCode] := by
  have hnone : (seated.deliver seatOrBreak [breakCode]).registry = none := rfl
  refine ⟨forwardable_breakCode, hnone, ?_, ?_⟩
  · rintro ⟨reg, hreg, -⟩
    cases hnone.symm.trans hreg
  · rintro ⟨reg, hreg, -⟩
    cases hnone.symm.trans hreg

end Break

end NodeTasks

end AurumActors.Core
