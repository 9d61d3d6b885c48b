/-
  Crdt/Incarnation.lean --- dissemination between processes that come and go on
  the same sockets.

  A process is an actor with the member id of its node.  A process that starts
  on a socket replaces the one before it, with an empty state and an id that no
  process had.  Packets are routed by socket.  Every packet carries, beside the
  message, whom it was addressed to and which letter it answers; the handlers
  read neither.
-/
import AurumActors.Crdt.Bookkeeping
import AurumActors.Foundation.Run

set_option autoImplicit false

namespace AurumActors.Crdt

open Std
open AurumActors.Cluster AurumActors.Core AurumActors.Foundation

attribute [local instance] lexOrd

structure Process (S : Type) [CRDT S] where
  actor : CausalDisperse S
  id : UInt64

/-- A message from one process to a member. -/
structure Letter (S : Type) where
  /-- the member id of the process that sent it -/
  source : UInt64
  dest : Member
  msg : CausalIntraMsg S
  deriving DecidableEq

/-- A letter, and the letter whose handler sent it. -/
structure Packet (S : Type) extends Letter S where
  cause : Option (Letter S)
  deriving DecidableEq

structure World (S : Type) [CRDT S] where
  process : Socket → Option (Process S)
  /-- the member ids that processes had -/
  used : List UInt64
  /-- every packet ever sent -/
  sent : List (Packet S)

inductive Move (S : Type) [CRDT S] where
  | start (socket : Socket) (preference : DispersalPreference) (id : UInt64)
  | «local» (socket : Socket) (msg : CausalMsg S)
  | deliver (socket : Socket) (packet : Packet S)

namespace World

variable {S : Type} [CRDT S]

/-- Whether a process can receive the message from its own node: its cluster
names it by the id it started with. -/
def fromNode (id : UInt64) : CausalMsg S → Bool
  | .intra _ => false
  | .update u => u.events.all fun
      | .alone m | .joined m => m.id = id
      | _ => true
  | _ => true

/-- The letters among the outputs of a handler. -/
def letters (source : UInt64) (cause : Option (Letter S)) (out : List (Output S)) :
    List (Packet S) :=
  out.filterMap fun
    | .send dest msg => some ⟨⟨source, dest, msg⟩, cause⟩
    | _ => none

section Step

variable [DecidableEq S]

/-- The process on the socket handles a message. -/
def handle (w : World S) (socket : Socket) (p : Process S) (msg : CausalMsg S)
    (cause : Option (Letter S)) : Option (World S) :=
  match p.actor.recv msg with
  | .error _ => none
  | .ok (actor, out) => some { w with
      process := Function.update w.process socket (some ⟨actor, p.id⟩)
      sent := w.sent ++ letters p.id cause out }

/-- A packet that was ever sent to a socket may arrive there at any time, any
number of times. -/
def next (w : World S) : Move S → Option (World S)
  | .start socket preference id =>
      if id ∈ w.used then none
      else some { w with
        process := Function.update w.process socket (some ⟨.new preference, id⟩)
        used := id :: w.used }
  | .local socket msg =>
      match w.process socket with
      | none => none
      | some p => if fromNode p.id msg then w.handle socket p msg none else none
  | .deliver socket packet =>
      match w.process socket with
      | none => none
      | some p =>
          if packet ∈ w.sent ∧ packet.dest.socket = socket then
            w.handle socket p (.intra packet.msg) (some packet.toLetter)
          else none

/-- Processes on any sockets, from none. -/
def system : System (World S) (Move S) := .ofNext ⟨fun _ => none, [], []⟩ next

end Step

/-! ## Clocks and counts -/

/-- The count a process has recorded for a member id. -/
def recorded (p : Process S) (id : UInt64) : Nat :=
  match p.actor.state with
  | .inCluster ic => (ic.acks[id]?.map (·.2)).getD 0
  | .waiting _ => 0

/-- The process does more with the message than to ignore it: it knows the
sender of the delta, or the count is above the recorded one. -/
def heeds (p : Process S) (msg : CausalIntraMsg S) : Bool :=
  match p.actor.state, msg with
  | .waiting _, _ => false
  | .inCluster ic, .delta _ id _ => ic.acks[id]?.isSome
  | .inCluster ic, .ack id clock => ic.acks[id]?.any (fun entry => entry.2 < clock)

/-- A packet that the process on the socket heeds is addressed to its id. -/
def ForMember (w : World S) : Move S → Prop
  | .deliver socket packet =>
      ∀ p ∈ w.process socket, heeds p packet.msg → packet.dest.id = p.id
  | _ => True

instance (w : World S) : DecidablePred w.ForMember
  | .start .. | .local .. => isTrue trivial
  | .deliver socket packet => inferInstanceAs
      (Decidable (∀ p ∈ w.process socket, heeds p packet.msg → packet.dest.id = p.id))

/-- No count is above the clock. -/
def CountsBounded (w : World S) : Prop :=
  ∀ (socket : Socket) (p : Process S) (ic : InCluster S), w.process socket = some p →
    p.actor.state = .inCluster ic →
    ∀ (id : UInt64) (m : Member) (c : Nat), ic.acks[id]? = some (m, c) → c ≤ ic.clock

/-- A move that raises the count of a process for `id` delivers an
acknowledgement of `id`, sent on a delta of this process to the member `id`. -/
def AdvancesByOwnDelta (w : World S) (move : Move S) (w' : World S) : Prop :=
  ∀ (socket : Socket) (p p' : Process S) (id : UInt64), w.process socket = some p →
    w'.process socket = some p' → p'.id = p.id → recorded p id < recorded p' id →
    ∃ (packet : Packet S) (letter : Letter S) (d : S) (c : Nat),
      move = .deliver socket packet ∧ packet.msg = .ack id c ∧ recorded p' id = c ∧
      packet.cause = some letter ∧ (∃ q ∈ w.sent, q.toLetter = letter) ∧
      letter.source = p.id ∧ letter.dest.id = id ∧ letter.msg = .delta d p.id c

/-- No acknowledgement that can arrive pops from an empty queue of deltas. -/
def PopsSafely (w : World S) : Prop :=
  ∀ (socket : Socket) (p : Process S) (ic : InCluster S) (packet : Packet S) (id : UInt64)
    (c : Nat), w.process socket = some p → p.actor.state = .inCluster ic → packet ∈ w.sent →
    packet.dest.socket = socket → packet.msg = .ack id c → w.ForMember (.deliver socket packet) →
    ic.ack id c ≠ .error .popFront

/-! ## One process -/

/-- What holds of the state of the process with an id. -/
structure Sound (selfId : UInt64) (ic : InCluster S) : Prop where
  own : ic.member.id = selfId
  keyed : ∀ (id : UInt64) (m : Member) (c : Nat), ic.acks[id]? = some (m, c) → m.id = id
  ordered : ic.Ordered
  counted : ic.Counted

omit [CRDT S] in
theorem Sound.count_le {selfId : UInt64} {ic : InCluster S} (h : Sound selfId ic) {id : UInt64}
    {m : Member} {c : Nat} (hget : ic.acks[id]? = some (m, c)) : c ≤ ic.clock :=
  h.counted.ordAcks_le c id (h.ordered.recorded id m c hget)

/-- The events from a node name it by its id. -/
theorem id_of_fromNode {selfId : UInt64} {u : ClusterUpdate} {m : Member}
    (h : fromNode (S := S) selfId (.update u) = true)
    (hm : .alone m ∈ u.events ∨ .joined m ∈ u.events) : m.id = selfId := by
  unfold fromNode at h
  rw [List.all_eq_true] at h
  rcases hm with hm | hm
  · exact of_decide_eq_true (h _ hm)
  · exact of_decide_eq_true (h _ hm)

/-- A handler keeps the state sound, if the node names itself by its id and no
recorded acknowledgement is from the future. -/
theorem Sound.handled {selfId : UInt64} {a a' : CausalDisperse S} {msg : CausalMsg S}
    {out : List (Output S)} (hhandled : CausalDisperse.Handled a msg a' out)
    (h : ∀ ic, a.state = .inCluster ic → Sound selfId ic)
    (hself : ∀ u, msg = .update u → fromNode selfId msg = true)
    (hack : ∀ (ic ic' : InCluster S) (id : UInt64) (c : Nat), msg = .intra (.ack id c) →
      a.state = .inCluster ic → ic.Acked id c ic' → c ≤ ic.clock) :
    ∀ ic', a'.state = .inCluster ic' → Sound selfId ic' := by
  intro ic' hic'
  refine ⟨?_, fun id m c hget => ?_, hhandled.ordered (fun ic hic => (h ic hic).ordered) hic',
    hhandled.counted (fun ic hic => (h ic hic).counted) hack hic'⟩
  · rcases hhandled.member_cases hic' with ⟨ic, hic, hsame⟩ | ⟨u, rfl, hnamed⟩
    · rw [hsame]
      exact (h ic hic).own
    · exact id_of_fromNode (hself u rfl) hnamed
  · rcases hhandled.acks_cases hic' hget with
      ⟨ic, hic, hold⟩ | ⟨u, -, hid, -⟩ | ⟨ic, cnt, hic, -, hold, -⟩
    · exact (h ic hic).keyed id m c hold
    · exact hid
    · exact (h ic hic).keyed id m cnt hold

/-- Only a recorded acknowledgement raises a count. -/
theorem ack_of_recorded_lt {p : Process S} {a' : CausalDisperse S} {msg : CausalMsg S}
    {out : List (Output S)} (hhandled : CausalDisperse.Handled p.actor msg a' out) {id : UInt64}
    (hlt : recorded p id < recorded ⟨a', p.id⟩ id) :
    ∃ c, msg = .intra (.ack id c) ∧ recorded ⟨a', p.id⟩ id = c ∧ heeds p (.ack id c) := by
  rcases hstate : a'.state with ic' | w
  · rcases hget : ic'.acks[id]? with _ | ⟨m, c⟩
    · simp [recorded, hstate, hget] at hlt
    · have hrec : recorded ⟨a', p.id⟩ id = c := by simp [recorded, hstate, hget]
      rw [hrec] at hlt
      rcases hhandled.acks_cases hstate hget with ⟨ic, hic, hold⟩ | ⟨u, -, -, rfl, -⟩ |
        ⟨ic, cnt, hic, hmsg, hold, hcnt⟩
      · simp [recorded, hic, hold] at hlt
      · cases hlt
      · exact ⟨c, hmsg, hrec, by simp [heeds, hic, hold, hcnt]⟩
  · simp [recorded, hstate] at hlt

/-! ## Moves -/

variable [DecidableEq S]

/-- The message and the cause with which a move reaches a process. -/
inductive Arrives (w : World S) (socket : Socket) (p : Process S) :
    Move S → CausalMsg S → Option (Letter S) → Prop
  | «local» (msg : CausalMsg S) (h : fromNode p.id msg = true) :
      Arrives w socket p (.local socket msg) msg none
  | deliver (packet : Packet S) (hsent : packet ∈ w.sent) (hsocket : packet.dest.socket = socket) :
      Arrives w socket p (.deliver socket packet) (.intra packet.msg) (some packet.toLetter)

/-- Everything a move can do. -/
inductive Moved (w : World S) : Move S → World S → Prop
  | start (socket : Socket) (preference : DispersalPreference) (id : UInt64)
      (hfresh : id ∉ w.used) :
      Moved w (.start socket preference id) { w with
        process := Function.update w.process socket (some ⟨.new preference, id⟩)
        used := id :: w.used }
  | handle (socket : Socket) (p : Process S) (move : Move S) (msg : CausalMsg S)
      (cause : Option (Letter S)) (actor : CausalDisperse S) (out : List (Output S))
      (hp : w.process socket = some p) (harr : w.Arrives socket p move msg cause)
      (hhandled : CausalDisperse.Handled p.actor msg actor out) :
      Moved w move { w with
        process := Function.update w.process socket (some ⟨actor, p.id⟩)
        sent := w.sent ++ letters p.id cause out }

theorem moved_of_handle {w w' : World S} {socket : Socket} {p : Process S} {move : Move S}
    {msg : CausalMsg S} {cause : Option (Letter S)} (hp : w.process socket = some p)
    (harr : w.Arrives socket p move msg cause) (h : w.handle socket p msg cause = some w') :
    Moved w move w' := by
  unfold handle at h
  cases hrecv : p.actor.recv msg with
  | error e => rw [hrecv] at h; cases h
  | ok r =>
      rw [hrecv] at h
      cases h
      exact .handle socket p move msg cause r.1 r.2 hp harr (CausalDisperse.handled_of_recv hrecv)

theorem moved_of_next {w w' : World S} {move : Move S} (h : w.next move = some w') :
    Moved w move w' := by
  unfold next at h
  cases move with
  | start socket preference id =>
      simp only at h
      split at h
      · cases h
      · next hfresh => cases h; exact .start socket preference id hfresh
  | «local» socket msg =>
      simp only at h
      split at h
      · cases h
      · next p hp =>
          split at h
          · next hfrom => exact moved_of_handle hp (.local msg hfrom) h
          · cases h
  | deliver socket packet =>
      simp only at h
      split at h
      · cases h
      · next p hp =>
          split at h
          · next hmem => exact moved_of_handle hp (.deliver packet hmem.1 hmem.2) h
          · cases h

/-! ## The invariant -/

/-- A member id is in use, and the clock of its process, if it still runs, has
reached `c`. -/
def ClockReached (w : World S) (id : UInt64) (c : Nat) : Prop :=
  id ∈ w.used ∧ ∀ (socket : Socket) (p : Process S), w.process socket = some p → p.id = id →
    ∃ ic, p.actor.state = .inCluster ic ∧ c ≤ ic.clock

/-- Every delta tells a clock its sender has reached, and every acknowledgement
answers a delta that its addressee sent to the member that acknowledges. -/
structure Inv (w : World S) : Prop where
  used : ∀ (socket : Socket) (p : Process S), w.process socket = some p → p.id ∈ w.used
  distinct : ∀ (socket socket' : Socket) (p p' : Process S), w.process socket = some p →
    w.process socket' = some p' → p.id = p'.id → socket = socket'
  sound : ∀ (socket : Socket) (p : Process S), w.process socket = some p →
    ∀ ic, p.actor.state = .inCluster ic → Sound p.id ic
  delta : ∀ q ∈ w.sent, ∀ (d : S) (id : UInt64) (c : Nat), q.msg = .delta d id c →
    q.source = id ∧ w.ClockReached id c
  ack : ∀ q ∈ w.sent, ∀ (id : UInt64) (c : Nat), q.msg = .ack id c →
    ∃ (r : Packet S) (d : S), r ∈ w.sent ∧ q.cause = some r.toLetter ∧ r.dest.id = id ∧
      r.msg = .delta d q.dest.id c

omit [DecidableEq S] in
theorem Inv.init : Inv (⟨fun _ => none, [], []⟩ : World S) := by
  refine ⟨fun _ _ h => ?_, fun _ _ _ _ h => ?_, fun _ _ h => ?_, fun _ h => ?_, fun _ h => ?_⟩
  all_goals cases h

omit [DecidableEq S] in
/-- An acknowledgement for a process is not from its future. -/
theorem Inv.ack_le {w : World S} (h : Inv w) {socket : Socket} {p : Process S} {ic : InCluster S}
    (hp : w.process socket = some p) (hic : p.actor.state = .inCluster ic) {q : Packet S}
    (hq : q ∈ w.sent) {id : UInt64} {c : Nat} (hmsg : q.msg = .ack id c)
    (hfor : q.dest.id = p.id) : c ≤ ic.clock := by
  obtain ⟨r, d, hr, -, -, hdelta⟩ := h.ack q hq id c hmsg
  obtain ⟨-, -, hreached⟩ := h.delta r hr d q.dest.id c hdelta
  obtain ⟨ic', hic', hle⟩ := hreached socket p hp hfor.symm
  rw [hic] at hic'
  cases hic'
  exact hle

omit [DecidableEq S] in
theorem ClockReached.moved {w w' : World S} {move : Move S} {id : UInt64} {c : Nat}
    (h : w.ClockReached id c) (hmv : Moved w move w') : w'.ClockReached id c := by
  obtain ⟨hused, hclock⟩ := h
  cases hmv with
  | start socket preference fresh hfresh =>
      refine ⟨List.mem_cons_of_mem _ hused, fun socket' p hp hid => ?_⟩
      simp only [Function.update_apply] at hp
      split at hp
      · -- the new process has another id
        cases hp
        cases hid
        exact absurd hused hfresh
      · exact hclock socket' p hp hid
  | handle socket p move msg cause actor out hp harr hhandled =>
      refine ⟨hused, fun socket' p' hp' hid => ?_⟩
      simp only [Function.update_apply] at hp'
      split at hp'
      · cases hp'
        obtain ⟨ic, hic, hle⟩ := hclock socket p hp hid
        obtain ⟨ic', hic', hle'⟩ := hhandled.clock_le hic
        exact ⟨ic', hic', hle.trans hle'⟩
      · exact hclock socket' p' hp' hid

omit [CRDT S] [DecidableEq S] in
theorem mem_letters {source : UInt64} {cause : Option (Letter S)} {out : List (Output S)}
    {q : Packet S} (h : q ∈ letters source cause out) :
    ∃ (dest : Member) (msg : CausalIntraMsg S), .send dest msg ∈ out ∧
      q = ⟨⟨source, dest, msg⟩, cause⟩ := by
  obtain ⟨o, ho, heq⟩ := List.mem_filterMap.mp h
  cases o with
  | send dest msg => exact ⟨dest, msg, ho, (Option.some.inj heq).symm⟩
  | publish data => cases heq
  | scheduleDisperse timeout => cases heq

omit [DecidableEq S] in
/-- The process stays sound, whatever it handles. -/
theorem Inv.sound_handled {w : World S} {move : Move S} (h : Inv w) (hfor : w.ForMember move)
    {socket : Socket} {p : Process S} (hp : w.process socket = some p) {msg : CausalMsg S}
    {cause : Option (Letter S)} (harr : w.Arrives socket p move msg cause)
    {actor : CausalDisperse S} {out : List (Output S)}
    (hhandled : CausalDisperse.Handled p.actor msg actor out) :
    ∀ ic, actor.state = .inCluster ic → Sound p.id ic := by
  refine Sound.handled hhandled (h.sound socket p hp) ?_ ?_
  · rintro u rfl
    cases harr with
    | «local» msg hfrom => exact hfrom
  · rintro ic ic' id c hmsg hic ⟨⟨member, cnt, minId, hget, hlt, -⟩, -⟩
    cases harr with
    | «local» msg hfrom => subst hmsg; cases hfrom
    | deliver packet hsent hsocket =>
        have hpacket : packet.msg = .ack id c := CausalMsg.intra.inj hmsg
        refine h.ack_le hp hic hsent hpacket (hfor p hp ?_)
        simp [heeds, hic, hpacket, hget, hlt]

omit [DecidableEq S] in
/-- An acknowledgement that a handler sends answers the delta it handles. -/
theorem Inv.answers {w : World S} {move : Move S} (h : Inv w) (hfor : w.ForMember move)
    {socket : Socket} {p : Process S} (hp : w.process socket = some p) {msg : CausalMsg S}
    {cause : Option (Letter S)} (harr : w.Arrives socket p move msg cause)
    {actor : CausalDisperse S} {out : List (Output S)}
    (hhandled : CausalDisperse.Handled p.actor msg actor out) {q : Packet S}
    (hq : q ∈ letters p.id cause out) {id : UInt64} {c : Nat} (hmsg : q.msg = .ack id c) :
    ∃ (r : Packet S) (d : S), r ∈ w.sent ∧ q.cause = some r.toLetter ∧ r.dest.id = id ∧
      r.msg = .delta d q.dest.id c := by
  obtain ⟨dest, m, hsend, rfl⟩ := mem_letters hq
  rcases hhandled.send_cases hsend with ⟨_, _, _, _, _, _, hm⟩ |
    ⟨ic, d, id', c', cnt, hic, hdelta, hget, hm⟩
  · rw [hm] at hmsg
    cases hmsg
  · rw [hm] at hmsg
    cases hmsg
    have hs := h.sound socket p hp ic hic
    cases harr with
    | «local» msg hfrom => subst hdelta; cases hfrom
    | deliver packet hsent hsocket =>
        have hpacket : packet.msg = .delta d id' c := CausalMsg.intra.inj hdelta
        refine ⟨packet, d, hsent, rfl, ?_, ?_⟩
        · rw [hs.own]
          refine hfor p hp ?_
          simp [heeds, hic, hpacket, hget]
        · rw [hpacket, hs.keyed id' dest cnt hget]

omit [DecidableEq S] in
/-- A move whose packet, if the process heeds it, is for the process, keeps the
invariant. -/
theorem Inv.moved {w w' : World S} {move : Move S} (h : Inv w) (hfor : w.ForMember move)
    (hmv : Moved w move w') : Inv w' := by
  have hreached : ∀ {id c}, w.ClockReached id c → w'.ClockReached id c := fun hr => hr.moved hmv
  cases hmv with
  | start socket preference id hfresh =>
      have hne : ∀ socket' p', w.process socket' = some p' → p'.id ≠ id := by
        intro socket' p' hp' hid
        exact hfresh (hid ▸ h.used socket' p' hp')
      refine ⟨?_, ?_, ?_, fun q hq d i c hmsg => ?_, h.ack⟩
      · intro socket' p' hp'
        simp only [Function.update_apply] at hp'
        split at hp'
        · cases hp'
          exact List.mem_cons_self
        · exact List.mem_cons_of_mem _ (h.used socket' p' hp')
      · intro socket₁ socket₂ p₁ p₂ hp₁ hp₂ hid
        simp only [Function.update_apply] at hp₁ hp₂
        split at hp₁ <;> split at hp₂
        · next h₁ h₂ => rw [h₁, h₂]
        · cases hp₁
          exact absurd hid.symm (hne socket₂ p₂ hp₂)
        · cases hp₂
          exact absurd hid (hne socket₁ p₁ hp₁)
        · exact h.distinct socket₁ socket₂ p₁ p₂ hp₁ hp₂ hid
      · intro socket' p' hp' ic hic
        simp only [Function.update_apply] at hp'
        split at hp'
        · cases hp'
          cases hic
        · exact h.sound socket' p' hp' ic hic
      · exact (h.delta q hq d i c hmsg).imp_right hreached
  | handle socket p move msg cause actor out hp harr hhandled =>
      have hsound := h.sound_handled hfor hp harr hhandled
      have hold : ∀ socket' p', Function.update w.process socket (some ⟨actor, p.id⟩) socket' =
          some p' → ∃ p'', w.process socket' = some p'' ∧ p''.id = p'.id := by
        intro socket' p' hp'
        rw [Function.update_apply] at hp'
        split at hp'
        · next hs => cases hp'; exact ⟨p, hs ▸ hp, rfl⟩
        · exact ⟨p', hp', rfl⟩
      refine ⟨?_, ?_, ?_, ?_, ?_⟩
      · intro socket' p' hp'
        obtain ⟨p'', hp'', hid⟩ := hold socket' p' hp'
        exact hid ▸ h.used socket' p'' hp''
      · intro socket₁ socket₂ p₁ p₂ hp₁ hp₂ hid
        obtain ⟨q₁, hq₁, hid₁⟩ := hold socket₁ p₁ hp₁
        obtain ⟨q₂, hq₂, hid₂⟩ := hold socket₂ p₂ hp₂
        exact h.distinct socket₁ socket₂ q₁ q₂ hq₁ hq₂ (by rw [hid₁, hid₂, hid])
      · intro socket' p' hp' ic hic
        simp only [Function.update_apply] at hp'
        split at hp'
        · cases hp'
          exact hsound ic hic
        · exact h.sound socket' p' hp' ic hic
      · intro q hq d id c hmsg
        rcases List.mem_append.mp hq with hq | hq
        · exact (h.delta q hq d id c hmsg).imp_right hreached
        · obtain ⟨dest, m, hsend, rfl⟩ := mem_letters hq
          rcases hhandled.send_cases hsend with
            ⟨ic, id', cnt, hic, -, -, hm⟩ | ⟨_, _, _, _, _, _, _, _, hm⟩
          · rw [hm] at hmsg
            cases hmsg
            have hown := (hsound ic hic).own
            refine ⟨hown.symm, hown ▸ h.used socket p hp, fun socket' p' hp' hid => ?_⟩
            -- no other process has the id of the sender
            obtain ⟨p'', hp'', hid''⟩ := hold socket' p' hp'
            have hs : socket' = socket :=
              h.distinct socket' socket p'' p hp'' hp (by rw [hid'', hid, hown])
            subst hs
            simp only [Function.update_self] at hp'
            cases hp'
            exact ⟨ic, hic, le_rfl⟩
          · rw [hm] at hmsg
            cases hmsg
      · intro q hq id c hmsg
        rcases List.mem_append.mp hq with hq | hq
        · obtain ⟨r, d, hr, hr'⟩ := h.ack q hq id c hmsg
          exact ⟨r, d, List.mem_append_left _ hr, hr'⟩
        · obtain ⟨r, d, hr, hr'⟩ := h.answers hfor hp harr hhandled hq hmsg
          exact ⟨r, d, List.mem_append_left _ hr, hr'⟩

/-- Incarnation isolation.  In every run in which each packet that a process
heeds is addressed to its member id: no recorded count is above the clock, a
count is raised only by an acknowledgement of the process's own delta to that
member, and no acknowledgement pops from an empty queue of deltas. -/
theorem incarnation_isolation {w : World S} (h : (system.restrict ForMember).Reachable w) :
    w.CountsBounded ∧ w.PopsSafely ∧
      ∀ (move : Move S) (w' : World S), w.next move = some w' → w.ForMember move →
        w.AdvancesByOwnDelta move w' := by
  have hinv : Inv w := by
    refine h.invariant (I := fun w => Inv w) (fun w hw => ?_) (fun w move w' _ hinv hst => ?_)
    · cases hw
      exact Inv.init
    · exact hinv.moved hst.2 (moved_of_next hst.1)
  refine ⟨fun socket p ic hp hic id m c hget => ?_, ?_, ?_⟩
  · exact (hinv.sound socket p hp ic hic).count_le hget
  · intro socket p ic packet id c hp hic hsent hsocket hmsg hfor herr
    have hs := hinv.sound socket p hp ic hic
    have hheeds : heeds p packet.msg := by
      -- an acknowledgement that is ignored does not fail
      unfold InCluster.ack at herr
      split at herr
      · cases herr
      · next member cnt hget =>
          split at herr
          · next hlt => simp [heeds, hic, hmsg, hget, hlt]
          · cases herr
    exact hs.counted.ack_ne_popFront
      (hinv.ack_le hp hic hsent hmsg (hfor p hp hheeds)) herr
  · intro move w' hst hfor socket p p' id hp hp' hid hlt
    cases moved_of_next hst with
    | start socket' preference fresh hfresh =>
        simp only [Function.update_apply] at hp'
        split at hp'
        · cases hp'
          cases hlt
        · rw [hp] at hp'
          cases hp'
          exact absurd hlt (Nat.lt_irrefl _)
    | handle socket' p₁ move msg cause actor out hp₁ harr hhandled =>
        simp only [Function.update_apply] at hp'
        split at hp'
        · next hs =>
            subst hs
            rw [hp] at hp₁
            cases hp₁
            cases hp'
            obtain ⟨c, hmsg, hrec, hheeds⟩ := ack_of_recorded_lt hhandled hlt
            cases harr with
            | «local» msg hfrom => subst hmsg; cases hfrom
            | deliver packet hsent hsocket =>
                have hpacket : packet.msg = .ack id c := CausalMsg.intra.inj hmsg
                have hdest := hfor p hp (hpacket ▸ hheeds)
                obtain ⟨r, d, hr, hcause, hrid, hrmsg⟩ := hinv.ack packet hsent id c hpacket
                have hsource := (hinv.delta r hr d packet.dest.id c hrmsg).1
                exact ⟨packet, r.toLetter, d, c, rfl, hpacket, hrec, hcause, ⟨r, hr, rfl⟩,
                  hsource.trans hdest, hrid, hdest ▸ hrmsg⟩
        · rw [hp] at hp'
          cases hp'
          exact absurd hlt (Nat.lt_irrefl _)

/-! ### Runs with two sockets -/

section Sockets

attribute [local instance] maxNat

def memberAt (port : UInt16) (id : UInt64) : Member := ⟨Socket.localhost port, id, 1⟩

/-- The node of member `id` at `port` joins a cluster with other members. -/
def joins (port : UInt16) (id : UInt64) (others : List Member) : Move Nat :=
  .local (Socket.localhost port) (.update ⟨[.joined (memberAt port id)],
    others.foldl (fun nodes m => nodes.insert m) ((∅ : MemberSet).insert (memberAt port id)),
    .new 1⟩)

/-- The first delta of member 1, to a member at port 11. -/
def deltaTo (id : UInt64) : Packet Nat := ⟨⟨1, memberAt 11 id, .delta 7 1 1⟩, none⟩

/-- The answer to it by the member `self` at port 11. -/
def ackOf (self id : UInt64) : Packet Nat :=
  ⟨⟨self, memberAt 10 1, .ack self 1⟩, some (deltaTo id).toLetter⟩

/-- Member 1 at port 10 mutates, and member 2 at port 11 acknowledges. -/
def exchange : List (Move Nat) :=
  [.start (Socket.localhost 10) .default 1, .start (Socket.localhost 11) .default 2,
    joins 10 1 [memberAt 11 2], joins 11 2 [memberAt 10 1],
    .local (Socket.localhost 10) (.mutate (7 : Nat)),
    .deliver (Socket.localhost 11) (deltaTo 2), .deliver (Socket.localhost 10) (ackOf 2 2)]

/-- Every packet of the exchange is for the member that receives it. -/
theorem incarnation_isolation_exchange :
    ∃ w : World Nat, (system.restrict ForMember).Reachable w ∧
      (∃ p ∈ w.process (Socket.localhost 10), recorded p 2 = 1) ∧ w.CountsBounded := by
  have h₀ : (system.restrict ForMember).Reachable (⟨fun _ => none, [], []⟩ : World Nat) :=
    .of_init rfl
  obtain ⟨w, hw, hcount⟩ : ∃ w ∈ System.execWhere ForMember next
      (⟨fun _ => none, [], []⟩ : World Nat) exchange,
      ∃ p ∈ w.process (Socket.localhost 10), recorded p 2 = 1 := by decide
  have h := System.reachable_of_execWhere exchange h₀ hw
  exact ⟨w, h, hcount, (incarnation_isolation h).1⟩

/-- A process at port 10 exchanges the first delta, restarts as member 3, and
joins again.  The acknowledgement of the delta is still on its way. -/
def restartSender : List (Move Nat) :=
  [.start (Socket.localhost 10) .default 1, .start (Socket.localhost 11) .default 2,
    joins 10 1 [memberAt 11 2], joins 11 2 [memberAt 10 1],
    .local (Socket.localhost 10) (.mutate (7 : Nat)),
    .deliver (Socket.localhost 11) (deltaTo 2),
    .start (Socket.localhost 10) .default 3, joins 10 3 [memberAt 11 2]]

/-- Member 4 replaces member 2 at port 11 while member 1 knows both. -/
def restartReceiver : List (Move Nat) :=
  [.start (Socket.localhost 10) .default 1, .start (Socket.localhost 11) .default 2,
    .start (Socket.localhost 11) .default 4,
    joins 10 1 [memberAt 11 2, memberAt 11 4], joins 11 4 [memberAt 10 1],
    .local (Socket.localhost 10) (.mutate (7 : Nat)),
    .deliver (Socket.localhost 11) (deltaTo 2)]

/-- The new process at port 10 fails on the old acknowledgement; and member 1
records a count for member 4 because of a delta to member 2. -/
theorem incarnations_mixed :
    (∃ w : World Nat, system.Reachable w ∧ ackOf 2 2 ∈ w.sent ∧
      ∃ p ∈ w.process (Socket.localhost 10),
        ∃ ic, p.actor.state = .inCluster ic ∧ ic.ack 2 1 = .error .popFront) ∧
    ∃ w w' : World Nat, system.Reachable w ∧
      w.next (.deliver (Socket.localhost 10) (ackOf 4 2)) = some w' ∧
      ¬ w.AdvancesByOwnDelta (.deliver (Socket.localhost 10) (ackOf 4 2)) w' := by
  have h₀ : system.Reachable (⟨fun _ => none, [], []⟩ : World Nat) := .of_init rfl
  constructor
  · exact ⟨_, System.reachable_of_exec restartSender h₀ rfl, by decide, _, rfl, _, rfl, rfl⟩
  · obtain ⟨w, hw, w', hw', p, hp, p', hp', hid, hlt⟩ :
        ∃ w ∈ System.exec next (⟨fun _ => none, [], []⟩ : World Nat) restartReceiver,
        ∃ w' ∈ w.next (.deliver (Socket.localhost 10) (ackOf 4 2)),
        ∃ p ∈ w.process (Socket.localhost 10), ∃ p' ∈ w'.process (Socket.localhost 10),
          p'.id = p.id ∧ recorded p 4 < recorded p' 4 := by decide
    refine ⟨w, w', System.reachable_of_exec restartReceiver h₀ hw, hw', fun hadv => ?_⟩
    obtain ⟨packet, letter, d, c, hmove, -, -, hcause, -, -, hdest, -⟩ :=
      hadv (Socket.localhost 10) p p' 4 hp hp' hid hlt
    cases hmove
    cases hcause
    cases hdest

end Sockets

end World

end AurumActors.Crdt
