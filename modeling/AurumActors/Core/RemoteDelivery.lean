/-
  Core/RemoteDelivery.lean --- the whole way of a message from another node: the
  datagrams, the receiving task, the registry and the mailbox of its actor.

  A node is a receiver among senders, and its tasks.  What the receiver forwards
  comes into the channel of the registry at once.  The log says of every message
  that the registry took which actor got it, if one did, and as what.

  Scope disclosure: a datagram arrives at most once.  The source does not remember
  the ids of messages of one packet, so a repeated one would come twice.  Actors
  are spawned as in `Core/Renewal.lean`, after the earlier ones of their name have
  sent their `Deregister`.
-/
import AurumActors.Core.Bounds
import AurumActors.Core.Reassembly
import AurumActors.Core.Renewal
import AurumActors.Core.Unification

set_option autoImplicit false

namespace AurumActors.Core

open AurumActors.Foundation AurumActors.Macros Std

attribute [local instance] lexOrd

/-- The builder of a message that is forwarded. -/
def RegistryMsg.forward? {U : Type} : RegistryMsg U → Option MessageBuilder
  | .forward mb => some mb
  | _ => none

/-- What a serialized message is for its actor. -/
def ActorMsg.serial? {S : Type} : ActorMsg S → Option (Option (LocalActorMsg S))
  | .serial x => some x
  | _ => none

/-- A message that the registry took: its id, and the actor whose mailbox it came
into, if there was one, with what came there. -/
structure Taken (S : Type) where
  msgId : UInt64
  got : Option (Nat × Option (LocalActorMsg S))

structure RemoteNode (U S : Type) [Ord U] where
  world : World
  node : NodeTasks U S
  taken : List (Taken S)

namespace RemoteNode

variable {U S : Type} [Ord U] [TransOrd U]

def start : RemoteNode U S := ⟨⟨Receiver.start, [], [], []⟩, .start, []⟩

inductive Move (U S : Type) where
  | net (move : Receiver.Move)
  | node (move : NodeTasks.Move U S)

/-- Which actor gets a message, and as what. -/
def outcome (serde : Serde U S) (w : NodeTasks U S) (mb : MessageBuilder) :
    Option (Nat × Option (LocalActorMsg S)) :=
  match w.registry, NodeTasks.destinationOf serde mb with
  | some reg, some dest =>
      match reg.register[dest.name]?, (NodeTasks.serialOf serde dest mb).serial? with
      | some task, some x =>
          if (w.send task (.serial x)).isSome then some (task, x) else none
      | _, _ => none
  | _, _ => none

/-- What a move of the node adds to the log. -/
def takes (serde : Serde U S) (c : RemoteNode U S) : NodeTasks.Move U S → List (Taken S)
  | .handle =>
      match c.node.queue.head?.bind (·.forward?), c.world.receiver.forwarded[c.taken.length]? with
      | some mb, some (msgId, _) => [⟨msgId, outcome serde c.node mb⟩]
      | _, _ => []
  | _ => []

/-- One move.  An actor is spawned after all earlier ones of its name have sent
their `Deregister`. -/
def Step (serde : Serde U S) (M : Set Message) (c : RemoteNode U S) :
    Move U S → RemoteNode U S → Prop
  | .net move, c' => (network M).step c.world move c'.world ∧
      c'.node = ((c'.world.receiver.forwarded.drop c.world.receiver.forwarded.length).map
        (·.2)).foldl (fun w mb => w.tell (.forward mb)) c.node ∧ c'.taken = c.taken
  | .node move, c' => (∀ mb, move ≠ .forward mb) ∧ c.node.Renews serde move ∧
      NodeTasks.next serde c.node move = some c'.node ∧ c'.world = c.world ∧
      c'.taken = c.taken ++ c.takes serde move

/-- A node among the senders of `M`. -/
def system (serde : Serde U S) (M : Set Message) : System (RemoteNode U S) (Move U S) where
  init c := c = start
  step := Step serde M

/-- The messages that wait for the registry. -/
def waiting (w : NodeTasks U S) : List MessageBuilder := w.queue.filterMap (·.forward?)

/-- What came into the mailbox of an actor from other nodes, in order. -/
def delivered (taken : List (Taken S)) (task : Nat) : List (Option (LocalActorMsg S)) :=
  taken.filterMap fun e => match e.got with
    | some (i, x) => if i = task then some x else none
    | none => none

/-- A message can be read: its destination, and what it is for an actor of the
receiving type. -/
def Reads (serde : Serde U S) (m : Message) (name : ActorId U) (x : LocalActorMsg S) : Prop :=
  ∃ interface, serde.destination m.dest = some ⟨name, interface⟩ ∧
    serde.deserializeAs name.recvType interface m.intp m.item = some x

/-- What holds of a node in these runs. -/
structure Delivering (serde : Serde U S) (M : Set Message) (c : RemoteNode U S) : Prop where
  network : (network M).Reachable c.world
  renewed : NodeTasks.Renewed serde c.node
  /-- the registry takes the forwarded messages in their order -/
  queued : waiting c.node = (c.world.receiver.forwarded.drop c.taken.length).map (·.2)
  ids : c.taken.map (·.msgId) = (c.world.receiver.forwarded.take c.taken.length).map (·.1)
  named : ∀ (reg : Registry U) (name : ActorId U) (i : Nat), c.node.registry = some reg →
    reg.register[name]? = some i → ∃ t, c.node.tasks[i]? = some t ∧ t.name = name
  got : ∀ e ∈ c.taken, ∀ (task : Nat) (x : Option (LocalActorMsg S)), e.got = some (task, x) →
    ∃ mb dest, (e.msgId, mb) ∈ c.world.receiver.forwarded ∧
      NodeTasks.destinationOf serde mb = some dest ∧
      NodeTasks.serialOf serde dest mb = .serial x ∧
      ∃ t, c.node.tasks[task]? = some t ∧ t.name = dest.name
  mailboxes : ∀ (task : Nat) (t : Task U S), c.node.tasks[task]? = some t →
    t.mailbox.filterMap (·.serial?) <:+ delivered c.taken task

/-! ## The receiving task -/

section Receiving

/-- What the receiver forwards is a message of `M`, with its slices in bounds. -/
theorem message_of_forwarded {M : Set Message} (hids : DistinctIds M) {w : World}
    (h : (network M).Reachable w) {msgId : UInt64} {mb : MessageBuilder}
    (hmem : (msgId, mb) ∈ w.receiver.forwarded) :
    ∃ m ∈ M, m.msgId = msgId ∧ mb.destSlice = .ok m.dest ∧ mb.msgSlice = .ok m.item ∧
      mb.intp = m.intp := by
  obtain ⟨⟨handled, -, hinv⟩, -⟩ := worldInv_of_reachable hids h
  obtain ⟨m, hm, hid, hmsg, hdest, hintp, -⟩ := hinv.forwarded _ hmem
  have hreceiver : Receiver.system.Reachable w.receiver := by
    refine h.invariant (S := network M) (I := fun w => Receiver.system.Reachable w.receiver)
      (fun w hw => ?_) fun w move w' _ hr hst => hr.step hst.1
    rw [show w = _ from hw]
    exact .of_init rfl
  obtain ⟨hslice, hslice'⟩ := ((Receiver.shaped_reachable hreceiver).2 _ hmem).inBounds
  exact ⟨m, hm, hid, hdest ▸ hslice, hmsg ▸ hslice', hintp⟩

variable {serde : Serde U S} {m : Message} {mb : MessageBuilder} {name : ActorId U}
  {x : LocalActorMsg S}

omit [Ord U] [TransOrd U] in
/-- A builder with the bytes of a message that can be read. -/
theorem Reads.builder (h : Reads serde m name x) (hdest : mb.destSlice = .ok m.dest)
    (hmsg : mb.msgSlice = .ok m.item) (hintp : mb.intp = m.intp) :
    ∃ dest, NodeTasks.destinationOf serde mb = some dest ∧ dest.name = name ∧
      NodeTasks.serialOf serde dest mb = .serial (some x) := by
  obtain ⟨interface, hread, hitem⟩ := h
  refine ⟨⟨name, interface⟩, ?_, rfl, ?_⟩
  · simp only [NodeTasks.destinationOf, hdest, hread]
  · simp only [NodeTasks.serialOf, hmsg, hintp, hitem]

end Receiving

/-! ## The channel of the registry -/

section Channel

variable {serde : Serde U S} [DecidableEq U] [LawfulEqOrd U]

omit [Ord U] [TransOrd U] [DecidableEq U] [LawfulEqOrd U] in
@[simp] theorem filterMap_forward (mbs : List MessageBuilder) :
    (mbs.map RegistryMsg.forward : List (RegistryMsg U)).filterMap (·.forward?) = mbs := by
  rw [List.filterMap_map]
  exact List.filterMap_some

/-- Messages that can be read come into the channel in their order. -/
theorem renewed_foldl_tell (mbs : List MessageBuilder) {w : NodeTasks U S}
    (h : NodeTasks.Renewed serde w)
    (hread : ∀ mb ∈ mbs, w.Renews serde (.forward mb)) :
    mbs.foldl (fun w mb => w.tell (.forward mb)) w =
        { w with queue := w.queue ++ mbs.map .forward } ∧
      NodeTasks.Renewed serde (mbs.foldl (fun w mb => w.tell (.forward mb)) w) := by
  induction mbs generalizing w with
  | nil => exact ⟨by simp, h⟩
  | cons mb mbs ih =>
      obtain ⟨hmb, hmbs⟩ := List.forall_mem_cons.mp hread
      have hnext := h.next (.forward mb) hmb rfl
      have htell := NodeTasks.tell_of_alive w (Option.isSome_iff_exists.mpr h.alive) (.forward mb)
      obtain ⟨heq, hrenewed⟩ := ih hnext hmbs
      refine ⟨?_, hrenewed⟩
      rw [List.foldl_cons, heq, htell]
      simp

end Channel

/-! ## One move -/

section Moves

variable {serde : Serde U S} {M : Set Message} {c c' : RemoteNode U S}

omit [TransOrd U] in
/-- A step of a task changes that task alone: it keeps its name, and what is left
of its mailbox is the end of it. -/
theorem run_mailbox {w w' : NodeTasks U S} (halive : w.registry.isSome = true) {task : Nat}
    {t : Task U S} (hrun : w.run task t = some w') :
    ∃ u, w'.tasks = w.tasks.set task u ∧ u.name = t.name ∧ u.mailbox <:+ t.mailbox ∧
      waiting w' = waiting w ∧ w'.registry = w.registry := by
  have hgoto : ∀ pc, w' = { w with tasks := w.tasks.set task { t with pc } } →
      ∃ u, w'.tasks = w.tasks.set task u ∧ u.name = t.name ∧ u.mailbox <:+ t.mailbox ∧
        waiting w' = waiting w ∧ w'.registry = w.registry := by
    rintro pc rfl
    exact ⟨_, rfl, rfl, List.suffix_rfl, rfl, rfl⟩
  have htell : ∀ pc msg, msg.forward? = none →
      w' = ({ w with tasks := w.tasks.set task { t with pc } } : NodeTasks U S).tell msg →
      ∃ u, w'.tasks = w.tasks.set task u ∧ u.name = t.name ∧ u.mailbox <:+ t.mailbox ∧
        waiting w' = waiting w ∧ w'.registry = w.registry := by
    intro pc msg hmsg heq
    rw [NodeTasks.tell_of_alive] at heq
    · subst heq
      refine ⟨_, rfl, rfl, List.suffix_rfl, ?_, rfl⟩
      simp [waiting, List.filterMap_append, hmsg]
    · exact halive
  unfold NodeTasks.run at hrun
  split at hrun
  · split at hrun
    · exact htell .registering _ rfl (Option.some.inj hrun).symm
    · exact hgoto _ (Option.some.inj hrun).symm
  · cases hrun
  · exact hgoto _ (Option.some.inj hrun).symm
  · exact hgoto _ (Option.some.inj hrun).symm
  · split at hrun
    · cases hrun
    · next hmail =>
        cases hrun
        exact ⟨_, rfl, rfl, hmail ▸ List.suffix_cons _ _, rfl, rfl⟩
    · next hmail =>
        cases hrun
        exact ⟨_, rfl, rfl, hmail ▸ List.suffix_cons _ _, rfl, rfl⟩
    all_goals exact hgoto _ (Option.some.inj hrun).symm
  · split at hrun
    · exact htell .leaving _ rfl (Option.some.inj hrun).symm
    · exact hgoto _ (Option.some.inj hrun).symm
  · exact hgoto _ (Option.some.inj hrun).symm
  · cases hrun
  · cases hrun

/-- A task keeps its name, and what is left from other nodes in its mailbox is
the end of what was there. -/
def Stays (t t' : Task U S) : Prop :=
  t'.name = t.name ∧ t'.mailbox.filterMap (·.serial?) <:+ t.mailbox.filterMap (·.serial?)

omit [Ord U] [TransOrd U] in
theorem Stays.refl (t : Task U S) : Stays t t := ⟨rfl, List.suffix_rfl⟩

/-- A move of the node that takes no message from the channel of the registry. -/
theorem Delivering.quiet (h : Delivering serde M c) {w : NodeTasks U S}
    (hrenewed : NodeTasks.Renewed serde w) (hwaiting : waiting w = waiting c.node)
    (hnamed : ∀ (reg : Registry U) (name : ActorId U) (i : Nat), w.registry = some reg →
      reg.register[name]? = some i → ∃ t, c.node.tasks[i]? = some t ∧ t.name = name)
    (htasks : List.Forall₂ Stays c.node.tasks w.tasks) :
    Delivering serde M { c with node := w } where
  network := h.network
  renewed := hrenewed
  queued := hwaiting.trans h.queued
  ids := h.ids
  named reg name i hreg hentry := by
    obtain ⟨t, ht, hname⟩ := hnamed reg name i hreg hentry
    obtain ⟨t', ht', hstays⟩ := exists_after htasks ht
    exact ⟨t', ht', hstays.1.trans hname⟩
  got e he task x hgot := by
    obtain ⟨mb, dest, hmem, hdest, hserial, t, ht, hname⟩ := h.got e he task x hgot
    obtain ⟨t', ht', hstays⟩ := exists_after htasks ht
    exact ⟨mb, dest, hmem, hdest, hserial, t', ht', hstays.1.trans hname⟩
  mailboxes task t' ht' := by
    obtain ⟨t, ht, hstays⟩ := exists_before htasks ht'
    exact hstays.2.trans (h.mailboxes task t ht)

theorem Delivering.length_le (h : Delivering serde M c) :
    c.taken.length ≤ c.world.receiver.forwarded.length := by
  have hlen := congrArg List.length h.ids
  rw [List.length_map, List.length_map, List.length_take] at hlen
  omega

/-- The message at the head of the channel is the next one of those forwarded. -/
theorem Delivering.head (h : Delivering serde M c) {mb : MessageBuilder}
    {queue : List (RegistryMsg U)} (hqueue : c.node.queue = .forward mb :: queue) :
    ∃ msgId, c.world.receiver.forwarded[c.taken.length]? = some (msgId, mb) ∧
      queue.filterMap (·.forward?) =
        (c.world.receiver.forwarded.drop (c.taken.length + 1)).map (·.2) ∧
      (c.world.receiver.forwarded.take (c.taken.length + 1)).map (·.1) =
        c.taken.map (·.msgId) ++ [msgId] := by
  have hqueued : mb :: queue.filterMap (·.forward?) =
      (c.world.receiver.forwarded.drop c.taken.length).map (·.2) := by
    rw [← h.queued, waiting, hqueue]
    rfl
  cases hdrop : c.world.receiver.forwarded.drop c.taken.length with
  | nil =>
      rw [hdrop] at hqueued
      cases hqueued
  | cons e rest =>
      rw [hdrop, List.map_cons] at hqueued
      obtain ⟨hmb, hrest⟩ := List.cons.inj hqueued
      have hget : c.world.receiver.forwarded[c.taken.length]? = some e := by
        rw [← Nat.add_zero c.taken.length, ← List.getElem?_drop, hdrop]
        rfl
      refine ⟨e.1, hmb ▸ hget, ?_, ?_⟩
      · rw [hrest, ← List.drop_drop, hdrop]
        rfl
      · rw [List.take_add_one, hget, List.map_append, h.ids]
        rfl

/-- The registry took a message, and either nobody got it or an actor of its
name did. -/
theorem Delivering.take (h : Delivering serde M c) {mb : MessageBuilder}
    {queue : List (RegistryMsg U)} (hqueue : c.node.queue = .forward mb :: queue)
    {w : NodeTasks U S} (hrenewed : NodeTasks.Renewed serde w) (hrest : w.queue = queue)
    (hnamed : ∀ (reg : Registry U) (name : ActorId U) (i : Nat), w.registry = some reg →
      reg.register[name]? = some i → ∃ t, c.node.tasks[i]? = some t ∧ t.name = name)
    {out : Option (Nat × Option (LocalActorMsg S))}
    (hout : ∀ (task : Nat) (x : Option (LocalActorMsg S)), out = some (task, x) →
      ∃ dest, NodeTasks.destinationOf serde mb = some dest ∧
        NodeTasks.serialOf serde dest mb = .serial x ∧
        ∃ t, c.node.tasks[task]? = some t ∧ t.name = dest.name)
    (hkept : ∀ (i : Nat) (t : Task U S), c.node.tasks[i]? = some t →
      ∃ t', w.tasks[i]? = some t' ∧ t'.name = t.name)
    (hmail : ∀ (i : Nat) (t' : Task U S), w.tasks[i]? = some t' →
      ∃ t, c.node.tasks[i]? = some t ∧ t'.mailbox.filterMap (·.serial?) =
        t.mailbox.filterMap (·.serial?) ++
          (out.toList.filter (·.1 = i)).map (·.2)) (msgId : UInt64)
    (hid : c.world.receiver.forwarded[c.taken.length]? = some (msgId, mb)) :
    Delivering serde M ⟨c.world, w, c.taken ++ [⟨msgId, out⟩]⟩ := by
  obtain ⟨msgId', hget, hdrop, htake⟩ := h.head hqueue
  obtain rfl : msgId' = msgId := (Prod.mk.inj (Option.some.inj (hget.symm.trans hid))).1
  have hlen : (c.taken ++ [(⟨msgId', out⟩ : Taken S)]).length = c.taken.length + 1 := by simp
  refine ⟨h.network, hrenewed, ?_, ?_, ?_, ?_, ?_⟩
  · rw [hlen, ← hdrop, waiting, hrest]
  · rw [hlen, htake, List.map_append]
    rfl
  · intro reg name i hreg hentry
    obtain ⟨t, ht, hname⟩ := hnamed reg name i hreg hentry
    obtain ⟨t', ht', hname'⟩ := hkept i t ht
    exact ⟨t', ht', hname'.trans hname⟩
  · intro e he task x hgot
    rcases List.mem_append.mp he with he | he
    · obtain ⟨mb', dest, hmem, hdest, hserial, t, ht, hname⟩ := h.got e he task x hgot
      obtain ⟨t', ht', hname'⟩ := hkept task t ht
      exact ⟨mb', dest, hmem, hdest, hserial, t', ht', hname'.trans hname⟩
    · obtain rfl := List.mem_singleton.mp he
      obtain ⟨dest, hdest, hserial, t, ht, hname⟩ := hout task x hgot
      obtain ⟨t', ht', hname'⟩ := hkept task t ht
      exact ⟨mb, dest, List.mem_of_getElem? hid, hdest, hserial, t', ht', hname'.trans hname⟩
  · intro task t' ht'
    obtain ⟨t, ht, heq⟩ := hmail task t' ht'
    have hdelivered : delivered (c.taken ++ [(⟨msgId', out⟩ : Taken S)]) task =
        delivered c.taken task ++ (out.toList.filter (·.1 = task)).map (·.2) := by
      rw [delivered, List.filterMap_append]
      rcases out with _ | ⟨i, x⟩
      · simp [delivered]
      · by_cases hi : i = task
        · simp [delivered, hi]
        · simp [delivered, hi]
    rw [hdelivered]
    obtain ⟨consumed, hconsumed⟩ := h.mailboxes task t ht
    refine ⟨consumed, ?_⟩
    rw [heq, ← List.append_assoc, hconsumed]

variable [DecidableEq U] [LawfulEqOrd U]

/-- A move of the receiver: what it forwards waits in the channel. -/
theorem Delivering.net (hids : DistinctIds M) (hread : ∀ m ∈ M, ∃ name x, Reads serde m name x)
    (h : Delivering serde M c) {move : Receiver.Move} (hst : Step serde M c (.net move) c') :
    Delivering serde M c' := by
  obtain ⟨hworld, hnode, htaken⟩ := hst
  have hnetwork := h.network.step hworld
  obtain ⟨new, hnew⟩ := Receiver.forwarded_grows hworld.1
  rw [← hnew, List.drop_left] at hnode
  have hreads : ∀ mb ∈ new.map (·.2), c.node.Renews serde (.forward mb) := by
    intro mb hmb
    obtain ⟨e, he, rfl⟩ := List.mem_map.mp hmb
    obtain ⟨m, hm, -, hdest, hmsg, hintp⟩ := message_of_forwarded hids hnetwork
      (hnew ▸ List.mem_append_right _ he : (e.1, e.2) ∈ c'.world.receiver.forwarded)
    obtain ⟨name, x, hx⟩ := hread m hm
    obtain ⟨dest, hdest', -, hserial⟩ := hx.builder hdest hmsg hintp
    exact ⟨dest, hdest', hserial ▸ trivial⟩
  obtain ⟨heq, hrenewed⟩ := renewed_foldl_tell _ h.renewed hreads
  rw [← hnode] at heq hrenewed
  have hle := h.length_le
  refine ⟨hnetwork, hrenewed, ?_, ?_, ?_, ?_, ?_⟩
  · rw [heq, htaken, ← hnew, List.drop_append_of_le_length hle, List.map_append, ← h.queued]
    rw [waiting, List.filterMap_append, filterMap_forward]
    rfl
  · rw [htaken, ← hnew, List.take_append_of_le_length hle, h.ids]
  · rw [heq]
    exact h.named
  · intro e he task x hgot
    rw [htaken] at he
    obtain ⟨mb, dest, hmem, hrest⟩ := h.got e he task x hgot
    rw [heq]
    exact ⟨mb, dest, hnew ▸ List.mem_append_left _ hmem, hrest⟩
  · rw [heq, htaken]
    exact h.mailboxes

/-- A new actor. -/
theorem Delivering.spawn (h : Delivering serde M c) {name : ActorId U}
    (hrenews : c.node.Renews serde (.spawn name true)) : Delivering serde M
      { c with node.tasks := c.node.tasks ++ [⟨name, true, .spawned, []⟩] } where
  network := h.network
  renewed := h.renewed.next (.spawn name true) hrenews rfl
  queued := h.queued
  ids := h.ids
  named reg name i hreg hentry := by
    obtain ⟨t, ht, hname⟩ := h.named reg name i hreg hentry
    exact ⟨t, getElem?_concat_of_some _ ht, hname⟩
  got e he task x hgot := by
    obtain ⟨mb, dest, hmem, hdest, hserial, t, ht, hname⟩ := h.got e he task x hgot
    exact ⟨mb, dest, hmem, hdest, hserial, t, getElem?_concat_of_some _ ht, hname⟩
  mailboxes task t' ht' := by
    rcases getElem?_concat_cases ht' with ht' | ⟨-, rfl⟩
    · exact h.mailboxes task t' ht'
    · exact List.nil_suffix

/-- A move of the node outside its registry. -/
theorem Delivering.tasks (h : Delivering serde M c) {move : NodeTasks.Move U S}
    (hforward : ∀ mb, move ≠ .forward mb) (hhandle : move ≠ .handle)
    (hrenews : c.node.Renews serde move) {w : NodeTasks U S}
    (hnext : NodeTasks.next serde c.node move = some w) :
    Delivering serde M { c with node := w } := by
  have hrenewed := h.renewed.next move hrenews hnext
  have halive := Option.isSome_iff_exists.mpr h.renewed.alive
  cases move with
  | forward mb => exact absurd rfl (hforward mb)
  | handle => exact absurd rfl hhandle
  | spawn name register =>
      obtain ⟨rfl, -⟩ := id hrenews
      cases hnext
      exact h.spawn hrenews
  | run task =>
      obtain ⟨t, ht, hrun⟩ := Option.bind_eq_some_iff.mp hnext
      obtain ⟨u, htasks, hname, hmail, hwaiting, hregistry⟩ := run_mailbox halive hrun
      refine h.quiet hrenewed hwaiting (fun reg name i hreg => h.named reg name i (hregistry ▸ hreg))
        ?_
      rw [htasks]
      exact forall₂_set Stays.refl ht ⟨hname, hmail.filterMap _⟩
  | send task msg =>
      simp only [NodeTasks.next, NodeTasks.send] at hnext
      split at hnext
      · cases hnext
      · split at hnext
        · cases hnext
        · cases hnext
          refine h.quiet hrenewed rfl h.named (forall₂_modify Stays.refl (fun t => ?_) _ _)
          refine ⟨rfl, ?_⟩
          simp [List.filterMap_append, ActorMsg.serial?]

/-- A move of the registry. -/
theorem Delivering.handle (h : Delivering serde M c) {w : NodeTasks U S}
    (hnext : c.node.handle serde = some w) :
    Delivering serde M ⟨c.world, w, c.taken ++ c.takes serde .handle⟩ := by
  have hrenewed := h.renewed.handle hnext
  unfold NodeTasks.handle at hnext
  split at hnext
  · next reg msg queue hreg hqueue =>
      have hw := Option.some.inj hnext
      clear hnext
      cases msg with
      | forward mb =>
          obtain ⟨dest, hdest, hreadable⟩ := h.renewed.readable mb (by simp [hqueue])
          obtain ⟨msgId, hget, -, -⟩ := h.head hqueue
          obtain ⟨x, hx⟩ : ∃ x, NodeTasks.serialOf serde dest mb = .serial x := by
            unfold NodeTasks.serialOf
            split <;> exact ⟨_, rfl⟩
          have htakes : c.takes serde .handle = [⟨msgId, outcome serde c.node mb⟩] := by
            simp only [takes, hqueue, List.head?_cons, Option.bind_some, RegistryMsg.forward?, hget]
          rw [htakes]
          simp only [NodeTasks.recv, hdest, hx] at hw
          have hnobody : ∀ tasks : List (Task U S), tasks = c.node.tasks →
              ∀ (i : Nat) (t' : Task U S), tasks[i]? = some t' →
                ∃ t, c.node.tasks[i]? = some t ∧ t'.mailbox.filterMap (·.serial?) =
                  t.mailbox.filterMap (·.serial?) ++
                    (((none : Option (Nat × Option (LocalActorMsg S))).toList.filter
                      (·.1 = i)).map (·.2)) := by
            rintro tasks rfl i t' ht'
            exact ⟨t', ht', by simp⟩
          cases hentry : reg.register[dest.name]? with
          | none =>
              have hout : outcome serde c.node mb = none := by
                simp only [outcome, hreg, hdest, hentry]
              simp only [hentry] at hw
              subst hw
              rw [hout]
              exact h.take hqueue hrenewed rfl h.named (by simp) (fun i t ht => ⟨t, ht, rfl⟩)
                (hnobody _ rfl) msgId hget
          | some recvr =>
              simp only [hentry] at hw
              obtain ⟨t, ht, hname⟩ := h.named reg dest.name recvr hreg hentry
              have hout : outcome serde c.node mb =
                  if t.mailboxClosed then none else some (recvr, x) := by
                simp only [outcome, hreg, hdest, hentry, hx, ActorMsg.serial?, NodeTasks.send, ht]
                cases t.mailboxClosed <;> rfl
              rw [hout]
              simp only [NodeTasks.send, ht] at hw
              by_cases hclosed : t.mailboxClosed = true
              · rw [if_pos hclosed] at hw ⊢
                simp only at hw
                subst hw
                refine h.take hqueue hrenewed rfl (fun reg' name i hreg' hentry' => ?_) (by simp)
                  (fun i t ht => ⟨t, ht, rfl⟩) (hnobody _ rfl) msgId hget
                cases hreg'
                refine h.named reg name i hreg ?_
                rw [getElem?_erase_eq] at hentry'
                split at hentry'
                · cases hentry'
                · exact hentry'
              · rw [if_neg hclosed] at hw ⊢
                simp only at hw
                subst hw
                refine h.take hqueue hrenewed rfl h.named (fun task x' heq => ?_)
                  (fun i v hv => ?_) (fun i v hv => ?_) msgId hget
                · cases heq
                  exact ⟨dest, hdest, hx, t, ht, hname⟩
                · obtain ⟨v', hv', hv''⟩ := exists_after (forall₂_modify
                    (R := fun t t' : Task U S => t'.name = t.name) (fun _ => rfl)
                    (f := fun t => { t with mailbox := t.mailbox ++ [.serial x] }) (fun _ => rfl)
                    c.node.tasks recvr) hv
                  exact ⟨v', hv', hv''⟩
                · simp only [List.getElem?_modify] at hv
                  obtain ⟨u, hu, rfl⟩ := Option.map_eq_some_iff.mp hv
                  refine ⟨u, hu, ?_⟩
                  by_cases hi : recvr = i
                  · simp [hi, List.filterMap_append, ActorMsg.serial?]
                  · simp [hi]
      | register name task =>
          obtain ⟨t, ht, hname, hpc⟩ := h.renewed.waiting name task (by simp [hqueue])
          have htakes : c.takes serde .handle = [] := by
            simp only [takes, hqueue, List.head?_cons, Option.bind_some, RegistryMsg.forward?]
          rw [htakes, List.append_nil]
          simp only [NodeTasks.recv, h.renewed.free hreg hqueue, ht, hpc, if_true] at hw
          subst hw
          refine h.quiet hrenewed (by simp [waiting, hqueue, RegistryMsg.forward?, NodeTasks.answer])
            (fun reg' name' i hreg' hentry' => ?_) ?_
          · cases hreg'
            rw [getElem?_insert_eq] at hentry'
            split at hentry'
            · next heq =>
                cases hentry'
                exact ⟨t, ht, hname.trans heq.symm⟩
            · exact h.named reg name' i hreg hentry'
          · refine forall₂_modify Stays.refl (fun t => ?_) _ _
            unfold Task.answer
            split
            · exact ⟨rfl, List.suffix_rfl⟩
            · exact Stays.refl t
      | deregister name =>
          have htakes : c.takes serde .handle = [] := by
            simp only [takes, hqueue, List.head?_cons, Option.bind_some, RegistryMsg.forward?]
          rw [htakes, List.append_nil]
          subst hw
          refine h.quiet hrenewed (by simp [waiting, hqueue, RegistryMsg.forward?, NodeTasks.recv])
            (fun reg' name' i hreg' hentry' => ?_) (List.forall₂_same.mpr fun t _ => Stays.refl t)
          cases hreg'
          refine h.named reg name' i hreg ?_
          rw [getElem?_erase_eq] at hentry'
          split at hentry'
          · cases hentry'
          · exact hentry'
  · cases hnext

theorem Delivering.step (hids : DistinctIds M) (hread : ∀ m ∈ M, ∃ name x, Reads serde m name x)
    (h : Delivering serde M c) {move : Move U S} (hst : Step serde M c move c') :
    Delivering serde M c' := by
  cases move with
  | net move => exact h.net hids hread hst
  | node move =>
      obtain ⟨hforward, hrenews, hnext, hworld, htaken⟩ := hst
      obtain ⟨world, node, taken⟩ := c'
      obtain rfl : world = c.world := hworld
      simp only at hnext htaken
      subst htaken
      by_cases hhandle : move = .handle
      · subst hhandle
        exact h.handle hnext
      · have htakes : c.takes serde move = [] := by
          cases move <;> first | rfl | exact absurd rfl hhandle
        rw [htakes, List.append_nil]
        exact h.tasks hforward hhandle hrenews hnext

omit [DecidableEq U] [LawfulEqOrd U] in
theorem delivering_start : Delivering serde M (start : RemoteNode U S) where
  network := .of_init rfl
  renewed := NodeTasks.renewed_start
  queued := rfl
  ids := rfl
  named reg name i hreg hentry := by
    cases hreg
    simp at hentry
  got e he := absurd he List.not_mem_nil
  mailboxes task t ht := by simp [start, NodeTasks.start] at ht

theorem delivering_of_reachable (hids : DistinctIds M)
    (hread : ∀ m ∈ M, ∃ name x, Reads serde m name x) (h : (system serde M).Reachable c) :
    Delivering serde M c :=
  h.invariant (fun _ hc => hc ▸ delivering_start) fun _ _ _ _ hdelivering hst =>
    hdelivering.step hids hread hst

omit [DecidableEq U] [LawfulEqOrd U] in
/-- An actor that is present gets what is sent to its name. -/
theorem outcome_of_present {w : NodeTasks U S} (h : NodeTasks.Renewed serde w)
    {mb : MessageBuilder} {dest : DestinationUntyped U} {x : Option (LocalActorMsg S)}
    (hdest : NodeTasks.destinationOf serde mb = some dest)
    (hserial : NodeTasks.serialOf serde dest mb = .serial x) {task : Nat} {t : Task U S}
    (ht : w.tasks[task]? = some t) (hname : t.name = dest.name) (hpresent : t.Present) :
    outcome serde w mb = some (task, x) := by
  obtain ⟨reg, hreg, hentry⟩ := h.inv.reached task t ht hpresent
  rw [hname] at hentry
  have hopen : t.mailboxClosed = false := by
    obtain ⟨-, hpc | hpc | hpc⟩ := hpresent <;> simp [Task.mailboxClosed, hpc]
  simp [outcome, hreg, hdest, hentry, hserial, ActorMsg.serial?, NodeTasks.send, ht, hopen]

omit [Ord U] [TransOrd U] [DecidableEq U] [LawfulEqOrd U] in
theorem Reads.unique {m : Message} {name name' : ActorId U} {x x' : LocalActorMsg S}
    (h : Reads serde m name x) (h' : Reads serde m name' x') : name = name' ∧ x = x' := by
  obtain ⟨interface, hdest, hitem⟩ := h
  obtain ⟨interface', hdest', hitem'⟩ := h'
  cases hdest.symm.trans hdest'
  exact ⟨rfl, Option.some.inj (hitem.symm.trans hitem')⟩

omit [DecidableEq U] [LawfulEqOrd U] in
/-- What the registry takes next from the channel. -/
theorem Delivering.next_taken (h : Delivering serde M c)
    (hst : Step serde M c (.node .handle) c') {e : Taken S} (he : c'.taken = c.taken ++ [e]) :
    ∃ mb, (e.msgId, mb) ∈ c.world.receiver.forwarded ∧ e.got = outcome serde c.node mb := by
  obtain ⟨-, -, -, -, htaken⟩ := hst
  have htakes : c.takes serde .handle = [e] := List.append_cancel_left (htaken.symm.trans he)
  simp only [takes] at htakes
  split at htakes
  · next mb msgId mb' hhead hget =>
      obtain ⟨queue, hqueue⟩ : ∃ queue, c.node.queue = .forward mb :: queue := by
        cases hq : c.node.queue with
        | nil => simp [hq] at hhead
        | cons msg queue =>
            rw [hq] at hhead
            cases msg with
            | forward mb₁ =>
                cases hhead
                exact ⟨queue, rfl⟩
            | register name task => cases hhead
            | deregister name => cases hhead
      obtain ⟨msgId', hget', -, -⟩ := h.head hqueue
      cases hget.symm.trans hget'
      cases List.cons.inj htakes |>.1
      exact ⟨mb, List.mem_of_getElem? hget, rfl⟩
  · cases htakes

omit [DecidableEq U] [LawfulEqOrd U] in
/-- A move of the node, from a reachable state. -/
theorem reachable_node (h : (system serde M).Reachable c) (move : NodeTasks.Move U S)
    (hforward : ∀ mb, move ≠ .forward mb) (hrenews : c.node.Renews serde move)
    {w : NodeTasks U S} (hnext : NodeTasks.next serde c.node move = some w) :
    (system serde M).Reachable ⟨c.world, w, c.taken ++ c.takes serde move⟩ :=
  h.step (a := .node move) ⟨hforward, hrenews, hnext, rfl, rfl⟩

omit [DecidableEq U] [LawfulEqOrd U] in
/-- A move of the receiver, from a reachable state. -/
theorem reachable_net (h : (system serde M).Reachable c) (move : Receiver.Move) (world : World)
    (hst : (network M).step c.world move world) :
    (system serde M).Reachable ⟨world,
      ((world.receiver.forwarded.drop c.world.receiver.forwarded.length).map (·.2)).foldl
        (fun w mb => w.tell (.forward mb)) c.node, c.taken⟩ :=
  h.step (a := .net move) ⟨hst, rfl, rfl⟩

end Moves

/-! ## What references send -/

section Typed

/-- A message is what a reference sent: an item under an interface of the actor,
or the signal.  CBOR gives the destination and the item back. -/
inductive TypedSend (app : Application) (cbor : Cbor) (m : Message) :
    ActorId String → LocalActorMsg Value → Prop
  | item {root : RootImpl MessageType} {I : MessageType} (hroot : root ∈ app.roots)
      (hI : I ∈ root.nonLocals) {r : ActorRef I} {name : String} {socket : Socket}
      (href : r = .new app.unification root.typeId I name socket)
      (hdest : cbor.deserializeDest (cbor.serializeDest r.dest.untyped) = some r.dest.untyped)
      {item : Value} (hitem : cbor.deserialize I (cbor.serialize item) = some item)
      (hsent : r.send cbor item = .udp socket m.item m.intp m.dest) :
      TypedSend app cbor m r.dest.untyped.name (.msg (root.fromInterface I item))
  | signal {root : RootImpl MessageType} {I : MessageType} (hroot : root ∈ app.roots)
      (hI : I ∈ root.nonLocals) {r : ActorRef I} {name : String} {socket : Socket}
      (href : r = .new app.unification root.typeId I name socket)
      (hdest : cbor.deserializeDest (cbor.serializeDest r.dest.untyped) = some r.dest.untyped)
      (hterm : cbor.deserializeTerm cbor.serializeTerm = some ())
      (hsent : r.signal cbor = .udp socket m.item m.intp m.dest) :
      TypedSend app cbor m r.dest.untyped.name .term

variable {app : Application} {cbor : Cbor} {m : Message}

/-- What a reference sent is read as what it sent. -/
theorem TypedSend.reads {name : ActorId String} {x : LocalActorMsg Value}
    (h : TypedSend app cbor m name x) : Reads (app.serde cbor) m name x := by
  cases h with
  | @item root I hroot hI r s socket href hdest item hitem hsent =>
      subst href
      obtain ⟨-, hbytes, hintp, hdest'⟩ := Sent.udp.inj hsent
      refine ⟨app.unification.variant I, hdest' ▸ hdest, ?_⟩
      rw [← hintp, ← hbytes]
      dsimp only [ActorRef.new, Destination.new]
      have hserde := Application.serde_deserializeAs cbor hroot hI .message (cbor.serialize item)
      simp only [RootImpl.deserializeMsg, hitem, Except.toOption] at hserde
      exact hserde
  | @signal root I hroot hI r s socket href hdest hterm hsent =>
      subst href
      obtain ⟨-, hbytes, hintp, hdest'⟩ := Sent.udp.inj hsent
      refine ⟨app.unification.variant I, hdest' ▸ hdest, ?_⟩
      rw [← hintp, ← hbytes]
      dsimp only [ActorRef.new, Destination.new]
      have hserde := Application.serde_deserializeAs cbor hroot hI .signal cbor.serializeTerm
      simp only [RootImpl.deserializeMsg, hterm, Except.toOption] at hserde
      exact hserde

/-- Take every run of a node that gets what references of its application sent,
under distinct message ids, with each packet arriving once or never and in any
order, and that renews a name only after its `Deregister` (`Renews`, a part of
every step).  No actor panics and the registry goes on.  The registry takes no
message twice; who gets a message is an actor of the name it was sent to, and
gets what was sent; the actor's mailbox ends with what it got and did not handle,
in order; and an actor that is present gets what is sent to its name. -/
theorem remote_delivery (app : Application) (cbor : Cbor) {M : Set Message}
    (hids : DistinctIds M) (hsent : ∀ m ∈ M, ∃ name x, TypedSend app cbor m name x)
    {c : RemoteNode String Value} (h : (system (app.serde cbor) M).Reachable c) :
    (c.node.registry.isSome = true ∧ ∀ t ∈ c.node.tasks, t.pc ≠ .panicked) ∧
    (c.taken.map (·.msgId)).Nodup ∧
    (∀ e ∈ c.taken, ∃ m ∈ M, m.msgId = e.msgId ∧
      ∀ (task : Nat) (y : Option (LocalActorMsg Value)), e.got = some (task, y) →
        ∃ t, c.node.tasks[task]? = some t ∧ ∃ x, TypedSend app cbor m t.name x ∧ y = some x) ∧
    (∀ (task : Nat) (t : Task String Value), c.node.tasks[task]? = some t →
      t.mailbox.filterMap (·.serial?) <:+ delivered c.taken task) ∧
    ∀ (c' : RemoteNode String Value) (e : Taken Value),
      Step (app.serde cbor) M c (.node .handle) c' → c'.taken = c.taken ++ [e] →
      ∀ m ∈ M, m.msgId = e.msgId → ∀ (name : ActorId String) (x : LocalActorMsg Value),
        TypedSend app cbor m name x → ∀ (task : Nat) (t : Task String Value),
          c.node.tasks[task]? = some t → t.name = name → t.Present →
            e.got = some (task, some x) := by
  have hread : ∀ m ∈ M, ∃ name x, Reads (app.serde cbor) m name x := by
    intro m hm
    obtain ⟨name, x, hx⟩ := hsent m hm
    exact ⟨name, x, hx.reads⟩
  have hdel := delivering_of_reachable hids hread h
  obtain ⟨⟨handled, -, hinv⟩, -⟩ := worldInv_of_reachable hids hdel.network
  refine ⟨⟨Option.isSome_iff_exists.mpr hdel.renewed.alive, fun t ht => ?_⟩, ?_,
    fun e he => ?_, hdel.mailboxes, fun c' e hst he m hm hid name x hx task t ht hname hp => ?_⟩
  · obtain ⟨i, hi⟩ := List.mem_iff_getElem?.mp ht
    exact (hdel.renewed.sound i t hi).confirmed.2
  · rw [hdel.ids]
    exact hinv.once.sublist ((List.take_sublist _ _).map _)
  · have hmem : e.msgId ∈ c.world.receiver.forwarded.map (·.1) := by
      have hmem' : e.msgId ∈ c.taken.map (·.msgId) := List.mem_map_of_mem he
      rw [hdel.ids] at hmem'
      exact List.map_subset _ (List.take_subset _ _) hmem'
    obtain ⟨⟨msgId, mb⟩, hforwarded, hid⟩ := List.mem_map.mp hmem
    obtain ⟨m, hm, hmid, -⟩ := message_of_forwarded hids hdel.network hforwarded
    refine ⟨m, hm, hmid.trans hid, fun task y hgot => ?_⟩
    obtain ⟨mb', dest, hmem', hdest, hserial, t, ht, hname⟩ := hdel.got e he task y hgot
    obtain ⟨m', hm', hmid', hslice, hslice', hintp⟩ :=
      message_of_forwarded hids hdel.network hmem'
    obtain rfl := hids m' hm' m hm (hmid'.trans (hmid.trans hid).symm)
    obtain ⟨name, x, hx⟩ := hsent m' hm'
    obtain ⟨dest', hdest', hname', hserial'⟩ := hx.reads.builder hslice hslice' hintp
    cases hdest.symm.trans hdest'
    cases hserial.symm.trans hserial'
    exact ⟨t, ht, x, hname.trans hname' ▸ hx, rfl⟩
  · obtain ⟨mb, hmem, hgot⟩ := hdel.next_taken hst he
    obtain ⟨m', hm', hmid', hslice, hslice', hintp⟩ :=
      message_of_forwarded hids hdel.network hmem
    obtain rfl := hids m' hm' m hm (hmid'.trans hid.symm)
    obtain ⟨dest, hdest, hname', hserial⟩ := hx.reads.builder hslice hslice' hintp
    rw [hgot]
    exact outcome_of_present hdel.renewed hdest hserial ht (hname.trans hname'.symm) hp

end Typed

/-! ## A string for an actor -/

section Hello

/-- A reference to an actor of `Foo` under the interface of strings. -/
def fooRef : ActorRef (.named "String") :=
  .new quz.unification (.named "Foo") (.named "String") "foo" (Socket.localhost 10)

/-- Strings are their bytes, and every destination is that of `fooRef`. -/
def helloCbor : Cbor where
  serialize
    | .plain _ data => data
    | .variant .. => []
  deserialize ty bytes := some (.plain ty bytes)
  serializeTerm := [0]
  deserializeTerm _ := some ()
  serializeDest _ := [98]
  deserializeDest _ := some fooRef.dest.untyped

def hello : Value := .plain (.named "String") [97]

/-- What `fooRef` sends for `hello`. -/
def helloMessage : Message where
  msgId := 3
  item := [97]
  intp := .message
  dest := [98]
  item_ne_nil := by decide
  dest_pos := by decide
  dest_le := by decide
  total_le := by decide

theorem typedSend_hello : ∃ name x, TypedSend quz helloCbor helloMessage name x := by
  obtain ⟨root, hroot, hfoo, hstring⟩ : ∃ root ∈ quz.roots, root.typeId = .named "Foo" ∧
      .named "String" ∈ root.nonLocals := by decide
  have hitem : helloCbor.deserialize (.named "String") (helloCbor.serialize hello) = some hello :=
    rfl
  exact ⟨_, _, .item hroot hstring (r := fooRef) (by rw [hfoo]; rfl) rfl hitem rfl⟩

/-- The actor registers as `foo`. -/
theorem reachable_registered :
    ∃ c, (system (quz.serde helloCbor) {helloMessage}).Reachable c ∧
      c.world = ⟨Receiver.start, [], [], []⟩ ∧ c.taken = [] ∧ c.node.queue = [] ∧
      ∃ reg, c.node.registry = some reg ∧ reg.register[fooRef.dest.untyped.name]? = some 0 ∧
        c.node.tasks = [⟨fooRef.dest.untyped.name, true, .loop, []⟩] := by
  have h₀ : (system (quz.serde helloCbor) {helloMessage}).Reachable start := .of_init rfl
  have h₁ := reachable_node h₀ (.spawn fooRef.dest.untyped.name true) (by simp)
    ⟨rfl, by simp [start, NodeTasks.start]⟩ rfl
  have h₂ := reachable_node h₁ (.run 0) (by simp) trivial rfl
  have h₃ := reachable_node h₂ .handle (by simp) trivial rfl
  have h₄ := reachable_node h₃ (.run 0) (by simp) trivial rfl
  exact ⟨_, h₄, rfl, rfl, rfl, _, rfl, rfl, rfl⟩

/-- The builder of `helloMessage`. -/
def helloBuilder : MessageBuilder where
  msgSize := 1
  maxSeqNum := 0
  seqsRecvd := [1]
  numRecvd := 1
  buf := List.replicate DatagramHeader.size 0 ++ helloMessage.content
  intp := .message

/-- The receiver that forwarded `helloMessage`. -/
def helloWorld : World where
  receiver := { Receiver.start with
    headerBuf := (helloMessage.packet 0).take DatagramHeader.size
    forwarded := [(3, helloBuilder)] }
  arrived := [helloMessage.packet 0]
  woken := []
  dropped := []

/-- What the actor gets. -/
def helloItem : LocalActorMsg Value := .msg (.variant (.named "Foo") "One" hello)

theorem destinationOf_helloBuilder :
    NodeTasks.destinationOf (quz.serde helloCbor) helloBuilder = some fooRef.dest.untyped := rfl

theorem serialOf_helloBuilder :
    NodeTasks.serialOf (quz.serde helloCbor) fooRef.dest.untyped helloBuilder =
      .serial (some helloItem) := by decide

/-- The one packet of the message arrives, and the actor gets the string. -/
theorem remote_delivery_hello :
    ∃ c : RemoteNode String Value, c.taken = [⟨3, some (0, some helloItem)⟩] ∧
      (c.node.registry.isSome = true ∧ ∀ t ∈ c.node.tasks, t.pc ≠ .panicked) ∧
      ∀ (task : Nat) (t : Task String Value), c.node.tasks[task]? = some t →
        t.mailbox.filterMap (·.serial?) <:+ delivered c.taken task := by
  obtain ⟨c, h, hworld, htaken, hqueue, reg, hreg, hentry, htasks⟩ := reachable_registered
  obtain ⟨world, ⟨registry, queue, tasks⟩, taken⟩ := c
  obtain rfl : world = ⟨Receiver.start, [], [], []⟩ := hworld
  obtain rfl : taken = [] := htaken
  obtain rfl : queue = [] := hqueue
  obtain rfl : registry = some reg := hreg
  obtain rfl : tasks = [⟨fooRef.dest.untyped.name, true, .loop, []⟩] := htasks
  have harrive := reachable_net h (.arrive (helloMessage.packet 0))
    ⟨{ Receiver.start with socket := [helloMessage.packet 0] }, [helloMessage.packet 0], [], []⟩
    ⟨rfl, ⟨helloMessage, rfl, Message.mem_send.mpr ⟨0, Nat.zero_le _, rfl⟩⟩, by simp, rfl, rfl, rfl⟩
  have hpeek : (system (quz.serde helloCbor) {helloMessage}).Reachable
      ⟨helloWorld, ⟨some reg, [.forward helloBuilder],
        [⟨fooRef.dest.untyped.name, true, .loop, []⟩]⟩, []⟩ :=
    reachable_net harrive .peek helloWorld ⟨rfl, rfl, rfl, rfl⟩
  have hnext : NodeTasks.next (quz.serde helloCbor) ⟨some reg, [.forward helloBuilder],
      [⟨fooRef.dest.untyped.name, true, .loop, []⟩]⟩ .handle =
        some ⟨some reg, [], [⟨fooRef.dest.untyped.name, true, .loop, [.serial (some helloItem)]⟩]⟩ := by
    simp only [NodeTasks.next, NodeTasks.handle, NodeTasks.recv, destinationOf_helloBuilder, hentry,
      serialOf_helloBuilder]
    rfl
  have hhandle := reachable_node hpeek .handle (by simp) trivial hnext
  have htakes : outcome (quz.serde helloCbor) ⟨some reg, [.forward helloBuilder],
      [⟨fooRef.dest.untyped.name, true, .loop, []⟩]⟩ helloBuilder = some (0, some helloItem) := by
    simp only [outcome, destinationOf_helloBuilder, hentry, serialOf_helloBuilder]
    rfl
  have hsent : ∀ m ∈ ({helloMessage} : Set Message), ∃ name x,
      TypedSend quz helloCbor m name x := by
    intro m hm
    rw [show m = helloMessage from hm]
    exact typedSend_hello
  obtain ⟨hpanic, -, -, hmailboxes, -⟩ := remote_delivery quz helloCbor
    (fun m hm m' hm' _ => hm.trans hm'.symm) hsent hhandle
  exact ⟨_, congrArg (fun got => [(⟨3, got⟩ : Taken Value)]) htakes, hpanic, hmailboxes⟩

end Hello

end RemoteNode

end AurumActors.Core
