/-
  Core/Registry.lean --- the registry of a node and the actors in it, from
  `core/registry.rs`, `core/actor_tasks_unit.rs` and
  `core/actor_tasks_timeout.rs`.

  The registry maps an `ActorId` to the receiver of one actor.  Actors register
  when they start and deregister when they stop, both with messages to the
  registry, and the registry drops an entry whose receiver fails.  Tasks are
  numbered in the order they were spawned; the number of a task stands for its
  serialized receiver and for its confirmation channel.

  `run_single_timeout` differs from `unit_single` by the branch for its timeout,
  which neither the registry nor the mailbox sees.
-/
import AurumActors.Core.ActorTasks
import AurumActors.Core.Packets
import AurumActors.Core.Remoting
import AurumActors.Foundation.Maps
import AurumActors.Foundation.Pools

set_option autoImplicit false

namespace AurumActors.Core

open AurumActors.Foundation Std

attribute [local instance] lexOrd

/-! ## Names -/

/-- An identifier for actors unique in the registry of a node. -/
structure ActorId (U : Type) where
  recvType : U
  name : String
  deriving DecidableEq

namespace ActorId

variable {U : Type}

/-- The derived order compares `recv_type`, then `name`. -/
def key (a : ActorId U) : U × String := (a.recvType, a.name)

theorem key_injective : Function.Injective (key (U := U)) := by
  rintro ⟨t₁, n₁⟩ ⟨t₂, n₂⟩ h
  simp_all [key]

instance [Ord U] : Ord (ActorId U) := ⟨compareOn key⟩
instance [Ord U] [TransOrd U] : TransOrd (ActorId U) := inferInstanceAs (TransCmp (compareOn key))
instance [Ord U] [LawfulEqOrd U] : LawfulEqOrd (ActorId U) := lawfulEqCmp_compareOn key_injective

end ActorId

structure DestinationUntyped (U : Type) where
  name : ActorId U
  interface : U
  deriving DecidableEq

/-- What `serde` makes of bytes: the destination of a message, and the message
for an actor of a receiving type under an interface. -/
structure Serde (U S : Type) where
  destination : List UInt8 → Option (DestinationUntyped U)
  deserializeAs : (recvType interface : U) → Interpretations → List UInt8 →
    Option (LocalActorMsg S)

inductive RegistryMsg (U : Type) where
  | forward (msgBuilder : MessageBuilder)
  | register (name : ActorId U) (task : Nat)
  | deregister (name : ActorId U)
  deriving DecidableEq

structure Registry (U : Type) [Ord U] where
  register : ExtTreeMap (ActorId U) Nat compare

/-! ## Tasks -/

/-- Where the task of an actor is. -/
inductive TaskPc where
  | spawned
  /-- at `rx.await`, before the registry answered -/
  | registering
  /-- the registry sent `()` -/
  | confirmed
  /-- the confirmation channel was dropped -/
  | refused
  /-- at `rx.recv()` -/
  | loop
  /-- after the loop -/
  | stopping
  /-- `Deregister` is sent, the mailbox still open -/
  | leaving
  | stopped
  | panicked
  deriving DecidableEq

structure Task (U S : Type) where
  name : ActorId U
  register : Bool
  pc : TaskPc
  mailbox : List (ActorMsg S)
  deriving DecidableEq

namespace Task

variable {U S : Type}

/-- A task that ended has dropped the receiver of its channel. -/
def mailboxClosed (t : Task U S) : Bool :=
  match t.pc with
  | .stopped | .panicked => true
  | _ => false

/-- What the confirmation channel tells a task that waits for it. -/
def answer (t : Task U S) (confirmed : Bool) : Task U S :=
  if t.pc = .registering then { t with pc := if confirmed then .confirmed else .refused } else t

/-- Registration is confirmed, and the actor has neither sent `Deregister` nor
closed its mailbox. -/
def Present (t : Task U S) : Prop :=
  t.register = true ∧ (t.pc = .confirmed ∨ t.pc = .loop ∨ t.pc = .stopping)

instance (t : Task U S) : Decidable t.Present :=
  inferInstanceAs (Decidable (_ ∧ (_ ∨ _ ∨ _)))

end Task

/-! ## The registry among the tasks -/

/-- The registry with its channel, and all tasks of the node. -/
structure NodeTasks (U S : Type) [Ord U] where
  /-- `none` after the task of the registry panicked -/
  registry : Option (Registry U)
  /-- the channel of the registry -/
  queue : List (RegistryMsg U)
  tasks : List (Task U S)

namespace NodeTasks

variable {U S : Type} [Ord U] [TransOrd U]

/-- A node before its first actor. -/
def start : NodeTasks U S := ⟨some ⟨∅⟩, [], []⟩

/-- `UnboundedSender::send` on the channel of a task: nothing when it fails. -/
def send (w : NodeTasks U S) (task : Nat) (msg : ActorMsg S) : Option (NodeTasks U S) :=
  match w.tasks[task]? with
  | none => none
  | some t =>
      if t.mailboxClosed then none
      else some { w with
        tasks := w.tasks.modify task fun t => { t with mailbox := t.mailbox ++ [msg] } }

/-- `Sender::send` or the drop of the confirmation channel of a task. -/
def answer (w : NodeTasks U S) (task : Nat) (confirmed : Bool) : NodeTasks U S :=
  { w with tasks := w.tasks.modify task fun t => t.answer confirmed }

/-- The task of the registry panics: its channel and all that is in it is
dropped, confirmation channels included. -/
def panic (w : NodeTasks U S) : NodeTasks U S :=
  { registry := none, queue := [], tasks := w.tasks.map fun t => t.answer false }

/-- `node.registry(msg)`; a registration that fails drops its confirmation
channel. -/
def tell (w : NodeTasks U S) (msg : RegistryMsg U) : NodeTasks U S :=
  if w.registry.isSome then { w with queue := w.queue ++ [msg] }
  else match msg with
    | .register _ task => w.answer task false
    | _ => w

/-- The destination of a message, if the `unwrap` of `recv` finds one. -/
def destinationOf (serde : Serde U S) (mb : MessageBuilder) : Option (DestinationUntyped U) :=
  match mb.destSlice with
  | .ok bytes => serde.destination bytes
  | .error _ => none

/-- What an actor gets from its serialized receiver. -/
def serialOf (serde : Serde U S) (dest : DestinationUntyped U) (mb : MessageBuilder) :
    ActorMsg S :=
  match mb.msgSlice with
  | .ok bytes => .serial (serde.deserializeAs dest.name.recvType dest.interface mb.intp bytes)
  | .error _ => .serial none

/-- `Registry::recv` -/
def recv (serde : Serde U S) (w : NodeTasks U S) (reg : Registry U) : RegistryMsg U → NodeTasks U S
  | .forward msgBuilder =>
      match destinationOf serde msgBuilder with
      | none => w.panic
      | some dest =>
          match reg.register[dest.name]? with
          | some recvr =>
              match w.send recvr (serialOf serde dest msgBuilder) with
              | some w => w
              | none => { w with registry := some ⟨reg.register.erase dest.name⟩ }
          | none => w
  | .register name task =>
      match reg.register[name]? with
      | some _ => w.answer task false
      | none =>
          match w.tasks[task]? with
          | some t =>
              -- the confirmation fails when nobody waits for it
              if t.pc = .registering then
                { w.answer task true with registry := some ⟨reg.register.insert name task⟩ }
              else w
          | none => w
  | .deregister name => { w with registry := some ⟨reg.register.erase name⟩ }

/-- The next message of the registry. -/
def handle (serde : Serde U S) (w : NodeTasks U S) : Option (NodeTasks U S) :=
  match w.registry, w.queue with
  | some reg, msg :: queue => some ({ w with queue }.recv serde reg msg)
  | _, _ => none

/-- The next step of a task, as `unit_single` and `run_single_timeout` take it. -/
def run (w : NodeTasks U S) (task : Nat) (t : Task U S) : Option (NodeTasks U S) :=
  let goto pc := { w with tasks := w.tasks.set task { t with pc } }
  match t.pc with
  | .spawned =>
      if t.register then some ((goto .registering).tell (.register t.name task))
      else some (goto .loop)
  | .registering => none
  | .confirmed => some (goto .loop)
  | .refused => some (goto .panicked)
  | .loop =>
      match t.mailbox with
      | [] => none
      | .msg (.msg _) :: mailbox | .serial (some (.msg _)) :: mailbox =>
          some { w with tasks := w.tasks.set task { t with mailbox } }
      | .msg .term :: _ | .serial (some .term) :: _ => some (goto .stopping)
      | .serial none :: _ | .primaryRequest :: _ | .die :: _ => some (goto .panicked)
  | .stopping =>
      if t.register then some ((goto .leaving).tell (.deregister t.name))
      else some (goto .leaving)
  | .leaving => some (goto .stopped)
  | .stopped | .panicked => none

/-- What can happen next on a node. -/
inductive Move (U S : Type) where
  | spawn (name : ActorId U) (register : Bool)
  | run (task : Nat)
  /-- somebody sends to an actor through a local reference -/
  | send (task : Nat) (msg : LocalActorMsg S)
  /-- the receiving task of the node forwards a message to the registry -/
  | forward (msgBuilder : MessageBuilder)
  | handle

def next (serde : Serde U S) (w : NodeTasks U S) : Move U S → Option (NodeTasks U S)
  | .spawn name register => some { w with tasks := w.tasks ++ [⟨name, register, .spawned, []⟩] }
  | .run task => w.tasks[task]?.bind (w.run task)
  | .send task msg => w.send task (.msg msg)
  | .forward msgBuilder => some (w.tell (.forward msgBuilder))
  | .handle => w.handle serde

/-- A node from its start, in any order of steps. -/
def system (serde : Serde U S) : System (NodeTasks U S) (Move U S) := .ofNext start (next serde)

/-! ## Reachability of actors -/

/-- The register maps the `ActorId` of every actor that is present to the
receiver of that very actor. -/
def Reached (w : NodeTasks U S) : Prop :=
  ∀ (task : Nat) (t : Task U S), w.tasks[task]? = some t → t.Present →
    ∃ reg, w.registry = some reg ∧ reg.register[t.name]? = some task

/-- The condition on what the registry takes from its channel: a message that
it forwards has a destination, and when it registers an actor under a free name,
no `Deregister` that an earlier actor sent for that name waits behind. -/
def ClearQueue (serde : Serde U S) (registry : Option (Registry U)) :
    List (RegistryMsg U) → Prop
  | .forward msgBuilder :: _ => (destinationOf serde msgBuilder).isSome
  | .register name _ :: queue =>
      ∀ reg ∈ registry, reg.register[name]? = none → RegistryMsg.deregister name ∉ queue
  | _ => True

instance (serde : Serde U S) (registry : Option (Registry U)) [DecidableEq U]
    (queue : List (RegistryMsg U)) : Decidable (ClearQueue serde registry queue) :=
  match queue with
  | .forward _ :: _ => inferInstanceAs (Decidable (_ = _))
  | .register _ _ :: _ => inferInstanceAs (Decidable (∀ reg ∈ registry, _ → _))
  | [] | .deregister _ :: _ => .isTrue trivial

/-- The condition on a step. -/
def Clear (serde : Serde U S) (w : NodeTasks U S) : Move U S → Prop
  | .handle => ClearQueue serde w.registry w.queue
  | _ => True

instance (serde : Serde U S) (w : NodeTasks U S) [DecidableEq U] (mv : Move U S) :
    Decidable (w.Clear serde mv) :=
  match mv with
  | .handle => inferInstanceAs (Decidable (ClearQueue ..))
  | .spawn .. | .run _ | .send .. | .forward _ => .isTrue trivial

/-- How the tasks of a node change: they keep their names, and no task becomes
present. -/
structure Evolves (ts ts' : List (Task U S)) : Prop where
  present : ∀ (i : Nat) (t' : Task U S), ts'[i]? = some t' → t'.Present →
    ∃ t, ts[i]? = some t ∧ t.name = t'.name ∧ t.Present
  kept : ∀ (i : Nat) (t : Task U S), ts[i]? = some t →
    ∃ t', ts'[i]? = some t' ∧ t'.name = t.name ∧ t'.register = t.register

section Evolves

omit [Ord U] [TransOrd U]

variable {ts : List (Task U S)}

theorem evolves_refl (ts : List (Task U S)) : Evolves ts ts :=
  ⟨fun _ t h hp => ⟨t, h, rfl, hp⟩, fun _ t h => ⟨t, h, rfl, rfl⟩⟩

theorem evolves_of_getElem? {ts' : List (Task U S)} (f : Nat → Task U S → Task U S)
    (hget : ∀ i : Nat, ts'[i]? = ts[i]?.map (f i))
    (hf : ∀ (i : Nat) (t : Task U S), ts[i]? = some t →
      (f i t).name = t.name ∧ (f i t).register = t.register ∧ ((f i t).Present → t.Present)) :
    Evolves ts ts' := by
  constructor
  · intro i t' ht' hp
    rw [hget] at ht'
    obtain ⟨t, ht, rfl⟩ := Option.map_eq_some_iff.mp ht'
    obtain ⟨hname, -, hpresent⟩ := hf i t ht
    exact ⟨t, ht, hname.symm, hpresent hp⟩
  · intro i t ht
    obtain ⟨hname, hregister, -⟩ := hf i t ht
    exact ⟨f i t, by rw [hget, ht]; rfl, hname, hregister⟩

theorem evolves_modify (task : Nat) {f : Task U S → Task U S}
    (hf : ∀ t, (f t).name = t.name ∧ (f t).register = t.register ∧
      ((f t).Present → t.Present)) : Evolves ts (ts.modify task f) := by
  refine evolves_of_getElem? (fun i t => if task = i then f t else t) (fun i => ?_)
    fun i t _ => ?_
  · rw [List.getElem?_modify]
    cases ts[i]? <;> rfl
  · split
    · exact hf t
    · exact ⟨rfl, rfl, id⟩

theorem evolves_set {task : Nat} {t u : Task U S} (ht : ts[task]? = some t)
    (hname : u.name = t.name) (hregister : u.register = t.register)
    (hpresent : u.Present → t.Present) : Evolves ts (ts.set task u) := by
  refine evolves_of_getElem? (fun i v => if task = i then u else v) (fun i => ?_)
    fun i v hv => ?_
  · rw [List.getElem?_set]
    by_cases hi : task = i
    · subst hi
      simp [(List.getElem?_eq_some_iff.mp ht).1]
    · cases ts[i]? <;> simp [hi]
  · split
    · next hi =>
        subst hi
        cases ht.symm.trans hv
        exact ⟨hname, hregister, hpresent⟩
    · exact ⟨rfl, rfl, id⟩

theorem answer_false_spec (t : Task U S) :
    (t.answer false).name = t.name ∧ (t.answer false).register = t.register ∧
      ((t.answer false).Present → t.Present) := by
  unfold Task.answer
  split
  · refine ⟨rfl, rfl, fun hp => ?_⟩
    simp [Task.Present] at hp
  · exact ⟨rfl, rfl, id⟩

end Evolves

/-- What holds of a node while its steps are clear. -/
structure Inv (w : NodeTasks U S) : Prop where
  reached : w.Reached
  /-- an actor that is present has no `Deregister` of its name ahead of it -/
  absent : ∀ (name : ActorId U), RegistryMsg.deregister name ∈ w.queue →
    ∀ (task : Nat) (t : Task U S), w.tasks[task]? = some t → t.name = name → ¬ t.Present
  named : ∀ (name : ActorId U) (task : Nat), RegistryMsg.register name task ∈ w.queue →
    ∃ t, w.tasks[task]? = some t ∧ t.name = name ∧ t.register = true

variable {serde : Serde U S} {w w' : NodeTasks U S}

theorem inv_start : Inv (start : NodeTasks U S) :=
  ⟨by simp [Reached, start], by simp [start], by simp [start]⟩

/-- Nothing new but forwarded messages comes into the queue, and no task
becomes present. -/
theorem Inv.evolve (hinv : Inv w) {queue : List (RegistryMsg U)} {tasks : List (Task U S)}
    (hqueue : ∀ msg ∈ queue, msg ∈ w.queue ∨ ∃ mb, msg = .forward mb)
    (htasks : Evolves w.tasks tasks) : Inv { w with queue, tasks } := by
  have hold : ∀ msg ∈ queue, (∀ mb, msg ≠ .forward mb) → msg ∈ w.queue := by
    intro msg hmsg hne
    rcases hqueue msg hmsg with h | ⟨mb, rfl⟩
    · exact h
    · exact absurd rfl (hne mb)
  refine ⟨fun i t' ht' hp => ?_, fun name hmem i t' ht' hname hp => ?_, fun name i hmem => ?_⟩
  · obtain ⟨t, ht, hname, hpt⟩ := htasks.present i t' ht' hp
    rw [← hname]
    exact hinv.reached i t ht hpt
  · obtain ⟨t, ht, hname', hpt⟩ := htasks.present i t' ht' hp
    exact hinv.absent name (hold _ hmem (by simp)) i t ht (hname'.trans hname) hpt
  · obtain ⟨t, ht, hname, hregister⟩ := hinv.named name i (hold _ hmem (by simp))
    obtain ⟨t', ht', hname', hregister'⟩ := htasks.kept i t ht
    exact ⟨t', ht', hname'.trans hname, hregister'.trans hregister⟩

theorem Inv.send (hinv : Inv w) {task : Nat} {msg : ActorMsg S} (h : w.send task msg = some w') :
    Inv w' := by
  unfold NodeTasks.send at h
  split at h
  · cases h
  · split at h
    · cases h
    · cases h
      exact hinv.evolve (fun _ h => .inl h) (evolves_modify task fun t => ⟨rfl, rfl, id⟩)

theorem Inv.answer_false (hinv : Inv w) (task : Nat) : Inv (w.answer task false) :=
  hinv.evolve (fun _ h => .inl h) (evolves_modify task answer_false_spec)

theorem Inv.tell_forward (hinv : Inv w) (mb : MessageBuilder) : Inv (w.tell (.forward mb)) := by
  unfold tell
  split
  · refine hinv.evolve (fun msg h => ?_) (evolves_refl _)
    rcases List.mem_append.mp h with h | h
    · exact .inl h
    · exact .inr ⟨mb, List.mem_singleton.mp h⟩
  · exact hinv

theorem Inv.tell_register (hinv : Inv w) {task : Nat} {t : Task U S}
    (ht : w.tasks[task]? = some t) (hregister : t.register = true) :
    Inv (w.tell (.register t.name task)) := by
  unfold tell
  split
  · refine ⟨hinv.reached, fun name hmem => ?_, fun name i hmem => ?_⟩
    · rcases List.mem_append.mp hmem with hmem | hmem
      · exact hinv.absent name hmem
      · simp at hmem
    · rcases List.mem_append.mp hmem with hmem | hmem
      · exact hinv.named name i hmem
      · cases List.mem_singleton.mp hmem
        exact ⟨t, ht, rfl, hregister⟩
  · exact hinv.answer_false task

theorem Inv.tell_deregister (hinv : Inv w) {name : ActorId U}
    (habsent : ∀ (task : Nat) (t : Task U S), w.tasks[task]? = some t → t.name = name →
      ¬ t.Present) : Inv (w.tell (.deregister name)) := by
  unfold tell
  split
  · refine ⟨hinv.reached, fun name' hmem => ?_, fun name' i hmem => ?_⟩
    · rcases List.mem_append.mp hmem with hmem | hmem
      · exact hinv.absent name' hmem
      · cases List.mem_singleton.mp hmem
        exact habsent
    · rcases List.mem_append.mp hmem with hmem | hmem
      · exact hinv.named name' i hmem
      · simp at hmem
  · exact hinv

/-- An actor moves on, and is present afterwards only if it was before. -/
theorem Inv.goto (hinv : Inv w) {task : Nat} {t : Task U S} (ht : w.tasks[task]? = some t)
    {u : Task U S} (hname : u.name = t.name) (hregister : u.register = t.register)
    (hpresent : u.Present → t.Present) : Inv { w with tasks := w.tasks.set task u } :=
  hinv.evolve (fun _ h => .inl h) (evolves_set ht hname hregister hpresent)

/-- Two actors of one name are not present at the same time. -/
theorem Reached.unique (h : w.Reached) {i j : Nat} {t u : Task U S} (ht : w.tasks[i]? = some t)
    (hu : w.tasks[j]? = some u) (hname : t.name = u.name) (hpt : t.Present) (hpu : u.Present) :
    i = j := by
  obtain ⟨reg, hreg, hi⟩ := h i t ht hpt
  obtain ⟨reg', hreg', hj⟩ := h j u hu hpu
  cases hreg.symm.trans hreg'
  rw [hname] at hi
  exact Option.some.inj (hi.symm.trans hj)

/-- No step of a task takes an entry from an actor that is present. -/
theorem Inv.run (hinv : Inv w) {task : Nat} {t : Task U S} (ht : w.tasks[task]? = some t)
    (h : w.run task t = some w') : Inv w' := by
  have hset : ∀ u : Task U S, (w.tasks.set task u)[task]? = some u := by
    exact fun u => getElem?_set_of_some u ht
  have hgoto : ∀ pc, (t.register = true → pc = .confirmed ∨ pc = .loop ∨ pc = .stopping →
      t.Present) → Inv { w with tasks := w.tasks.set task { t with pc } } := by
    intro pc hpc
    exact hinv.goto ht rfl rfl fun hp => hpc hp.1 hp.2
  cases hpc : t.pc with
  | spawned =>
      simp only [NodeTasks.run, hpc] at h
      split at h
      · next hregister =>
          cases h
          exact (hgoto .registering (by simp)).tell_register (t := { t with pc := .registering })
            (hset _) hregister
      · next hregister =>
          cases h
          exact hgoto .loop fun hr => absurd hr hregister
  | registering => simp [NodeTasks.run, hpc] at h
  | confirmed =>
      simp only [NodeTasks.run, hpc, Option.some.injEq] at h
      exact h ▸ hgoto .loop fun hr _ => ⟨hr, .inl hpc⟩
  | refused =>
      simp only [NodeTasks.run, hpc, Option.some.injEq] at h
      exact h ▸ hgoto .panicked (by simp)
  | loop =>
      simp only [NodeTasks.run, hpc] at h
      split at h
      · cases h
      · cases h
        exact hinv.goto ht rfl rfl fun hp => ⟨hp.1, .inr (.inl hpc)⟩
      · cases h
        exact hinv.goto ht rfl rfl fun hp => ⟨hp.1, .inr (.inl hpc)⟩
      all_goals cases h
      all_goals exact hgoto _ fun hr _ => ⟨hr, .inr (.inl hpc)⟩
  | stopping =>
      simp only [NodeTasks.run, hpc] at h
      split at h
      · next hregister =>
          cases h
          refine (hgoto .leaving (by simp)).tell_deregister fun j u hu hname hpu => ?_
          -- the actor that stops was the only one present under its name
          have hpt : t.Present := ⟨hregister, .inr (.inr hpc)⟩
          by_cases hj : j = task
          · subst hj
            cases (hset _).symm.trans hu
            simp [Task.Present] at hpu
          · have hu' : w.tasks[j]? = some u := by
              rwa [List.getElem?_set_ne (Ne.symm hj)] at hu
            exact hj (hinv.reached.unique hu' ht hname hpu hpt)
      · next hregister =>
          cases h
          exact hgoto .leaving (by simp)
  | leaving =>
      simp only [NodeTasks.run, hpc, Option.some.injEq] at h
      exact h ▸ hgoto .stopped (by simp)
  | stopped => simp [NodeTasks.run, hpc] at h
  | panicked => simp [NodeTasks.run, hpc] at h

section Registry

variable [LawfulEqOrd U] [DecidableEq U]

/-- Taking a name out of the register is safe when no actor of that name is
present. -/
theorem Inv.erase (hinv : Inv w) {reg : Registry U} (hreg : w.registry = some reg)
    {name : ActorId U}
    (habsent : ∀ (task : Nat) (t : Task U S), w.tasks[task]? = some t → t.name = name →
      ¬ t.Present) : Inv { w with registry := some ⟨reg.register.erase name⟩ } := by
  refine ⟨fun i t ht hp => ⟨_, rfl, ?_⟩, hinv.absent, hinv.named⟩
  obtain ⟨reg', hreg', hget⟩ := hinv.reached i t ht hp
  cases hreg.symm.trans hreg'
  rw [getElem?_erase_eq, if_neg fun hname => habsent i t ht hname hp]
  exact hget

/-- The registry confirms an actor whose name is free and has no `Deregister`
ahead of it. -/
theorem Inv.confirm (hinv : Inv w) {reg : Registry U} (hreg : w.registry = some reg) {task : Nat}
    {t : Task U S} (ht : w.tasks[task]? = some t) (hfree : reg.register[t.name]? = none)
    (hclear : RegistryMsg.deregister t.name ∉ w.queue) :
    Inv { w.answer task true with registry := some ⟨reg.register.insert t.name task⟩ } := by
  have hget : ∀ (i : Nat) (u : Task U S), (w.answer task true).tasks[i]? = some u →
      ∃ v, w.tasks[i]? = some v ∧ u = if task = i then v.answer true else v := by
    intro i u hu
    simp only [answer, List.getElem?_modify] at hu
    obtain ⟨v, hv, hu⟩ := Option.map_eq_some_iff.mp hu
    exact ⟨v, hv, by rw [← hu]⟩
  have hname : ∀ v : Task U S, (v.answer true).name = v.name ∧
      (v.answer true).register = v.register := by
    intro v
    unfold Task.answer
    split <;> exact ⟨rfl, rfl⟩
  refine ⟨fun i u hu hp => ⟨_, rfl, ?_⟩, fun name hmem i u hu huname hp => ?_,
    fun name i hmem => ?_⟩
  · obtain ⟨v, hv, rfl⟩ := hget i u hu
    rw [getElem?_insert_eq]
    split at hp <;> rename_i hi
    · subst hi
      cases ht.symm.trans hv
      rw [if_pos rfl, if_pos (hname t).1]
    · rw [if_neg hi]
      obtain ⟨reg', hreg', hentry⟩ := hinv.reached i v hv hp
      cases hreg.symm.trans hreg'
      rw [if_neg, hentry]
      intro heq
      rw [heq, hfree] at hentry
      cases hentry
  · obtain ⟨v, hv, rfl⟩ := hget i u hu
    split at hp <;> rename_i hi
    · subst hi
      cases ht.symm.trans hv
      rw [if_pos rfl, (hname t).1] at huname
      exact hclear (huname ▸ hmem)
    · rw [if_neg hi] at huname
      exact hinv.absent name hmem i v hv huname hp
  · obtain ⟨v, hv, hvname, hregister⟩ := hinv.named name i hmem
    refine ⟨if task = i then v.answer true else v, ?_, ?_, ?_⟩
    · simp only [answer, List.getElem?_modify, hv]
      rfl
    · split
      · exact (hname v).1.trans hvname
      · exact hvname
    · split
      · exact (hname v).2.trans hregister
      · exact hregister

/-- The registry handles a message that is clear. -/
theorem Inv.handle (hinv : Inv w) (hclear : w.Clear serde .handle)
    (h : w.handle serde = some w') : Inv w' := by
  unfold NodeTasks.handle at h
  split at h
  · next reg msg queue hreg hqueue =>
      cases h
      simp only [Clear, ClearQueue, hqueue] at hclear
      -- the registry took the message before it looks at it
      have hpop : Inv { w with queue } :=
        hinv.evolve (fun msg h => .inl (hqueue ▸ List.mem_cons_of_mem _ h)) (evolves_refl _)
      cases msg with
      | forward mb =>
          obtain ⟨dest, hdest⟩ := Option.isSome_iff_exists.mp hclear
          simp only [recv, hdest]
          split
          · next recvr hentry =>
              split
              · next w'' hsend => exact hpop.send hsend
              · next hsend =>
                  -- the receiver failed, so its actor is not present
                  refine hpop.erase hreg fun i t ht hname hp => ?_
                  obtain ⟨reg', hreg', hget⟩ := hpop.reached i t ht hp
                  cases hreg.symm.trans hreg'
                  rw [hname, hentry] at hget
                  cases hget
                  simp only [NodeTasks.send] at hsend
                  rw [show w.tasks[recvr]? = some t from ht] at hsend
                  obtain ⟨-, hpc | hpc | hpc⟩ := hp <;>
                    simp [Task.mailboxClosed, hpc] at hsend
          · exact hpop
      | register name task =>
          simp only [recv]
          split
          · exact hpop.answer_false task
          · next hfree =>
              split
              · next t ht =>
                  split
                  · obtain ⟨t', ht', hname, -⟩ := hinv.named name task
                      (hqueue ▸ List.mem_cons_self)
                    cases ht.symm.trans ht'
                    subst hname
                    exact hpop.confirm hreg ht hfree (hclear reg hreg hfree)
                  · exact hpop
              · exact hpop
      | deregister name =>
          exact hpop.erase hreg (hinv.absent name (hqueue ▸ List.mem_cons_self))
  · cases h

theorem Inv.next {mv : Move U S} (hinv : Inv w) (hclear : w.Clear serde mv)
    (h : next serde w mv = some w') : Inv w' := by
  cases mv with
  | spawn name register =>
      cases h
      refine hinv.evolve (fun _ h => .inl h) ⟨fun i t' ht' hp => ?_, fun i t ht => ?_⟩
      · rcases getElem?_concat_cases ht' with ht' | ⟨-, rfl⟩
        · exact ⟨t', ht', rfl, hp⟩
        · simp [Task.Present] at hp
      · exact ⟨t, getElem?_concat_of_some _ ht, rfl, rfl⟩
  | run task =>
      obtain ⟨t, ht, h⟩ := Option.bind_eq_some_iff.mp h
      exact hinv.run ht h
  | send task msg => exact hinv.send h
  | forward mb =>
      cases h
      exact hinv.tell_forward mb
  | handle => exact hinv.handle hclear h

/-- Registered actors stay reachable in every run in which no message without a
destination is forwarded, and no actor is registered while a `Deregister` that
was sent for its name by an earlier actor is still queued. -/
theorem reached_of_clear (serde : Serde U S) (w : NodeTasks U S)
    (h : ((system serde).restrict (Clear serde)).Reachable w) : w.Reached := by
  have hinv : Inv w := by
    refine h.invariant (fun w hw => ?_) fun w mv w' _ hinv hst => hinv.next hst.2 hst.1
    rw [show w = start from hw]
    exact inv_start
  exact hinv.reached

/-! ### A stale `Deregister` -/

variable (serde) in
omit [LawfulEqOrd U] [DecidableEq U] in
/-- Whatever the registry handles, an actor that is present stays so, and the
channel keeps what is behind, unless the registry panics. -/
theorem recv_keeps {reg : Registry U} {task : Nat} {t : Task U S} (msg : RegistryMsg U)
    (hreg : w.registry = some reg) (ht : w.tasks[task]? = some t) (hp : t.Present) :
    (∃ t', (w.recv serde reg msg).tasks[task]? = some t' ∧ t'.name = t.name ∧ t'.Present) ∧
      ((w.recv serde reg msg).registry = none ∨
        (∃ reg', (w.recv serde reg msg).registry = some reg') ∧
          (w.recv serde reg msg).queue = w.queue) := by
  have hsame : ∀ b, t.answer b = t := by
    intro b
    unfold Task.answer
    rw [if_neg]
    obtain ⟨-, h | h | h⟩ := hp <;> simp [h]
  have hanswer : ∀ (i : Nat) (b : Bool), (w.answer i b).tasks[task]? = some t := by
    intro i b
    simp only [answer, List.getElem?_modify, ht]
    by_cases hi : i = task <;> simp [hi, hsame]
  have hstay : ∀ w' : NodeTasks U S, w'.tasks[task]? = some t → w'.registry.isSome →
      w'.queue = w.queue →
      (∃ t', w'.tasks[task]? = some t' ∧ t'.name = t.name ∧ t'.Present) ∧
        (w'.registry = none ∨ (∃ reg', w'.registry = some reg') ∧ w'.queue = w.queue) :=
    fun w' ht' hreg' hqueue => ⟨⟨t, ht', rfl, hp⟩,
      .inr ⟨Option.isSome_iff_exists.mp hreg', hqueue⟩⟩
  cases msg with
  | forward mb =>
      simp only [recv]
      split
      · refine ⟨⟨t, ?_, rfl, hp⟩, .inl rfl⟩
        simp [panic, ht, hsame]
      · split
        · split
          · next w'' hsend =>
              unfold NodeTasks.send at hsend
              split at hsend
              · cases hsend
              · split at hsend
                · cases hsend
                · cases hsend
                  refine ⟨?_, .inr ⟨⟨reg, hreg⟩, rfl⟩⟩
                  simp only [List.getElem?_modify, ht]
                  split
                  · exact ⟨_, rfl, rfl, hp⟩
                  · exact ⟨t, rfl, rfl, hp⟩
          · exact hstay _ ht rfl rfl
        · exact hstay _ ht (by rw [hreg]; rfl) rfl
  | register name i =>
      simp only [recv]
      split
      · exact hstay _ (hanswer i false) (by simp [answer, hreg]) rfl
      · split
        · split
          · exact hstay _ (hanswer i true) rfl rfl
          · exact hstay _ ht (by rw [hreg]; rfl) rfl
        · exact hstay _ ht (by rw [hreg]; rfl) rfl
  | deregister name => exact hstay _ ht rfl rfl

/-- The condition is needed: when a `Deregister` waits for the name of an actor
that is present, the registry loses the actor by handling its channel. -/
theorem lost_of_deregister_queued {task : Nat} {t : Task U S} (hreg : w.registry.isSome)
    (ht : w.tasks[task]? = some t) (hp : t.Present)
    (hmem : RegistryMsg.deregister t.name ∈ w.queue) :
    ∃ as w', (system serde).Run w as w' ∧ (∀ mv ∈ as, mv = Move.handle) ∧ ¬ w'.Reached := by
  suffices ∀ queue (w : NodeTasks U S) (t : Task U S), w.queue = queue → w.registry.isSome →
      w.tasks[task]? = some t → t.Present → RegistryMsg.deregister t.name ∈ queue →
      ∃ n w', (system serde).Run w (List.replicate n .handle) w' ∧ ¬ w'.Reached by
    obtain ⟨n, w', hrun, hlost⟩ := this _ w t rfl hreg ht hp hmem
    exact ⟨_, w', hrun, fun mv h => List.eq_of_mem_replicate h, hlost⟩
  intro queue
  induction queue with
  | nil => intro w t _ _ _ _ hmem; cases hmem
  | cons msg queue ih =>
      intro w t hqueue hreg ht hp hmem
      obtain ⟨reg, hreg⟩ := Option.isSome_iff_exists.mp hreg
      have hstep : (system serde).step w .handle ({ w with queue }.recv serde reg msg) := by
        simp only [system, System.ofNext, NodeTasks.next, NodeTasks.handle, hreg, hqueue]
      have hrun := System.Run.snoc .nil hstep
      obtain ⟨⟨t', ht', hname, hp'⟩, hnext⟩ :=
        recv_keeps (w := { w with queue }) serde msg hreg ht hp
      by_cases hlost : ({ w with queue }.recv serde reg msg).Reached
      · rcases hnext with hpanic | ⟨hreg', hqueue'⟩
        · obtain ⟨reg', hreg', -⟩ := hlost task t' ht' hp'
          rw [hpanic] at hreg'
          cases hreg'
        · rcases List.mem_cons.mp hmem with rfl | hmem
          · -- the stale `Deregister` takes the entry
            obtain ⟨reg', hreg', hentry⟩ := hlost task t' ht' hp'
            cases hreg'
            rw [getElem?_erase_eq, if_pos hname] at hentry
            cases hentry
          · obtain ⟨n, w', hrun', hlost'⟩ := ih _ t' hqueue'
              (Option.isSome_iff_exists.mpr hreg') ht' hp' (hname ▸ hmem)
            refine ⟨n + 1, w', ?_, hlost'⟩
            rw [List.replicate_succ]
            exact hrun.append hrun'
      · exact ⟨1, _, hrun, hlost⟩

end Registry

/-! ### An actor that is started again -/

section Restart

/-- The name of two actors that run one after the other. -/
def seat : ActorId Nat := ⟨1, "seat"⟩

/-- Destinations are for `seat`, whatever they are sent as. -/
def toSeat : Serde Nat Unit where
  destination _ := some ⟨seat, 1⟩
  deserializeAs _ _ _ _ := some (.msg ())

/-- A message without content for `seat`. -/
def knock : MessageBuilder where
  msgSize := 0
  maxSeqNum := 0
  seqsRecvd := [1]
  numRecvd := 1
  buf := List.replicate (DatagramHeader.size + 1) 0
  intp := .message

/-- The first actor registers, runs and is told to stop. -/
def firstActor : List (Move Nat Unit) :=
  [.spawn seat true, .run 0, .handle, .run 0, .send 0 .term, .run 0]

/-- The second actor starts after the first one is gone. -/
def orderly : List (Move Nat Unit) :=
  firstActor ++ [.run 0, .handle, .run 0, .spawn seat true, .run 1, .handle, .forward knock,
    .handle]

theorem reached_of_clear_orderly :
    ∃ w : NodeTasks Nat Unit, ((system toSeat).restrict (Clear toSeat)).Reachable w ∧
      (∃ t ∈ w.tasks[1]?, t.Present ∧ t.mailbox = [.serial (some (.msg ()))]) ∧ w.Reached := by
  obtain ⟨w, hw, hsecond⟩ :
      ∃ w ∈ System.execWhere (Clear toSeat) (next toSeat) start orderly,
        ∃ t ∈ w.tasks[1]?, t.Present ∧ t.mailbox = [.serial (some (.msg ()))] := by decide
  have h := System.reachable_of_execWhere orderly (.of_init rfl) hw
  exact ⟨w, h, hsecond, reached_of_clear toSeat w h⟩

/-- A message for the first actor and the registration of the second one come
into the channel before the `Deregister` of the first one, and the registry
handles them after its mailbox closed. -/
def restart : List (Move Nat Unit) :=
  firstActor ++ [.forward knock, .spawn seat true, .run 1, .run 0, .run 0, .handle, .handle,
    .handle]

/-- The second actor is confirmed and runs, but the register does not have it. -/
theorem restart_lost :
    ∃ w : NodeTasks Nat Unit, (system toSeat).Reachable w ∧ ¬ w.Reached := by
  obtain ⟨w, hw, ⟨t, ht, hp⟩, reg, hreg, hentry⟩ :
      ∃ w ∈ System.exec (next toSeat) start restart,
        (∃ t ∈ w.tasks[1]?, t.name = seat ∧ t.Present) ∧
          ∃ reg ∈ w.registry, reg.register[seat]? = none := by decide
  refine ⟨w, System.reachable_of_exec restart (.of_init rfl) hw, fun hreached => ?_⟩
  obtain ⟨reg', hreg', hget⟩ := hreached 1 t ht hp.2
  cases hreg.symm.trans hreg'
  rw [hp.1, hentry] at hget
  cases hget

end Restart

end NodeTasks

end AurumActors.Core
