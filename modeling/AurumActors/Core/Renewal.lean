/-
  Core/Renewal.lean --- actors that are started again under one name.

  An actor whose predecessors all sent their `Deregister` before it was spawned
  registers: its `Register` is behind theirs in the channel of the registry.
  The runs here keep that order, and what comes from the network can be read.
-/
import AurumActors.Core.Registry

set_option autoImplicit false

namespace AurumActors.Core

open AurumActors.Foundation Std

attribute [local instance] lexOrd

namespace Task

variable {U S : Type}

/-- The actor has sent its `Deregister`. -/
def Gone (t : Task U S) : Prop := t.pc = .leaving ∨ t.pc = .stopped

instance (t : Task U S) : Decidable t.Gone := inferInstanceAs (Decidable (_ ∨ _))

/-- A message that the loop of an actor can take. -/
def Readable : ActorMsg S → Prop
  | .msg _ | .serial (some _) => True
  | .serial none | .primaryRequest | .die => False

/-- The actor was not refused, and nothing in its mailbox will make it panic. -/
structure Sound (t : Task U S) : Prop where
  register : t.register = true
  confirmed : t.pc ≠ .refused ∧ t.pc ≠ .panicked
  mailbox : ∀ msg ∈ t.mailbox, Readable msg

/-- An actor is waiting for the registry, present, or gone. -/
theorem Sound.cases {t : Task U S} (h : t.Sound) :
    t.pc = .spawned ∨ t.pc = .registering ∨ t.Present ∨ t.Gone := by
  obtain ⟨hrefused, hpanicked⟩ := h.confirmed
  cases hpc : t.pc with
  | refused => exact absurd hpc hrefused
  | panicked => exact absurd hpc hpanicked
  | _ => simp [Present, Gone, hpc, h.register]

theorem Present.not_gone {t : Task U S} (h : t.Present) : ¬ t.Gone := by
  obtain ⟨-, hpc | hpc | hpc⟩ := h <;> simp [Gone, hpc]

end Task

namespace NodeTasks

variable {U S : Type} [Ord U] [TransOrd U]

/-! ## The runs -/

/-- The condition on a step: an actor is spawned to register, after all earlier
actors of its name have sent their `Deregister`, and a message from the network
can be read by its actor. -/
def Renews (serde : Serde U S) (w : NodeTasks U S) : Move U S → Prop
  | .spawn name register => register = true ∧ ∀ t ∈ w.tasks, t.name = name → t.Gone
  | .forward mb => ∃ dest, destinationOf serde mb = some dest ∧
      Task.Readable (serialOf serde dest mb)
  | _ => True

/-- What holds of a node in these runs. -/
structure Renewed (serde : Serde U S) (w : NodeTasks U S) : Prop where
  inv : Inv w
  alive : ∃ reg, w.registry = some reg
  sound : ∀ (i : Nat) (t : Task U S), w.tasks[i]? = some t → t.Sound
  /-- only the last actor of a name has not sent `Deregister` -/
  last : ∀ (i j : Nat) (t u : Task U S), i < j → w.tasks[i]? = some t → w.tasks[j]? = some u →
    t.name = u.name → t.Gone
  readable : ∀ mb, RegistryMsg.forward mb ∈ w.queue →
    ∃ dest, destinationOf serde mb = some dest ∧ Task.Readable (serialOf serde dest mb)
  waiting : ∀ (name : ActorId U) (i : Nat), RegistryMsg.register name i ∈ w.queue →
    ∃ t, w.tasks[i]? = some t ∧ t.name = name ∧ t.pc = .registering
  /-- behind a `Register` is nothing else about its name -/
  ordered : w.queue.Pairwise fun a b => ∀ (name : ActorId U) (i : Nat), a = .register name i →
    b ≠ .deregister name ∧ ∀ j, b ≠ .register name j
  /-- an entry is of an actor that is present, or its `Deregister` is on its way -/
  entries : ∀ (reg : Registry U) (name : ActorId U) (i : Nat), w.registry = some reg →
    reg.register[name]? = some i →
      (∃ t, w.tasks[i]? = some t ∧ t.name = name ∧ t.Present) ∨
        RegistryMsg.deregister name ∈ w.queue

variable {serde : Serde U S} {w w' : NodeTasks U S}

theorem renewed_start : Renewed serde (start : NodeTasks U S) where
  inv := inv_start
  alive := ⟨_, rfl⟩
  sound := by simp [start]
  last := by simp [start]
  readable := by simp [start]
  waiting := by simp [start]
  ordered := .nil
  entries reg name i hreg h := by
    cases hreg
    simp at h

/-- Two actors of one name that have not sent their `Deregister` are one. -/
theorem Renewed.unique (h : Renewed serde w) {i j : Nat} {t u : Task U S}
    (ht : w.tasks[i]? = some t) (hu : w.tasks[j]? = some u) (hname : t.name = u.name)
    (hpt : ¬ t.Gone) (hpu : ¬ u.Gone) : i = j := by
  rcases Nat.lt_trichotomy i j with hij | hij | hij
  · exact absurd (h.last i j t u hij ht hu hname) hpt
  · exact hij
  · exact absurd (h.last j i u t hij hu ht hname.symm) hpu

/-! ## One task moves -/

/-- A task moves and keeps its name, and keeps being gone. -/
theorem Renewed.last_set (h : Renewed serde w) {task : Nat} {t u : Task U S}
    (ht : w.tasks[task]? = some t) (hname : u.name = t.name) (hgone : t.Gone → u.Gone)
    (i j : Nat) (v v' : Task U S) (hij : i < j) (hv : (w.tasks.set task u)[i]? = some v)
    (hv' : (w.tasks.set task u)[j]? = some v') (heq : v.name = v'.name) : v.Gone := by
  rcases getElem?_set_cases ht hv with ⟨rfl, rfl⟩ | ⟨-, hold⟩
  · rcases getElem?_set_cases ht hv' with ⟨rfl, -⟩ | ⟨-, hold'⟩
    · exact absurd hij (Nat.lt_irrefl _)
    · exact hgone (h.last _ _ _ _ hij ht hold' (hname.symm.trans heq))
  · rcases getElem?_set_cases ht hv' with ⟨rfl, rfl⟩ | ⟨-, hold'⟩
    · exact h.last _ _ _ _ hij hold ht (heq.trans hname)
    · exact h.last _ _ _ _ hij hold hold' heq

/-- A task moves without a change to the registry: it does not stop waiting for
it, and does not stop being present. -/
theorem Renewed.set (h : Renewed serde w) {task : Nat} {t u : Task U S}
    (ht : w.tasks[task]? = some t) (hname : u.name = t.name) (hsound : u.Sound)
    (hgone : t.Gone → u.Gone) (hwait : t.pc = .registering → u.pc = .registering)
    (hkeep : t.Present → u.Present) (hpresent : u.Present → t.Present) :
    Renewed serde { w with tasks := w.tasks.set task u } := by
  have hstay : ∀ (i : Nat) (v : Task U S), w.tasks[i]? = some v →
      ∃ v', (w.tasks.set task u)[i]? = some v' ∧ v'.name = v.name ∧
        (v.pc = .registering → v'.pc = .registering) ∧ (v.Present → v'.Present) := by
    intro i v hv
    by_cases hi : i = task
    · subst hi
      cases ht.symm.trans hv
      exact ⟨u, getElem?_set_of_some u ht, hname, hwait, hkeep⟩
    · exact ⟨v, (List.getElem?_set_ne (Ne.symm hi)).trans hv, rfl, id, id⟩
  refine ⟨h.inv.goto ht hname ?_ hpresent, h.alive, fun i v hv => ?_, h.last_set ht hname hgone,
    h.readable, fun name i hmem => ?_, h.ordered, fun reg name i hreg hentry => ?_⟩
  · rw [hsound.register, (h.sound task t ht).register]
  · rcases getElem?_set_cases ht hv with ⟨-, rfl⟩ | ⟨-, hv⟩
    · exact hsound
    · exact h.sound i v hv
  · obtain ⟨v, hv, hvname, hpc⟩ := h.waiting name i hmem
    obtain ⟨v', hv', hname', hwait', -⟩ := hstay i v hv
    exact ⟨v', hv', hname'.trans hvname, hwait' hpc⟩
  · refine (h.entries reg name i hreg hentry).imp_left fun ⟨v, hv, hvname, hp⟩ => ?_
    obtain ⟨v', hv', hname', -, hkeep'⟩ := hstay i v hv
    exact ⟨v', hv', hname'.trans hvname, hkeep' hp⟩

/-- A message comes into a mailbox. -/
theorem Renewed.send (h : Renewed serde w) {task : Nat} (msg : ActorMsg S)
    (hmsg : Task.Readable msg) (hsend : w.send task msg = some w') : Renewed serde w' := by
  unfold NodeTasks.send at hsend
  split at hsend
  · cases hsend
  · next t ht =>
      split at hsend
      · cases hsend
      · cases hsend
        have hset : w.tasks.modify task (fun t => { t with mailbox := t.mailbox ++ [msg] }) =
            w.tasks.set task { t with mailbox := t.mailbox ++ [msg] } := modify_of_some _ ht
        rw [hset]
        have hsound := h.sound task t ht
        refine h.set ht rfl ⟨hsound.register, hsound.confirmed, fun x hx => ?_⟩ id id id id
        rcases List.mem_append.mp hx with hx | hx
        · exact hsound.mailbox x hx
        · exact List.mem_singleton.mp hx ▸ hmsg

/-- The registry takes the head of its channel, which is not a `Deregister`. -/
theorem Renewed.pop (h : Renewed serde w) {msg : RegistryMsg U} {queue : List (RegistryMsg U)}
    (hqueue : w.queue = msg :: queue) (hmsg : ∀ name, msg ≠ .deregister name) :
    Renewed serde { w with queue } := by
  have hsub : ∀ x ∈ queue, x ∈ w.queue := fun x hx => hqueue ▸ List.mem_cons_of_mem _ hx
  refine ⟨h.inv.evolve (fun x hx => .inl (hsub x hx)) (evolves_refl _), h.alive, h.sound, h.last,
    fun mb hmem => h.readable mb (hsub _ hmem), fun name i hmem => h.waiting name i (hsub _ hmem),
    ?_, fun reg name i hreg hentry => ?_⟩
  · have hordered := h.ordered
    rw [hqueue] at hordered
    exact (List.pairwise_cons.mp hordered).2
  · refine (h.entries reg name i hreg hentry).imp_right fun hmem => ?_
    rw [hqueue] at hmem
    exact (List.mem_cons.mp hmem).resolve_left (hmsg name).symm

/-! ## Registering -/

omit [TransOrd U] in
theorem tell_of_alive (w : NodeTasks U S) (hreg : w.registry.isSome = true)
    (msg : RegistryMsg U) : w.tell msg = { w with queue := w.queue ++ [msg] } := by
  simp only [tell, if_pos hreg]

/-- An actor sends its `Register`: nothing about its name is behind it, and no
other `Register` of its name is in front. -/
theorem Renewed.sendRegister (h : Renewed serde w) {task : Nat} {t : Task U S}
    (ht : w.tasks[task]? = some t) (hpc : t.pc = .spawned) :
    Renewed serde { w with
      queue := w.queue ++ [.register t.name task]
      tasks := w.tasks.set task { t with pc := .registering } } := by
  have hsound := h.sound task t ht
  have hnot : ¬ t.Gone := by simp [Task.Gone, hpc]
  have halive := Option.isSome_iff_exists.mpr h.alive
  have hself : (w.tasks.set task { t with pc := .registering })[task]? =
      some { t with pc := .registering } := getElem?_set_of_some _ ht
  have hkeep : ∀ (i : Nat) (v : Task U S), v.pc ≠ .spawned → w.tasks[i]? = some v →
      (w.tasks.set task { t with pc := .registering })[i]? = some v := by
    intro i v hv hi
    rw [List.getElem?_set_ne, hi]
    rintro rfl
    cases ht.symm.trans hi
    exact hv hpc
  have hinv : Inv { w with
      queue := w.queue ++ [.register t.name task]
      tasks := w.tasks.set task { t with pc := .registering } } := by
    have hgoto := h.inv.goto ht (u := { t with pc := .registering }) rfl rfl
      (by simp [Task.Present])
    have htell := hgoto.tell_register hself hsound.register
    rw [tell_of_alive] at htell
    · exact htell
    · exact halive
  refine ⟨hinv, h.alive, fun i v hv => ?_, h.last_set ht rfl (fun hg => absurd hg hnot),
    fun mb hmem => ?_, fun name i hmem => ?_, ?_, fun reg' name i hreg' hentry => ?_⟩
  · rcases getElem?_set_cases ht hv with ⟨-, rfl⟩ | ⟨-, hv⟩
    · exact ⟨hsound.register, by simp, hsound.mailbox⟩
    · exact h.sound i v hv
  · rcases List.mem_append.mp hmem with hmem | hmem
    · exact h.readable mb hmem
    · simp at hmem
  · rcases List.mem_append.mp hmem with hmem | hmem
    · obtain ⟨v, hv, hname, hwait⟩ := h.waiting name i hmem
      exact ⟨v, hkeep i v (by simp [hwait]) hv, hname, hwait⟩
    · cases List.mem_singleton.mp hmem
      exact ⟨_, hself, rfl, rfl⟩
  · refine List.pairwise_append.mpr ⟨h.ordered, List.pairwise_singleton .., ?_⟩
    intro a ha b hb name i heq
    cases List.mem_singleton.mp hb
    refine ⟨by simp, fun j hj => ?_⟩
    cases hj
    -- a registering actor of the name would be another one that is not gone
    subst heq
    obtain ⟨v, hv, hname, hwait⟩ := h.waiting _ i ha
    have := h.unique hv ht hname (by simp [Task.Gone, hwait]) hnot
    subst this
    cases ht.symm.trans hv
    rw [hpc] at hwait
    cases hwait
  · rcases h.entries reg' name i hreg' hentry with ⟨v, hv, hname, hp⟩ | hmem
    · refine .inl ⟨v, hkeep i v ?_ hv, hname, hp⟩
      obtain ⟨-, hpc | hpc | hpc⟩ := hp <;> simp [hpc]
    · exact .inr (List.mem_append_left _ hmem)

/-- An actor sends its `Deregister`: no `Register` of its name is in front. -/
theorem Renewed.sendDeregister (h : Renewed serde w) {task : Nat} {t : Task U S}
    (ht : w.tasks[task]? = some t) (hpc : t.pc = .stopping) :
    Renewed serde { w with
      queue := w.queue ++ [.deregister t.name]
      tasks := w.tasks.set task { t with pc := .leaving } } := by
  have hsound := h.sound task t ht
  have hnot : ¬ t.Gone := by simp [Task.Gone, hpc]
  have hkeep : ∀ (i : Nat) (v : Task U S), i ≠ task → w.tasks[i]? = some v →
      (w.tasks.set task { t with pc := .leaving })[i]? = some v :=
    fun i v hi hv => (List.getElem?_set_ne (Ne.symm hi)).trans hv
  have halive := Option.isSome_iff_exists.mpr h.alive
  have hinv : Inv { w with
      queue := w.queue ++ [.deregister t.name]
      tasks := w.tasks.set task { t with pc := .leaving } } := by
    have hrun : w.run task t = some ({ w with
        tasks := w.tasks.set task { t with pc := .leaving } }.tell (.deregister t.name)) := by
      simp only [NodeTasks.run, hpc, hsound.register, if_true]
    have htell := h.inv.run ht hrun
    rw [tell_of_alive] at htell
    · exact htell
    · exact halive
  refine ⟨hinv, h.alive, fun i v hv => ?_, h.last_set ht rfl (fun hg => absurd hg hnot),
    fun mb hmem => ?_, fun name i hmem => ?_, ?_, fun reg' name i hreg' hentry => ?_⟩
  · rcases getElem?_set_cases ht hv with ⟨-, rfl⟩ | ⟨-, hv⟩
    · exact ⟨hsound.register, by simp, hsound.mailbox⟩
    · exact h.sound i v hv
  · rcases List.mem_append.mp hmem with hmem | hmem
    · exact h.readable mb hmem
    · simp at hmem
  · rcases List.mem_append.mp hmem with hmem | hmem
    · obtain ⟨v, hv, hname, hwait⟩ := h.waiting name i hmem
      refine ⟨v, hkeep i v ?_ hv, hname, hwait⟩
      rintro rfl
      cases ht.symm.trans hv
      rw [hpc] at hwait
      cases hwait
    · simp at hmem
  · refine List.pairwise_append.mpr ⟨h.ordered, List.pairwise_singleton .., ?_⟩
    intro a ha b hb name i heq
    cases List.mem_singleton.mp hb
    refine ⟨fun hj => ?_, by simp⟩
    cases hj
    subst heq
    obtain ⟨v, hv, hname, hwait⟩ := h.waiting _ i ha
    have := h.unique hv ht hname (by simp [Task.Gone, hwait]) hnot
    subst this
    cases ht.symm.trans hv
    rw [hpc] at hwait
    cases hwait
  · rcases h.entries reg' name i hreg' hentry with ⟨v, hv, hname, hp⟩ | hmem
    · by_cases hi : i = task
      · subst hi
        cases ht.symm.trans hv
        exact .inr (List.mem_append_right _ (by simp [hname]))
      · exact .inl ⟨v, hkeep i v hi hv, hname, hp⟩
    · exact .inr (List.mem_append_left _ hmem)

/-- A task takes its next step. -/
theorem Renewed.run (h : Renewed serde w) {task : Nat} {t : Task U S}
    (ht : w.tasks[task]? = some t) (hrun : w.run task t = some w') : Renewed serde w' := by
  have halive := Option.isSome_iff_exists.mpr h.alive
  have hsound := h.sound task t ht
  have hgoto : ∀ pc, t.pc ≠ .registering → ¬ t.Gone ∨ pc = .stopped → pc ≠ .refused →
      pc ≠ .panicked → (t.Present ↔ ({ t with pc } : Task U S).Present) →
        Renewed serde { w with tasks := w.tasks.set task { t with pc } } := by
    intro pc hwait hgone hrefused hpanicked hpresent
    refine h.set ht rfl ⟨hsound.register, ⟨hrefused, hpanicked⟩, hsound.mailbox⟩ (fun hg => ?_)
      (fun hw => absurd hw hwait) hpresent.mp hpresent.mpr
    exact hgone.elim (absurd hg) .inr
  cases hpc : t.pc with
  | spawned =>
      simp only [NodeTasks.run, hpc, if_pos hsound.register, Option.some.injEq] at hrun
      rw [tell_of_alive] at hrun
      · exact hrun ▸ h.sendRegister ht hpc
      · exact halive
  | registering => simp [NodeTasks.run, hpc] at hrun
  | confirmed =>
      simp only [NodeTasks.run, hpc, Option.some.injEq] at hrun
      exact hrun ▸ hgoto .loop (by simp [hpc]) (.inl (by simp [Task.Gone, hpc])) (by simp)
        (by simp) (by simp [Task.Present, hpc])
  | refused => exact absurd hpc hsound.confirmed.1
  | loop =>
      have hgone : ¬ t.Gone := by simp [Task.Gone, hpc]
      have hstop : Renewed serde
          { w with tasks := w.tasks.set task { t with pc := .stopping } } :=
        hgoto .stopping (by simp [hpc]) (.inl hgone) (by simp) (by simp)
          (by simp [Task.Present, hpc])
      have htake : ∀ msg mailbox, t.mailbox = msg :: mailbox →
          Renewed serde { w with tasks := w.tasks.set task { t with mailbox } } := by
        intro msg mailbox hmailbox
        refine h.set ht rfl ⟨hsound.register, hsound.confirmed, fun x hx => ?_⟩ id id id id
        exact hsound.mailbox x (hmailbox ▸ List.mem_cons_of_mem _ hx)
      have hread : ∀ msg mailbox, t.mailbox = msg :: mailbox → Task.Readable msg :=
        fun msg mailbox hmailbox => hsound.mailbox msg (hmailbox ▸ List.mem_cons_self)
      simp only [NodeTasks.run, hpc] at hrun
      split at hrun
      · cases hrun
      · next m mailbox hmailbox =>
          cases hrun
          rw [← hpc]
          exact htake _ _ hmailbox
      · next m mailbox hmailbox =>
          cases hrun
          rw [← hpc]
          exact htake _ _ hmailbox
      · cases hrun
        exact hstop
      · cases hrun
        exact hstop
      all_goals next hmailbox => exact (hread _ _ hmailbox).elim
  | stopping =>
      simp only [NodeTasks.run, hpc, if_pos hsound.register, Option.some.injEq] at hrun
      rw [tell_of_alive] at hrun
      · exact hrun ▸ h.sendDeregister ht hpc
      · exact halive
  | leaving =>
      simp only [NodeTasks.run, hpc, Option.some.injEq] at hrun
      exact hrun ▸ hgoto .stopped (by simp [hpc]) (.inr rfl) (by simp) (by simp)
        (by simp [Task.Present, hpc])
  | stopped => simp [NodeTasks.run, hpc] at hrun
  | panicked => exact absurd hpc hsound.confirmed.2

omit [TransOrd U] in
/-- A step of a task changes that task alone, and forwards no message. -/
theorem run_tasks (halive : w.registry.isSome = true) {task : Nat} {t : Task U S}
    (hrun : w.run task t = some w') :
    (∃ u, w'.tasks = w.tasks.set task u ∧ u.name = t.name) ∧
      ∀ mb, RegistryMsg.forward mb ∈ w'.queue → RegistryMsg.forward mb ∈ w.queue := by
  have hgoto : ∀ pc, w' = { w with tasks := w.tasks.set task { t with pc } } →
      (∃ u, w'.tasks = w.tasks.set task u ∧ u.name = t.name) ∧
        ∀ mb, RegistryMsg.forward mb ∈ w'.queue → RegistryMsg.forward mb ∈ w.queue := by
    rintro pc rfl
    exact ⟨⟨_, rfl, rfl⟩, fun _ h => h⟩
  have htell : ∀ pc msg, (∀ mb, msg ≠ .forward mb) →
      w' = ({ w with tasks := w.tasks.set task { t with pc } } : NodeTasks U S).tell msg →
      (∃ u, w'.tasks = w.tasks.set task u ∧ u.name = t.name) ∧
        ∀ mb, RegistryMsg.forward mb ∈ w'.queue → RegistryMsg.forward mb ∈ w.queue := by
    intro pc msg hmsg heq
    rw [tell_of_alive] at heq
    · subst heq
      refine ⟨⟨_, rfl, rfl⟩, fun mb hmem => ?_⟩
      exact (List.mem_append.mp hmem).resolve_right fun hm =>
        hmsg mb (List.mem_singleton.mp hm).symm
    · exact halive
  unfold NodeTasks.run at hrun
  split at hrun
  · split at hrun
    · exact htell .registering _ (by simp) (Option.some.inj hrun).symm
    · exact hgoto _ (Option.some.inj hrun).symm
  · cases hrun
  · exact hgoto _ (Option.some.inj hrun).symm
  · exact hgoto _ (Option.some.inj hrun).symm
  · split at hrun
    · cases hrun
    all_goals
      cases hrun
      exact ⟨⟨_, rfl, rfl⟩, fun _ h => h⟩
  · split at hrun
    · exact htell .leaving _ (by simp) (Option.some.inj hrun).symm
    · exact hgoto _ (Option.some.inj hrun).symm
  · exact hgoto _ (Option.some.inj hrun).symm
  · cases hrun
  · cases hrun

/-! ## The registry -/

/-- What is about to be handled meets the condition under which actors stay
reachable. -/
theorem Renewed.clear (h : Renewed serde w) (mv : Move U S) : w.Clear serde mv := by
  cases mv with
  | handle =>
      show ClearQueue serde w.registry w.queue
      unfold ClearQueue
      split
      · next mb queue hqueue =>
          obtain ⟨dest, hdest, -⟩ := h.readable mb (by simp [hqueue])
          rw [hdest]
          rfl
      · next name i queue hqueue =>
          intro reg _ _ hmem
          have hordered := h.ordered
          rw [hqueue] at hordered
          exact ((List.pairwise_cons.mp hordered).1 _ hmem name i rfl).1 rfl
      · trivial
  | _ => trivial

/-- The name of an actor whose `Register` is next is free. -/
theorem Renewed.free (h : Renewed serde w) {reg : Registry U} {name : ActorId U} {task : Nat}
    {queue : List (RegistryMsg U)} (hreg : w.registry = some reg)
    (hqueue : w.queue = .register name task :: queue) : reg.register[name]? = none := by
  obtain ⟨t, ht, hname, hpc⟩ := h.waiting name task (by simp [hqueue])
  rcases hentry : reg.register[name]? with _ | i
  · rfl
  · rcases h.entries reg name i hreg hentry with ⟨u, hu, huname, hp⟩ | hmem
    · have hit := h.unique hu ht (huname.trans hname.symm) hp.not_gone (by simp [Task.Gone, hpc])
      subst hit
      cases ht.symm.trans hu
      simp [Task.Present, hpc] at hp
    · rw [hqueue] at hmem
      have hordered := h.ordered
      rw [hqueue] at hordered
      rcases List.mem_cons.mp hmem with hmem | hmem
      · cases hmem
      · exact absurd rfl ((List.pairwise_cons.mp hordered).1 _ hmem name task rfl).1

section Registry

variable [LawfulEqOrd U] [DecidableEq U]

/-- The registry confirms the actor whose `Register` is next. -/
theorem Renewed.confirm (h : Renewed serde w) {reg : Registry U} {name : ActorId U} {task : Nat}
    {queue : List (RegistryMsg U)} (hreg : w.registry = some reg)
    (hqueue : w.queue = .register name task :: queue) (hinv : Inv
      { ({ w with queue } : NodeTasks U S).answer task true with
        registry := some ⟨reg.register.insert name task⟩ }) :
    Renewed serde { ({ w with queue } : NodeTasks U S).answer task true with
      registry := some ⟨reg.register.insert name task⟩ } := by
  obtain ⟨t, ht, hname, hpc⟩ := h.waiting name task (by simp [hqueue])
  have hsound := h.sound task t ht
  have hpop := h.pop hqueue (by simp)
  have hself : ({ w with queue } : NodeTasks U S).answer task true =
      { w with queue, tasks := w.tasks.set task { t with pc := .confirmed } } := by
    have hanswer : t.answer true = { t with pc := .confirmed } := by simp [Task.answer, hpc]
    simp only [answer]
    rw [modify_of_some _ ht, hanswer]
  have hkeep : ∀ (i : Nat) (v : Task U S), i ≠ task → w.tasks[i]? = some v →
      (w.tasks.set task { t with pc := .confirmed })[i]? = some v :=
    fun i v hi hv => (List.getElem?_set_ne (Ne.symm hi)).trans hv
  rw [hself] at hinv ⊢
  refine ⟨hinv, ⟨_, rfl⟩, fun i v hv => ?_,
    h.last_set ht rfl fun hg => absurd hg (by simp [Task.Gone, hpc]), hpop.readable,
    fun name' i hmem => ?_, hpop.ordered, fun reg' name' i hreg' hentry => ?_⟩
  · rcases getElem?_set_cases ht hv with ⟨-, rfl⟩ | ⟨-, hv⟩
    · exact ⟨hsound.register, by simp, hsound.mailbox⟩
    · exact h.sound i v hv
  · -- the actor has no second `Register` behind
    obtain ⟨v, hv, hvname, hwait⟩ := hpop.waiting name' i hmem
    refine ⟨v, hkeep i v ?_ hv, hvname, hwait⟩
    rintro rfl
    cases ht.symm.trans hv
    subst hname
    subst hvname
    have hordered := h.ordered
    rw [hqueue] at hordered
    exact ((List.pairwise_cons.mp hordered).1 _ hmem t.name i rfl).2 i rfl
  · cases hreg'
    rw [getElem?_insert_eq] at hentry
    split at hentry
    · next heq =>
        cases hentry
        refine .inl ⟨{ t with pc := .confirmed }, ?_, hname.trans heq.symm, hsound.register,
          .inl rfl⟩
        exact getElem?_set_of_some _ ht
    · refine (hpop.entries reg name' i hreg hentry).imp_left fun hpresent => ?_
      obtain ⟨v, hv, hvname, hp⟩ := hpresent
      refine ⟨v, hkeep i v ?_ hv, hvname, hp⟩
      rintro rfl
      cases ht.symm.trans hv
      simp [Task.Present, hpc] at hp

/-- The registry takes an entry out, and what is behind in the channel stays. -/
theorem Renewed.erase (h : Renewed serde w) {reg : Registry U} {name : ActorId U}
    {queue : List (RegistryMsg U)} (hreg : w.registry = some reg)
    (hsub : ∀ msg ∈ queue, msg ∈ w.queue) (hordered : queue.Sublist w.queue)
    (hother : ∀ name', name' ≠ name → RegistryMsg.deregister name' ∈ w.queue →
      RegistryMsg.deregister name' ∈ queue)
    (hinv : Inv { w with queue, registry := some ⟨reg.register.erase name⟩ }) :
    Renewed serde { w with queue, registry := some ⟨reg.register.erase name⟩ } := by
  refine ⟨hinv, ⟨_, rfl⟩, h.sound, h.last, fun mb hmem => h.readable mb (hsub _ hmem),
    fun name' i hmem => h.waiting name' i (hsub _ hmem), h.ordered.sublist hordered,
    fun reg' name' i hreg' hentry => ?_⟩
  cases hreg'
  rw [getElem?_erase_eq] at hentry
  split at hentry
  · cases hentry
  · next hne => exact (h.entries reg name' i hreg hentry).imp_right (hother name' hne)

/-- The registry handles the next message of its channel. -/
theorem Renewed.handle (h : Renewed serde w) (hhandle : w.handle serde = some w') :
    Renewed serde w' := by
  have hinv := h.inv.handle (h.clear .handle) hhandle
  unfold NodeTasks.handle at hhandle
  split at hhandle
  · next reg msg queue hreg hqueue =>
      have hsub : ∀ x ∈ queue, x ∈ w.queue := fun x hx => hqueue ▸ List.mem_cons_of_mem _ hx
      have hlist : queue.Sublist w.queue := hqueue ▸ List.sublist_cons_self ..
      simp only [Option.some.injEq] at hhandle
      subst hhandle
      cases msg with
      | forward mb =>
          obtain ⟨dest, hdest, hread⟩ := h.readable mb (by simp [hqueue])
          have hpop := h.pop hqueue (by simp)
          simp only [recv, hdest] at hinv ⊢
          split
          · next recvr hentry =>
              simp only [hentry] at hinv
              split
              · next w'' hsend => exact hpop.send _ hread hsend
              · next hsend =>
                  simp only [hsend] at hinv
                  refine h.erase hreg hsub hlist (fun name' _ hmem => ?_) hinv
                  rw [hqueue] at hmem
                  exact (List.mem_cons.mp hmem).resolve_left (by simp)
          · exact hpop
      | register name task =>
          obtain ⟨t, ht, hname, hpc⟩ := h.waiting name task (by simp [hqueue])
          simp only [recv, h.free hreg hqueue, ht, hpc, if_true] at hinv ⊢
          exact h.confirm hreg hqueue hinv
      | deregister name =>
          refine h.erase hreg hsub hlist (fun name' hne hmem => ?_) hinv
          rw [hqueue] at hmem
          refine (List.mem_cons.mp hmem).resolve_left fun heq => hne ?_
          cases heq
          rfl
  · cases hhandle

omit [LawfulEqOrd U] [DecidableEq U] in
/-- The registry keeps the number of tasks, and sends nothing to itself. -/
theorem handle_frame (hhandle : w.handle serde = some w') :
    w'.tasks.length = w.tasks.length ∧ ∀ msg ∈ w'.queue, msg ∈ w.queue := by
  unfold NodeTasks.handle at hhandle
  split at hhandle
  · next reg msg queue hreg hqueue =>
      have hsub : ∀ x ∈ queue, x ∈ w.queue := fun x hx => hqueue ▸ List.mem_cons_of_mem _ hx
      simp only [Option.some.injEq] at hhandle
      subst hhandle
      cases msg with
      | forward mb =>
          simp only [recv]
          split
          · exact ⟨List.length_map _, fun x hx => absurd hx List.not_mem_nil⟩
          · split
            · split
              · next w'' hsend =>
                  unfold NodeTasks.send at hsend
                  split at hsend
                  · cases hsend
                  · split at hsend <;> cases hsend
                    exact ⟨List.length_modify .., hsub⟩
              · exact ⟨rfl, hsub⟩
            · exact ⟨rfl, hsub⟩
      | register name task =>
          simp only [recv]
          split
          · exact ⟨List.length_modify .., hsub⟩
          · split
            · split
              · exact ⟨List.length_modify .., hsub⟩
              · exact ⟨rfl, hsub⟩
            · exact ⟨rfl, hsub⟩
      | deregister name => exact ⟨rfl, hsub⟩
  · cases hhandle

omit [LawfulEqOrd U] [DecidableEq U] in
/-- What the registry does to a task: it confirms it, or a message of the channel
comes into its mailbox. -/
theorem Renewed.handle_tasks (h : Renewed serde w) (hhandle : w.handle serde = some w') {i : Nat}
    {t : Task U S} (ht : w.tasks[i]? = some t) :
    ∃ t', w'.tasks[i]? = some t' ∧ t'.name = t.name ∧
      (t'.pc = t.pc ∨ t.pc = .registering ∧ t'.pc = .confirmed) ∧
      ∀ msg ∈ t'.mailbox, msg ∈ t.mailbox ∨ ∃ mb dest, RegistryMsg.forward mb ∈ w.queue ∧
        destinationOf serde mb = some dest ∧ msg = serialOf serde dest mb := by
  have hstay : ∃ t', w.tasks[i]? = some t' ∧ t'.name = t.name ∧
      (t'.pc = t.pc ∨ t.pc = .registering ∧ t'.pc = .confirmed) ∧
      ∀ msg ∈ t'.mailbox, msg ∈ t.mailbox ∨ ∃ mb dest, RegistryMsg.forward mb ∈ w.queue ∧
        destinationOf serde mb = some dest ∧ msg = serialOf serde dest mb :=
    ⟨t, ht, rfl, .inl rfl, fun _ h => .inl h⟩
  unfold NodeTasks.handle at hhandle
  split at hhandle
  · next reg msg queue hreg hqueue =>
      simp only [Option.some.injEq] at hhandle
      subst hhandle
      cases msg with
      | forward mb =>
          have hmem : RegistryMsg.forward mb ∈ w.queue := by simp [hqueue]
          obtain ⟨dest, hdest, -⟩ := h.readable mb hmem
          simp only [recv, hdest]
          split
          · split
            · next w'' hsend =>
                unfold NodeTasks.send at hsend
                split at hsend
                · cases hsend
                · split at hsend
                  · cases hsend
                  · cases hsend
                    simp only [List.getElem?_modify, ht]
                    split
                    · refine ⟨_, rfl, rfl, .inl rfl, fun msg hmsg => ?_⟩
                      rcases List.mem_append.mp hmsg with hmsg | hmsg
                      · exact .inl hmsg
                      · exact .inr ⟨mb, dest, hmem, hdest, List.mem_singleton.mp hmsg⟩
                    · exact ⟨_, rfl, rfl, .inl rfl, fun _ h => .inl h⟩
            · exact hstay
          · exact hstay
      | register name task =>
          obtain ⟨u, hu, -, hpc⟩ := h.waiting name task (by simp [hqueue])
          simp only [recv, h.free hreg hqueue, hu, hpc, if_true, answer, List.getElem?_modify, ht]
          split
          · next hi =>
              subst hi
              cases ht.symm.trans hu
              refine ⟨_, rfl, ?_⟩
              simp only [Task.answer, hpc, if_true]
              exact ⟨trivial, .inr ⟨trivial, trivial⟩, fun _ h => .inl h⟩
          · exact ⟨_, rfl, rfl, .inl rfl, fun _ h => .inl h⟩
      | deregister name => exact hstay
  · cases hhandle

/-! ## The steps -/

theorem Renewed.spawn (h : Renewed serde w) {name : ActorId U}
    (hgone : ∀ t ∈ w.tasks, t.name = name → t.Gone) :
    Renewed serde { w with tasks := w.tasks ++ [⟨name, true, .spawned, []⟩] } := by
  refine ⟨h.inv.next (show w.Clear serde (.spawn name true) from trivial) rfl, h.alive,
    fun i v hv => ?_, fun i j v v' hij hv hv' heq => ?_, h.readable, fun name' i hmem => ?_,
    h.ordered, fun reg name' i hreg hentry => ?_⟩
  · rcases getElem?_concat_cases hv with hv | ⟨-, rfl⟩
    · exact h.sound i v hv
    · exact ⟨rfl, by simp, by simp⟩
  · rcases getElem?_concat_cases hv with hold | ⟨rfl, rfl⟩
    · rcases getElem?_concat_cases hv' with hold' | ⟨-, rfl⟩
      · exact h.last i j v v' hij hold hold' heq
      · exact hgone v (List.mem_of_getElem? hold) heq
    · have := (List.getElem?_eq_some_iff.mp hv').1
      simp only [List.length_append, List.length_singleton] at this
      omega
  · obtain ⟨v, hv, hvname, hwait⟩ := h.waiting name' i hmem
    exact ⟨v, getElem?_concat_of_some _ hv, hvname, hwait⟩
  · refine (h.entries reg name' i hreg hentry).imp_left fun ⟨v, hv, hvname, hp⟩ => ?_
    exact ⟨v, getElem?_concat_of_some _ hv, hvname, hp⟩

/-- A step that meets the condition. -/
theorem Renewed.next (h : Renewed serde w) (mv : Move U S) (hmv : w.Renews serde mv)
    (hnext : next serde w mv = some w') : Renewed serde w' := by
  cases mv with
  | spawn name register =>
      obtain ⟨rfl, hgone⟩ := hmv
      cases hnext
      exact h.spawn hgone
  | run task =>
      obtain ⟨t, ht, hrun⟩ := Option.bind_eq_some_iff.mp hnext
      exact h.run ht hrun
  | send task msg => exact h.send (.msg msg) trivial hnext
  | forward mb =>
      cases hnext
      have hinv := h.inv.tell_forward mb
      rw [tell_of_alive _ (Option.isSome_iff_exists.mpr h.alive)] at hinv ⊢
      have hold : ∀ msg ∈ w.queue ++ [.forward mb], (∀ mb, msg ≠ .forward mb) → msg ∈ w.queue := by
        intro msg hmem hne
        exact (List.mem_append.mp hmem).resolve_right fun hm =>
          hne mb (List.mem_singleton.mp hm)
      refine ⟨hinv, h.alive, h.sound, h.last, fun mb' hmem => ?_, fun name i hmem => ?_, ?_,
        fun reg name i hreg hentry => ?_⟩
      · rcases List.mem_append.mp hmem with hmem | hmem
        · exact h.readable mb' hmem
        · cases List.mem_singleton.mp hmem
          exact hmv
      · exact h.waiting name i (hold _ hmem (by simp))
      · refine List.pairwise_append.mpr ⟨h.ordered, List.pairwise_singleton .., ?_⟩
        intro a _ b hb name i _
        cases List.mem_singleton.mp hb
        simp
      · exact (h.entries reg name i hreg hentry).imp_right (List.mem_append_left _)
  | handle => exact h.handle hnext

end Registry

end NodeTasks

end AurumActors.Core
