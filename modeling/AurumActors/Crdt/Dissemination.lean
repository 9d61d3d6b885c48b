/-
  Crdt/Dissemination.lean --- when an actor with peers behind its clock will
  send again.

  Beside the actor stands the number of `DisperseTimeout`s that are scheduled or
  in its mailbox.  Every dispersal adds one and every handled timeout takes one.
-/
import AurumActors.Crdt.Bookkeeping
import AurumActors.Foundation.Run

set_option autoImplicit false

namespace AurumActors.Crdt

open Std
open AurumActors.Cluster AurumActors.Core AurumActors.Foundation

attribute [local instance] lexOrd

/-- An actor and its pending `DisperseTimeout`s. -/
structure Timed (S : Type) [CRDT S] where
  actor : CausalDisperse S
  pending : Nat

namespace Timed

variable {S : Type}

/-- How many timers a handler started. -/
def timers (out : List (Output S)) : Nat :=
  out.countP fun
    | .scheduleDisperse _ => true
    | _ => false

variable [CRDT S]

/-- How many pending timeouts a message is. -/
def taken : CausalMsg S → Nat
  | .disperseTimeout => 1
  | _ => 0

/-- Some peer has not acknowledged the clock. -/
def Behind (ic : InCluster S) : Prop :=
  ∃ (id : UInt64) (m : Member) (c : Nat), ic.acks[id]? = some (m, c) ∧ c < ic.clock

/-- Inside the cluster, a timeout is pending while some peer is behind. -/
def NotStuck (t : Timed S) : Prop :=
  ∀ ic, t.actor.state = .inCluster ic → Behind ic → 0 < t.pending

/-- What the queued mutations make of the minimum. -/
def queuedData (w : Waiting S) : S :=
  w.opsQueue.foldl (fun data op => CRDT.join data (CRDT.apply op data)) CRDT.minimum

/-- If the message lets the actor join, then without data to tell, or without
other nodes. -/
def JoinsQuietly (t : Timed S) (msg : CausalMsg S) : Prop :=
  match t.actor.state, msg with
  | .waiting w, .update u => ∀ m, u.events.getLast? = some (.alone m) ∨
      u.events.getLast? = some (.joined m) →
      CRDT.empty (queuedData w) = true ∨ u.nodes.erase m = ∅
  | _, _ => True

variable [DecidableEq S]

/-- A message is handled to completion.  A timeout has to be pending. -/
def next (t : Timed S) (msg : CausalMsg S) : Option (Timed S) :=
  match t.actor.recv msg with
  | .error _ => none
  | .ok (actor, out) =>
      if t.pending < taken msg then none
      else some ⟨actor, t.pending - taken msg + timers out⟩

/-- An actor that any messages reach in any order. -/
def system (preference : DispersalPreference) : System (Timed S) (CausalMsg S) :=
  .ofNext ⟨.new preference, 0⟩ next

/-! ## Timers and steps -/

omit [CRDT S] [DecidableEq S] in
theorem timers_append (out out' : List (Output S)) :
    timers (out ++ out') = timers out + timers out' := List.countP_append

omit [DecidableEq S] in
/-- A dispersal starts one timer. -/
theorem timers_disperse {ic : InCluster S} {preference : DispersalPreference}
    {sent : List (Output S)} (h : ic.disperse preference = .ok sent) : timers sent = 1 := by
  obtain ⟨members, -, rfl⟩ := InCluster.disperse_eq_ok h
  have hsends : timers (members.map (fun e => Output.send e.1 (ic.dispersal e.2))) = 0 := by
    simp [timers]
  rw [timers_append, hsends]
  rfl

/-- A step takes the timeout that it handles, and adds the timers that it starts. -/
theorem next_cases {t t' : Timed S} {msg : CausalMsg S} (h : t.next msg = some t') :
    ∃ out, t.actor.recv msg = .ok (t'.actor, out) ∧ taken msg ≤ t.pending ∧
      t'.pending = t.pending - taken msg + timers out := by
  unfold next at h
  cases hrecv : t.actor.recv msg with
  | error e => rw [hrecv] at h; cases h
  | ok p =>
      rw [hrecv] at h
      simp only at h
      split at h
      · cases h
      · next hpending =>
          cases h
          exact ⟨p.2, rfl, Nat.le_of_not_lt hpending, rfl⟩

/-- What a step does, whichever the message. -/
theorem step_cases {t t' : Timed S} {msg : CausalMsg S} (h : t.next msg = some t') :
    ∃ out, CausalDisperse.Handled t.actor msg t'.actor out ∧ taken msg ≤ t.pending ∧
      t'.pending = t.pending - taken msg + timers out := by
  obtain ⟨out, hrecv, hpending⟩ := next_cases h
  exact ⟨out, CausalDisperse.handled_of_recv hrecv, hpending⟩

/-! ## The invariant -/

/-- The counts are in order, and a peer is behind only while a timeout is
pending. -/
structure Inv (t : Timed S) : Prop where
  ordered : ∀ ic, t.actor.state = .inCluster ic → ic.Ordered
  armed : NotStuck t

omit [DecidableEq S] in
/-- A handler of `InCluster` that dispersed is followed by its timeout. -/
theorem Inv.of_disperse {t' : Timed S} {p p' : DispersalPreference} {ic ic' : InCluster S}
    {sent : List (Output S)} (hord : ic.Ordered) (hactor : t'.actor = ⟨p, .inCluster ic⟩)
    (hsent : ic'.disperse p' = .ok sent) (hpending : timers sent ≤ t'.pending) : Inv t' := by
  have hone := timers_disperse hsent
  refine ⟨fun ic₁ hic => ?_, fun _ _ _ => by omega⟩
  rw [hactor] at hic
  cases hic
  exact hord

omit [CRDT S] [DecidableEq S] in
/-- The events of an update either ask for a dispersal or leave the counts as
they are. -/
theorem events_behind {ic ic' : InCluster S} {es : List ClusterEvent} {disperse : Bool}
    (h : ic.events false es = .ok (ic', disperse)) :
    disperse = true ∨ ic'.acks = ic.acks ∧ ic'.clock = ic.clock := by
  refine InCluster.events_invariant (P := fun ic₁ d =>
    d = true ∨ ic₁.acks = ic.acks ∧ ic₁.clock = ic.clock) ?_ (.inr ⟨rfl, rfl⟩) h
  intro ic₁ d e ic₂ d' _ hp hev
  cases hev with
  | alone m => exact hp
  | joined m => exact hp
  | self m _ => exact hp
  | removed m member cnt _ => exact .inl rfl
  | added m => exact .inl rfl

omit [CRDT S] [DecidableEq S] in
theorem events_ordered {ic ic' : InCluster S} {es : List ClusterEvent} {disperse : Bool}
    (hord : ic.Ordered) (h : ic.events false es = .ok (ic', disperse)) : ic'.Ordered :=
  InCluster.events_invariant (P := fun ic₁ _ => ic₁.Ordered)
    (fun _ _ _ _ _ _ hp hev => hp.evented hev) hord h

omit [CRDT S] [DecidableEq S] in
/-- Whoever is behind after an acknowledgement was behind before. -/
theorem Behind.of_acked {ic ic' : InCluster S} {id : UInt64} {clock : Nat} (h : Behind ic')
    (hack : ic.Acked id clock ic') : Behind ic := by
  obtain ⟨⟨member, cnt, minId, hget, hlt, -, -, heq⟩, -⟩ := hack
  obtain ⟨id', m', c', hget', hlt'⟩ := h
  rw [heq] at hget' hlt'
  simp only [getElem?_insert_eq] at hget'
  split at hget'
  · next hid =>
      obtain ⟨-, rfl⟩ := Prod.mk.inj (Option.some.inj hget')
      exact ⟨id, member, cnt, hget, Nat.lt_trans hlt hlt'⟩
  · exact ⟨id', m', c', hget', hlt'⟩

/-- A step that joins quietly, if it joins, keeps the invariant. -/
theorem Inv.step {t t' : Timed S} {msg : CausalMsg S} (h : Inv t) (hquiet : t.JoinsQuietly msg)
    (hst : t.next msg = some t') : Inv t' := by
  obtain ⟨out, hhandled, -, hpending⟩ := step_cases hst
  obtain ⟨actor, pending⟩ := t
  obtain ⟨actor', pending'⟩ := t'
  simp only at hhandled hpending
  -- a handler that changes no count and no clock, and takes no timeout
  have hsame : ∀ {p p' : DispersalPreference} {ic : InCluster S},
      actor = ⟨p, .inCluster ic⟩ → actor' = ⟨p', .inCluster ic⟩ → pending ≤ pending' →
      Inv (⟨actor', pending'⟩ : Timed S) := by
    rintro p p' ic rfl rfl hle
    refine ⟨fun ic₁ hic => h.ordered ic₁ hic, fun ic₁ hic hb => ?_⟩
    exact Nat.lt_of_lt_of_le (h.armed ic₁ hic hb) hle
  have hwaiting : ∀ {p : DispersalPreference} {w : Waiting S}, actor' = ⟨p, .waiting w⟩ →
      Inv (⟨actor', pending'⟩ : Timed S) := by
    rintro p w rfl
    exact ⟨fun ic hic => by simp at hic, fun ic hic => by simp at hic⟩
  cases hhandled with
  | «prefer» p p' state =>
      cases state with
      | waiting w => exact hwaiting rfl
      | inCluster ic => exact hsame rfl rfl (by simp only [taken] at hpending; omega)
  | queue p w op => exact hwaiting rfl
  | ignore p w msg hmsg => exact hwaiting rfl
  | join p w update m hlast =>
      refine ⟨fun ic hic => ?_, fun ic hic hb => ?_⟩
      · cases hic
        exact InCluster.ordered_toIc w m update.nodes
      · cases hic
        obtain ⟨id, m', c, hget, hlt⟩ := hb
        rcases hquiet m hlast with hempty | hnodes
        · have hzero : (w.toIc m update.nodes).clock = 0 := by
            simp only [Waiting.toIc]
            exact if_pos hempty
          omega
        · have hnil : (∅ : MemberSet).toList = [] := rfl
          simp [Waiting.toIc, hnodes, hnil] at hget
  | opEmpty p ic op => exact hsame rfl rfl (by simp only [taken] at hpending; omega)
  | op p ic ic' op sent hic hsent =>
      refine .of_disperse (hic ▸ (h.ordered ic rfl).grow _ _) rfl hsent ?_
      simp only [timers_append] at hpending
      simp only
      omega
  | ack p ic ic' id clock hack =>
      rcases hack with rfl | hack
      · exact hsame rfl rfl (by simp only [taken] at hpending; omega)
      · refine ⟨fun ic₁ hic => ?_, fun ic₁ hic hb => ?_⟩
        · cases hic
          exact (h.ordered ic rfl).acked hack
        · cases hic
          have : 0 < pending := h.armed ic rfl (hb.of_acked hack)
          simp only [taken] at hpending
          simp only
          omega
  | deltaUnknown p ic delta id clock =>
      exact hsame rfl rfl (by simp only [taken] at hpending; omega)
  | deltaOld p ic delta id clock member cnt hget hdata =>
      exact hsame rfl rfl (by simp only [taken] at hpending; omega)
  | deltaNew p ic ic' delta id clock member cnt sent hget hic hsent =>
      refine .of_disperse (hic ▸ (h.ordered ic rfl).grow _ _) rfl hsent ?_
      rw [List.cons_append, ← List.singleton_append, timers_append, timers_append] at hpending
      simp only
      omega
  | update p ic ic' update disperse sent hevents hsent =>
      have hord := events_ordered (h.ordered ic rfl) hevents
      cases disperse with
      | true =>
          have hord' : ({ ic' with cluster := update.nodes.erase ic'.member }).Ordered :=
            ⟨hord.recorded, hord.minOrd_le⟩
          refine .of_disperse hord' rfl hsent ?_
          simp only
          omega
      | false =>
          simp only [Bool.false_eq_true, if_false] at hsent
          obtain ⟨hacks, hclock⟩ := (events_behind hevents).resolve_left (by simp)
          refine ⟨fun ic₁ hic => ?_, fun ic₁ hic hb => ?_⟩
          · cases hic
            exact ⟨hord.recorded, hord.minOrd_le⟩
          · cases hic
            obtain ⟨id, m, c, hget, hlt⟩ := hb
            simp only [hacks, hclock] at hget hlt
            have : 0 < pending := h.armed ic rfl ⟨id, m, c, hget, hlt⟩
            simp only [taken] at hpending
            simp only
            omega
  | timeout p ic sent hsent =>
      refine .of_disperse (h.ordered ic rfl) rfl hsent ?_
      simp only
      omega
  | idle p ic hidle =>
      -- the timer ends because every count has reached the clock
      refine ⟨fun ic₁ hic => h.ordered ic₁ hic, fun ic₁ hic hb => ?_⟩
      cases hic
      obtain ⟨id, m, c, hget, hlt⟩ := hb
      rcases hidle with hmin | hnone
      · have := (h.ordered ic rfl).minOrd_le id m c hget
        omega
      · rw [ExtTreeMap.isEmpty_iff] at hnone
        simp [hnone] at hget

/-- Outside the cluster no timeout is pending. -/
theorem pending_of_waiting {preference : DispersalPreference} {t : Timed S}
    (h : (system preference).Reachable t) {w : Waiting S} (hw : t.actor.state = .waiting w) :
    t.pending = 0 := by
  refine h.invariant (I := fun t => ∀ w, t.actor.state = .waiting w → t.pending = 0)
    (fun t ht _ _ => by rw [ht]) (fun t msg t' _ hinv hst w hw => ?_) w hw
  obtain ⟨out, hhandled, -, hpending⟩ := step_cases hst
  obtain ⟨actor, pending⟩ := t
  obtain ⟨actor', pending'⟩ := t'
  simp only at hhandled hpending hw ⊢
  have hkeep : timers out = 0 → (∃ w, actor.state = .waiting w) → pending' = 0 := by
    rintro hout ⟨w, hw⟩
    have : pending = 0 := hinv w hw
    omega
  cases hhandled with
  | «prefer» p p' state => exact hkeep rfl ⟨w, hw⟩
  | queue p w op => exact hkeep rfl ⟨w, rfl⟩
  | ignore p w msg hmsg => exact hkeep rfl ⟨w, rfl⟩
  | join p w update m hlast => cases hw
  | opEmpty p ic op => cases hw
  | op p ic ic' op sent hic hsent => cases hw
  | ack p ic ic' id clock hack => cases hw
  | deltaUnknown p ic delta id clock => cases hw
  | deltaOld p ic delta id clock member cnt hget hdata => cases hw
  | deltaNew p ic ic' delta id clock member cnt sent hget hic hsent => cases hw
  | update p ic ic' update disperse sent hevents hsent => cases hw
  | timeout p ic sent hsent => cases hw
  | idle p ic hidle => cases hw

omit [DecidableEq S] in
/-- An actor that joins with data and other nodes is behind all of them. -/
theorem behind_toIc {w : Waiting S} {m : Member} {nodes : MemberSet}
    (hdata : CRDT.empty (queuedData w) = false) (hnodes : nodes.erase m ≠ ∅) :
    Behind (w.toIc m nodes) := by
  obtain ⟨peer, hpeer⟩ : ∃ peer, peer ∈ (nodes.erase m).toList := by
    by_contra hnone
    refine hnodes (ExtTreeSet.eq_empty_iff_forall_not_mem.mpr fun peer hmem => hnone ⟨peer, ?_⟩)
    exact ExtTreeSet.mem_toList.mpr hmem
  have hsome : ((w.toIc m nodes).acks[peer.id]?).isSome = true :=
    isSome_getElem?_foldl_insert (fun m : Member => m.id) (fun m => (m, 0)) _ ∅
      (.inr ⟨peer, hpeer, rfl⟩)
  obtain ⟨⟨m', c⟩, hget⟩ := Option.isSome_iff_exists.mp hsome
  have hzero : c = 0 := by
    rcases of_getElem?_foldl_insert (fun m : Member => m.id) (fun m => (m, 0)) _ _ hget with
      h | ⟨i, -, -, he⟩
    · simp at h
    · exact (Prod.mk.inj he).2.symm
  refine ⟨peer.id, m', c, hget, ?_⟩
  have hclock : (w.toIc m nodes).clock = 1 := by
    simp only [Waiting.toIc]
    exact if_neg (by rw [Bool.not_eq_true]; exact hdata)
  omega

/-- No stuck dissemination.  While every step that joins the cluster joins
without data or without other nodes, a timeout is pending in every state in
which some peer is behind; and a step that joins with data and other nodes leads
to a state in which peers are behind and no timeout is pending. -/
theorem not_stuck (preference : DispersalPreference) :
    (∀ t : Timed S, ((system preference).restrict JoinsQuietly).Reachable t → NotStuck t) ∧
      ∀ (t : Timed S) (msg : CausalMsg S) (t' : Timed S), (system preference).Reachable t →
        t.next msg = some t' → ¬ t.JoinsQuietly msg → ¬ NotStuck t' := by
  constructor
  · intro t h
    have hinv : Inv t := by
      refine h.invariant (fun t ht => ?_) (fun t msg t' _ hinv hst => hinv.step hst.2 hst.1)
      rw [ht]
      exact ⟨fun ic hic => by simp [CausalDisperse.new] at hic,
        fun ic hic => by simp [CausalDisperse.new] at hic⟩
    exact hinv.armed
  · intro t msg t' h hst hloud hns
    obtain ⟨out, hhandled, -, hpending⟩ := step_cases hst
    have hzero := fun w => pending_of_waiting h (w := w)
    obtain ⟨actor, pending⟩ := t
    obtain ⟨actor', pending'⟩ := t'
    simp only at hhandled hpending hzero
    cases hhandled with
    | «prefer» p p' state => cases state <;> exact hloud trivial
    | queue p w op => exact hloud trivial
    | ignore p w msg hmsg =>
        rcases hmsg with rfl | ⟨m, rfl⟩ <;> exact hloud trivial
    | join p w update m hlast =>
        simp only [JoinsQuietly, not_forall, not_or] at hloud
        obtain ⟨m', hlast', hdata, hnodes⟩ := hloud
        have hm : m' = m := by
          rcases hlast with hl | hl <;> rcases hlast' with hl' | hl' <;> rw [hl] at hl' <;>
            cases hl'
          · rfl
          · rfl
        subst hm
        have hlt := hns _ rfl (behind_toIc (Bool.eq_false_iff.mpr hdata) hnodes)
        have hp : pending = 0 := hzero w rfl
        simp [taken, timers, hp] at hpending
        simp only [hpending, Nat.lt_irrefl] at hlt
    | opEmpty p ic op => exact hloud trivial
    | op p ic ic' op sent hic hsent => exact hloud trivial
    | ack p ic ic' id clock hack => exact hloud trivial
    | deltaUnknown p ic delta id clock => exact hloud trivial
    | deltaOld p ic delta id clock member cnt hget hdata => exact hloud trivial
    | deltaNew p ic ic' delta id clock member cnt sent hget hic hsent => exact hloud trivial
    | update p ic ic' update disperse sent hevents hsent => exact hloud trivial
    | timeout p ic sent hsent => exact hloud trivial
    | idle p ic hidle => exact hloud trivial

/-! ### A run that gets stuck -/

section Stuck

attribute [local instance] maxNat

/-- A member of a two-node cluster, named by its port. -/
def nodeAt (port : UInt16) : Member := ⟨Socket.localhost port, port.toUInt64, 1⟩

/-- The update by which node 1 joins node 2. -/
def joinsTwo : ClusterUpdate :=
  ⟨[.joined (nodeAt 1)], ((∅ : MemberSet).insert (nodeAt 1)).insert (nodeAt 2), .new 1⟩

/-- Node 1 joins first and mutates then: its timeout is pending. -/
theorem not_stuck_joined :
    ∃ t : Timed Nat, ((system .default).restrict JoinsQuietly).Reachable t ∧
      (∃ ic, t.actor.state = .inCluster ic ∧ Behind ic) ∧ NotStuck t := by
  have h₀ : ((system (S := Nat) .default).restrict JoinsQuietly).Reachable ⟨.new .default, 0⟩ :=
    .of_init rfl
  let joined : Timed Nat :=
    ⟨⟨.default, .inCluster (Waiting.toIc ⟨[]⟩ (nodeAt 1) joinsTwo.nodes)⟩, 0⟩
  have hst₁ : (⟨.new .default, 0⟩ : Timed Nat).next (.update joinsTwo) = some joined := rfl
  have h₁ := h₀.step ⟨hst₁, fun _ _ => .inl rfl⟩
  have hst₂ : joined.next (.mutate (7 : Nat)) = some _ := rfl
  have h₂ := h₁.step ⟨hst₂, trivial⟩
  exact ⟨_, h₂, ⟨_, rfl, 2, nodeAt 2, 0, by decide, by decide⟩, (not_stuck .default).1 _ h₂⟩

/-- A mutation is queued, then the actor joins another node: its peer is behind
and no timeout is pending. -/
theorem stuck_after_queued_mutation :
    ∃ t : Timed Nat, (system .default).Reachable t ∧ t.pending = 0 ∧
      (∃ ic, t.actor.state = .inCluster ic ∧ ic.clock = 1 ∧
        ic.acks[(2 : UInt64)]? = some (nodeAt 2, 0)) ∧ ¬ NotStuck t := by
  have h₀ : (system (S := Nat) .default).Reachable ⟨.new .default, 0⟩ := .of_init rfl
  have hexec := System.reachable_of_exec [.mutate (7 : Nat), .update joinsTwo] h₀ rfl
  refine ⟨_, hexec, rfl, ⟨_, rfl, rfl, by decide⟩, fun hns => ?_⟩
  exact Nat.lt_irrefl 0 (hns _ rfl ⟨2, nodeAt 2, 0, by decide, by decide⟩)

end Stuck

end Timed

end AurumActors.Crdt
