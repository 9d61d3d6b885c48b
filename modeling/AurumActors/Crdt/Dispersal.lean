/-
  Crdt/Dispersal.lean --- whom a dispersal sends to, and when it fails.

  The peers behind the clock are reached through two lists: the priority members
  and those that the selector takes from the order of the counts.  A dispersal
  fails on a priority member that is not a peer, and reaches a peer twice that is
  on both lists.
-/
import AurumActors.Crdt.Alignment

set_option autoImplicit false

namespace AurumActors.Crdt

open Std
open AurumActors.Cluster AurumActors.Core AurumActors.Foundation

attribute [local instance] lexOrd

namespace InCluster

variable {S : Type} {ic : InCluster S}

/-! ## The lists of a dispersal -/

/-- The peers in the order of their counts. -/
def peers (ic : InCluster S) : List (Member × Nat) :=
  ic.ordAcks.toList.filterMap fun e => ic.acks[e.2]?

/-- The peers that the selector takes. -/
def selected (ic : InCluster S) (preference : DispersalPreference) : List (Member × Nat) :=
  match preference.selector with
  | .outOfDate =>
      (ic.peers.filter fun e => e.1 ∉ preference.priority).take preference.amount.toNat
  | .all => ic.peers

/-- The peers that have priority. -/
def prioritized (ic : InCluster S) (preference : DispersalPreference) : List (Member × Nat) :=
  preference.priority.toList.filterMap fun m => ic.acks[m.id]?

/-- Every priority member is a peer now, by its id. -/
def PriorityKnown (ic : InCluster S) (preference : DispersalPreference) : Prop :=
  ∀ m ∈ preference.priority, ic.acks[m.id]?.isSome

instance (ic : InCluster S) (preference : DispersalPreference) :
    Decidable (ic.PriorityKnown preference) :=
  decidable_of_iff (∀ m ∈ preference.priority.toList, ic.acks[m.id]?.isSome) (by
    simp only [ExtTreeSet.mem_toList, PriorityKnown])

theorem lookupAll_eq {ids : List UInt64} (h : ∀ id ∈ ids, ic.acks[id]?.isSome) :
    ic.lookupAll ids = .ok (ids.filterMap fun id => ic.acks[id]?) := by
  induction ids with
  | nil => rfl
  | cons id ids ih =>
      obtain ⟨entry, hget⟩ := Option.isSome_iff_exists.mp (h id List.mem_cons_self)
      have hrest := ih fun id' hid' => h id' (List.mem_cons_of_mem _ hid')
      simp only [lookupAll, hget, hrest, List.filterMap_cons]
      rfl

theorem isSome_of_lookupAll {ids : List UInt64} {entries : List (Member × Nat)}
    (h : ic.lookupAll ids = .ok entries) : ∀ id ∈ ids, ic.acks[id]?.isSome := by
  induction ids generalizing entries with
  | nil => simp
  | cons id ids ih =>
      simp only [lookupAll] at h
      split at h
      · cases h
      · next entry hget =>
          cases hrest : ic.lookupAll ids with
          | error e => rw [hrest] at h; cases h
          | ok rest =>
              intro id' hid'
              rcases List.mem_cons.mp hid' with rfl | hid'
              · exact Option.isSome_iff_exists.mpr ⟨entry, hget⟩
              · exact ih hrest id' hid'

theorem outOfDate_eq (priority : MemberSet) (amount : Nat) {ids : List (Nat × UInt64)}
    (h : ∀ e ∈ ids, ic.acks[e.2]?.isSome) :
    ic.outOfDate priority amount ids =
      .ok (((ids.filterMap fun e => ic.acks[e.2]?).filter fun e => e.1 ∉ priority).take
        amount) := by
  induction ids generalizing amount with
  | nil => cases amount <;> rfl
  | cons e ids ih =>
      have hrest := fun amount => ih amount fun e' he' => h e' (List.mem_cons_of_mem _ he')
      obtain ⟨⟨member, cnt⟩, hget⟩ := Option.isSome_iff_exists.mp (h e List.mem_cons_self)
      cases amount with
      | zero => rfl
      | succ amount =>
          simp only [outOfDate, hget, hrest, List.filterMap_cons]
          by_cases hprio : member ∈ priority
          · simp [hprio]
          · simp only [hprio, if_false, List.filter_cons, not_false_eq_true, decide_true, if_true,
              List.take_succ_cons]
            rfl

theorem Indexed.known (h : Indexed ic) : ∀ e ∈ ic.ordAcks.toList, ic.acks[e.2]?.isSome := by
  intro e he
  obtain ⟨m, hget⟩ := (h.indexes e.1 e.2).mp (ExtTreeSet.mem_toList.mp he)
  exact Option.isSome_iff_exists.mpr ⟨_, hget⟩

variable [CRDT S]

/-- A dispersal sends to the peers behind on both lists, and starts a timer. -/
theorem Indexed.disperse_eq (h : Indexed ic) {preference : DispersalPreference}
    (hknown : ic.PriorityKnown preference) : ic.disperse preference =
      .ok (((ic.prioritized preference ++ ic.selected preference).filter
          fun e => e.2 < ic.clock).map (fun e => .send e.1 (ic.dispersal e.2)) ++
        [.scheduleDisperse preference.timeout]) := by
  have hprio : ic.lookupAll (preference.priority.toList.map (·.id)) =
      .ok (ic.prioritized preference) := by
    rw [lookupAll_eq, prioritized, List.filterMap_map]
    · rfl
    · intro id hid
      obtain ⟨m, hm, rfl⟩ := List.mem_map.mp hid
      exact hknown m (ExtTreeSet.mem_toList.mp hm)
  unfold disperse selected
  rw [hprio]
  cases preference.selector with
  | outOfDate =>
      simp only [outOfDate_eq _ _ h.known]
      rfl
  | all =>
      have hall : ic.lookupAll (ic.ordAcks.toList.map (·.2)) = .ok ic.peers := by
        rw [lookupAll_eq, peers, List.filterMap_map]
        · rfl
        · intro id hid
          obtain ⟨e, he, rfl⟩ := List.mem_map.mp hid
          exact h.known e he
      simp only [hall]
      rfl

/-- A dispersal succeeds exactly when every priority member is a peer. -/
theorem Indexed.disperse_ok_iff (h : Indexed ic) (preference : DispersalPreference) :
    (∃ sent, ic.disperse preference = .ok sent) ↔ ic.PriorityKnown preference := by
  constructor
  · rintro ⟨sent, hsent⟩ m hm
    unfold disperse at hsent
    have hprio : ∃ entries,
        ic.lookupAll (preference.priority.toList.map (·.id)) = .ok entries := by
      cases hlookup : ic.lookupAll (preference.priority.toList.map (·.id)) with
      | ok entries => exact ⟨entries, rfl⟩
      | error e =>
          rw [hlookup] at hsent
          split at hsent
          · rw [outOfDate_eq _ _ h.known] at hsent
            cases hsent
          · cases hall : ic.lookupAll (ic.ordAcks.toList.map (·.2)) <;> rw [hall] at hsent <;>
              cases hsent
    obtain ⟨entries, hentries⟩ := hprio
    exact isSome_of_lookupAll hentries m.id
      (List.mem_map_of_mem (ExtTreeSet.mem_toList.mpr hm))
  · exact fun hknown => ⟨_, h.disperse_eq hknown⟩

end InCluster

/-! ## When a handler disperses -/

namespace CausalDisperse

variable {S : Type} [CRDT S]

section Dispersing

variable [DecidableEq S]

/-- The state in which the handler of a message calls `disperse`, if it does. -/
def dispersing (a : CausalDisperse S) (msg : CausalMsg S) : Option (InCluster S) :=
  match a.state, msg with
  | .inCluster ic, .mutate op =>
      let d := CRDT.apply op ic.data
      if CRDT.empty d then none else some (ic.grow (CRDT.join ic.data d) d)
  | .inCluster ic, .intra (.delta delta id _) =>
      if ic.acks[id]?.isSome ∧ CRDT.join ic.data delta ≠ ic.data then
        some (ic.grow (CRDT.join ic.data delta) delta)
      else none
  | .inCluster ic, .update update =>
      match ic.events false update.events with
      | .ok (ic', true) => some { ic' with cluster := update.nodes.erase ic'.member }
      | _ => none
  | .inCluster ic, .disperseTimeout =>
      if ic.minOrd ≠ ic.clock ∧ ¬ ic.acks.isEmpty then some ic else none
  | _, _ => none

/-- A handler that disperses sends an acknowledgement before, or nothing, and
publishes the data after, or nothing.  It fails if the dispersal does. -/
theorem recv_of_dispersing {a : CausalDisperse S} {msg : CausalMsg S} {ic : InCluster S}
    (h : a.dispersing msg = some ic) :
    ∃ before after : List (Output S),
      (∀ o ∈ before, ∃ dest m, o = .send dest m) ∧ (∀ o ∈ after, o = .publish ic.data) ∧
      a.recv msg = (ic.disperse a.preference).map fun sent =>
        (⟨a.preference, .inCluster ic⟩, before ++ sent ++ after) := by
  obtain ⟨p, state⟩ := a
  cases state with
  | waiting w => cases msg <;> cases h
  | inCluster ic₀ =>
      cases msg with
      | setDispersalPreference p' => cases h
      | mutate op =>
          simp only [dispersing] at h
          split at h
          · cases h
          · next hne =>
              cases h
              refine ⟨[], [.publish _], by simp, fun o ho => by simpa using ho, ?_⟩
              simp only [recv, InCluster.op, hne]
              cases ((ic₀.grow _ _).disperse p) <;> rfl
      | intra m =>
          cases m with
          | ack id clock => cases h
          | delta delta id clock =>
              simp only [dispersing] at h
              split at h
              · next hnew =>
                  cases h
                  obtain ⟨⟨⟨member, cnt⟩, hget⟩, hne⟩ := hnew.imp_left Option.isSome_iff_exists.mp
                  refine ⟨[.send member (.ack ic₀.member.id clock)], [.publish _],
                    fun o ho => ⟨_, _, by simpa using ho⟩, fun o ho => by simpa using ho, ?_⟩
                  simp only [recv, InCluster.delta, hget, hne, if_false]
                  cases ((ic₀.grow _ _).disperse p) <;> rfl
              · cases h
      | update u =>
          simp only [dispersing] at h
          split at h
          · next ic' hev =>
              cases h
              refine ⟨[], [], by simp, by simp, ?_⟩
              simp only [recv, InCluster.update, hev]
              cases hsent : ({ ic' with cluster := u.nodes.erase ic'.member }).disperse p with
              | error e => simp only [bind, Except.bind, hsent]; rfl
              | ok sent => simp only [bind, Except.bind, hsent, if_true]; simp; rfl
          · cases h
      | disperseTimeout =>
          simp only [dispersing] at h
          split at h
          · next hidle =>
              cases h
              refine ⟨[], [], by simp, by simp, ?_⟩
              simp only [recv, if_pos hidle]
              cases ic.disperse p <;> simp [inCluster, Except.map]
          · cases h

end Dispersing

/-! ## Runs -/

/-- An update of an actor in the cluster fits its membership. -/
def Consistent (a : CausalDisperse S) (msg : CausalMsg S) : Prop :=
  match a.state, msg with
  | .inCluster ic, .update u => ic.AllFit u.events
  | _, _ => True

/-- Every handler keeps the counts indexed. -/
theorem Handled.indexed {a a' : CausalDisperse S} {msg : CausalMsg S} {out : List (Output S)}
    (h : Handled a msg a' out) (hcons : a.Consistent msg)
    (hind : ∀ ic, a.state = .inCluster ic → ic.Indexed) {ic' : InCluster S}
    (hic' : a'.state = .inCluster ic') : ic'.Indexed := by
  cases h with
  | «prefer» p p' state => exact hind ic' hic'
  | queue p w op => cases hic'
  | ignore p w msg hmsg => cases hic'
  | join p w u m hlast =>
      cases hic'
      exact InCluster.indexed_toIc w m u.nodes
  | opEmpty p ic op => exact hind ic' hic'
  | op p ic ic₁ op sent hgrow hsent =>
      cases hic'
      exact hgrow ▸ (hind ic rfl).grow _ _
  | ack p ic ic₁ id clock hcases =>
      cases hic'
      rcases hcases with rfl | hacked
      · exact hind ic' rfl
      · exact (hind ic rfl).acked hacked
  | deltaUnknown p ic delta id clock => exact hind ic' hic'
  | deltaOld p ic delta id clock member cnt hget hdata => exact hind ic' hic'
  | deltaNew p ic ic₁ delta id clock member cnt sent hget hgrow hsent =>
      cases hic'
      exact hgrow ▸ (hind ic rfl).grow _ _
  | update p ic ic₁ u disperse sent hevents hsent =>
      cases hic'
      obtain ⟨ic₂, disperse₂, hevents₂, hindexed⟩ := (hind ic rfl).events_ok false hcons
      cases hevents.symm.trans hevents₂
      exact ⟨hindexed.indexes, hindexed.minOrd_eq, hindexed.keyed⟩
  | timeout p ic sent hsent => exact hind ic' hic'
  | idle p ic hidle => exact hind ic' hic'

variable [DecidableEq S]

/-- When the handler of the message calls `disperse`, every priority member is a
peer. -/
def PriorityKnown (a : CausalDisperse S) (msg : CausalMsg S) : Prop :=
  ∀ ic, a.dispersing msg = some ic → ic.PriorityKnown a.preference

/-- If the handler of the message calls `disperse`, then it returns. -/
def Survives (a : CausalDisperse S) (msg : CausalMsg S) : Prop :=
  ∀ ic, a.dispersing msg = some ic → ∃ r, a.recv msg = .ok r

/-- The actor, with the messages it handles to completion. -/
def system (preference : DispersalPreference) : System (CausalDisperse S) (CausalMsg S) :=
  .ofNext (.new preference) fun a msg => (a.recv msg).toOption.map (·.1)

theorem handled_of_step {preference : DispersalPreference} {a a' : CausalDisperse S}
    {msg : CausalMsg S} (h : (system preference).step a msg a') : ∃ out, Handled a msg a' out := by
  obtain ⟨⟨a'', out⟩, hr, rfl⟩ := Option.map_eq_some_iff.mp h
  cases hrecv : a.recv msg with
  | error e => rw [hrecv] at hr; cases hr
  | ok r =>
      rw [hrecv] at hr
      cases hr
      exact ⟨out, handled_of_recv hrecv⟩

theorem indexed_of_reachable {preference : DispersalPreference} {a : CausalDisperse S}
    (h : ((system preference).restrict Consistent).Reachable a) {ic : InCluster S}
    (hic : a.state = .inCluster ic) : ic.Indexed := by
  refine h.invariant (I := fun a => ∀ ic, a.state = .inCluster ic → ic.Indexed)
    ?_ (fun a msg a' _ hind hst => ?_) ic hic
  · rintro a rfl ic hic
    cases hic
  · obtain ⟨out, hhandled⟩ := handled_of_step hst.1
    exact fun ic' hic' => hhandled.indexed hst.2 hind hic'

/-- The state of a dispersal has its counts indexed. -/
theorem indexed_of_dispersing {a : CausalDisperse S} {msg : CausalMsg S} {ic : InCluster S}
    (h : a.dispersing msg = some ic) (hcons : a.Consistent msg)
    (hind : ∀ ic, a.state = .inCluster ic → ic.Indexed) : ic.Indexed := by
  obtain ⟨p, state⟩ := a
  cases state with
  | waiting w => cases msg <;> cases h
  | inCluster ic₀ =>
      have h₀ := hind ic₀ rfl
      cases msg with
      | setDispersalPreference p' => cases h
      | mutate op =>
          simp only [dispersing] at h
          split at h
          · cases h
          · cases h
            exact h₀.grow _ _
      | intra m =>
          cases m with
          | ack id clock => cases h
          | delta delta id clock =>
              simp only [dispersing] at h
              split at h
              · cases h
                exact h₀.grow _ _
              · cases h
      | update u =>
          simp only [dispersing] at h
          obtain ⟨ic₁, disperse, hev, h₁⟩ := h₀.events_ok false hcons
          split at h
          · next ic' hev' =>
              cases h
              cases hev.symm.trans hev'
              exact ⟨h₁.indexes, h₁.minOrd_eq, h₁.keyed⟩
          · cases h
      | disperseTimeout =>
          simp only [dispersing] at h
          split at h
          · cases h
            exact h₀
          · cases h

/-- Dispersal survives as long as the priority members are peers.  In every run
that keeps to this, no handler fails in `disperse`; and after any run, the
handler of a message survives exactly if it keeps to this. -/
theorem survives_of_known (preference : DispersalPreference) :
    (∀ a : CausalDisperse S,
      ((system preference).restrict fun a msg => Consistent a msg ∧ PriorityKnown a msg).Reachable
        a → ∀ msg, a.Consistent msg → a.PriorityKnown msg → a.Survives msg) ∧
    ∀ (a : CausalDisperse S) (msg : CausalMsg S),
      ((system preference).restrict Consistent).Reachable a → a.Consistent msg →
        (a.Survives msg ↔ a.PriorityKnown msg) := by
  have hexact : ∀ (a : CausalDisperse S) (msg : CausalMsg S),
      ((system preference).restrict Consistent).Reachable a → a.Consistent msg →
        (a.Survives msg ↔ a.PriorityKnown msg) := by
    intro a msg h hcons
    refine forall₂_congr fun ic hic => ?_
    obtain ⟨before, after, -, -, hrecv⟩ := recv_of_dispersing hic
    have hind := indexed_of_dispersing hic hcons fun ic => indexed_of_reachable h
    rw [← hind.disperse_ok_iff, hrecv]
    cases ic.disperse a.preference <;> simp [Except.map]
  refine ⟨fun a h msg hcons hknown => ?_, hexact⟩
  exact (hexact a msg h.restrict_restrict.of_restrict hcons).mpr hknown

/-! ### A priority member that has not joined -/

section Stranger

attribute [local instance] maxNat

instance (a : CausalDisperse S) : DecidablePred a.Consistent := fun msg =>
  match a with
  | ⟨_, .waiting _⟩ => isTrue (by cases msg <;> trivial)
  | ⟨_, .inCluster ic⟩ =>
      match msg with
      | .update u => inferInstanceAs (Decidable (ic.AllFit u.events))
      | .mutate _ | .setDispersalPreference _ | .intra _ | .disperseTimeout => isTrue trivial

instance (a : CausalDisperse S) : DecidablePred a.PriorityKnown := fun msg =>
  match h : a.dispersing msg with
  | none => isTrue (by simp [PriorityKnown, h])
  | some ic => decidable_of_iff (ic.PriorityKnown a.preference) (by simp [PriorityKnown, h])

/-- The default preference with one priority member. -/
def favouring (m : Member) : DispersalPreference :=
  { DispersalPreference.default with priority := (∅ : MemberSet).insert m }

/-- Node 1 prefers `m` and joins node 2. -/
def joinsFavouring (m : Member) : List (CausalMsg Nat) :=
  [.setDispersalPreference (favouring m),
    .update ⟨[.joined (Logged.peer 1)],
      ((∅ : MemberSet).insert (Logged.peer 1)).insert (Logged.peer 2), .new 1⟩]

/-- With a peer as priority member, a mutation is dispersed. -/
theorem survives_of_known_peer :
    ∃ a : CausalDisperse Nat,
      ((system .default).restrict fun a msg => Consistent a msg ∧ PriorityKnown a msg).Reachable
        a ∧ a.preference = favouring (Logged.peer 2) ∧
      (a.dispersing (.mutate (7 : Nat))).isSome ∧ a.Survives (.mutate (7 : Nat)) := by
  obtain ⟨a, ha, hpreference, hdisperses, hcons, hknown⟩ :
      ∃ a ∈ System.execWhere (fun a msg => Consistent a msg ∧ PriorityKnown a msg)
          (fun a msg => (a.recv msg).toOption.map (·.1)) (.new .default)
          (joinsFavouring (Logged.peer 2)),
        a.preference = favouring (Logged.peer 2) ∧
          (a.dispersing (.mutate (7 : Nat))).isSome ∧ a.Consistent (.mutate (7 : Nat)) ∧
          a.PriorityKnown (.mutate (7 : Nat)) := by decide
  have h := System.reachable_of_execWhere _ (.of_init rfl) ha
  exact ⟨a, h, hpreference, hdisperses, (survives_of_known .default).1 a h _ hcons hknown⟩

/-- With a stranger as priority member, a mutation ends the actor. -/
theorem stranger_ends_actor :
    ¬ ∀ (a : CausalDisperse Nat) (msg : CausalMsg Nat),
      ((system .default).restrict Consistent).Reachable a → a.Consistent msg →
        a.Survives msg := by
  intro hall
  obtain ⟨a, ha, hdisperses, hfails⟩ :
      ∃ a ∈ System.execWhere Consistent (fun a msg => (a.recv msg).toOption.map (·.1))
          (.new .default) (joinsFavouring (Logged.peer 9)),
        (a.dispersing (.mutate (7 : Nat))).isSome ∧
          (a.recv (.mutate (7 : Nat))).toOption.isNone := by decide
  have h := System.reachable_of_execWhere _ (.of_init rfl) ha
  obtain ⟨ic, hic⟩ := Option.isSome_iff_exists.mp hdisperses
  have hcons : a.Consistent (.mutate (7 : Nat)) := by
    unfold Consistent
    cases a.state <;> trivial
  obtain ⟨r, hr⟩ := hall a _ h hcons ic hic
  rw [hr] at hfails
  cases hfails

end Stranger

end CausalDisperse

end AurumActors.Crdt
