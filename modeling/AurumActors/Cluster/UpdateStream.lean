/-
  Cluster/UpdateStream.lean --- the updates of a subscriber are a log of the
  membership.

  The first update introduces the node.  Every later one says how the set of
  members came about from the set before it: its events can be replayed.  A
  `LocalRef` cannot be compared with another one, so a number stands for one
  subscription.
-/
import AurumActors.Cluster.Representation
import Mathlib.Data.List.Chain

set_option autoImplicit false
set_option linter.dupNamespace false

namespace AurumActors.Cluster

open Std
open AurumActors.Core AurumActors.Foundation

/-! ## Streams -/

/-- The updates that outputs send to a subscriber. -/
def Output.update? (subr : Nat) : Output → Option ClusterUpdate
  | .notify subr' update => if subr' = subr then some update else none
  | _ => none

/-- A stream of updates, each with the member of the node when it is sent. -/
structure Faithful (H : RingHash) (updates : List (Member × ClusterUpdate)) : Prop where
  first : ∀ u ∈ updates.head?, u.2.events = [.alone u.1] ∨ u.2.events = [.joined u.1]
  later : updates.IsChain fun u v => replay u.2.nodes v.2.events = some v.2.nodes ∧
    ∀ m, .joined m ∈ v.2.events → m = v.1
  ring : ∀ u ∈ updates, NodeRing.Holds H u.2.ring {m | m ∈ u.2.nodes} ∧
    ∀ m, m ∈ u.2.nodes ↔ ∃ (k : UInt64) (first : Bool), u.2.ring.ring[k]? = some (first, m)

theorem Faithful.nil (H : RingHash) : Faithful H [] := ⟨by simp, List.isChain_nil, by simp⟩

/-- A first update introduces the node, a later one can be replayed on the last. -/
theorem Faithful.snoc {H : RingHash} {updates : List (Member × ClusterUpdate)}
    (h : Faithful H updates) {u : Member × ClusterUpdate}
    (hfirst : updates = [] → u.2.events = [.alone u.1] ∨ u.2.events = [.joined u.1])
    (hlater : ∀ v ∈ updates.getLast?, replay v.2.nodes u.2.events = some u.2.nodes ∧
      ∀ m, .joined m ∈ u.2.events → m = u.1)
    (hholds : NodeRing.Holds H u.2.ring {m | m ∈ u.2.nodes}) : Faithful H (updates ++ [u]) := by
  refine ⟨?_, ?_, fun v hv => ?_⟩
  · cases updates with
    | nil =>
        intro v hv
        cases hv
        exact hfirst rfl
    | cons v updates => exact h.first
  · refine List.isChain_append.mpr ⟨h.later, List.isChain_singleton _, fun v hv w hw => ?_⟩
    cases hw
    exact hlater v hv
  · rcases List.mem_append.mp hv with hv | hv
    · exact h.ring v hv
    · rw [List.mem_singleton.mp hv]
      exact ⟨hholds, NodeRing.mem_iff_of_holds hholds⟩

/-- An update that introduces the node is a stream by itself. -/
theorem Faithful.singleton {H : RingHash} {u : Member × ClusterUpdate} {event : ClusterEvent}
    (hevents : u.2.events = [event]) (hevent : event = .alone u.1 ∨ event = .joined u.1)
    (hholds : NodeRing.Holds H u.2.ring {m | m ∈ u.2.nodes}) : Faithful H [u] := by
  refine (Faithful.nil H).snoc (fun _ => ?_) (by simp) hholds
  rw [hevents]
  exact hevent.imp (congrArg ([·])) (congrArg ([·]))

/-- Only notifications reach subscribers. -/
theorem Output.filterMap_update? (subr : Nat) (out : List Output) :
    out.filterMap (update? subr) = (out.filter isNotify).filterMap (update? subr) := by
  induction out with
  | nil => rfl
  | cons x out ih =>
      rw [List.filterMap_cons, List.filter_cons, ih]
      cases x with
      | notify subr' update => rfl
      | _ => rfl

/-- A subscriber among distinct ones is sent an update once. -/
theorem Output.filterMap_update?_map {subrs : List Nat} (hnodup : subrs.Nodup) (subr : Nat)
    (update : ClusterUpdate) :
    (subrs.map fun s => Output.notify s update).filterMap (update? subr) =
      if subr ∈ subrs then [update] else [] := by
  induction subrs with
  | nil => rfl
  | cons s subrs ih =>
      obtain ⟨hs, hnodup⟩ := List.nodup_cons.mp hnodup
      rw [List.map_cons, List.filterMap_cons, ih hnodup]
      rcases eq_or_ne s subr with rfl | hne
      · simp [update?, hs]
      · simp [update?, hne, Ne.symm hne]

variable {H : RingHash} {o : Oracle} {U : Set Member} {common common' : NodeState}
  {ic ic' : InCluster}

/-- What a handler inside the cluster sends to a subscriber. -/
theorem Outcome.updates {charges : Charges} {events : List ClusterEvent} {out : List Output}
    (h : Outcome H U common charges events common' ic' out) (hnodup : common.subscribers.Nodup)
    (subr : Nat) : out.filterMap (Output.update? subr) =
      if events ≠ [] ∧ subr ∈ common.subscribers then [⟨events, ic'.members, ic'.ring⟩]
      else [] := by
  rw [Output.filterMap_update?, h.notifies]
  by_cases hevents : events = []
  · simp [hevents]
  · rw [if_neg hevents, Output.filterMap_update?_map hnodup]
    simp [hevents]

theorem Output.Plain.updates {out : List Output} (h : Output.Plain out) (subr : Nat) :
    out.filterMap (Output.update? subr) = [] := by
  rw [Output.filterMap_update?, h.filter_isNotify]
  rfl

namespace Node

variable {n : Node}

/-- The updates that a subscriber was sent. -/
def updates (n : Node) (subr : Nat) : List (Member × ClusterUpdate) :=
  n.log.filterMap fun e => (e.2.update? subr).map fun update => (e.1, update)

theorem updates_after (n : Node) (c : Cluster) (out : List Output) (subr : Nat) :
    (after n.log c out).updates subr = n.updates subr ++
      (out.filterMap (Output.update? subr)).map fun update => (c.common.member, update) := by
  simp only [updates, after, List.filterMap_append, List.filterMap_map, List.map_filterMap]
  rfl

/-- A subscription has a number of its own. -/
def Subscribes (n : Node) : ClusterMsg → Prop
  | .subscribe subr => subr ∉ n.cluster.common.subscribers ∧ n.updates subr = []
  | _ => True

/-! ## The invariant -/

/-- Every stream is faithful, and the stream of a subscriber is up to date. -/
structure Streams (H : RingHash) (n : Node) : Prop where
  faithful : ∀ subr, Faithful H (n.updates subr)
  nodup : n.cluster.common.subscribers.Nodup
  outside : n.cluster.state.gossip? = none → ∀ subr, n.updates subr = []
  inside : ∀ ic, n.cluster.state = .inCluster ic → ∀ subr ∈ n.cluster.common.subscribers,
    ∃ u ∈ (n.updates subr).getLast?, u.2.nodes = ic.members

/-- Outside the cluster, a handler that sends no update leaves the streams as they
are. -/
theorem Streams.still (hstreams : n.Streams H) {c : Cluster} {out : List Output}
    (hout : n.cluster.state.gossip? = none) (hout' : c.state.gossip? = none)
    (hsame : ∀ subr, (after n.log c out).updates subr = n.updates subr)
    (hnodup : c.common.subscribers.Nodup) : (after n.log c out).Streams H := by
  refine ⟨fun subr => ?_, hnodup, fun _ subr => ?_, fun ic hic => ?_⟩
  · rw [hsame]
    exact hstreams.faithful subr
  · rw [hsame]
    exact hstreams.outside hout subr
  · rw [show c.state = .inCluster ic from hic] at hout'
    cases hout'

/-- However a handler moves the actor, the streams stay faithful. -/
theorem Streams.of_moved (hstreams : n.Streams H) (hrep : n.cluster.Represents H U)
    {subr? : Option Nat} {c : Cluster} {out : List Output}
    (hnew : ∀ subr ∈ subr?, subr ∉ n.cluster.common.subscribers ∧ n.updates subr = [])
    (h : Cluster.Moved H U n.cluster subr? c out) : (after n.log c out).Streams H := by
  cases h with
  | outside state out h h' plain =>
      have hsame : ∀ subr, (after n.log ⟨n.cluster.common, state⟩ out).updates subr =
          n.updates subr := by
        intro subr
        rw [updates_after, plain.updates, List.map_nil, List.append_nil]
      exact hstreams.still h h' hsame hstreams.nodup
  | enters event common' ic' out h hevent outcome =>
      have hempty := hstreams.outside h
      have hupdates : ∀ subr, (after n.log ⟨common', .inCluster ic'⟩ out).updates subr =
          if subr ∈ n.cluster.common.subscribers
          then [(common'.member, ⟨[event], ic'.members, ic'.ring⟩)] else [] := by
        intro subr
        rw [updates_after, hempty, outcome.updates hstreams.nodup]
        split <;> simp_all
      refine ⟨fun subr => ?_, hstreams.nodup.sublist outcome.subscribers, nofun,
        fun ic hic subr hsubr => ?_⟩
      · rw [hupdates]
        split
        · exact .singleton rfl hevent outcome.sane.ring.holds
        · exact .nil H
      · cases hic
        rw [hupdates, if_pos (outcome.subscribers.subset hsubr)]
        exact ⟨_, rfl, rfl⟩
  | inside ic events common' ic' out h outcome follows =>
      have hupdates : ∀ subr, (after n.log ⟨common', .inCluster ic'⟩ out).updates subr =
          n.updates subr ++ if events ≠ [] ∧ subr ∈ n.cluster.common.subscribers
            then [(common'.member, ⟨events, ic'.members, ic'.ring⟩)] else [] := by
        intro subr
        rw [updates_after, outcome.updates hstreams.nodup]
        split <;> rfl
      refine ⟨fun subr => ?_, hstreams.nodup.sublist outcome.subscribers, nofun,
        fun ic₁ hic subr hsubr => ?_⟩
      · rw [hupdates]
        split
        · next hsent =>
            obtain ⟨u, hu, hnodes⟩ := hstreams.inside ic h subr hsent.2
            refine (hstreams.faithful subr).snoc (fun hnil => ?_) (fun v hv => ?_)
              outcome.sane.ring.holds
            · rw [hnil] at hu
              cases hu
            · cases Option.mem_unique hu hv
              rw [hnodes]
              exact ⟨follows.replays, follows.joined⟩
        · rw [List.append_nil]
          exact hstreams.faithful subr
      · cases hic
        have hold := outcome.subscribers.subset hsubr
        rw [hupdates]
        by_cases hevents : events = []
        · -- without events the members stay the same
          have hmembers : ic.members = ic'.members := by
            have hreplays := follows.replays
            rw [hevents] at hreplays
            exact Option.some.inj hreplays
          rw [if_neg (by simp [hevents]), List.append_nil, ← hmembers]
          exact hstreams.inside ic h subr hold
        · rw [if_pos ⟨hevents, hold⟩, List.getLast?_append]
          exact ⟨_, rfl, rfl⟩
  | subscribes subr out hout =>
      obtain ⟨hnotin, hnone⟩ := hnew subr rfl
      have hnodup : (n.cluster.common.subscribers ++ [subr]).Nodup := by
        refine List.nodup_append.mpr ⟨hstreams.nodup, by simp, ?_⟩
        rintro x hx y hy rfl
        exact hnotin (List.mem_singleton.mp hy ▸ hx)
      rcases hout with ⟨hstate, rfl⟩ | ⟨ic, event, hic, hevent, rfl⟩
      · have hsame : ∀ subr', (after n.log ⟨{ n.cluster.common with
            subscribers := n.cluster.common.subscribers ++ [subr] }, n.cluster.state⟩
              []).updates subr' = n.updates subr' := by
          intro subr'
          rw [updates_after]
          exact List.append_nil _
        exact hstreams.still hstate hstate hsame hnodup
      · have hupdates : ∀ subr', (after n.log ⟨{ n.cluster.common with
            subscribers := n.cluster.common.subscribers ++ [subr] }, n.cluster.state⟩
              [.notify subr ⟨[event], ic.members, ic.ring⟩]).updates subr' =
            if subr' = subr then [(n.cluster.common.member, ⟨[event], ic.members, ic.ring⟩)]
            else n.updates subr' := by
          intro subr'
          rw [updates_after]
          split
          · next heq => simp [heq, hnone, Output.update?]
          · next hne => simp [Ne.symm hne, Output.update?]
        refine ⟨fun subr' => ?_, hnodup, fun hstate => ?_, fun ic₁ hic₁ subr' hsubr => ?_⟩
        · rw [hupdates]
          split
          · exact .singleton rfl hevent (hrep.sane ic hic).ring.holds
          · exact hstreams.faithful subr'
        · change n.cluster.state.gossip? = none at hstate
          rw [hic] at hstate
          cases hstate
        · rw [show n.cluster.state = .inCluster ic₁ from hic₁] at hic
          cases hic
          rw [hupdates]
          split
          · exact ⟨_, rfl, rfl⟩
          · next hne =>
              rcases List.mem_append.mp hsubr with hsubr | hsubr
              · exact hstreams.inside ic hic₁ subr' hsubr
              · exact absurd (List.mem_singleton.mp hsubr) hne

/-- In every run of the clustering actor in which every subscription has a number
of its own, the updates of every subscriber are a faithful log: the first one
introduces the node, and every later one can be replayed on the one before it. -/
theorem update_stream (hadm : NodeRing.Admissible H U) (socket : Socket) (id : UInt64)
    {subrs : List Nat} (hsubrs : subrs.Nodup) (clrConfig : ClusterConfig)
    (hown : (Cluster.new socket id subrs clrConfig).common.member ∈ U)
    (h : ((system H U o (Cluster.new socket id subrs clrConfig)).restrict
      fun n mv => n.Subscribes mv.1).Reachable n) (subr : Nat) : Faithful H (n.updates subr) := by
  refine (h.invariant (I := Streams H) (fun n hn => ?_)
    fun n mv n' hreach hstreams hst => ?_).faithful subr
  · rw [show n = start H o (Cluster.new socket id subrs clrConfig) from hn]
    have hnew : Streams H ⟨Cluster.new socket id subrs clrConfig, []⟩ :=
      ⟨fun _ => .nil H, hsubrs, fun _ _ => rfl, nofun⟩
    exact hnew.of_moved ⟨hown, nofun, nofun⟩ (by simp)
      (Cluster.preStart_moved hadm (o := o) rfl hown)
  · obtain ⟨⟨hnext, hmv⟩, hsubscribes⟩ := hst
    have hinv := inv_of_reachable hadm rfl rfl hown hreach.of_restrict
    obtain ⟨c, out, hok, hmoved⟩ := hinv.next_ok hadm hmv
    cases hok.symm.trans hnext
    refine hstreams.of_moved hinv.represents (fun subr hsubr => ?_) hmoved
    obtain ⟨msg, o'⟩ := mv
    cases msg with
    | subscribe subr' =>
        cases hsubr
        exact hsubscribes
    | _ => cases hsubr

/-! ### The streams of a node that is downed and goes on -/

section Rejoin

instance (n : Node) : DecidablePred n.Subscribes
  | .subscribe subr =>
      inferInstanceAs (Decidable (subr ∉ n.cluster.common.subscribers ∧ n.updates subr = []))
  | .intraMsg _ | .pingTimeout | .gossipTimeout | .downed _ | .heartbeatTick => isTrue trivial

theorem update_stream_rejoin :
    ∃ n : Node, ((system RingHash.byId {m | m ∈ seats} firstChoices seeded).restrict
        fun n mv => n.Subscribes mv.1).Reachable n ∧
      (n.updates 0).map (fun u => u.2.events) = [[.joined (seat 10 1)],
        [.removed (seat 10 1), .joined (seat 10 5)], [.removed (seat 11 2)]] ∧
      (n.updates 1).length = 3 ∧ Faithful RingHash.byId (n.updates 0) := by
  have hadm : NodeRing.Admissible RingHash.byId {m | m ∈ seats} :=
    NodeRing.admissible_of_nodup (by decide) (by decide)
  obtain ⟨n, hn, hevents, hlength⟩ : ∃ n ∈ System.execWhere
      (fun n mv => Admitted {m | m ∈ seats} n mv ∧ n.Subscribes mv.1) (next RingHash.byId)
      (start RingHash.byId firstChoices seeded) rejoin,
      (n.updates 0).map (fun u => u.2.events) = [[.joined (seat 10 1)],
        [.removed (seat 10 1), .joined (seat 10 5)], [.removed (seat 11 2)]] ∧
      (n.updates 1).length = 3 := by decide
  have h := (System.reachable_of_execWhere rejoin (.of_init rfl) hn).restrict_restrict
  exact ⟨n, h, hevents, hlength,
    update_stream hadm (Socket.localhost 10) 1 (by decide) _ (by decide) h 0⟩

end Rejoin

end Node

end AurumActors.Cluster
