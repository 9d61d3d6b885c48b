/-
  Cluster/Detection.lean --- failure detection in a network of nodes.

  Any number of nodes have a clustering actor each, with the receivers it
  spawned.  Requests, heartbeats and gossip may be lost, duplicated, delayed and
  reordered, receivers time out at any time, and their reports wait in the
  mailbox of the actor.  Every downed member is followed back to the receiver
  that heard nothing of it, and every report to the downing.

  Scope disclosure: sends succeed, as the hosts of all members resolve, and words
  wrap as in a release build.  The registry takes every receiver that is spawned,
  and `Core/Registry.lean` says when it does not.  A receiver ends with its `Term`
  or a panic, and a node may stop hearing and answering at any time, but the
  process of a node is not started twice.
-/
import AurumActors.Cluster.Watchers

set_option autoImplicit false
set_option linter.dupNamespace false

namespace AurumActors.Cluster

open Std
open AurumActors.Core AurumActors.Foundation

/-! ## The network -/

/-- The nodes, and the messages to clusters and receivers sent so far. -/
structure Detection (ι : Type) where
  site : ι → Option Site
  sent : List (Socket × IntraClusterMsg)
  beats : List Beat

namespace Detection

inductive Move (ι : Type) where
  | start (i : ι) (socket : Socket) (id : UInt64) (subrs : List Nat) (clrConfig : ClusterConfig)
      (hbrConfig : HBRConfig)
  /-- an actor gets a message of a timer or a subscriber -/
  | «local» (i : ι) (msg : ClusterMsg)
  | deliver (i : ι) (dest : Socket) (msg : IntraClusterMsg)
  /-- an actor takes the first report -/
  | report (i : ι)
  /-- a heartbeat arrives at a receiver -/
  | heartbeat (i : ι) (k : Nat) (beat : Beat) (now fuel : Nat)
  | timeout (i : ι) (k : Nat)
  /-- a receiver takes its `Term` -/
  | term (i : ι) (k : Nat)

/-- Messages that no receiver sends. -/
def ofTimer : ClusterMsg → Bool
  | .intraMsg _ | .downed _ => false
  | _ => true

section Step

variable {ι : Type} [DecidableEq ι]

local instance : LawfulBEq (Socket × IntraClusterMsg) := inferInstance

/-- A handler of the actor of a node ends. -/
def after (w : Detection ι) (i : ι) (s : Site) (a : Actor) (out : List Output) : Detection ι where
  site := Function.update w.site i (some (s.after a out))
  sent := w.sent ++ out.filterMap Output.packet?
  beats := w.beats ++ out.filterMap Output.beat?

/-- A receiver of a node did something. -/
def watched (w : Detection ι) (i : ι) (s : Site) (k : Nat) (x : Watcher)
    (out : List HeartbeatReceiver.Output) : Detection ι where
  site := Function.update w.site i (some (s.watched k x out))
  sent := w.sent ++ out.filterMap (·.packet?)
  beats := w.beats

/-- The actor of a node handles a message. -/
def handle (H : RingHash) (w : Detection ι) (o : Oracle) (i : ι) (s : Site) (c : Cluster)
    (msg : ClusterMsg) : Detection ι :=
  match c.recv H o msg with
  | .ok (c, out) => w.after i s (.running c) out
  | .error f => w.after i s (.failed f.common) f.out

/-- A receiver that has not ended. -/
def live? (w : Detection ι) (i : ι) (k : Nat) : Option (Site × Watcher) := do
  let s ← w.site i
  let x ← s.watchers[k]?
  if x.ended = none then some (s, x) else none

/-- A node whose actor runs. -/
def running? (w : Detection ι) (i : ι) : Option (Site × Cluster) := do
  let s ← w.site i
  let c ← s.cluster?
  return (s, c)

def next (H : RingHash) (checks : Bool) (durationPhi : IntervalStorage → Except Trap Nat)
    (w : Detection ι) : Move ι × Oracle → Option (Detection ι)
  | (.start i socket id subrs clrConfig hbrConfig, o) =>
      if (w.site i).isSome then none
      else
        let c := Cluster.new socket id subrs clrConfig
        let (c', out) := c.preStart H o
        some (w.after i ⟨.running c, [], [], [], hbrConfig⟩ (.running c') out)
  | (.local i msg, o) => do
      let (s, c) ← w.running? i
      if ofTimer msg then some (w.handle H o i s c msg) else none
  | (.deliver i dest msg, o) => do
      let (s, c) ← w.running? i
      if (dest, msg) ∈ w.sent ∧ c.common.member.socket = dest then
        some (w.handle H o i s c (.intraMsg msg))
      else none
  | (.report i, o) => do
      let (s, c) ← w.running? i
      match s.reports with
      | [] => none
      | m :: reports => some (w.handle H o i { s with reports } c (.downed m))
  | (.heartbeat i k beat now fuel, _) => do
      let (s, x) ← w.live? i k
      if beat ∈ w.beats ∧ beat.dest = s.actor.common.member.socket ∧ beat.id = x.charge.id then
        (x.heartbeat checks durationPhi fuel now (beat.interval * 1000000) beat.changes).map
          fun x => w.watched i s k x []
      else none
  | (.timeout i k, _) => do
      let (s, x) ← w.live? i k
      some (w.watched i s k x.timeout x.logged.receiver.timeout.2.1)
  | (.term i k, _) => do
      let (s, x) ← w.live? i k
      if .term k ∈ s.done then
        some (w.watched i s k { x with ended := some .stopped } [])
      else none

/-- Members that start are in the universe, and ids that are drawn for a gossip
are new and in the universe too. -/
def Admitted (U : Set Member) (w : Detection ι) : Move ι × Oracle → Prop
  | (.start _ socket id subrs clrConfig _, _) =>
      (Cluster.new socket id subrs clrConfig).common.member ∈ U
  | (.deliver i _ (.state gossip), o) => ∀ e ∈ w.running? i,
      DrawsIn U o e.2.common gossip ∧ FreshId o e.2.common e.2.state.gossip? gossip
  | _ => True

def empty : Detection ι := ⟨fun _ => none, [], []⟩

def system (H : RingHash) (checks : Bool) (durationPhi : IntervalStorage → Except Trap Nat)
    (U : Set Member) : System (Detection ι) (Move ι × Oracle) :=
  (System.ofNext empty (next H checks durationPhi)).restrict (Admitted U)

end Step

/-- The actors and their messages. -/
def net {ι : Type} (w : Detection ι) : GossipNet ι := ⟨fun i => (w.site i).map (·.actor), w.sent⟩

end Detection

/-! ## One move -/

theorem down_gossip {H : RingHash} {o : Oracle} {ic ic' : InCluster} {common common' : NodeState}
    {m : Member} {out : List Output} (h : ic.down H o common m = .ok (ic', common', out)) :
    ic'.gossip.states[m]? = some .down := by
  unfold InCluster.down at h
  split at h
  · cases h
  · next hdown =>
      cases h
      exact hdown
  · split at h
    · cases h
    · split at h
      · obtain ⟨⟨ic₁, common₁, hbrs⟩, hupdate, h⟩ := ok_of_bind h
        cases h
        rw [(InCluster.settled_of_ok hupdate).gossip]
        simp only [getElem?_insert_eq, if_true]
      · cases h

namespace Detection

variable {ι : Type}

/-- A receiver of some node reported the member. -/
def Reported (w : Detection ι) (m : Member) : Prop :=
  ∃ (i : ι) (s : Site), w.site i = some s ∧ ∃ x ∈ s.watchers, x.charge = m ∧ x.Reported

/-- Receivers go on. -/
theorem Reported.mono {w w' : Detection ι} {m : Member} (h : w.Reported m)
    (hgoes : ∀ j t, w.site j = some t → ∃ t', w'.site j = some t' ∧
      ∀ x ∈ t.watchers, ∃ x' ∈ t'.watchers, x.GoesOn x') : w'.Reported m := by
  obtain ⟨j, t, ht, x, hx, hcharge, hreported⟩ := h
  obtain ⟨t', ht', hwatchers⟩ := hgoes j t ht
  obtain ⟨x', hx', hx''⟩ := hwatchers x hx
  exact ⟨j, t', ht', x', hx', hx''.charge.trans hcharge, hx''.reported hreported⟩

structure Inv (H : RingHash) (U : Set Member) (w : Detection ι) : Prop where
  sites : ∀ (i : ι) (s : Site), w.site i = some s → ∃ c, s.Sound H U c ∧ s.Answered c
  names : ∀ m, w.net.Names m → m ∈ U
  evidence : ∀ m, w.net.Has m .down → w.Reported m
  /-- the request of a receiver was sent when it started -/
  requested : ∀ (i : ι) (s : Site), w.site i = some s → ∀ x ∈ s.watchers,
    (x.charge.socket, x.logged.receiver.req) ∈ w.sent

variable {H : RingHash} {U : Set Member} {w : Detection ι} {i : ι} {s : Site}

theorem running_of_running? {c : Cluster} (h : w.running? i = some (s, c)) :
    w.site i = some s ∧ s.actor = .running c := by
  obtain ⟨s, hs, h⟩ := Option.bind_eq_some_iff.mp h
  obtain ⟨c, hc, h⟩ := Option.bind_eq_some_iff.mp h
  cases h
  exact ⟨hs, Site.running_of_cluster? hc⟩

theorem live_of_live? {k : Nat} {x : Watcher} (h : w.live? i k = some (s, x)) :
    w.site i = some s ∧ s.watchers[k]? = some x ∧ x.ended = none := by
  obtain ⟨s, hs, h⟩ := Option.bind_eq_some_iff.mp h
  obtain ⟨x, hx, h⟩ := Option.bind_eq_some_iff.mp h
  split at h
  · next hended =>
      cases h
      exact ⟨hs, hx, hended⟩
  · cases h

theorem Inv.running (h : Inv H U w) {c : Cluster} (hrunning : w.running? i = some (s, c)) :
    w.site i = some s ∧ s.Sound H U c ∧ s.Answered c := by
  obtain ⟨hs, hactor⟩ := running_of_running? hrunning
  obtain ⟨c₀, hsound, hanswered⟩ := h.sites i s hs
  cases hactor.symm.trans hsound.running
  exact ⟨hs, hsound, hanswered⟩

theorem Inv.live (h : Inv H U w) {k : Nat} {x : Watcher} (hlive : w.live? i k = some (s, x)) :
    w.site i = some s ∧ s.watchers[k]? = some x ∧ x.ended = none ∧ x.Sound s.hbrConfig ∧
      ∃ c, s.Sound H U c ∧ s.Answered c := by
  obtain ⟨hs, hx, hended⟩ := live_of_live? hlive
  obtain ⟨c, hsound, hanswered⟩ := h.sites i s hs
  exact ⟨hs, hx, hended, hsound.sound x (List.mem_of_getElem? hx), c, hsound, hanswered⟩

theorem actor_net (hs : w.site i = some s) : w.net.actor i = some s.actor := by
  simp only [net, hs, Option.map_some]

/-- A message that was sent names members of the universe. -/
theorem Inv.admits (h : Inv H U w) {dest : Socket} {msg : IntraClusterMsg}
    (hsent : (dest, msg) ∈ w.sent) {c : Cluster} {o : Oracle}
    (hfresh : ∀ gossip, msg = .state gossip →
      DrawsIn U o c.common gossip ∧ FreshId o c.common c.state.gossip? gossip) :
    c.Admits U o (.intraMsg msg) := by
  cases msg with
  | state gossip =>
      refine ⟨fun m hm => h.names m ?_, hfresh gossip rfl⟩
      rw [ExtTreeMap.mem_iff_isSome_getElem?, Option.isSome_iff_exists] at hm
      obtain ⟨r, hr⟩ := hm
      exact .inl ⟨r, .inr ⟨dest, gossip, hsent, hr⟩⟩
  | ping member => exact h.names member (.inr ⟨dest, .inl hsent⟩)
  | _ => trivial

section Step

variable [DecidableEq ι]

/-- The message that a move brings to the actor of node `i`, and the site without it. -/
inductive Takes (w : Detection ι) (i : ι) (s : Site) (c : Cluster) :
    Move ι → Site → ClusterMsg → Prop where
  | «local» {msg : ClusterMsg} (htimer : ofTimer msg = true) : Takes w i s c (.local i msg) s msg
  | deliver {dest : Socket} {msg : IntraClusterMsg} (hsent : (dest, msg) ∈ w.sent)
      (hdest : c.common.member.socket = dest) :
      Takes w i s c (.deliver i dest msg) s (.intraMsg msg)
  | report {m : Member} {reports : List Member} (hreports : s.reports = m :: reports) :
      Takes w i s c (.report i) { s with reports } (.downed m)

omit [DecidableEq ι] in
theorem Takes.log_eq {w : Detection ι} {i : ι} {s s₀ : Site} {c : Cluster} {mv : Move ι}
    {msg : ClusterMsg} (h : w.Takes i s c mv s₀ msg) : s₀.log = s.log := by
  cases h <;> rfl

/-- What a move can do. -/
inductive Moved (H : RingHash) (checks : Bool)
    (durationPhi : IntervalStorage → Except Trap Nat) (w : Detection ι) :
    Move ι × Oracle → Detection ι → Prop where
  | start {i : ι} {socket : Socket} {id : UInt64} {subrs : List Nat} {clrConfig : ClusterConfig}
      {hbrConfig : HBRConfig} {o : Oracle} (hfree : w.site i = none) :
      Moved H checks durationPhi w (.start i socket id subrs clrConfig hbrConfig, o)
        (w.after i ⟨.running (.new socket id subrs clrConfig), [], [], [], hbrConfig⟩
          (.running ((Cluster.new socket id subrs clrConfig).preStart H o).1)
          ((Cluster.new socket id subrs clrConfig).preStart H o).2)
  | handle {mv : Move ι} {i : ι} {s s₀ : Site} {c : Cluster} {msg : ClusterMsg} {o : Oracle}
      (hrunning : w.running? i = some (s, c)) (htakes : w.Takes i s c mv s₀ msg) :
      Moved H checks durationPhi w (mv, o) (w.handle H o i s₀ c msg)
  | heartbeat {i : ι} {s : Site} {k : Nat} {x x' : Watcher} {beat : Beat} {now fuel : Nat}
      {o : Oracle} (hlive : w.live? i k = some (s, x))
      (hbeat : x.heartbeat checks durationPhi fuel now (beat.interval * 1000000) beat.changes =
        some x') :
      Moved H checks durationPhi w (.heartbeat i k beat now fuel, o) (w.watched i s k x' [])
  | timeout {i : ι} {s : Site} {k : Nat} {x : Watcher} {o : Oracle}
      (hlive : w.live? i k = some (s, x)) :
      Moved H checks durationPhi w (.timeout i k, o)
        (w.watched i s k x.timeout x.logged.receiver.timeout.2.1)
  | term {i : ι} {s : Site} {k : Nat} {x : Watcher} {o : Oracle}
      (hlive : w.live? i k = some (s, x)) (hterm : .term k ∈ s.done) :
      Moved H checks durationPhi w (.term i k, o)
        (w.watched i s k { x with ended := some .stopped } [])

theorem moved_of_next {checks : Bool} {durationPhi : IntervalStorage → Except Trap Nat}
    {w' : Detection ι} {mv : Move ι × Oracle} (h : w.next H checks durationPhi mv = some w') :
    w.Moved H checks durationPhi mv w' := by
  obtain ⟨mv, o⟩ := mv
  cases mv with
  | start i socket id subrs clrConfig hbrConfig =>
      simp only [Detection.next] at h
      split at h
      · cases h
      · next hfree =>
          cases h
          exact .start (by simpa using hfree)
  | «local» i msg =>
      obtain ⟨⟨s, c⟩, hrunning, h⟩ := Option.bind_eq_some_iff.mp h
      simp only at h
      split at h
      · next htimer =>
          cases h
          exact .handle hrunning (.local htimer)
      · cases h
  | deliver i dest msg =>
      obtain ⟨⟨s, c⟩, hrunning, h⟩ := Option.bind_eq_some_iff.mp h
      simp only at h
      split at h
      · next hsent =>
          cases h
          exact .handle hrunning (.deliver hsent.1 hsent.2)
      · cases h
  | report i =>
      obtain ⟨⟨s, c⟩, hrunning, h⟩ := Option.bind_eq_some_iff.mp h
      simp only at h
      split at h
      · cases h
      · next m reports hreports =>
          cases h
          exact .handle hrunning (.report hreports)
  | heartbeat i k beat now fuel =>
      obtain ⟨⟨s, x⟩, hlive, h⟩ := Option.bind_eq_some_iff.mp h
      simp only at h
      split at h
      · obtain ⟨x', hbeat, rfl⟩ := Option.map_eq_some_iff.mp h
        exact .heartbeat hlive hbeat
      · cases h
  | timeout i k =>
      obtain ⟨⟨s, x⟩, hlive, h⟩ := Option.bind_eq_some_iff.mp h
      cases h
      exact .timeout hlive
  | term i k =>
      obtain ⟨⟨s, x⟩, hlive, h⟩ := Option.bind_eq_some_iff.mp h
      simp only at h
      split at h
      · next hterm =>
          cases h
          exact .term hlive hterm
      · cases h

theorem net_after (w : Detection ι) (i : ι) (s : Site) (a : Actor) (out : List Output) :
    (w.after i s a out).net = w.net.after i a out := by
  refine congrArg (GossipNet.mk · _) (funext fun j => ?_)
  by_cases hj : j = i
  · subst hj
    simp [after, Site.after]
  · simp [after, net, Function.update_of_ne hj]

theorem net_handle (w : Detection ι) (o : Oracle) (i : ι) (s : Site) (c : Cluster)
    (msg : ClusterMsg) : (w.handle H o i s c msg).net = w.net.handle H o i c msg := by
  simp only [handle, GossipNet.handle]
  cases c.recv H o msg with
  | ok r => exact net_after ..
  | error f => exact net_after ..

theorem site_after_eq (w : Detection ι) (i : ι) (s : Site) (a : Actor) (out : List Output) :
    (w.after i s a out).site i = some (s.after a out) := Function.update_self ..

theorem site_after_ne (w : Detection ι) {i j : ι} (hj : j ≠ i) (s : Site) (a : Actor)
    (out : List Output) : (w.after i s a out).site j = w.site j := Function.update_of_ne hj ..

/-- A handler of an actor ends without failing.  What it downs was reported. -/
theorem Inv.after (h : Inv H U w) {s₀ : Site} {c : Cluster} {out : List Output}
    (hwatchers : ∀ t, w.site i = some t → t.watchers = s₀.watchers)
    (hnone : w.site i = none → s₀.watchers = [])
    (hsound : (s₀.after (.running c) out).Sound H U c)
    (hanswered : (s₀.after (.running c) out).Answered c) (mv : GossipNet.Move ι × Oracle)
    (hstep : (GossipNet.system H).step w.net mv (w.after i s₀ (.running c) out).net)
    (hreports : ∀ (j : ι) (m : Member), mv.1 = .local j (.downed m) → w.Reported m) :
    Inv H U (w.after i s₀ (.running c) out) := by
  have hsites : ∀ j t, (w.after i s₀ (.running c) out).site j = some t →
      j = i ∧ t = s₀.after (.running c) out ∨ w.site j = some t := by
    intro j t ht
    by_cases hj : j = i
    · subst hj
      rw [site_after_eq] at ht
      exact .inl ⟨rfl, (Option.some.inj ht).symm⟩
    · exact .inr ((site_after_ne w hj _ _ _).symm.trans ht)
  have hall : ∀ j t, (w.after i s₀ (.running c) out).site j = some t →
      ∃ c, t.Sound H U c ∧ t.Answered c := by
    intro j t ht
    rcases hsites j t ht with ⟨-, rfl⟩ | hold
    · exact ⟨c, hsound, hanswered⟩
    · exact h.sites j t hold
  have hmono : ∀ m, w.Reported m → (w.after i s₀ (.running c) out).Reported m := by
    intro m hm
    refine hm.mono fun j t ht => ?_
    by_cases hj : j = i
    · subst hj
      refine ⟨_, site_after_eq .., fun x hx => ⟨x, ?_, .refl x⟩⟩
      rw [hwatchers t ht] at hx
      exact List.mem_append_left _ hx
    · exact ⟨t, (site_after_ne w hj _ _ _).trans ht, fun x hx => ⟨x, hx, .refl x⟩⟩
  obtain ⟨i', msg, a, gossip, out', htraces⟩ := GossipNet.traces_of_step hstep
  refine ⟨hall, fun m hm => ?_, fun m hm => ?_, fun j t ht x hx => ?_⟩
  · rcases htraces.names hm with hold | ⟨j, a, ha, rfl⟩
    · exact h.names m hold
    · obtain ⟨t, ht, rfl⟩ := Option.map_eq_some_iff.mp ha
      obtain ⟨c', hc', -⟩ := hall j t ht
      rw [hc'.running]
      exact hc'.node.represents.own
  · rcases htraces.has hm with hold | ⟨hup, -⟩ | ⟨-, j, -, -, -, -, hmv, -⟩
    · exact hmono m (h.evidence m hold)
    · cases hup
    · exact hmono m (hreports j m hmv)
  · have hold : ∀ t, w.site j = some t → x ∈ t.watchers →
        (x.charge.socket, x.logged.receiver.req) ∈ (w.after i s₀ (.running c) out).sent :=
      fun t ht hx => List.mem_append_left _ (h.requested j t ht x hx)
    rcases hsites j t ht with ⟨rfl, rfl⟩ | ht'
    · rcases List.mem_append.mp hx with hx | hx
      · cases hj : w.site j with
        | none =>
            rw [hnone hj] at hx
            cases hx
        | some t => exact hold t hj ((hwatchers t hj).symm ▸ hx)
      · obtain ⟨y, hy, hwatcher⟩ := List.mem_filterMap.mp hx
        refine List.mem_append_right _ (List.mem_filterMap.mpr ⟨y, hy, ?_⟩)
        cases y with
        | spawn k charge req =>
            cases hwatcher
            rfl
        | _ => cases hwatcher
    · exact hold t ht' hx

/-- A receiver of a node does something. -/
theorem Inv.watched (h : Inv H U w) (hs : w.site i = some s) {k : Nat} {x x' : Watcher}
    (hx : s.watchers[k]? = some x) {outs : List HeartbeatReceiver.Output}
    (hgoes : x.GoesOn x') {c : Cluster} (hsound : (s.watched k x' outs).Sound H U c)
    (hanswered : (s.watched k x' outs).Answered c)
    (hout : ∀ p ∈ outs.filterMap (·.packet?), p = (x.charge.socket, x.logged.receiver.req)) :
    Inv H U (w.watched i s k x' outs) := by
  have hupdate : (w.watched i s k x' outs).site i = some (s.watched k x' outs) :=
    Function.update_self ..
  have hother : ∀ j, j ≠ i → (w.watched i s k x' outs).site j = w.site j :=
    fun j hj => Function.update_of_ne hj ..
  have hsent : ∀ p, p ∈ (w.watched i s k x' outs).sent ↔ p ∈ w.sent := by
    intro p
    refine ⟨fun hp => ?_, List.mem_append_left _⟩
    rcases List.mem_append.mp hp with hp | hp
    · exact hp
    · rw [hout p hp]
      exact h.requested i s hs x (List.mem_of_getElem? hx)
  have hactor : (w.watched i s k x' outs).net.actor = w.net.actor := by
    funext j
    by_cases hj : j = i
    · subst hj
      simp only [net, hupdate, hs]
      rfl
    · simp only [net, hother j hj]
  have hhas : ∀ m r, (w.watched i s k x' outs).net.Has m r → w.net.Has m r := by
    rintro m r (⟨j, a, g, ha, hrest⟩ | ⟨dest, g, hg, hr⟩)
    · exact .inl ⟨j, a, g, hactor ▸ ha, hrest⟩
    · exact .inr ⟨dest, g, (hsent _).mp hg, hr⟩
  have hmem : ∀ j t, (w.watched i s k x' outs).site j = some t →
      j = i ∧ t = s.watched k x' outs ∨ w.site j = some t := by
    intro j t ht
    by_cases hj : j = i
    · subst hj
      rw [hupdate] at ht
      exact .inl ⟨rfl, (Option.some.inj ht).symm⟩
    · exact .inr ((hother j hj).symm.trans ht)
  refine ⟨fun j t ht => ?_, fun m hm => ?_, fun m hm => ?_, fun j t ht y hy => ?_⟩
  · rcases hmem j t ht with ⟨-, rfl⟩ | hold
    · exact ⟨c, hsound, hanswered⟩
    · exact h.sites j t hold
  · refine h.names m ?_
    rcases hm with ⟨r, hr⟩ | ⟨dest, hreq⟩
    · exact .inl ⟨r, hhas m r hr⟩
    · refine .inr ⟨dest, hreq.imp (hsent _).mp (Or.imp (hsent _).mp ?_)⟩
      exact fun ⟨id, hid⟩ => ⟨id, (hsent _).mp hid⟩
  · refine (h.evidence m (hhas m _ hm)).mono fun j t ht => ?_
    by_cases hj : j = i
    · subst hj
      cases hs.symm.trans ht
      refine ⟨_, hupdate, fun y hy => ?_⟩
      obtain ⟨n, hn⟩ := List.mem_iff_getElem?.mp hy
      by_cases hnk : n = k
      · subst hnk
        cases hx.symm.trans hn
        exact ⟨x', List.mem_of_getElem? (getElem?_set_of_some x' hx), hgoes⟩
      · exact ⟨y, List.mem_of_getElem? ((List.getElem?_set_ne (Ne.symm hnk)).trans hn), .refl y⟩
    · exact ⟨t, (hother j hj).trans ht, fun y hy => ⟨y, hy, .refl y⟩⟩
  · rw [hsent]
    rcases hmem j t ht with ⟨rfl, rfl⟩ | hold
    · obtain ⟨n, hn⟩ := List.mem_iff_getElem?.mp hy
      rcases getElem?_set_cases hx hn with ⟨-, rfl⟩ | ⟨-, hold⟩
      · rw [hgoes.charge, hgoes.req]
        exact h.requested j s hs x (List.mem_of_getElem? hx)
      · exact h.requested j s hs y (List.mem_of_getElem? hold)
    · exact h.requested j t hold y hy

theorem ok_of_next {c c' : Cluster} {log : List (Member × Output)} {msg : ClusterMsg} {o : Oracle}
    {out : List Output}
    (h : Node.next H ⟨c, log⟩ (msg, o) = some (Node.after log c' out)) :
    c.recv H o msg = .ok (c', out) := by
  simp only [Node.next] at h
  split at h
  · next c₁ out₁ hrecv =>
      obtain ⟨rfl, hlog⟩ := Node.mk.inj (Option.some.inj h)
      have hout : out₁ = out :=
        List.map_injective_iff.mpr (Prod.mk_right_injective _) (List.append_cancel_left hlog)
      rw [hrecv, hout]
  · cases h

/-- The actor of a node handles a message. -/
theorem Inv.handle (hadm : NodeRing.Admissible H U) (h : Inv H U w) (hs : w.site i = some s)
    {c : Cluster} {s₀ : Site} (hwatchers : s.watchers = s₀.watchers) (hsound : s₀.Sound H U c)
    {msg : ClusterMsg} {o : Oracle} (hadmits : Node.Admitted U ⟨c, s₀.log⟩ (msg, o))
    (hanswered : ∀ c' out, c.recv H o msg = .ok (c', out) →
      (s₀.after (.running c') out).Answered c') (mv : GossipNet.Move ι × Oracle)
    (hstep : (GossipNet.system H).step w.net mv (w.net.handle H o i c msg))
    (hreports : ∀ (j : ι) (m : Member), mv.1 = .local j (.downed m) → w.Reported m) :
    Inv H U (w.handle H o i s₀ c msg) := by
  obtain ⟨c', out, hnext, hmoved⟩ := hsound.node.next_ok hadm hadmits
  have hrecv := ok_of_next hnext
  rw [← net_handle w o i s₀ c msg] at hstep
  simp only [Detection.handle, hrecv] at hstep ⊢
  refine h.after (fun t ht => ?_) (fun hnone => ?_)
    (hsound.after hadm hmoved (recv_rewatched hrecv)) (hanswered c' out hrecv) mv hstep hreports
  · cases hs.symm.trans ht
    exact hwatchers
  · rw [hnone] at hs
    cases hs

/-- A handler forgets no downed member. -/
theorem keeps_of_recv {c c' : Cluster} {msg : ClusterMsg} {o : Oracle} {out : List Output}
    (hadmits : c.Admits U o msg) (h : c.recv H o msg = .ok (c', out)) :
    ∀ g, c.state.gossip? = some g → ∃ g', c'.state.gossip? = some g' ∧ g.Keeps g' := by
  refine (Cluster.recv_traced (fun gossip hmsg => ?_) h).keeps
  subst hmsg
  exact hadmits.2.2

theorem Inv.start (hadm : NodeRing.Admissible H U) (h : Inv H U w) (hnone : w.site i = none)
    {socket : Socket} {id : UInt64} {subrs : List Nat} {clrConfig : ClusterConfig}
    (hown : (Cluster.new socket id subrs clrConfig).common.member ∈ U) (hbrConfig : HBRConfig)
    (o : Oracle) : Inv H U (w.after i ⟨.running (.new socket id subrs clrConfig), [], [], [],
      hbrConfig⟩ (.running ((Cluster.new socket id subrs clrConfig).preStart H o).1)
      ((Cluster.new socket id subrs clrConfig).preStart H o).2) := by
  have hmoved := Cluster.preStart_moved hadm (o := o) (c := .new socket id subrs clrConfig) rfl hown
  have hsound : Site.Sound H U ⟨.running (.new socket id subrs clrConfig), [], [], [], hbrConfig⟩
      (.new socket id subrs clrConfig) := by
    refine ⟨rfl, ⟨⟨hown, fun ic hic => ?_, fun ic hic => ?_⟩, rfl, by simp⟩, rfl, by simp,
      fun m k hm => ?_, by simp [Site.done], by simp, by simp⟩
    · cases hic
    · cases hic
    · simp [Cluster.new, State.charges] at hm
  refine h.after (fun t ht => ?_) (fun _ => rfl) (hsound.after hadm hmoved (preStart_rewatched rfl))
    ?_ (.start i socket id subrs clrConfig, o) ⟨?_, trivial⟩ fun j m hmv => ?_
  · rw [hnone] at ht
    cases ht
  · refine Site.Answered.after (c := .new socket id subrs clrConfig) (fun x hx => ?_)
      fun g hg => ?_
    · cases hx
    · cases hg
  · rw [net_after]
    show GossipNet.next H w.net _ = _
    have hfree : w.net.actor i = none := by simp only [net, hnone, Option.map_none]
    simp only [GossipNet.next, hfree, Option.isSome_none, Bool.false_eq_true, if_false]
  · cases hmv

/-- A report is taken: its member is down afterwards. -/
theorem answered_of_report {c c' : Cluster} {o : Oracle} {m : Member} {reports : List Member}
    {out : List Output} (hanswered : s.Answered c) (hreports : s.reports = m :: reports)
    (hincluster : ∃ ic, c.state = .inCluster ic) (hrecv : c.recv H o (.downed m) = .ok (c', out)) :
    ({ s with reports }.after (.running c') out).Answered c' := by
  obtain ⟨ic, hic⟩ := hincluster
  have hkeeps := keeps_of_recv (U := Set.univ) (by trivial) hrecv
  have hdown : ∃ g, c'.state.gossip? = some g ∧ g.states[m]? = some .down := by
    obtain ⟨common, state⟩ := c
    subst hic
    obtain ⟨⟨ic', common', out'⟩, hok, h⟩ := ok_of_bind hrecv
    cases h
    exact ⟨ic'.gossip, rfl, down_gossip hok⟩
  intro x hx hreported
  rcases List.mem_append.mp hx with hx | hx
  · rcases hanswered x hx hreported with hwaits | ⟨g, hg, hx⟩
    · rw [hreports] at hwaits
      rcases List.mem_cons.mp hwaits with heq | hwaits
      · exact .inr (heq ▸ hdown)
      · exact .inl hwaits
    · obtain ⟨g', hg', hkept⟩ := hkeeps g hg
      obtain ⟨r, hr, hdown'⟩ := hkept _ _ hx
      exact .inr ⟨g', hg', hdown' rfl ▸ hr⟩
  · obtain ⟨y, -, hy⟩ := List.mem_filterMap.mp hx
    exact absurd hreported (Watcher.sound_of_watcher? hy).2.1

omit [DecidableEq ι] in
/-- What an admitted move brings is a message of the runs of one node. -/
theorem Inv.admitted (h : Inv H U w) {c : Cluster} (hrunning : w.running? i = some (s, c))
    {mv : Move ι} {s₀ : Site} {msg : ClusterMsg} {o : Oracle} (htakes : w.Takes i s c mv s₀ msg)
    (hadmitted : w.Admitted U (mv, o)) : Node.Admitted U ⟨c, s.log⟩ (msg, o) := by
  obtain ⟨hs, hsound, -⟩ := h.running hrunning
  cases htakes with
  | «local» htimer =>
      cases msg with
      | intraMsg m => cases htimer
      | downed m => cases htimer
      | _ => exact ⟨trivial, trivial⟩
  | deliver hsent hdest =>
      refine ⟨h.admits hsent ?_, trivial⟩
      rintro gossip rfl
      exact hadmitted _ hrunning
  | report hreports =>
      obtain ⟨x, hx, hcharge, -⟩ := hsound.reports _ (hreports ▸ List.mem_cons_self)
      exact ⟨trivial, hcharge ▸ hsound.spawned hx⟩

theorem Inv.local (hadm : NodeRing.Admissible H U) (h : Inv H U w) {c : Cluster}
    (hrunning : w.running? i = some (s, c)) {msg : ClusterMsg} (htimer : ofTimer msg = true)
    {o : Oracle} (hadmits : Node.Admitted U ⟨c, s.log⟩ (msg, o)) :
    Inv H U (w.handle H o i s c msg) := by
  obtain ⟨hs, hsound, hanswered⟩ := h.running hrunning
  refine h.handle hadm hs rfl hsound hadmits (fun c' out hrecv =>
    hanswered.after (keeps_of_recv hadmits.1 hrecv)) (.local i msg, o) ⟨?_, trivial⟩ ?_
  · have hlocal : GossipNet.isLocal msg = true := by
      cases msg with
      | intraMsg m => cases htimer
      | _ => rfl
    show GossipNet.next H w.net _ = _
    simp only [GossipNet.next, actor_net hs, hsound.running, hlocal, if_true]
  · intro j m hmv
    cases hmv
    cases htimer

theorem Inv.deliver (hadm : NodeRing.Admissible H U) (h : Inv H U w) {c : Cluster}
    (hrunning : w.running? i = some (s, c)) {dest : Socket} {msg : IntraClusterMsg} {o : Oracle}
    (hsent : (dest, msg) ∈ w.sent) (hdest : c.common.member.socket = dest)
    (hadmits : Node.Admitted U ⟨c, s.log⟩ (.intraMsg msg, o)) :
    Inv H U (w.handle H o i s c (.intraMsg msg)) := by
  obtain ⟨hs, hsound, hanswered⟩ := h.running hrunning
  refine h.handle hadm hs rfl hsound hadmits (fun c' out hrecv =>
    hanswered.after (keeps_of_recv hadmits.1 hrecv)) (.deliver i dest msg, o) ⟨?_, ?_⟩ nofun
  · show GossipNet.next H w.net _ = _
    simp only [GossipNet.next, actor_net hs, hsound.running]
    exact if_pos ⟨hsent, hdest⟩
  · cases msg with
    | state gossip =>
        intro a ha
        cases ha.symm.trans (actor_net hs)
        rw [hsound.running]
        exact hadmits.1.2.2
    | _ => trivial

theorem Inv.report (hadm : NodeRing.Admissible H U) (h : Inv H U w) {c : Cluster}
    (hrunning : w.running? i = some (s, c)) {m : Member} {reports : List Member}
    (hreports : s.reports = m :: reports) {o : Oracle}
    (hadmits : Node.Admitted U ⟨c, s.log⟩ (.downed m, o)) :
    Inv H U (w.handle H o i { s with reports } c (.downed m)) := by
  obtain ⟨hs, hsound, hanswered⟩ := h.running hrunning
  obtain ⟨x, hx, hcharge, hreported⟩ := hsound.reports m (hreports ▸ List.mem_cons_self)
  -- receivers are spawned inside the cluster, which an actor does not go back from
  have hincluster : ∃ ic, c.state = .inCluster ic := by
    obtain ⟨⟨own, y⟩, he, hy⟩ := hadmits.2
    cases y with
    | spawn k charge req =>
        obtain ⟨ic, hic, -⟩ := hsound.node.spawns own k charge req he
        exact ⟨ic, hic⟩
    | _ => cases hy
  have hsound' : Site.Sound H U { s with reports } c :=
    ⟨hsound.running, hsound.node, hsound.charges, hsound.sound, hsound.held, hsound.termed,
      hsound.stopped, fun m' hm' => hsound.reports m' (hreports ▸ List.mem_cons_of_mem _ hm')⟩
  have hwatchers : s.watchers = { s with reports }.watchers := rfl
  refine h.handle hadm hs hwatchers hsound' hadmits
    (fun c' out hrecv => answered_of_report hanswered hreports hincluster hrecv)
    (.local i (.downed m), o) ⟨?_, trivial⟩ ?_
  · show GossipNet.next H w.net _ = _
    simp only [GossipNet.next, actor_net hs, hsound.running]
    rfl
  · intro j m' hmv
    cases hmv
    exact ⟨i, s, hs, x, hx, hcharge, hreported⟩

theorem Inv.heartbeat (h : Inv H U w) {k : Nat} {x x' : Watcher}
    (hlive : w.live? i k = some (s, x)) {checks : Bool}
    {durationPhi : IntervalStorage → Except Trap Nat} {fuel now dur : Nat} {cnt : UInt32}
    (hbeat : x.heartbeat checks durationPhi fuel now dur cnt = some x') :
    Inv H U (w.watched i s k x' []) := by
  obtain ⟨hs, hx, -, hkept, c, hsound, hanswered⟩ := h.live hlive
  obtain ⟨hsound', hgoes, hreported, hstopped⟩ := hkept.heartbeat hbeat
  exact h.watched hs hx hgoes
    (hsound.watched hx hsound' hgoes (fun heq => absurd heq hstopped) nofun)
    (hanswered.watched hx hgoes fun hx' => .inl (hreported hx')) nofun

theorem Inv.timeout (h : Inv H U w) {k : Nat} {x : Watcher}
    (hlive : w.live? i k = some (s, x)) :
    Inv H U (w.watched i s k x.timeout x.logged.receiver.timeout.2.1) := by
  obtain ⟨hs, hx, hended, hkept, c, hsound, hanswered⟩ := h.live hlive
  obtain ⟨hsound', hgoes, hreported, hreports⟩ := hkept.timeout
  refine h.watched hs hx hgoes (hsound.watched hx hsound' hgoes (fun heq => ?_) hreports)
    (hanswered.watched hx hgoes hreported) (Watcher.report_of_timeout _).2.2.2.2.2
  rw [show x.timeout.ended = x.ended from rfl, hended] at heq
  cases heq

theorem Inv.term (h : Inv H U w) {k : Nat} {x : Watcher} (hlive : w.live? i k = some (s, x))
    (hterm : .term k ∈ s.done) : Inv H U (w.watched i s k { x with ended := some .stopped } []) := by
  obtain ⟨hs, hx, -, ⟨hconfig, hkept, hsilence⟩, c, hsound, hanswered⟩ := h.live hlive
  have hgoes : x.GoesOn { x with ended := some .stopped } := ⟨rfl, rfl, id⟩
  exact h.watched hs hx hgoes
    (hsound.watched hx ⟨hconfig, hkept, hsilence⟩ hgoes (fun _ => hterm) nofun)
    (hanswered.watched hx hgoes .inl) nofun

theorem Inv.next (hadm : NodeRing.Admissible H U) (h : Inv H U w) {checks : Bool}
    {durationPhi : IntervalStorage → Except Trap Nat} {w' : Detection ι} {mv : Move ι × Oracle}
    (hadmitted : w.Admitted U mv) (hnext : w.next H checks durationPhi mv = some w') :
    Inv H U w' := by
  cases moved_of_next hnext with
  | start hfree => exact h.start hadm hfree hadmitted _ _
  | handle hrunning htakes =>
      have hadmits := h.admitted hrunning htakes hadmitted
      cases htakes with
      | «local» htimer => exact h.local hadm hrunning htimer hadmits
      | deliver hsent hdest => exact h.deliver hadm hrunning hsent hdest hadmits
      | report hreports => exact h.report hadm hrunning hreports hadmits
  | heartbeat hlive hbeat => exact h.heartbeat hlive hbeat
  | timeout hlive => exact h.timeout hlive
  | term hlive hterm => exact h.term hlive hterm

omit [DecidableEq ι] in
theorem inv_empty : Inv H U (empty : Detection ι) := by
  refine ⟨nofun, fun m hm => ?_, fun m hm => ?_, nofun⟩
  · rcases hm with ⟨r, ⟨i, a, g, ha, -⟩ | ⟨dest, g, hg, -⟩⟩ | ⟨dest, hreq⟩
    · cases ha
    · cases hg
    · rcases hreq with hreq | hreq | ⟨id, hreq⟩ <;> cases hreq
  · rcases hm with ⟨i, a, g, ha, -⟩ | ⟨dest, g, hg, -⟩
    · cases ha
    · cases hg

theorem inv_of_reachable (hadm : NodeRing.Admissible H U) {checks : Bool}
    {durationPhi : IntervalStorage → Except Trap Nat}
    (h : (system H checks durationPhi U).Reachable w) : Inv H U w :=
  h.invariant (fun _ hw => hw ▸ inv_empty) fun _ _ _ _ hinv hst => hinv.next hadm hst.2 hst.1

theorem watched_of_ne {w : Detection ι} {i j : ι} (hj : j ≠ i) (s : Site) (k : Nat) (x : Watcher)
    (outs : List HeartbeatReceiver.Output) : (w.watched i s k x outs).site j = w.site j :=
  Function.update_of_ne hj ..

/-- What holds of the actor and the log of every node after its start, and is kept
by every message it can get there, holds in every run. -/
theorem node_invariant (hadm : NodeRing.Admissible H U) {checks : Bool}
    {durationPhi : IntervalStorage → Except Trap Nat}
    {A : Detection ι → Move ι × Oracle → Prop} {P : ι → Node → Prop}
    (hstart : ∀ w i socket id subrs clrConfig hbrConfig o,
      A w (.start i socket id subrs clrConfig hbrConfig, o) →
      (Cluster.new socket id subrs clrConfig).common.member ∈ U →
      P i (.start H o (.new socket id subrs clrConfig)))
    (hnext : ∀ w i s s₀ c mv msg o c' out, w.running? i = some (s, c) →
      w.Takes i s c mv s₀ msg → A w (mv, o) → Node.Admitted U ⟨c, s.log⟩ (msg, o) →
      Node.Inv H U ⟨c, s.log⟩ → P i ⟨c, s.log⟩ → c.recv H o msg = .ok (c', out) →
      Cluster.Moved H U c msg.subscribed? c' out → P i (Node.after s.log c' out))
    (h : ((system H checks durationPhi U).restrict A).Reachable w) {i : ι} {s : Site}
    {c : Cluster} (hs : w.site i = some s) (hc : s.actor = .running c) : P i ⟨c, s.log⟩ := by
  refine h.invariant (I := fun w => ∀ i s c, w.site i = some s → s.actor = .running c →
    P i ⟨c, s.log⟩) (fun w hw => ?_) (fun w mv w' hreach hw hst => ?_) i s c hs hc
  · rw [show w = empty from hw]
    exact nofun
  · have hinv := inv_of_reachable hadm hreach.of_restrict
    have hadmitted : w.Admitted U mv := hst.1.2
    -- a node did something, or is as before
    have hwatched : ∀ {j : ι} {s₀ : Site} {k : Nat} {x : Watcher}
        {outs : List HeartbeatReceiver.Output}, w.site j = some s₀ → ∀ i s c,
        (w.watched j s₀ k x outs).site i = some s → s.actor = .running c → P i ⟨c, s.log⟩ := by
      intro j s₀ k x outs h₀ i s c hs hc
      by_cases hi : i = j
      · subst hi
        rw [show (w.watched i s₀ k x outs).site i = some (s₀.watched k x outs) from
          Function.update_self ..] at hs
        cases hs
        exact hw i s₀ c h₀ hc
      · exact hw i s c ((watched_of_ne hi s₀ k x outs).symm.trans hs) hc
    have hafter : ∀ {j : ι} {s₀ : Site} {c₀ : Cluster} {out : List Output},
        P j (Node.after s₀.log c₀ out) → ∀ i s c,
        (w.after j s₀ (.running c₀) out).site i = some s → s.actor = .running c →
          P i ⟨c, s.log⟩ := by
      intro j s₀ c₀ out h₀ i s c hs hc
      by_cases hi : i = j
      · subst hi
        rw [site_after_eq] at hs
        cases hs
        cases hc
        exact h₀
      · exact hw i s c ((site_after_ne w hi _ _ _).symm.trans hs) hc
    cases moved_of_next hst.1.1 with
    | start hfree => exact hafter (hstart _ _ _ _ _ _ _ _ hst.2 hadmitted)
    | handle hrunning htakes =>
        have hadmits := hinv.admitted hrunning htakes hadmitted
        obtain ⟨hs, hsound, -⟩ := hinv.running hrunning
        obtain ⟨c', out, hok, hmoved⟩ := hsound.node.next_ok hadm hadmits
        have hrecv := ok_of_next hok
        have hkept := hnext _ _ _ _ _ _ _ _ _ _ hrunning htakes hst.2 hadmits hsound.node
          (hw _ _ _ hs hsound.running) hrecv hmoved
        have hlog := htakes.log_eq
        simp only [Detection.handle, hrecv]
        exact hafter (hlog ▸ hkept)
    | heartbeat hlive _ | timeout hlive | term hlive _ =>
        exact hwatched (live_of_live? hlive).1

end Step

/-! ### A node that goes silent -/

section Silence

open Node (seat seats firstChoices)

instance {ι : Type} (U : Set Member) [DecidablePred (· ∈ U)] (w : Detection ι) :
    DecidablePred (w.Admitted U)
  | (.start _ socket id subrs clrConfig _, _) =>
      inferInstanceAs (Decidable ((Cluster.new socket id subrs clrConfig).common.member ∈ U))
  | (.deliver i _ (.state gossip), o) =>
      inferInstanceAs (Decidable (∀ e ∈ w.running? i,
        DrawsIn U o e.2.common gossip ∧ FreshId o e.2.common e.2.state.gossip? gossip))
  | (.deliver _ _ .foo, _) | (.deliver _ _ (.reqHeartbeat ..), _) | (.deliver _ _ (.reqGossip _), _)
  | (.deliver _ _ (.ping _), _) | (.local .., _) | (.report _, _) | (.heartbeat .., _)
  | (.timeout .., _) | (.term .., _) => isTrue trivial

/-- The node at port 10 pings the one at port 11 and is never heard of again. -/
def silence : List (Move Bool × Oracle) :=
  [(.start false (Socket.localhost 10) 1 [] { ClusterConfig.default with
      seedNodes := (∅ : ExtTreeSet Socket compare).insert (Socket.localhost 11) } .default,
        firstChoices),
    (.start true (Socket.localhost 11) 2 [] .default .default, firstChoices),
    (.deliver true (Socket.localhost 11) (.ping (seat 10 1)), firstChoices),
    (.timeout true 0, firstChoices), (.timeout true 0, firstChoices),
    (.timeout true 0, firstChoices), (.timeout true 0, firstChoices),
    (.report true, firstChoices)]

end Silence

end Detection

end AurumActors.Cluster
