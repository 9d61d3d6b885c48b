/-
  Cluster/Watchers.lean --- a node with its clustering actor and the receivers of
  its charges.

  Receivers are kept by the numbers of their spawns, and what they report waits in
  the mailbox of the actor.  A receiver may get heartbeats and timeouts as soon as
  it is spawned, and until it takes a `Term` or panics.
-/
import AurumActors.Cluster.GossipNet
import AurumActors.Cluster.HeartbeatReceiver
import AurumActors.Cluster.HeartbeatReceivers

set_option autoImplicit false
set_option linter.dupNamespace false

namespace AurumActors.Cluster

open Std
open AurumActors.Core AurumActors.Foundation

/-! ## A node -/

/-- How the task of a receiver ended. -/
inductive Ending where
  | stopped
  | panicked
  deriving DecidableEq

/-- A receiver, what happened to it, and its end. -/
structure Watcher where
  logged : HeartbeatReceiver.Logged
  ended : Option Ending

namespace Watcher

def charge (x : Watcher) : Member := x.logged.receiver.charge

/-- The receiver reported its charge. -/
def Reported (x : Watcher) : Prop := .downed ∈ x.logged.log

/-- A heartbeat, in nanoseconds, with fuel for the loop of the storage. -/
def heartbeat (checks : Bool) (durationPhi : IntervalStorage → Except Trap Nat) (fuel now : Nat)
    (x : Watcher) (dur : Nat) (cnt : UInt32) : Option Watcher :=
  (x.logged.receiver.recv checks durationPhi fuel now dur cnt).map fun
    | .ok (receiver, _) => ⟨⟨receiver, x.logged.log ++ [.input (.heartbeat now dur cnt)]⟩, none⟩
    | .error _ => { x with ended := some .panicked }

/-- A receiver that was not stopped goes on, or panicked. -/
theorem ended_of_not_stopped (x : Watcher) (h : x.ended ≠ some .stopped) :
    x.ended = none ∨ x.ended = some .panicked := by
  cases hended : x.ended with
  | none => exact .inl rfl
  | some ending =>
      cases ending with
      | stopped => exact absurd hended h
      | panicked => exact .inr rfl

def timeout (x : Watcher) : Watcher :=
  ⟨⟨x.logged.receiver.timeout.1,
    x.logged.log ++ .input .timeout :: x.logged.receiver.timeout.2.1.map (·.event)⟩, x.ended⟩

end Watcher

/-- A heartbeat on its way: to a socket, for the receiver of the member with
that id. -/
structure Beat where
  dest : Socket
  id : UInt64
  interval : Nat
  changes : UInt32
  deriving DecidableEq

def Output.beat? : Output → Option Beat
  | .heartbeat dest id interval changes => some ⟨dest, id, interval, changes⟩
  | _ => none

/-- A receiver after `pre_start`. -/
def Output.watcher? (config : HBRConfig) : Output → Option Watcher
  | .spawn _ charge req =>
      some ⟨⟨⟨charge, req, .initial config.reqTries, config⟩, [.request]⟩, none⟩
  | _ => none

/-- The charge that a receiver reports. -/
def HeartbeatReceiver.Output.report? : HeartbeatReceiver.Output → Option Member
  | .supervisor (.downed m) => some m
  | _ => none

def HeartbeatReceiver.Output.packet? :
    HeartbeatReceiver.Output → Option (Socket × IntraClusterMsg)
  | .udp dest msg => some (dest, msg)
  | .supervisor _ => none

/-- A clustering actor with what it did so far, its receivers by their numbers,
and the reports in its mailbox. -/
structure Site where
  actor : Actor
  log : List (Member × Output)
  watchers : List Watcher
  reports : List Member
  hbrConfig : HBRConfig

namespace Site

def cluster? (s : Site) : Option Cluster :=
  match s.actor with
  | .running c => some c
  | .failed _ => none

/-- What the actor did so far. -/
def done (s : Site) : List Output := s.log.map (·.2)

/-- A handler ends. -/
def after (s : Site) (a : Actor) (out : List Output) : Site where
  actor := a
  log := s.log ++ out.map fun x => (a.common.member, x)
  watchers := s.watchers ++ out.filterMap (Output.watcher? s.hbrConfig)
  reports := s.reports
  hbrConfig := s.hbrConfig

/-- A receiver did something. -/
def watched (s : Site) (k : Nat) (x : Watcher) (out : List HeartbeatReceiver.Output) : Site where
  actor := s.actor
  log := s.log
  watchers := s.watchers.set k x
  reports := s.reports ++ out.filterMap (·.report?)
  hbrConfig := s.hbrConfig

end Site

/-! ## One receiver -/

namespace Watcher

open HeartbeatReceiver (Event Input Kept inputsOf)

/-- A receiver that reported got nothing but timeouts before, as many as it may
send requests and one more. -/
structure Sound (config : HBRConfig) (x : Watcher) : Prop where
  configured : x.logged.receiver.config = config
  kept : Kept config.reqTries x.logged.receiver.state x.logged.log
  silence : ∀ pre post, x.logged.log = pre ++ .downed :: post →
    List.replicate (config.reqTries + 1) Input.timeout <:+ inputsOf pre

/-- A receiver goes on: it keeps its charge and its request, and its report. -/
structure GoesOn (x x' : Watcher) : Prop where
  charge : x'.charge = x.charge
  req : x'.logged.receiver.req = x.logged.receiver.req
  reported : x.Reported → x'.Reported

theorem GoesOn.refl (x : Watcher) : x.GoesOn x := ⟨rfl, rfl, id⟩

/-- Events that are no reports come after what was reported. -/
theorem report_of_append {log events pre post : List Event} (hevents : .downed ∉ events)
    (h : log ++ events = pre ++ .downed :: post) : ∃ post', log = pre ++ .downed :: post' := by
  rcases List.append_eq_append_iff.mp h with ⟨rest, -, hrest⟩ | ⟨rest, hlog, hrest⟩
  · exact absurd (hrest ▸ List.mem_append_right _ List.mem_cons_self) hevents
  · cases rest with
    | nil =>
        rw [List.nil_append] at hrest
        exact absurd (hrest ▸ List.mem_cons_self) hevents
    | cons e rest =>
        obtain ⟨rfl, -⟩ := List.cons.inj hrest
        exact ⟨rest, hlog⟩

theorem recv_keeps {checks : Bool} {durationPhi : IntervalStorage → Except Trap Nat}
    {fuel now dur timeout : Nat} {cnt : UInt32} {r r' : HeartbeatReceiver}
    (h : r.recv checks durationPhi fuel now dur cnt = some (.ok (r', timeout))) :
    r'.charge = r.charge ∧ r'.req = r.req := by
  unfold HeartbeatReceiver.recv at h
  split at h
  · obtain ⟨_, -, h⟩ := bind_eq_ok_iff.mp (Option.some.inj h)
    obtain ⟨_, -, h⟩ := bind_eq_ok_iff.mp h
    obtain ⟨_, -, h⟩ := bind_eq_ok_iff.mp h
    cases h
    exact ⟨rfl, rfl⟩
  · split at h
    · obtain ⟨_, -, h⟩ := bind_eq_ok_iff.mp (Option.some.inj h)
      obtain ⟨_, -, h⟩ := bind_eq_ok_iff.mp h
      obtain ⟨_, -, h⟩ := bind_eq_ok_iff.mp h
      cases h
      exact ⟨rfl, rfl⟩
    · obtain ⟨pushed, -, h⟩ := Option.map_eq_some_iff.mp h
      obtain ⟨_, -, h⟩ := bind_eq_ok_iff.mp h
      obtain ⟨_, -, h⟩ := bind_eq_ok_iff.mp h
      cases h
      exact ⟨rfl, rfl⟩
  · cases h
    exact ⟨rfl, rfl⟩

/-- A heartbeat reports nothing. -/
theorem Sound.heartbeat {config : HBRConfig} {x x' : Watcher} (h : x.Sound config)
    {checks : Bool} {durationPhi : IntervalStorage → Except Trap Nat} {fuel now dur : Nat} {cnt : UInt32}
    (hbeat : x.heartbeat checks durationPhi fuel now dur cnt = some x') :
    x'.Sound config ∧ x.GoesOn x' ∧ (x'.Reported → x.Reported) ∧ x'.ended ≠ some .stopped := by
  obtain ⟨result, hrecv, rfl⟩ := Option.map_eq_some_iff.mp hbeat
  cases result with
  | error e => exact ⟨⟨h.configured, h.kept, h.silence⟩, ⟨rfl, rfl, id⟩, id, by simp⟩
  | ok t =>
      obtain ⟨r, timeout⟩ := t
      obtain ⟨hcharge, hreq⟩ := recv_keeps hrecv
      obtain ⟨hconfig, hstate⟩ := HeartbeatReceiver.of_recv ⟨fuel, hrecv⟩
      obtain ⟨hdowned, hreceiving⟩ := h.kept.heartbeat now dur cnt
      have hnone : Event.downed ∉ [Event.input (.heartbeat now dur cnt)] := by simp
      refine ⟨⟨hconfig.trans h.configured, ?_, fun pre post hlog => ?_⟩,
        ⟨hcharge, hreq, fun hx => List.mem_append_left _ hx⟩, fun hx => ?_, by simp⟩
      · rcases hstate with ⟨hstate, rfl⟩ | ⟨hne, storage, cnt', hstate⟩
        · simp only [hstate]
          exact hdowned hstate
        · simp only [hstate]
          exact hreceiving storage cnt' hne
      · obtain ⟨post', hlog'⟩ := report_of_append hnone hlog
        exact h.silence pre post' hlog'
      · exact (List.mem_append.mp hx).resolve_right hnone

/-- What a timeout reports: the charge, and nothing that a receiver reported
before. -/
theorem report_of_timeout (r : HeartbeatReceiver) :
    (r.timeout.2.1.filterMap (·.report?) = if r.state = .initial 0 then [r.charge] else []) ∧
    (Event.downed ∈ r.timeout.2.1.map (·.event) ↔ r.state = .initial 0) ∧
    r.timeout.1.charge = r.charge ∧ r.timeout.1.req = r.req ∧ r.timeout.1.config = r.config ∧
    ∀ p ∈ r.timeout.2.1.filterMap (·.packet?), p = (r.charge.socket, r.req) := by
  unfold HeartbeatReceiver.timeout
  split <;> simp_all [HeartbeatReceiver.Output.report?, HeartbeatReceiver.Output.packet?,
    HeartbeatReceiver.Output.event, HeartbeatReceiver.sendReq]

/-- A timeout reports the charge after that many timeouts. -/
theorem Sound.timeout {config : HBRConfig} {x : Watcher} (h : x.Sound config) :
    x.timeout.Sound config ∧ x.GoesOn x.timeout ∧
      (x.timeout.Reported → x.Reported ∨
        x.charge ∈ x.logged.receiver.timeout.2.1.filterMap (·.report?)) ∧
      ∀ m ∈ x.logged.receiver.timeout.2.1.filterMap (·.report?),
        m = x.charge ∧ x.timeout.Reported := by
  obtain ⟨hreport, hevent, hcharge, hreq, hconfig, -⟩ := report_of_timeout x.logged.receiver
  have hkept := h.kept
  rw [← h.configured] at hkept
  refine ⟨⟨hconfig.trans h.configured, ?_, fun pre post hlog => ?_⟩,
    ⟨hcharge, hreq, fun hx => List.mem_append_left _ hx⟩, fun hx => ?_, fun m hm => ?_⟩
  · rw [← h.configured]
    exact hkept.timeout
  · simp only [Watcher.timeout] at hlog
    by_cases hstate : x.logged.receiver.state = .initial 0
    · -- the last of the timeouts reports the charge
      have hevents : x.logged.receiver.timeout.2.1.map (·.event) = [.downed] := by
        unfold HeartbeatReceiver.timeout
        rw [hstate]
        rfl
      rw [hevents, List.append_cons] at hlog
      have hfresh : Event.downed ∉ x.logged.log ++ [.input .timeout] := by
        rw [hstate] at hkept
        cases hkept <;> simpa using by assumption
      have hpre : pre = x.logged.log ++ [.input .timeout] :=
        ((List.append_cons_inj_of_notMem hfresh List.not_mem_nil).mp hlog).1.symm
      have hlast : List.replicate config.reqTries Input.timeout <:+ inputsOf x.logged.log := by
        rw [hstate, h.configured] at hkept
        cases hkept with
        | fresh hle hlog' hinputs hrequests =>
            rw [hinputs]
            exact List.suffix_rfl
        | silent hle hlog' hheard hrequests hinputs =>
            rw [List.replicate_succ] at hinputs
            exact (List.suffix_cons _ _).trans hinputs
      rw [hpre, HeartbeatReceiver.inputsOf_concat]
      exact HeartbeatReceiver.suffix_replicate_succ hlast
    · have hnone : Event.downed ∉ Event.input .timeout ::
          x.logged.receiver.timeout.2.1.map (·.event) := by
        rw [List.mem_cons, not_or]
        exact ⟨nofun, fun hmem => hstate (hevent.mp hmem)⟩
      obtain ⟨post', hlog'⟩ := report_of_append hnone hlog
      exact h.silence pre post' hlog'
  · rcases List.mem_append.mp hx with hx | hx
    · exact .inl hx
    · have hstate := hevent.mp ((List.mem_cons.mp hx).resolve_left nofun)
      rw [hreport, if_pos hstate]
      exact .inr (List.mem_singleton.mpr rfl)
  · rw [hreport] at hm
    split at hm
    · next hstate =>
        refine ⟨List.mem_singleton.mp hm, ?_⟩
        exact List.mem_append_right _ (List.mem_cons_of_mem _ (hevent.mpr hstate))
    · cases hm

theorem sound_of_watcher? {config : HBRConfig} {out : Output} {x : Watcher}
    (h : out.watcher? config = some x) : x.Sound config ∧ ¬ x.Reported ∧ x.ended = none := by
  cases out with
  | spawn hbr charge req =>
      cases h
      have hnone : Event.downed ∉ [Event.request] := by simp
      refine ⟨⟨rfl, ?_, fun pre post hlog => ?_⟩, hnone, rfl⟩
      · refine .fresh (Nat.le_refl _) hnone ?_ ?_
        · rw [Nat.sub_self]
          rfl
        · rw [Nat.sub_self]
          rfl
      · have hlog' : [Event.request] = pre ++ .downed :: post := hlog
        exact absurd (hlog' ▸ List.mem_append_right _ List.mem_cons_self) hnone
  | _ => cases h

end Watcher

/-! ## One node -/

namespace Site

theorem mem_done {s : Site} {x : Output} : x ∈ s.done ↔ ∃ own, (own, x) ∈ s.log := by
  simp [done]

theorem done_after (s : Site) (a : Actor) (out : List Output) :
    (s.after a out).done = s.done ++ out := by
  simp [done, after, Function.comp_def]

theorem running_of_cluster? {s : Site} {c : Cluster} (h : s.cluster? = some c) :
    s.actor = .running c := by
  unfold cluster? at h
  split at h
  · next hactor =>
      cases h
      exact hactor
  · cases h

/-- The numbers of spawned receivers are their positions. -/
theorem charge_of_spawned {outs : List Output} {a n k : Nat} {m : Member} {req : IntraClusterMsg}
    (h : outs.filterMap Output.spawned? = List.range' a n) (hmem : .spawn k m req ∈ outs) :
    a ≤ k ∧ (outs.filterMap Output.charge?)[k - a]? = some m := by
  induction outs generalizing a n with
  | nil => cases hmem
  | cons x outs ih =>
      cases x with
      | spawn k₀ m₀ req₀ =>
          cases n with
          | zero => cases h
          | succ n =>
              rw [List.range'_succ] at h
              obtain ⟨rfl, hrest⟩ := List.cons.inj h
              rcases List.mem_cons.mp hmem with heq | hmem
              · cases heq
                rw [Nat.sub_self]
                exact ⟨Nat.le_refl _, rfl⟩
              · obtain ⟨hle, hget⟩ := ih hrest hmem
                refine ⟨by omega, ?_⟩
                rw [show k - k₀ = k - (k₀ + 1) + 1 by omega]
                exact hget
      | _ => exact ih h ((List.mem_cons.mp hmem).resolve_left nofun)

theorem length_charges (outs : List Output) :
    (outs.filterMap Output.charge?).length = (outs.filterMap Output.spawned?).length := by
  induction outs with
  | nil => rfl
  | cons x outs ih =>
      cases x with
      | spawn k m req => exact congrArg (· + 1) ih
      | _ => exact ih

theorem charges_of_watchers (config : HBRConfig) (outs : List Output) :
    (outs.filterMap (Output.watcher? config)).map (·.charge) = outs.filterMap Output.charge? := by
  induction outs with
  | nil => rfl
  | cons x outs ih =>
      cases x with
      | spawn k m req => exact congrArg (m :: ·) ih
      | _ => exact ih

/-- What holds of a node whose actor runs. -/
structure Sound (H : RingHash) (U : Set Member) (s : Site) (c : Cluster) : Prop where
  running : s.actor = .running c
  node : Node.Inv H U ⟨c, s.log⟩
  charges : s.watchers.map (·.charge) = s.done.filterMap Output.charge?
  sound : ∀ x ∈ s.watchers, x.Sound s.hbrConfig
  /-- the receivers of the charges are not told to stop -/
  held : ∀ (m : Member) (k : Nat), c.state.charges[m]? = some k →
    (∃ x, s.watchers[k]? = some x ∧ x.charge = m) ∧ .term k ∉ s.done
  termed : ∀ k, .term k ∈ s.done → k < s.watchers.length
  stopped : ∀ k x, s.watchers[k]? = some x → x.ended = some .stopped → .term k ∈ s.done
  reports : ∀ m ∈ s.reports, ∃ x ∈ s.watchers, x.charge = m ∧ x.Reported

/-- Every report waits, or its member is down in the gossip of the node. -/
def Answered (s : Site) (c : Cluster) : Prop :=
  ∀ x ∈ s.watchers, x.Reported → x.charge ∈ s.reports ∨
    ∃ g, c.state.gossip? = some g ∧ g.states[x.charge]? = some .down

variable {H : RingHash} {U : Set Member} {s : Site} {c c' : Cluster} {out : List Output}

theorem Sound.numbers (h : s.Sound H U c) :
    s.done.filterMap Output.spawned? = List.range' 0 c.common.spawned := by
  rw [← h.node.numbers, done, List.filterMap_map]
  rfl

theorem Sound.length_watchers (h : s.Sound H U c) : s.watchers.length = c.common.spawned := by
  rw [← List.length_map (f := fun x : Watcher => x.charge), h.charges, length_charges, h.numbers,
    List.length_range']

/-- A watcher was spawned for its charge. -/
theorem Sound.spawned (h : s.Sound H U c) {x : Watcher} (hx : x ∈ s.watchers) :
    ∃ e ∈ s.log, e.2.charge? = some x.charge := by
  have hmem : x.charge ∈ s.done.filterMap Output.charge? := by
    rw [← h.charges]
    exact List.mem_map_of_mem hx
  obtain ⟨y, hy, hcharge⟩ := List.mem_filterMap.mp hmem
  obtain ⟨own, he⟩ := mem_done.mp hy
  exact ⟨(own, y), he, hcharge⟩

/-- A handler ends without failing. -/
theorem Sound.after (hadm : NodeRing.Admissible H U) (h : s.Sound H U c) {subr : Option Nat}
    (hmoved : Cluster.Moved H U c subr c' out)
    (hre : Rewatched c.state.charges c.common.spawned c'.state.charges c'.common.spawned out) :
    (s.after (.running c') out).Sound H U c' := by
  have hnode : Node.Inv H U (Node.after s.log c' out) := h.node.of_moved hadm hmoved
  have hdone := s.done_after (.running c') out
  have hcharges : (s.after (.running c') out).watchers.map (·.charge) =
      (s.after (.running c') out).done.filterMap Output.charge? := by
    rw [hdone, List.filterMap_append, ← h.charges, ← charges_of_watchers s.hbrConfig]
    exact List.map_append
  have hnumbers : (s.after (.running c') out).done.filterMap Output.spawned? =
      List.range' 0 c'.common.spawned := by
    rw [← show _ = List.range' 0 c'.common.spawned from hnode.numbers, Site.done,
      List.filterMap_map]
    rfl
  have hold : ∀ (k : Nat) (x : Watcher), s.watchers[k]? = some x →
      (s.after (.running c') out).watchers[k]? = some x := fun k x hx =>
    (List.getElem?_append_left (List.getElem?_eq_some_iff.mp hx).1).trans hx
  have hbounded : ∀ k, .term k ∈ out → ∃ m x, c.state.charges[m]? = some k ∧
      m ∉ c'.state.charges ∧ s.watchers[k]? = some x ∧ x.charge = m := by
    intro k hterm
    obtain ⟨m, hm, hgone⟩ := hre.termed k hterm
    obtain ⟨⟨x, hx, hcharge⟩, -⟩ := h.held m k hm
    exact ⟨m, x, hm, hgone, hx, hcharge⟩
  refine ⟨rfl, hnode, hcharges, fun x hx => ?_, fun m k hm => ?_, fun k hk => ?_,
    fun k x hx hended => ?_, fun m hm => ?_⟩
  · rcases List.mem_append.mp hx with hx | hx
    · exact h.sound x hx
    · obtain ⟨y, -, hy⟩ := List.mem_filterMap.mp hx
      exact (Watcher.sound_of_watcher? hy).1
  · rw [hdone, List.mem_append, not_or]
    rcases hre.held m k hm with hold' | ⟨req, hspawn⟩
    · obtain ⟨⟨x, hx, hcharge⟩, hterm⟩ := h.held m k hold'
      refine ⟨⟨x, hold k x hx, hcharge⟩, hterm, fun hterm' => ?_⟩
      obtain ⟨m', x', -, hgone, hx', hcharge'⟩ := hbounded k hterm'
      cases hx.symm.trans hx'
      rw [← hcharge', hcharge, ExtTreeMap.mem_iff_isSome_getElem?, hm] at hgone
      exact hgone rfl
    · obtain ⟨n, -, hrange⟩ := hre.numbers
      have hge : s.watchers.length ≤ k := by
        rw [h.length_watchers]
        exact (charge_of_spawned hrange hspawn).1
      have hget := (charge_of_spawned hnumbers
        (hdone ▸ List.mem_append_right _ hspawn : Output.spawn k m req ∈ _)).2
      rw [Nat.sub_zero, ← hcharges, List.getElem?_map] at hget
      obtain ⟨x, hx, hcharge⟩ := Option.map_eq_some_iff.mp hget
      refine ⟨⟨x, hx, hcharge⟩, fun hterm => ?_, fun hterm => ?_⟩
      · exact absurd (h.termed k hterm) (by omega)
      · obtain ⟨-, x', -, -, hx', -⟩ := hbounded k hterm
        exact absurd (List.getElem?_eq_some_iff.mp hx').1 (by omega)
  · have hlen : s.watchers.length ≤ (s.after (.running c') out).watchers.length := by
      simp [Site.after]
    rw [hdone] at hk
    rcases List.mem_append.mp hk with hk | hk
    · exact Nat.lt_of_lt_of_le (h.termed k hk) hlen
    · obtain ⟨-, x, -, -, hx, -⟩ := hbounded k hk
      exact Nat.lt_of_lt_of_le (List.getElem?_eq_some_iff.mp hx).1 hlen
  · rw [hdone, List.mem_append]
    replace hx : (s.watchers ++ out.filterMap (Output.watcher? s.hbrConfig))[k]? = some x := hx
    rw [List.getElem?_append] at hx
    split at hx
    · exact .inl (h.stopped k x hx hended)
    · obtain ⟨y, -, hy⟩ := List.mem_filterMap.mp (List.mem_of_getElem? hx)
      rw [(Watcher.sound_of_watcher? hy).2.2] at hended
      cases hended
  · obtain ⟨x, hx, hrest⟩ := h.reports m hm
    exact ⟨x, List.mem_append_left _ hx, hrest⟩

/-- Reports stay answered by a handler that forgets no downed member. -/
theorem Answered.after (h : s.Answered c)
    (hkeeps : ∀ g, c.state.gossip? = some g → ∃ g', c'.state.gossip? = some g' ∧ g.Keeps g') :
    (s.after (.running c') out).Answered c' := by
  intro x hx hreported
  rcases List.mem_append.mp hx with hx | hx
  · refine (h x hx hreported).imp_right fun ⟨g, hg, hdown⟩ => ?_
    obtain ⟨g', hg', hkept⟩ := hkeeps g hg
    obtain ⟨r, hr, hdown'⟩ := hkept _ _ hdown
    exact ⟨g', hg', hdown' rfl ▸ hr⟩
  · obtain ⟨y, -, hy⟩ := List.mem_filterMap.mp hx
    exact absurd hreported (Watcher.sound_of_watcher? hy).2.1

variable {k : Nat} {x x' : Watcher} {outs : List HeartbeatReceiver.Output}

/-- A receiver does something. -/
theorem Sound.watched (h : s.Sound H U c) (hx : s.watchers[k]? = some x)
    (hsound : x'.Sound s.hbrConfig) (hgoes : x.GoesOn x')
    (hended : x'.ended = some .stopped → .term k ∈ s.done)
    (hreports : ∀ m ∈ outs.filterMap (·.report?), m = x.charge ∧ x'.Reported) :
    (s.watched k x' outs).Sound H U c := by
  have hcases : ∀ (n : Nat) (y : Watcher), (s.watchers.set k x')[n]? = some y →
      n = k ∧ y = x' ∨ n ≠ k ∧ s.watchers[n]? = some y := fun n y hy =>
    getElem?_set_cases hx hy
  have hlen : (s.watched k x' outs).watchers.length = s.watchers.length := List.length_set
  refine ⟨h.running, h.node, ?_, fun y hy => ?_, fun m n hm => ⟨?_, (h.held m n hm).2⟩,
    fun n hn => ?_, fun n y hy hstopped => ?_, fun m hm => ?_⟩
  · rw [show (s.watched k x' outs).done = s.done from rfl, ← h.charges]
    refine (List.map_set).trans ?_
    rw [hgoes.charge]
    refine List.ext_getElem? fun n => ?_
    rw [List.getElem?_set]
    split
    · next heq =>
        subst heq
        rw [List.getElem?_map, hx, if_pos (by simpa using (List.getElem?_eq_some_iff.mp hx).1)]
        rfl
    · rfl
  · obtain ⟨n, hn⟩ := List.mem_iff_getElem?.mp hy
    rcases hcases n y hn with ⟨-, rfl⟩ | ⟨-, hold⟩
    · exact hsound
    · exact h.sound y (List.mem_of_getElem? hold)
  · obtain ⟨⟨y, hy, hcharge⟩, -⟩ := h.held m n hm
    by_cases hn : n = k
    · subst hn
      cases hx.symm.trans hy
      exact ⟨x', getElem?_set_of_some x' hx, hgoes.charge.trans hcharge⟩
    · exact ⟨y, (List.getElem?_set_ne (Ne.symm hn)).trans hy, hcharge⟩
  · rw [hlen]
    exact h.termed n hn
  · rcases hcases n y hy with ⟨rfl, rfl⟩ | ⟨-, hold⟩
    · exact hended hstopped
    · exact h.stopped n y hold hstopped
  · rcases List.mem_append.mp hm with hm | hm
    · obtain ⟨y, hy, hcharge, hreported⟩ := h.reports m hm
      obtain ⟨n, hn⟩ := List.mem_iff_getElem?.mp hy
      by_cases hnk : n = k
      · subst hnk
        cases hx.symm.trans hn
        exact ⟨x', List.mem_of_getElem? (getElem?_set_of_some x' hx),
          hgoes.charge.trans hcharge, hgoes.reported hreported⟩
      · exact ⟨y, List.mem_of_getElem? ((List.getElem?_set_ne (Ne.symm hnk)).trans hn),
          hcharge, hreported⟩
    · obtain ⟨rfl, hreported⟩ := hreports m hm
      exact ⟨x', List.mem_of_getElem? (getElem?_set_of_some x' hx), hgoes.charge, hreported⟩

theorem Answered.watched (h : s.Answered c) (hx : s.watchers[k]? = some x)
    (hgoes : x.GoesOn x')
    (hreports : x'.Reported → x.Reported ∨ x.charge ∈ outs.filterMap (·.report?)) :
    (s.watched k x' outs).Answered c := by
  intro y hy hreported
  obtain ⟨n, hn⟩ := List.mem_iff_getElem?.mp hy
  have hwaits : ∀ y : Watcher, y.charge ∈ s.reports → y.charge ∈ (s.watched k x' outs).reports :=
    fun y hy => List.mem_append_left _ hy
  rcases getElem?_set_cases hx hn with ⟨-, rfl⟩ | ⟨-, hold⟩
  · rw [hgoes.charge]
    rcases hreports hreported with hreported | hreport
    · exact (h x (List.mem_of_getElem? hx) hreported).imp_left (hwaits x)
    · exact .inl (List.mem_append_right _ hreport)
  · exact (h y (List.mem_of_getElem? hold) hreported).imp_left (hwaits y)

end Site

end AurumActors.Cluster
