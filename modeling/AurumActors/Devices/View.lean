/-
  Devices/View.lean --- what a device server keeps and what it has published.

  The server handles any messages in any order while its subscribers come and go.
  Everything it does outside is logged, so that the senders it started and the
  `Charges` it sent can be compared with its state.
-/
import AurumActors.Devices.DeviceServer
import AurumActors.Foundation.Run

set_option autoImplicit false
set_option linter.dupNamespace false

namespace AurumActors.Devices

open Std
open AurumActors.Core AurumActors.Cluster AurumActors.Foundation

/-- What a `Charges` to the subscriber tells it. -/
def Output.view? (subr : Nat) : Output → Option (DeviceSet × Devices)
  | .charges s kept devices => if s = subr then some (kept, devices) else none
  | _ => none

/-- The sender that is started. -/
def Output.spawned? : Output → Option Nat
  | .spawn sender _ _ => some sender
  | _ => none

/-- The last `Charges` that was sent to the subscriber. -/
def lastCharges (subr : Nat) (log : List Output) : Option (DeviceSet × Devices) :=
  (log.filterMap (Output.view? subr)).getLast?

/-- A device server among its subscribers. -/
structure Hosted where
  server : DeviceServer
  /-- the subscribers it was started with or that subscribed -/
  subscribed : List Nat
  /-- the subscribers that have closed their channel -/
  gone : List Nat
  stopped : Bool
  /-- what was done outside, in order -/
  log : List Output
  deriving DecidableEq

namespace Hosted

inductive Move where
  | handle (msg : DeviceServerMsg)
  /-- a subscriber closes its channel -/
  | leave (subr : Nat)
  /-- the server stops -/
  | stop

/-- The subscriber that a message brings. -/
def newcomers : DeviceServerMsg → List Nat
  | .subscribe subr => [subr]
  | _ => []

def start (subscribers : List Nat) : Hosted :=
  ⟨DeviceServer.new subscribers, subscribers, [], false, []⟩

/-- The state after a handler. -/
def handled (h : Hosted) (msg : DeviceServerMsg) (server : DeviceServer) (out : List Output) :
    Hosted :=
  { h with server, subscribed := h.subscribed ++ newcomers msg, log := h.log ++ out }

def next (hash : Device → UInt64) (h : Hosted) : Move → Option Hosted
  | .handle msg =>
      if h.stopped then none
      else
        match h.server.recv hash (fun subr => decide (subr ∉ h.gone)) msg with
        | .ok (server, out) => some (h.handled msg server out)
        | .error _ => none
  | .leave subr => some { h with gone := subr :: h.gone }
  | .stop =>
      if h.stopped then none
      else some { h with stopped := true, log := h.log ++ h.server.postStop }

/-- A device server with the subscribers it is given. -/
def system (hash : Device → UInt64) (subscribers : List Nat) : System Hosted Move :=
  .ofNext (start subscribers) (next hash)

theorem handled_of_next {hash : Device → UInt64} {h h' : Hosted} {msg : DeviceServerMsg}
    (hst : next hash h (.handle msg) = some h') : h.stopped = false ∧ ∃ server out,
      DeviceServer.Handled hash (fun subr => decide (subr ∉ h.gone)) h.server msg server out ∧
        h' = h.handled msg server out := by
  simp only [next] at hst
  split at hst
  · cases hst
  · next hrunning =>
      split at hst
      · next server out hrecv =>
          cases hst
          exact ⟨by simpa using hrunning, server, out, DeviceServer.handled_of_recv hrecv, rfl⟩
      · cases hst

end Hosted

/-! ## The last `Charges` -/

theorem lastCharges_append (subr : Nat) (log out : List Output) :
    lastCharges subr (log ++ out) = (lastCharges subr out).or (lastCharges subr log) := by
  rw [lastCharges, List.filterMap_append, List.getLast?_append]
  rfl

theorem lastCharges_eq_none {subr : Nat} {out : List Output}
    (h : ∀ o ∈ out, o.view? subr = none) : lastCharges subr out = none := by
  rw [lastCharges, List.filterMap_eq_nil_iff.mpr h]
  rfl

/-- The views a publication sends to one subscriber are all the same. -/
theorem lastCharges_publish {ic : InCluster} {common : Common} {subr : Nat}
    (hsubr : subr ∈ common.subscribers) (delivers : Nat → Bool) :
    lastCharges subr (ic.publish delivers common).2 = some (ic.charges, ic.devices) := by
  have hmem : (ic.charges, ic.devices) ∈
      (ic.publish delivers common).2.filterMap (Output.view? subr) := by
    refine List.mem_filterMap.mpr ⟨_, List.mem_map_of_mem hsubr, ?_⟩
    simp [Output.view?]
  have hall : ∀ v ∈ (ic.publish delivers common).2.filterMap (Output.view? subr),
      v = (ic.charges, ic.devices) := by
    intro v hv
    obtain ⟨o, ho, hview⟩ := List.mem_filterMap.mp hv
    obtain ⟨s, -, rfl⟩ := List.mem_map.mp ho
    simp only [Output.view?] at hview
    split at hview
    · exact (Option.some.inj hview).symm
    · cases hview
  rw [lastCharges]
  have hlast := List.getLast?_eq_some_getLast (List.ne_nil_of_mem hmem)
  rw [hlast, hall _ (List.getLast_mem _)]

/-- What is done beside publishing tells the subscribers nothing. -/
theorem lastCharges_around {subr : Nat} {before after : List Output} (out : List Output)
    (hbefore : ∀ o ∈ before, o.view? subr = none) (hafter : ∀ o ∈ after, o.view? subr = none) :
    lastCharges subr (before ++ out ++ after) = lastCharges subr out := by
  rw [lastCharges_append, lastCharges_append, lastCharges_eq_none hbefore,
    lastCharges_eq_none hafter, Option.none_or, Option.or_none]

/-! ## What a handler does to the senders and the views -/

/-- `charges` is the key set of `req_senders`. -/
def State.Keyed (state : State) : Prop :=
  ∀ ic, state = .inCluster ic → ∀ device, device ∈ ic.charges ↔ device ∈ ic.reqSenders

namespace DeviceServer.Handled

variable {hash : Device → UInt64} {delivers : Nat → Bool} {s s' : DeviceServer}
  {msg : DeviceServerMsg} {out : List Output}

theorem keyed (h : Handled hash delivers s msg s' out) (hkeyed : s.state.Keyed) :
    s'.state.Keyed := by
  intro ic' hstate' device
  cases h with
  | waits => cases hstate'
  | enters =>
      cases hstate'
      simp [InCluster.start]
  | told | forwards | keeps | absent => exact hkeyed ic' hstate' device
  | subscribes => exact hkeyed ic' hstate' device
  | @spawns ic device' _ _ hstate _ _ hic' =>
      cases hstate'
      subst hic'
      simp only [ExtTreeSet.mem_insert, ExtTreeMap.mem_insert, hkeyed ic hstate device]
  | updates _ _ hstate =>
      cases hstate'
      exact hkeyed _ hstate device
  | data _ hstate =>
      cases hstate'
      exact hkeyed _ hstate device
  | @removes ic _ _ _ _ hstate _ _ hic' =>
      cases hstate'
      subst hic'
      simp only [ExtTreeSet.mem_erase, ExtTreeMap.mem_erase, hkeyed ic hstate device]

/-- A subscriber stays as long as its channel is open. -/
theorem mem_subscribers (h : Handled hash delivers s msg s' out) {subr : Nat}
    (hsubr : subr ∈ s.common.subscribers) (hdelivers : delivers subr = true) :
    subr ∈ s'.common.subscribers := by
  have hfilter : subr ∈ s.common.subscribers.filter delivers :=
    List.mem_filter.mpr ⟨hsubr, hdelivers⟩
  cases h with
  | waits | told | forwards | updates | keeps | absent => exact hsubr
  | enters | spawns | data | removes => exact hfilter
  | subscribes => exact List.mem_append_left _ hsubr

theorem newcomer (h : Handled hash delivers s msg s' out) {subr : Nat}
    (hsubr : subr ∈ Hosted.newcomers msg) : subr ∈ s'.common.subscribers := by
  have hmsg : msg = .subscribe subr := by
    cases msg with
    | subscribe subr' => rw [List.mem_singleton.mp hsubr]
    | _ => cases hsubr
  subst hmsg
  cases h with
  | waits _ _ hmsg | enters _ _ _ _ _ hmsg => exact absurd rfl (hmsg subr)
  | subscribes => exact List.mem_append_right _ List.mem_cons_self
  | removes _ _ hdrops | absent _ hdrops =>
      rcases hdrops with ⟨hmsg, -⟩ | hmsg
      · cases hmsg
      · cases hmsg

/-- The subscribers are told what the server now has, or nothing has changed. -/
theorem viewed (h : Handled hash delivers s msg s' out) {subr : Nat}
    (hsubr : subr ∈ s.common.subscribers ∨ subr ∈ Hosted.newcomers msg) {ic' : InCluster}
    (hstate' : s'.state = .inCluster ic') :
    lastCharges subr out = some (ic'.charges, ic'.devices) ∨
      lastCharges subr out = none ∧ subr ∉ Hosted.newcomers msg ∧ ∃ ic,
        s.state = .inCluster ic ∧ ic.charges = ic'.charges ∧ ic.devices = ic'.devices := by
  have hold : Hosted.newcomers msg = [] → subr ∈ s.common.subscribers := fun hnone => by
    rw [hnone] at hsubr
    exact hsubr.resolve_right List.not_mem_nil
  cases h with
  | waits => cases hstate'
  | @enters _ _ _ _ _ _ hstate hmsg =>
      cases hstate'
      have hnone : Hosted.newcomers msg = [] := by
        cases msg with
        | subscribe subr' => exact absurd rfl (hmsg subr')
        | _ => rfl
      exact .inl (lastCharges_publish (hold hnone) delivers)
  | told | forwards | keeps =>
      exact .inr ⟨rfl, List.not_mem_nil, ic', hstate', rfl, rfl⟩
  | updates _ _ hstate =>
      cases hstate'
      exact .inr ⟨rfl, List.not_mem_nil, _, hstate, rfl, rfl⟩
  | @spawns ic device interval _ _ _ _ hic' =>
      cases hstate'
      have hother : ∀ o ∈ [Output.mutate (.put device interval),
          .spawn s.common.spawned device interval, .interval s.common.spawned interval],
          o.view? subr = none := by simp [Output.view?]
      rw [lastCharges_append, lastCharges_eq_none hother, Option.or_none]
      exact .inl (lastCharges_publish (hold rfl) delivers)
  | data =>
      cases hstate'
      exact .inl (lastCharges_publish (hold rfl) delivers)
  | subscribes subr' _ _ hinside =>
      have hout : out = [.charges subr' ic'.charges ic'.devices] := hinside ic' hstate'
      subst hout
      by_cases heq : subr' = subr
      · exact .inl (by simp [lastCharges, Output.view?, heq])
      · have hnot : subr ∉ Hosted.newcomers (.subscribe subr') :=
          fun hin => heq (List.mem_singleton.mp hin).symm
        exact .inr ⟨by simp [lastCharges, Output.view?, heq], hnot, ic', hstate', rfl, rfl⟩
  | @removes _ _ _ sender _ _ hdrops =>
      cases hstate'
      have hnone : Hosted.newcomers msg = [] := by
        rcases hdrops with ⟨rfl, -⟩ | rfl <;> rfl
      have hafter : ∀ o ∈ removalOf msg, o.view? subr = none := by
        rcases hdrops with ⟨rfl, -⟩ | rfl <;> simp [removalOf, Output.view?]
      have hbefore : ∀ o ∈ [Output.term sender], o.view? subr = none := by simp [Output.view?]
      have haround := lastCharges_around (ic'.publish delivers s.common).2 hbefore hafter
      refine .inl (haround.trans ?_)
      exact lastCharges_publish (hold hnone) delivers
  | @absent _ _ _ _ hdrops =>
      have hnone : Hosted.newcomers msg = [] := by
        rcases hdrops with ⟨rfl, -⟩ | rfl <;> rfl
      have hout : ∀ o ∈ removalOf msg, o.view? subr = none := by
        rcases hdrops with ⟨rfl, -⟩ | rfl <;> simp [removalOf, Output.view?]
      have hnot : subr ∉ Hosted.newcomers msg := hnone ▸ List.not_mem_nil
      exact .inr ⟨lastCharges_eq_none hout, hnot, ic', hstate', rfl, rfl⟩

/-- A sender is kept or terminated. -/
theorem kept_or_term (h : Handled hash delivers s msg s' out) {device : Device} {sender : Nat}
    {ic : InCluster} (hstate : s.state = .inCluster ic)
    (hsender : ic.reqSenders[device]? = some sender) :
    .term sender ∈ out ∨
      ∃ ic', s'.state = .inCluster ic' ∧ ic'.reqSenders[device]? = some sender := by
  cases h with
  | waits _ hwaiting | enters _ _ _ _ hwaiting =>
      rw [hstate] at hwaiting
      cases hwaiting
  | told | forwards | keeps | absent => exact .inr ⟨ic, hstate, hsender⟩
  | subscribes => exact .inr ⟨ic, hstate, hsender⟩
  | updates _ _ hstate' | data _ hstate' =>
      rw [hstate] at hstate'
      cases hstate'
      exact .inr ⟨_, rfl, hsender⟩
  | @spawns _ device' _ _ hstate' hnone _ hic' =>
      rw [hstate] at hstate'
      cases hstate'
      subst hic'
      refine .inr ⟨_, rfl, ?_⟩
      rw [getElem?_insert_eq, if_neg, hsender]
      rintro rfl
      rw [hsender] at hnone
      cases hnone
  | @removes _ _ device' sender' _ hstate' _ hsender' hic' =>
      rw [hstate] at hstate'
      cases hstate'
      subst hic'
      by_cases heq : device = device'
      · rw [← heq, hsender] at hsender'
        cases hsender'
        exact .inl (List.mem_append_left _ List.mem_cons_self)
      · refine .inr ⟨_, rfl, ?_⟩
        rw [getElem?_erase_eq, if_neg heq, hsender]

/-- The senders that a handler starts are numbered on. -/
theorem spawned (h : Handled hash delivers s msg s' out) :
    s'.common.spawned = s.common.spawned ∧ out.filterMap Output.spawned? = [] ∨
      s'.common.spawned = s.common.spawned + 1 ∧
        out.filterMap Output.spawned? = [s.common.spawned] := by
  cases h with
  | waits | told | forwards | updates | keeps => exact .inl ⟨rfl, rfl⟩
  | enters | data => exact .inl ⟨rfl, InCluster.filterMap_publish _ (fun _ _ _ => rfl) _ _ _⟩
  | subscribes _ _ hwaiting hinside =>
      refine .inl ⟨rfl, ?_⟩
      cases hstate : s.state with
      | waiting w => rw [hwaiting w hstate, List.filterMap_nil]
      | inCluster ic =>
          rw [hinside ic hstate]
          rfl
  | spawns =>
      refine .inr ⟨rfl, ?_⟩
      rw [List.filterMap_append, InCluster.filterMap_publish _ fun _ _ _ => rfl]
      rfl
  | removes _ _ hdrops =>
      refine .inl ⟨rfl, ?_⟩
      rw [List.cons_append, List.filterMap_cons, List.filterMap_append,
        InCluster.filterMap_publish _ fun _ _ _ => rfl]
      rcases hdrops with ⟨rfl, -⟩ | rfl <;> rfl
  | absent _ hdrops =>
      refine .inl ⟨rfl, ?_⟩
      rcases hdrops with ⟨rfl, -⟩ | rfl <;> rfl

/-- A sender that is started is in `req_senders`. -/
theorem of_spawn (h : Handled hash delivers s msg s' out) {sender : Nat} {device : Device}
    {interval : DeviceInterval} (hspawn : .spawn sender device interval ∈ out) :
    ∃ ic', s'.state = .inCluster ic' ∧ ic'.reqSenders[device]? = some sender := by
  have hmem : sender ∈ out.filterMap Output.spawned? :=
    List.mem_filterMap.mpr ⟨_, hspawn, rfl⟩
  have hcount : s'.common.spawned = s.common.spawned + 1 := by
    rcases h.spawned with ⟨-, hnone⟩ | ⟨hcount, -⟩
    · rw [hnone] at hmem
      cases hmem
    · exact hcount
  cases h with
  | @spawns ic device' interval' _ _ _ _ hic' =>
      subst hic'
      refine ⟨_, rfl, ?_⟩
      rcases List.mem_append.mp hspawn with hspawn | hspawn
      · simp only [List.mem_cons, reduceCtorEq, Output.spawn.injEq, List.not_mem_nil, or_false,
          false_or] at hspawn
        obtain ⟨rfl, rfl, -⟩ := hspawn
        exact ExtTreeMap.getElem?_insert_self
      · obtain ⟨_, -, hcharges⟩ := List.mem_map.mp hspawn
        cases hcharges
  | _ => exact absurd hcount (Nat.ne_of_lt (Nat.lt_succ_self _))

end DeviceServer.Handled

/-! ## Every run -/

namespace Hosted

/-- What holds of the server, its subscribers and the log in every state. -/
structure Consistent (h : Hosted) : Prop where
  keyed : h.server.state.Keyed
  /-- the senders that were started and neither kept nor terminated are none -/
  senders : ∀ sender device interval, .spawn sender device interval ∈ h.log →
    .term sender ∈ h.log ∨
      ∃ ic, h.server.state = .inCluster ic ∧ ic.reqSenders[device]? = some sender
  /-- a subscriber that was dropped is gone -/
  listed : ∀ subr ∈ h.subscribed, subr ∉ h.gone → subr ∈ h.server.common.subscribers
  viewed : ∀ subr ∈ h.subscribed, subr ∉ h.gone → ∀ ic, h.server.state = .inCluster ic →
    lastCharges subr h.log = some (ic.charges, ic.devices)
  /-- the senders are numbered in the order they were started in -/
  numbered : h.log.filterMap Output.spawned? = List.range h.server.common.spawned
  ended : h.stopped = true → ∀ sender device interval,
    .spawn sender device interval ∈ h.log → .term sender ∈ h.log

theorem Consistent.start (subscribers : List Nat) : (start subscribers).Consistent where
  keyed _ hstate := by cases hstate
  senders _ _ _ hspawn := by cases hspawn
  listed _ hsubr _ := hsubr
  viewed _ _ _ _ hstate := by cases hstate
  numbered := rfl
  ended hstopped := by cases hstopped

theorem Consistent.handled {hash : Device → UInt64} {h : Hosted} (hcon : h.Consistent)
    (hrunning : h.stopped = false) {msg : DeviceServerMsg} {server : DeviceServer}
    {out : List Output}
    (hhandled : DeviceServer.Handled hash (fun subr => decide (subr ∉ h.gone)) h.server msg
      server out) : (h.handled msg server out).Consistent where
  keyed := hhandled.keyed hcon.keyed
  senders sender device interval hspawn := by
    rcases List.mem_append.mp hspawn with hspawn | hspawn
    · rcases hcon.senders sender device interval hspawn with hterm | ⟨ic, hstate, hsender⟩
      · exact .inl (List.mem_append_left _ hterm)
      · exact (hhandled.kept_or_term hstate hsender).imp_left (List.mem_append_right _)
    · exact .inr (hhandled.of_spawn hspawn)
  listed subr hsubr hgone := by
    rcases List.mem_append.mp hsubr with hsubr | hsubr
    · exact hhandled.mem_subscribers (hcon.listed subr hsubr hgone) (decide_eq_true hgone)
    · exact hhandled.newcomer hsubr
  viewed subr hsubr hgone ic hstate := by
    have hin : subr ∈ h.subscribed ∨ subr ∈ newcomers msg := List.mem_append.mp hsubr
    have hlast : lastCharges subr (h.handled msg server out).log =
        (lastCharges subr out).or (lastCharges subr h.log) := lastCharges_append subr h.log out
    rcases hhandled.viewed (hin.imp_left fun hold => hcon.listed subr hold hgone) hstate with
      hout | ⟨hout, hnot, ic', hstate', hcharges, hdevices⟩
    · rw [hlast, hout, Option.some_or]
    · rw [hlast, hout, Option.none_or, ← hcharges, ← hdevices]
      exact hcon.viewed subr (hin.resolve_right hnot) hgone ic' hstate'
  numbered := by
    have happend : (h.log ++ out).filterMap Output.spawned? =
        List.range h.server.common.spawned ++ out.filterMap Output.spawned? := by
      rw [List.filterMap_append, hcon.numbered]
    refine happend.trans ?_
    rcases hhandled.spawned with ⟨hcount, hout⟩ | ⟨hcount, hout⟩
    · rw [hout, List.append_nil]
      exact congrArg List.range hcount.symm
    · rw [hout, ← List.range_succ]
      exact congrArg List.range hcount.symm
  ended hstopped := by
    rw [show (h.handled msg server out).stopped = h.stopped from rfl, hrunning] at hstopped
    cases hstopped

/-- A subscriber that leaves only takes from what is asked for. -/
theorem Consistent.leave {h : Hosted} (hcon : h.Consistent) (subr : Nat) :
    { h with gone := subr :: h.gone }.Consistent where
  keyed := hcon.keyed
  senders := hcon.senders
  listed s hs hgone := hcon.listed s hs fun hmem => hgone (List.mem_cons_of_mem _ hmem)
  viewed s hs hgone := hcon.viewed s hs fun hmem => hgone (List.mem_cons_of_mem _ hmem)
  numbered := hcon.numbered
  ended := hcon.ended

/-- `post_stop` terminates the senders that are left. -/
theorem term_of_postStop {s : DeviceServer} {ic : InCluster} {device : Device} {sender : Nat}
    (hstate : s.state = .inCluster ic) (hsender : ic.reqSenders[device]? = some sender) :
    .term sender ∈ s.postStop := by
  simp only [DeviceServer.postStop, hstate]
  exact List.mem_map.mpr ⟨(device, sender),
    ExtTreeMap.mem_toList_iff_getElem?_eq_some.mpr hsender, rfl⟩

/-- `post_stop` sends nothing else. -/
theorem of_mem_postStop {s : DeviceServer} {o : Output} (ho : o ∈ s.postStop) :
    ∃ sender, o = .term sender := by
  simp only [DeviceServer.postStop] at ho
  split at ho
  · obtain ⟨e, -, rfl⟩ := List.mem_map.mp ho
    exact ⟨e.2, rfl⟩
  · cases ho

theorem Consistent.stop {h : Hosted} (hcon : h.Consistent) :
    { h with stopped := true, log := h.log ++ h.server.postStop }.Consistent := by
  have hended : ∀ sender device interval, .spawn sender device interval ∈
      h.log ++ h.server.postStop → .term sender ∈ h.log ++ h.server.postStop := by
    intro sender device interval hspawn
    rcases List.mem_append.mp hspawn with hspawn | hspawn
    · rcases hcon.senders sender device interval hspawn with hterm | ⟨ic, hstate, hsender⟩
      · exact List.mem_append_left _ hterm
      · exact List.mem_append_right _ (term_of_postStop hstate hsender)
    · obtain ⟨_, heq⟩ := of_mem_postStop hspawn
      cases heq
  have hview : ∀ subr, ∀ o ∈ h.server.postStop, o.view? subr = none := by
    intro subr o ho
    obtain ⟨_, rfl⟩ := of_mem_postStop ho
    rfl
  have hspawned : h.server.postStop.filterMap Output.spawned? = [] := by
    refine List.filterMap_eq_nil_iff.mpr fun o ho => ?_
    obtain ⟨_, rfl⟩ := of_mem_postStop ho
    rfl
  exact
    { keyed := hcon.keyed
      senders := fun sender device interval hspawn => .inl (hended sender device interval hspawn)
      listed := hcon.listed
      viewed := fun subr hsubr hgone ic hstate => by
        rw [lastCharges_append, lastCharges_eq_none (hview subr), Option.none_or]
        exact hcon.viewed subr hsubr hgone ic hstate
      numbered := by rw [List.filterMap_append, hspawned, List.append_nil, hcon.numbered]
      ended := fun _ => hended }

theorem consistent_of_reachable {hash : Device → UInt64} {subscribers : List Nat} {h : Hosted}
    (hreach : (system hash subscribers).Reachable h) : h.Consistent := by
  refine hreach.invariant (fun h hinit => hinit ▸ .start subscribers) fun h move h' _ hcon hst => ?_
  cases move with
  | handle msg =>
      obtain ⟨hrunning, server, out, hhandled, rfl⟩ := handled_of_next hst
      exact hcon.handled hrunning hhandled
  | leave subr =>
      cases hst
      exact hcon.leave subr
  | stop =>
      replace hst : next hash h .stop = some h' := hst
      simp only [next] at hst
      split at hst
      · cases hst
      · cases hst
        exact hcon.stop

/-- Inside the cluster the charges are the keys of the senders, no number stands
for two senders, a sender that was started is kept or was terminated, and the last
`Charges` to a subscriber whose channel is open tell it the charges and the
devices.  A server that stopped has terminated every sender. -/
theorem agrees_of_reachable (hash : Device → UInt64) (subscribers : List Nat) {h : Hosted}
    (hreach : (system hash subscribers).Reachable h) {ic : InCluster}
    (hstate : h.server.state = .inCluster ic) :
    (∀ device, device ∈ ic.charges ↔ device ∈ ic.reqSenders) ∧
      (h.log.filterMap Output.spawned?).Nodup ∧
      (∀ sender device interval, .spawn sender device interval ∈ h.log →
        ic.reqSenders[device]? = some sender ∨ .term sender ∈ h.log) ∧
      (∀ subr ∈ h.subscribed, subr ∉ h.gone →
        lastCharges subr h.log = some (ic.charges, ic.devices)) ∧
      (h.stopped = true → ∀ sender device interval,
        .spawn sender device interval ∈ h.log → .term sender ∈ h.log) := by
  have hcon := consistent_of_reachable hreach
  have hnodup : (h.log.filterMap Output.spawned?).Nodup := hcon.numbered ▸ List.nodup_range
  refine ⟨hcon.keyed ic hstate, hnodup, fun sender device interval hspawn => ?_,
    fun subr hsubr hgone => hcon.viewed subr hsubr hgone ic hstate, hcon.ended⟩
  rcases hcon.senders sender device interval hspawn with hterm | ⟨ic', hstate', hsender⟩
  · exact .inr hterm
  · rw [hstate] at hstate'
    cases hstate'
    exact .inl hsender

/-- A server enters its cluster, takes a device, gets a second subscriber and
loses the first one; then the device is reported down. -/
def firstDevice : List Move :=
  let member : Member := ⟨Socket.localhost 10, 1, 1⟩
  [.handle (.update ⟨[.alone member], (∅ : MemberSet).insert member,
      (NodeRing.new 2).insert RingHash.byId member⟩),
    .handle (.deviceData .minimum),
    .handle (.setHeartbeatInterval (DeviceServer.client 20) ⟨1, 50⟩), .handle (.subscribe 8),
    .leave 7, .handle (.downedDevice (DeviceServer.client 20))]

theorem agrees_of_reachable_firstDevice : ∃ h ic,
    System.exec (next fun _ => 0) (start [7]) firstDevice = some h ∧
      h.server.state = .inCluster ic ∧ 8 ∈ h.subscribed ∧
      .spawn 0 (DeviceServer.client 20) ⟨1, 50⟩ ∈ h.log ∧
      (∀ device, device ∈ ic.charges ↔ device ∈ ic.reqSenders) ∧
      (h.log.filterMap Output.spawned?).Nodup ∧
      (∀ sender device interval, .spawn sender device interval ∈ h.log →
        ic.reqSenders[device]? = some sender ∨ .term sender ∈ h.log) ∧
      (∀ subr ∈ h.subscribed, subr ∉ h.gone →
        lastCharges subr h.log = some (ic.charges, ic.devices)) ∧
      (h.stopped = true → ∀ sender device interval,
        .spawn sender device interval ∈ h.log → .term sender ∈ h.log) := by
  refine ⟨_, _, rfl, rfl, by decide, by decide, agrees_of_reachable (fun _ => 0) [7] ?_ rfl⟩
  exact System.reachable_of_exec firstDevice (.of_init rfl) rfl

end Hosted

end AurumActors.Devices
