/-
  Cluster/Timers.lean --- what the handlers of a clustering actor do to its
  timers, read once.

  A handler schedules a ping timeout, a gossip timeout, a heartbeat tick, or
  none of them.  What follows for one kind of timer is read off from here.
-/
import AurumActors.Cluster.Inversion

set_option autoImplicit false
set_option linter.dupNamespace false

namespace AurumActors.Cluster

open Std
open AurumActors.Core AurumActors.Foundation

/-! ## Outputs about timers -/

namespace Output

def isTimer : Output → Bool
  | .schedulePingTimeout _ | .scheduleGossipTimeout _ | .scheduleHeartbeatTick _
  | .abortGossipTimeout => true
  | _ => false

/-- Outputs that do nothing to the timers. -/
def Untimed (out : List Output) : Prop := ∀ x ∈ out, x.isTimer = false

namespace Untimed

variable {out out' : List Output}

@[simp] theorem nil : Untimed [] := fun _ hx => nomatch hx

theorem append (h : Untimed out) (h' : Untimed out') : Untimed (out ++ out') := by
  intro x hx
  rcases List.mem_append.mp hx with hx | hx
  · exact h x hx
  · exact h' x hx

theorem map {α : Type} {f : α → Output} (hf : ∀ a, (f a).isTimer = false) (l : List α) :
    Untimed (l.map f) := by
  intro x hx
  obtain ⟨a, -, rfl⟩ := List.mem_map.mp hx
  exact hf a

theorem filter (h : Untimed out) : out.filter isTimer = [] := by
  rw [List.filter_eq_nil_iff]
  intro x hx
  simp [h x hx]

theorem of_hbrs (h : ∀ x ∈ out, x.isHbr = true) : Untimed out := by
  intro x hx
  have hhbr := h x hx
  cases x with
  | spawn hbr charge req => rfl
  | term hbr => rfl
  | _ => cases hhbr

end Untimed

end Output

variable {H : RingHash} {o : Oracle} {common common' : NodeState} {ic ic' : InCluster}
  {out : List Output}

namespace InCluster

theorem untimed_gossipRound (n : Nat) (ic : InCluster) (common : NodeState)
    (ms : List Member) : Output.Untimed (ic.gossipRound o n common ms) :=
  .map (fun _ => rfl) _

theorem untimed_gossipReqs (n : Nat) (ic : InCluster) (common : NodeState) :
    Output.Untimed (ic.gossipReqs o n common) :=
  .map (fun _ => rfl) _

theorem untimed_notify (ic : InCluster) (common : NodeState) (events : List ClusterEvent) :
    Output.Untimed (ic.notify o common events).2 := by
  rw [ic.notify_out]
  split
  · exact .nil
  · exact .map (fun _ => rfl) _

/-- The round after the loop of `process`. -/
theorem untimed_round (s : Merging) (events : List ClusterEvent) :
    Output.Untimed (if events.isEmpty then [] else s.ic.gossipRound o 0 s.common []) := by
  split
  · exact .nil
  · exact untimed_gossipRound _ _ _ _

/-- What a failed update of the charges and managers did before. -/
theorem untimed_of_error {f : Failure} (h : ic.updateChargesManagers H common = .error f) :
    Output.Untimed f.out := by
  unfold updateChargesManagers at h
  split at h
  · cases h
    exact .nil
  · simp only at h
    split at h
    · cases h
    · cases h
      refine .append (fun x hx => ?_) (.map (fun _ => rfl) _)
      obtain ⟨hbr, m, rfl⟩ := of_mem_takeCharges _ _ _ _ _ x hx
      rfl

end InCluster

/-! ## Handlers that end -/

/-- What a handler that ends does to the timers, in order. -/
inductive Timed (c : Cluster) (msg : ClusterMsg) (c' : Cluster) : List Output → Prop
  /-- the node stays where it is, or inside the cluster -/
  | still (hstate : c'.state = c.state ∨
        c.state.gossip?.isSome = true ∧ c'.state.gossip?.isSome = true)
      (hmsg : c.state.gossip?.isSome = true →
        msg ≠ .gossipTimeout ∧ ∀ gossip, msg ≠ .intraMsg (.state gossip)) : Timed c msg c' []
  /-- the last ping timed out -/
  | alone (png : Pinging) (hpinging : c.state = .pinging png) (hcount : png.count = 0)
      (hinside : c'.state.gossip?.isSome = true) (hmsg : msg = .pingTimeout) : Timed c msg c' []
  | ping (png : Pinging) (delay : Nat) (hpinging : c.state = .pinging png)
      (hcount : png.count ≠ 0) (hstate : c'.state = .pinging ⟨png.count - 1⟩)
      (hmsg : msg = .pingTimeout) : Timed c msg c' [.schedulePingTimeout delay]
  | join (delay : Nat) (houtside : c.state.gossip? = none)
      (hinside : c'.state.gossip?.isSome = true) (hmsg : msg ≠ .gossipTimeout) :
      Timed c msg c' [.scheduleGossipTimeout delay]
  | gossip (delay : Nat) (gossip : Gossip) (hinside : c'.state.gossip?.isSome = true)
      (hmsg : msg = .intraMsg (.state gossip)) :
      Timed c msg c' [.abortGossipTimeout, .scheduleGossipTimeout delay]
  | silence (delay : Nat) (hsame : c' = c) (hinside : c.state.gossip?.isSome = true)
      (hmsg : msg = .gossipTimeout) : Timed c msg c' [.scheduleGossipTimeout delay]
  | tick (delay : Nat) (hsame : c' = c) (hmsg : msg = .heartbeatTick) :
      Timed c msg c' [.scheduleHeartbeatTick delay]

open Output (isTimer)

section Ends

/-- A handler inside the cluster that leaves the timers alone. -/
theorem Timed.inside {msg : ClusterMsg} (hmsg : msg ≠ .gossipTimeout)
    (hstate : ∀ gossip, msg ≠ .intraMsg (.state gossip)) (hout : Output.Untimed out) :
    Timed ⟨common, .inCluster ic⟩ msg ⟨common', .inCluster ic'⟩ (out.filter isTimer) := by
  rw [hout.filter]
  exact .still (.inr ⟨rfl, rfl⟩) fun _ => ⟨hmsg, hstate⟩

/-- A handler that leaves the node where it is outside the cluster. -/
theorem Timed.outside {msg : ClusterMsg} {state : State} (houtside : state.gossip? = none)
    (hout : Output.Untimed out) :
    Timed ⟨common, state⟩ msg ⟨common', state⟩ (out.filter isTimer) := by
  rw [hout.filter]
  refine .still (.inl rfl) fun hin => ?_
  rw [show state.gossip? = _ from houtside] at hin
  cases hin

theorem process_timed {msg : IntraClusterMsg}
    (h : ic.process H o common msg = .ok (ic', common', out)) :
    Timed ⟨common, .inCluster ic⟩ (.intraMsg msg) ⟨common', .inCluster ic'⟩
      (out.filter isTimer) := by
  cases msg with
  | foo =>
      cases h
      exact .inside (by simp) (by simp) .nil
  | reqGossip member =>
      cases h
      exact .inside (by simp) (by simp) (by simp [Output.Untimed, isTimer])
  | reqHeartbeat member id =>
      simp only [InCluster.process] at h
      split at h
      · cases h
        exact .inside (by simp) (by simp) (by simp [Output.Untimed, isTimer, NodeState.heartbeat])
      · cases h
        exact .inside (by simp) (by simp) .nil
  | state gossip =>
      rcases hmerge : ic.gossip.merge gossip with ⟨merged, events⟩
      simp only [InCluster.process, hmerge] at h
      obtain ⟨s, -, h⟩ := ok_of_bind h
      obtain ⟨⟨ic₁, common₁, hbrs⟩, hupdate, h⟩ := ok_of_bind h
      have hhbrs := Output.Untimed.of_hbrs (InCluster.settled_of_ok (ok_of_doing hupdate)).hbrs
      cases h
      simp only [List.cons_append, List.filter_cons, List.filter_append, hhbrs.filter,
        (InCluster.untimed_round s events).filter, (InCluster.untimed_notify _ _ _).filter]
      exact .gossip _ gossip rfl rfl
  | ping member =>
      simp only [InCluster.process] at h
      split at h
      · obtain ⟨⟨ic₁, common₁, hbrs⟩, hupdate, h⟩ := ok_of_bind h
        have hhbrs := Output.Untimed.of_hbrs (InCluster.settled_of_ok hupdate).hbrs
        cases h
        exact .inside (by simp) (by simp) ((hhbrs.append (InCluster.untimed_notify _ _ _)).append
          (InCluster.untimed_gossipRound _ _ _ _))
      · cases h
        exact .inside (by simp) (by simp) (InCluster.untimed_gossipRound _ _ _ _)

theorem down_timed {member : Member}
    (h : ic.down H o common member = .ok (ic', common', out)) :
    Timed ⟨common, .inCluster ic⟩ (.downed member) ⟨common', .inCluster ic'⟩
      (out.filter isTimer) := by
  unfold InCluster.down at h
  split at h
  · cases h
  · cases h
    exact .inside (by simp) (by simp) .nil
  · split at h
    · cases h
    · split at h
      · obtain ⟨⟨ic₁, common₁, hbrs⟩, hupdate, h⟩ := ok_of_bind h
        have hhbrs := Output.Untimed.of_hbrs (InCluster.settled_of_ok hupdate).hbrs
        cases h
        have hround := hhbrs.append (InCluster.untimed_gossipRound (o := o) 0 ic' common₁ [member])
        exact .inside (by simp) (by simp) (hround.append (.map (fun _ => rfl) _))
      · cases h

theorem join_timed {gossip : Gossip} {up : List Member}
    (h : Pinging.join H o common gossip up = .ok (ic', common', out)) :
    ∃ delay, out.filter isTimer = [.scheduleGossipTimeout delay] := by
  unfold Pinging.join at h
  obtain ⟨⟨ic₁, common₁, hbrs⟩, hupdate, h⟩ := ok_of_bind h
  have hhbrs := Output.Untimed.of_hbrs (InCluster.settled_of_ok (ok_of_doing hupdate)).hbrs
  cases h
  have hrest := (hhbrs.append (InCluster.untimed_gossipRound (o := o) 0 ic' common₁ [])).append
    (.map (f := fun s => .notify s ⟨[.joined common₁.member], ic'.members, ic'.ring⟩)
      (fun _ => rfl) common₁.subscribers)
  exact ⟨_, congrArg (List.cons _) hrest.filter⟩

theorem pinging_timed {png : Pinging} {msg : IntraClusterMsg} {state : State}
    (h : png.process H o common msg = .ok (state, common', out)) :
    Timed ⟨common, .pinging png⟩ (.intraMsg msg) ⟨common', state⟩ (out.filter isTimer) := by
  cases msg with
  | foo =>
      cases h
      exact .outside rfl .nil
  | reqGossip member =>
      cases h
      exact .outside rfl .nil
  | reqHeartbeat member id =>
      simp only [Pinging.process] at h
      split at h
      · cases h
        exact .outside rfl (by simp [Output.Untimed, isTimer, NodeState.heartbeat])
      · cases h
        exact .outside rfl (by simp [Output.Untimed, isTimer])
  | state gossip =>
      rcases henter : Pinging.enter o common gossip with ⟨common₀, gossip₀⟩
      simp only [Pinging.process, henter] at h
      obtain ⟨⟨ic', common₁, out₁⟩, hjoin, h⟩ := ok_of_bind h
      cases h
      obtain ⟨delay, hout⟩ := join_timed hjoin
      rw [hout]
      exact .join _ rfl rfl (by simp)
  | ping member =>
      simp only [Pinging.process] at h
      split at h
      · cases h
        exact .outside rfl .nil
      · obtain ⟨⟨ic', common₁, out₁⟩, hjoin, h⟩ := ok_of_bind h
        cases h
        obtain ⟨delay, hout⟩ := join_timed hjoin
        rw [hout]
        exact .join _ rfl rfl (by simp)

/-- The timers of a round of pings. -/
theorem filter_isTimer_ping (png : Pinging) (common : NodeState) :
    (png.ping common).2.filter isTimer =
      [.schedulePingTimeout common.clrConfig.pingTimeout] := by
  have hpings : Output.Untimed
      (common.clrConfig.seedNodes.toList.map fun s => .udp s (.ping common.member)) :=
    .map (fun _ => rfl) _
  simp only [Pinging.ping, List.filter_append, hpings.filter, List.nil_append]
  rfl

theorem recv_timed {c c' : Cluster} {msg : ClusterMsg} (h : c.recv H o msg = .ok (c', out)) :
    Timed c msg c' (out.filter isTimer) := by
  cases received_of_ok h with
  | process h => exact process_timed h
  | pinging h => exact pinging_timed h
  | subscribe hout =>
      have huntimed : Output.Untimed out := by
        intro x hx
        obtain ⟨update, rfl⟩ := hout x hx
        rfl
      rw [huntimed.filter]
      exact .still (.inl rfl) fun _ => ⟨by simp, by simp⟩
  | @ping common png hcount =>
      rw [filter_isTimer_ping]
      exact .ping png _ rfl hcount rfl rfl
  | @alone common png hcount =>
      have hsent : Output.Untimed (Cluster.createCluster H o ⟨common, .pinging png⟩).2 :=
        (InCluster.alone H common).untimed_notify (o := o) common [.alone common.member]
      rw [hsent.filter]
      exact .alone png rfl hcount rfl rfl
  | silence =>
      simp only [List.filter_append, (InCluster.untimed_gossipRound _ _ _ _).filter,
        (InCluster.untimed_gossipReqs _ _ _).filter]
      exact .silence _ rfl rfl rfl
  | down h => exact down_timed h
  | tick managers =>
      have hbeats : Output.Untimed (managers.map c.common.heartbeat) := .map (fun _ => rfl) _
      rw [List.filter_append, hbeats.filter]
      exact .tick _ rfl rfl
  | ignored hmsg =>
      refine .still (.inl rfl) fun hin => ?_
      rcases hmsg with hout | rfl
      · rw [hout] at hin
        cases hin
      · exact ⟨by simp, by simp⟩

end Ends

/-! ## Handlers that fail -/

/-- Outputs that schedule or abort at most a gossip timeout. -/
def Output.Gossips (out : List Output) : Prop :=
  ∀ x ∈ out, x.isTimer = true → x = .abortGossipTimeout ∨ ∃ delay, x = .scheduleGossipTimeout delay

section Fails

variable {f : Failure}

theorem Output.Gossips.of_untimed (h : Output.Untimed out) : Output.Gossips out := by
  intro x hx htimer
  rw [h x hx] at htimer
  cases htimer

theorem Output.Gossips.append {out' : List Output} (h : Output.Gossips out)
    (h' : Output.Gossips out') : Output.Gossips (out ++ out') := by
  intro x hx
  rcases List.mem_append.mp hx with hx | hx
  · exact h x hx
  · exact h' x hx

theorem join_failed_timers {gossip : Gossip} {up : List Member}
    (h : Pinging.join H o common gossip up = .error f) : Output.Gossips f.out := by
  obtain ⟨ic₁, f₀, hupdate, -, hout⟩ := join_error_cases h
  rw [hout]
  have hschedule : Output.Gossips [common.scheduleGossipTimeout] := by
    simp [Output.Gossips, NodeState.scheduleGossipTimeout]
  exact hschedule.append (.of_untimed (InCluster.untimed_of_error hupdate))

theorem state_failed_timers {gossip : Gossip}
    (h : ic.process H o common (.state gossip) = .error f) : Output.Gossips f.out := by
  have habort : Output.Gossips [.abortGossipTimeout] := by simp [Output.Gossips]
  rcases state_error_cases h with hout | ⟨s, f₀, -, hupdate, -, hout⟩
  · rw [hout]
    exact habort
  · rw [hout]
    exact (habort.append (.of_untimed (InCluster.untimed_round s _))).append
      (.of_untimed (InCluster.untimed_of_error hupdate))

/-- A handler that fails schedules no ping timeout before. -/
theorem recv_failed_timers {c : Cluster} {msg : ClusterMsg} (h : c.recv H o msg = .error f) :
    Output.Gossips f.out := by
  rcases recv_error_cases h with ⟨ic, m, -, -, hfails⟩ |
    ⟨png, m, -, -, hfails⟩ | ⟨ic, member, -, -, hfails⟩
  · rcases process_error_cases hfails with ⟨gossip, rfl⟩ | ⟨ic₁, hupdate⟩
    · exact state_failed_timers hfails
    · exact .of_untimed (InCluster.untimed_of_error hupdate)
  · obtain ⟨common₀, gossip, up, hjoin⟩ := pinging_error_cases hfails
    exact join_failed_timers hjoin
  · rcases down_error_cases hfails with ⟨-, hout⟩ | ⟨ic₁, hupdate⟩
    · rw [hout]
      exact .of_untimed .nil
    · exact .of_untimed (InCluster.untimed_of_error hupdate)

end Fails

end AurumActors.Cluster
