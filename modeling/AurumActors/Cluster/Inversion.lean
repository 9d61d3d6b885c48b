/-
  Cluster/Inversion.lean --- the handlers of the clustering actor taken apart.

  From what a handler returned follows which of its branches it took.  Handlers
  that end are `Received`; a handler that fails does so in the loop over the
  events of a merge, or when the charges and managers are brought up to date.
-/
import AurumActors.Cluster.Handlers

set_option autoImplicit false
set_option linter.dupNamespace false

namespace AurumActors.Cluster

open AurumActors.Core AurumActors.Foundation

/-! ## Computations that may fail -/

/-- A computation that succeeds does so step by step. -/
theorem ok_of_bind {ε α β : Type} {x : Except ε α} {f : α → Except ε β} {b : β}
    (h : x >>= f = .ok b) : ∃ a, x = .ok a ∧ f a = .ok b := by
  cases x with
  | error e => cases h
  | ok a => exact ⟨a, rfl, h⟩

theorem error_of_bind {ε α β : Type} {x : Except ε α} {f : α → Except ε β} {e : ε}
    (h : x >>= f = .error e) : x = .error e ∨ ∃ a, x = .ok a ∧ f a = .error e := by
  cases x with
  | error e' =>
      cases h
      exact .inl rfl
  | ok a => exact .inr ⟨a, rfl, h⟩

theorem ok_of_doing {α : Type} {out : List Output} {x : Except Failure α} {a : α}
    (h : doing out x = .ok a) : x = .ok a := by
  cases x with
  | error f => cases h
  | ok a' => exact h

theorem error_of_doing {α : Type} {out : List Output} {x : Except Failure α} {f : Failure}
    (h : doing out x = .error f) :
    ∃ f₀, x = .error f₀ ∧ f.common = f₀.common ∧ f.out = out ++ f₀.out := by
  cases x with
  | error f₀ =>
      cases h
      exact ⟨f₀, rfl, rfl, rfl⟩
  | ok a => cases h

variable {H : RingHash} {o : Oracle} {common common' : NodeState} {ic ic' : InCluster}

/-! ## Handlers that end -/

/-- The ways to handle a message. -/
inductive Received (H : RingHash) (o : Oracle) :
    Cluster → ClusterMsg → Cluster → List Output → Prop
  | process {common common' : NodeState} {ic ic' : InCluster} {msg : IntraClusterMsg}
      {out : List Output} (h : ic.process H o common msg = .ok (ic', common', out)) :
      Received H o ⟨common, .inCluster ic⟩ (.intraMsg msg) ⟨common', .inCluster ic'⟩ out
  | pinging {common common' : NodeState} {png : Pinging} {msg : IntraClusterMsg} {state : State}
      {out : List Output} (h : png.process H o common msg = .ok (state, common', out)) :
      Received H o ⟨common, .pinging png⟩ (.intraMsg msg) ⟨common', state⟩ out
  | subscribe {c : Cluster} {subr : Nat} {out : List Output}
      (hout : ∀ x ∈ out, ∃ update, x = .notify subr update) :
      Received H o c (.subscribe subr)
        ⟨{ c.common with subscribers := c.common.subscribers ++ [subr] }, c.state⟩ out
  | ping {common : NodeState} {png : Pinging} (hcount : png.count ≠ 0) :
      Received H o ⟨common, .pinging png⟩ .pingTimeout
        ⟨common, .pinging (png.ping common).1⟩ (png.ping common).2
  | alone {common : NodeState} {png : Pinging} (hcount : png.count = 0) :
      Received H o ⟨common, .pinging png⟩ .pingTimeout
        (Cluster.createCluster H o ⟨common, .pinging png⟩).1
        (Cluster.createCluster H o ⟨common, .pinging png⟩).2
  | silence {common : NodeState} {ic : InCluster} :
      Received H o ⟨common, .inCluster ic⟩ .gossipTimeout ⟨common, .inCluster ic⟩
        (ic.gossipRound o 0 common [] ++ ic.gossipReqs o 1 common ++
          [common.scheduleGossipTimeout])
  | down {common common' : NodeState} {ic ic' : InCluster} {member : Member} {out : List Output}
      (h : ic.down H o common member = .ok (ic', common', out)) :
      Received H o ⟨common, .inCluster ic⟩ (.downed member) ⟨common', .inCluster ic'⟩ out
  | tick {c : Cluster} (managers : List Member) :
      Received H o c .heartbeatTick c (managers.map c.common.heartbeat ++
        [.scheduleHeartbeatTick c.common.clrConfig.hbInterval])
  | ignored {c : Cluster} {msg : ClusterMsg}
      (hmsg : c.state.gossip? = none ∨ msg = .pingTimeout) : Received H o c msg c []

theorem received_of_ok {c c' : Cluster} {msg : ClusterMsg} {out : List Output}
    (h : c.recv H o msg = .ok (c', out)) : Received H o c msg c' out := by
  obtain ⟨common, state⟩ := c
  cases msg with
  | intraMsg msg =>
      cases state with
      | inCluster ic =>
          obtain ⟨⟨ic', common', out⟩, hprocess, h⟩ := ok_of_bind h
          cases h
          exact .process hprocess
      | pinging png =>
          obtain ⟨⟨state, common', out⟩, hprocess, h⟩ := ok_of_bind h
          cases h
          exact .pinging hprocess
      | left =>
          cases h
          exact .ignored (.inl rfl)
  | subscribe subr =>
      cases h
      refine .subscribe fun x hx => ?_
      split at hx
      · exact ⟨_, List.mem_singleton.mp hx⟩
      · cases hx
  | pingTimeout =>
      cases state with
      | pinging png =>
          simp only [Cluster.recv] at h
          split at h
          · next hcount =>
              cases h
              exact .ping hcount
          · next hcount =>
              cases h
              exact .alone (not_not.mp hcount)
      | inCluster ic =>
          cases h
          exact .ignored (.inr rfl)
      | left =>
          cases h
          exact .ignored (.inl rfl)
  | gossipTimeout =>
      cases state with
      | inCluster ic =>
          cases h
          exact .silence
      | pinging png =>
          cases h
          exact .ignored (.inl rfl)
      | left =>
          cases h
          exact .ignored (.inl rfl)
  | downed member =>
      cases state with
      | inCluster ic =>
          obtain ⟨⟨ic', common', out⟩, hdown, h⟩ := ok_of_bind h
          cases h
          exact .down hdown
      | pinging png =>
          cases h
          exact .ignored (.inl rfl)
      | left =>
          cases h
          exact .ignored (.inl rfl)
  | heartbeatTick =>
      cases h
      cases state with
      | inCluster ic => exact .tick ic.managers
      | pinging png => exact .tick []
      | left => exact .tick []

/-! ## Handlers that fail -/

section Failure

variable {f : Failure}

/-- The loop over events sends nothing. -/
theorem out_of_applyEvents {es : List ClusterEvent} {s : Merging}
    (h : InCluster.applyEvents H o s es = .error f) : f.out = [] := by
  induction es generalizing s with
  | nil => cases h
  | cons e es ih =>
      rcases error_of_bind h with hstep | ⟨s₁, -, hrest⟩
      · cases e with
        | removed m =>
            simp only [InCluster.applyEvent] at hstep
            split at hstep
            · cases hstep
              rfl
            · split at hstep
              · split at hstep <;> cases hstep
              · cases hstep
                rfl
        | added m | alone m | joined m => cases hstep
        | left => cases hstep
      · exact ih hrest

/-- A merge fails in the loop over its events or in the update after it. -/
theorem state_error_cases {gossip : Gossip}
    (h : ic.process H o common (.state gossip) = .error f) :
    f.out = [.abortGossipTimeout] ∨
      ∃ s f₀, InCluster.applyEvents H o
          ⟨{ ic with gossip := (ic.gossip.merge gossip).1 }, common, none, 0⟩
          (ic.gossip.merge gossip).2 = .ok s ∧
        s.ic.updateChargesManagers H s.common = .error f₀ ∧ f.common = f₀.common ∧
        f.out = .abortGossipTimeout :: (if (ic.gossip.merge gossip).2.isEmpty then []
          else s.ic.gossipRound o 0 s.common []) ++ f₀.out := by
  rcases error_of_bind h with hloop | ⟨s, hloop, h⟩
  · obtain ⟨f₀, hloop, -, hout⟩ := error_of_doing hloop
    rw [out_of_applyEvents hloop] at hout
    exact .inl hout
  · rcases error_of_bind h with hupdate | ⟨x, -, h⟩
    · obtain ⟨f₀, hupdate, hcommon, hout⟩ := error_of_doing hupdate
      exact .inr ⟨s, f₀, ok_of_doing hloop, hupdate, hcommon, hout⟩
    · cases h

/-- Inside the cluster a gossip fails, or the update after a ping. -/
theorem process_error_cases {msg : IntraClusterMsg} (h : ic.process H o common msg = .error f) :
    (∃ gossip, msg = .state gossip) ∨
      ∃ ic₁ : InCluster, ic₁.updateChargesManagers H common = .error f := by
  cases msg with
  | foo => cases h
  | reqGossip member => cases h
  | reqHeartbeat member id =>
      simp only [InCluster.process] at h
      split at h <;> cases h
  | state gossip => exact .inl ⟨gossip, rfl⟩
  | ping member =>
      simp only [InCluster.process] at h
      split at h
      · rcases error_of_bind h with hupdate | ⟨x, -, h⟩
        · exact .inr ⟨_, hupdate⟩
        · cases h
      · cases h

/-- A downing fails before anything is done, or in the update. -/
theorem down_error_cases {member : Member} (h : ic.down H o common member = .error f) :
    (f.common = common ∧ f.out = []) ∨
      ∃ ic₁ : InCluster, ic₁.updateChargesManagers H common = .error f := by
  unfold InCluster.down at h
  split at h
  · cases h
    exact .inl ⟨rfl, rfl⟩
  · cases h
  · split at h
    · cases h
      exact .inl ⟨rfl, rfl⟩
    · split at h
      · rcases error_of_bind h with hupdate | ⟨x, -, h⟩
        · exact .inr ⟨_, hupdate⟩
        · cases h
      · cases h
        exact .inl ⟨rfl, rfl⟩

theorem join_error_cases {gossip : Gossip} {up : List Member}
    (h : Pinging.join H o common gossip up = .error f) :
    ∃ (ic₁ : InCluster) (f₀ : Failure), ic₁.updateChargesManagers H common = .error f₀ ∧
      f.common = f₀.common ∧ f.out = common.scheduleGossipTimeout :: f₀.out := by
  unfold Pinging.join at h
  rcases error_of_bind h with hupdate | ⟨x, -, h⟩
  · obtain ⟨f₀, hupdate, hcommon, hout⟩ := error_of_doing hupdate
    exact ⟨_, f₀, hupdate, hcommon, hout⟩
  · cases h

/-- Before the cluster only joining it fails. -/
theorem pinging_error_cases {png : Pinging} {msg : IntraClusterMsg}
    (h : png.process H o common msg = .error f) :
    ∃ common₀ gossip up, Pinging.join H o common₀ gossip up = .error f := by
  cases msg with
  | foo => cases h
  | reqGossip member => cases h
  | reqHeartbeat member id =>
      simp only [Pinging.process] at h
      split at h <;> cases h
  | state gossip =>
      rcases error_of_bind h with hjoin | ⟨x, -, h⟩
      · exact ⟨_, _, _, hjoin⟩
      · cases h
  | ping member =>
      simp only [Pinging.process] at h
      split at h
      · cases h
      · rcases error_of_bind h with hjoin | ⟨x, -, h⟩
        · exact ⟨_, _, _, hjoin⟩
        · cases h

/-- The handlers that can fail. -/
theorem recv_error_cases {c : Cluster} {msg : ClusterMsg} (h : c.recv H o msg = .error f) :
    (∃ ic m, c.state = .inCluster ic ∧ msg = .intraMsg m ∧
        ic.process H o c.common m = .error f) ∨
      (∃ png m, c.state = .pinging png ∧ msg = .intraMsg m ∧
        png.process H o c.common m = .error f) ∨
      ∃ ic member, c.state = .inCluster ic ∧ msg = .downed member ∧
        ic.down H o c.common member = .error f := by
  obtain ⟨common, state⟩ := c
  cases msg with
  | intraMsg msg =>
      cases state with
      | inCluster ic =>
          rcases error_of_bind h with hprocess | ⟨x, -, h⟩
          · exact .inl ⟨ic, msg, rfl, rfl, hprocess⟩
          · cases h
      | pinging png =>
          rcases error_of_bind h with hprocess | ⟨x, -, h⟩
          · exact .inr (.inl ⟨png, msg, rfl, rfl, hprocess⟩)
          · cases h
      | left => cases h
  | subscribe subr => cases h
  | pingTimeout =>
      cases state with
      | pinging png =>
          simp only [Cluster.recv] at h
          split at h <;> cases h
      | inCluster ic => cases h
      | left => cases h
  | gossipTimeout => cases state <;> cases h
  | downed member =>
      cases state with
      | inCluster ic =>
          rcases error_of_bind h with hdown | ⟨x, -, h⟩
          · exact .inr (.inr ⟨ic, member, rfl, rfl, hdown⟩)
          · cases h
      | pinging png => cases h
      | left => cases h
  | heartbeatTick => cases h

end Failure

end AurumActors.Cluster
