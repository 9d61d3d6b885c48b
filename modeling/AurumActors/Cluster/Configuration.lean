/-
  Cluster/Configuration.lean --- what no message changes: the socket of a node, its
  configuration, and the replication factor of its ring.
-/
import AurumActors.Cluster.Inversion

set_option autoImplicit false
set_option linter.dupNamespace false

namespace AurumActors.Cluster

open Std
open AurumActors.Core AurumActors.Foundation

/-- The socket of a node and its configuration. -/
def NodeState.fixed (common : NodeState) : Socket × ClusterConfig :=
  (common.member.socket, common.clrConfig)

/-- The actor is on the socket with the configuration, and its ring has the
replication factor of it. -/
structure Cluster.Configured (seat : Socket × ClusterConfig) (c : Cluster) : Prop where
  fixed : c.common.fixed = seat
  ring : ∀ ic, c.state = .inCluster ic → ic.ring.repFactor = seat.2.replicationFactor

section Handlers

variable {H : RingHash} {o : Oracle} {seat : Socket × ClusterConfig}
  {common common' : NodeState} {ic ic' : InCluster} {out : List Output}

theorem notify_fixed (ic : InCluster) (common : NodeState) (events : List ClusterEvent) :
    (ic.notify o common events).1.fixed = common.fixed := by
  unfold InCluster.notify
  split <;> rfl

theorem update_configured (h : ic.updateChargesManagers H common = .ok (ic', common', out)) :
    common'.fixed = common.fixed ∧ ic'.ring.repFactor = ic.ring.repFactor := by
  have hsettled := InCluster.settled_of_ok h
  exact ⟨by rw [hsettled.common]; rfl, by rw [hsettled.ring]⟩

theorem applyEvents_configured {es : List ClusterEvent} {s s' : Merging}
    (h : InCluster.applyEvents H o s es = .ok s') :
    s'.common.fixed = s.common.fixed ∧ s'.ic.ring.repFactor = s.ic.ring.repFactor := by
  induction es generalizing s with
  | nil =>
      cases h
      exact ⟨rfl, rfl⟩
  | cons e es ih =>
      obtain ⟨s₁, hstep, hrest⟩ := ok_of_bind h
      obtain ⟨hfixed, hring⟩ := ih hrest
      rw [hfixed, hring]
      cases e with
      | added m =>
          cases hstep
          exact ⟨rfl, rfl⟩
      | removed m =>
          simp only [InCluster.applyEvent] at hstep
          split at hstep
          · cases hstep
          · next ring hremove =>
              have hrep : ring.repFactor = s.ic.ring.repFactor :=
                congrArg (fun r => r.1.repFactor) hremove.symm
              split at hstep
              · split at hstep
                · cases hstep
                  exact ⟨rfl, hrep⟩
                · cases hstep
                  exact ⟨rfl, hrep⟩
              · cases hstep
      | _ =>
          cases hstep
          exact ⟨rfl, rfl⟩

theorem process_configured {msg : IntraClusterMsg}
    (h : ic.process H o common msg = .ok (ic', common', out)) :
    common'.fixed = common.fixed ∧ ic'.ring.repFactor = ic.ring.repFactor := by
  cases msg with
  | foo =>
      cases h
      exact ⟨rfl, rfl⟩
  | reqGossip member =>
      cases h
      exact ⟨rfl, rfl⟩
  | reqHeartbeat member id =>
      simp only [InCluster.process] at h
      split at h <;> cases h <;> exact ⟨rfl, rfl⟩
  | state gossip =>
      rcases hmerge : ic.gossip.merge gossip with ⟨merged, events⟩
      simp only [InCluster.process, hmerge] at h
      obtain ⟨s, hloop, h⟩ := ok_of_bind h
      obtain ⟨hfixed, hring⟩ := applyEvents_configured (ok_of_doing hloop)
      obtain ⟨⟨ic₁, common₁, hbrs⟩, hupdate, h⟩ := ok_of_bind h
      obtain ⟨hfixed₁, hring₁⟩ := update_configured (ok_of_doing hupdate)
      cases h
      exact ⟨(notify_fixed ..).trans (hfixed₁.trans hfixed), hring₁.trans hring⟩
  | ping member =>
      simp only [InCluster.process] at h
      split at h
      · obtain ⟨⟨ic₁, common₁, hbrs⟩, hupdate, h⟩ := ok_of_bind h
        obtain ⟨hfixed, hring⟩ := update_configured hupdate
        cases h
        exact ⟨(notify_fixed ..).trans hfixed, hring⟩
      · cases h
        exact ⟨rfl, rfl⟩

theorem down_configured {member : Member} (h : ic.down H o common member = .ok (ic', common', out)) :
    common'.fixed = common.fixed ∧ ic'.ring.repFactor = ic.ring.repFactor := by
  unfold InCluster.down at h
  split at h
  · cases h
  · cases h
    exact ⟨rfl, rfl⟩
  · split at h
    · cases h
    · next ring hremove =>
        split at h
        · obtain ⟨⟨ic₁, common₁, hbrs⟩, hupdate, h⟩ := ok_of_bind h
          obtain ⟨hfixed, hring⟩ := update_configured hupdate
          cases h
          have hrep : ring.repFactor = ic.ring.repFactor :=
            congrArg (fun r => r.1.repFactor) hremove.symm
          exact ⟨hfixed, hring.trans hrep⟩
        · cases h

theorem join_configured {gossip : Gossip} {up : List Member}
    (h : Pinging.join H o common gossip up = .ok (ic', common', out)) :
    common'.fixed = common.fixed ∧
      ic'.ring.repFactor = common.clrConfig.replicationFactor := by
  unfold Pinging.join at h
  obtain ⟨⟨ic₁, common₁, hbrs⟩, hupdate, h⟩ := ok_of_bind h
  obtain ⟨hfixed, hring⟩ := update_configured (ok_of_doing hupdate)
  cases h
  exact ⟨hfixed, hring.trans (NodeRing.foldl_insert_repFactor up (NodeRing.new _))⟩

theorem configured_of_pinging {png : Pinging} (hfixed : common.fixed = seat) :
    Cluster.Configured seat ⟨common, .pinging png⟩ := by
  refine ⟨hfixed, fun ic hic => ?_⟩
  cases hic

theorem pinging_configured {png : Pinging} {msg : IntraClusterMsg} {state : State}
    (hfixed : common.fixed = seat)
    (h : png.process H o common msg = .ok (state, common', out)) :
    Cluster.Configured seat ⟨common', state⟩ := by
  have hjoins : ∀ {common₀ : NodeState} {gossip : Gossip} {up : List Member} {ic' : InCluster}
      {out : List Output}, common₀.fixed = common.fixed →
      Pinging.join H o common₀ gossip up = .ok (ic', common', out) →
      Cluster.Configured seat ⟨common', .inCluster ic'⟩ := by
    intro common₀ gossip up ic' out hsame hjoin
    obtain ⟨hkept, hring⟩ := join_configured hjoin
    refine ⟨hkept.trans (hsame.trans hfixed), fun ic hic => ?_⟩
    cases hic
    exact hring.trans (congrArg (·.2.replicationFactor) (hsame.trans hfixed))
  cases msg with
  | state gossip =>
      obtain ⟨common₀, gossip₀, henter, -, hcommon, -⟩ := enter_spec (o := o) common gossip
      simp only [Pinging.process, henter] at h
      obtain ⟨⟨ic', common₁, out₁⟩, hjoin, h⟩ := ok_of_bind h
      cases h
      refine hjoins ?_ hjoin
      rcases hcommon with ⟨rfl, -⟩ | ⟨rfl, -⟩ <;> rfl
  | ping member =>
      simp only [Pinging.process] at h
      split at h
      · cases h
        exact configured_of_pinging hfixed
      · obtain ⟨⟨ic', common₁, out₁⟩, hjoin, h⟩ := ok_of_bind h
        cases h
        exact hjoins rfl hjoin
  | reqHeartbeat member id =>
      simp only [Pinging.process] at h
      split at h <;> cases h <;> exact configured_of_pinging hfixed
  | foo =>
      cases h
      exact configured_of_pinging hfixed
  | reqGossip member =>
      cases h
      exact configured_of_pinging hfixed

theorem createCluster_configured {c : Cluster} (hfixed : c.common.fixed = seat) :
    (c.createCluster H o).1.Configured seat := by
  refine ⟨hfixed, fun ic hic => ?_⟩
  cases hic
  exact hfixed ▸ rfl

theorem preStart_configured {c : Cluster} (hfixed : c.common.fixed = seat) :
    (c.preStart H o).1.Configured seat := by
  unfold Cluster.preStart
  simp only
  split
  · exact createCluster_configured hfixed
  · exact configured_of_pinging hfixed

/-- No message changes the socket, the configuration or the replication factor. -/
theorem recv_configured {c c' : Cluster} {msg : ClusterMsg} (hc : c.Configured seat)
    (h : c.recv H o msg = .ok (c', out)) : c'.Configured seat := by
  have hinside : ∀ {common common' : NodeState} {ic ic' : InCluster},
      Cluster.Configured seat ⟨common, .inCluster ic⟩ → common'.fixed = common.fixed ∧
        ic'.ring.repFactor = ic.ring.repFactor →
      Cluster.Configured seat ⟨common', .inCluster ic'⟩ := by
    intro common common' ic ic' hc hsame
    refine ⟨hsame.1.trans hc.fixed, fun ic₁ hic => ?_⟩
    cases hic
    exact hsame.2.trans (hc.ring ic rfl)
  cases received_of_ok h with
  | process h => exact hinside hc (process_configured h)
  | pinging h => exact pinging_configured hc.fixed h
  | subscribe hout => exact ⟨hc.fixed, hc.ring⟩
  | ping hcount => exact configured_of_pinging hc.fixed
  | alone hcount => exact createCluster_configured hc.fixed
  | silence => exact hc
  | down h => exact hinside hc (down_configured h)
  | tick managers => exact hc
  | ignored hmsg => exact hc

end Handlers

end AurumActors.Cluster
