/-
  Cluster/Coverage.lean --- who watches whom in a settled network.

  A network is settled on some members if each is the member of a node inside the
  cluster, and each of those nodes has exactly them as the members that are up.
  Their rings are one ring then, so that what a node computes for itself agrees
  with what the others compute.
-/
import AurumActors.Cluster.Configuration
import AurumActors.Cluster.Detection
import AurumActors.Cluster.RingQueries

set_option autoImplicit false
set_option linter.dupNamespace false

namespace AurumActors.Cluster

open Std
open AurumActors.Core AurumActors.Foundation

/-! ## A ring without a member -/

theorem prefix_take_filter {α : Type} (p : α → Bool) (l : List α) (n : Nat) :
    (l.take n).filter p <+: ((l.take (n + 1)).filter p).take n := by
  rw [List.prefix_take_iff]
  refine ⟨(List.take_prefix_take_left (Nat.le_succ n)).filter p, ?_⟩
  exact (List.length_filter_le _ _).trans (List.length_take_le _ _)

/-- The managers of a member that are left stay its first managers. -/
theorem NodeRing.nodeManagers_remove {H : RingHash} {r r' : NodeRing} {S : Set Member}
    {x t : Member} (h : NodeRing.Holds H r S) (h' : NodeRing.Holds H r' (S \ {x}))
    (hadm : NodeRing.Admissible H S) (hx : x ∈ S) (ht : t ∈ S) (htx : t ≠ x)
    (hfactor : r'.repFactor = r.repFactor) (hrep : r.repFactor.toNat + 1 < UInt64.size)
    {ns ns' : List Member} (hns : r.nodeManagers H false t = .ok (some ns))
    (hns' : r'.nodeManagers H false t = .ok (some ns')) : ns.filter (· ≠ x) <+: ns' := by
  have hremoved : r' = (r.remove H x).1 := by
    refine NodeRing.eq_of_holds h' (NodeRing.remove_holds x h ?_) hfactor
    exact hadm.mono (Set.insert_subset hx subset_rfl)
  have hnum : (r.repFactor + 1).toNat = r.repFactor.toNat + 1 := by
    rw [UInt64.toNat_add]
    exact Nat.mod_eq_of_lt hrep
  have ht' : t ∈ S \ {x} := ⟨ht, htx⟩
  obtain ⟨rest, hrest⟩ := NodeRing.managers_eq_cons h ht hnum
  obtain ⟨rest', hrest'⟩ := NodeRing.managers_eq_cons h' ht' hnum
  rw [NodeRing.nodeManagers_false h ht, hrest] at hns
  rw [NodeRing.nodeManagers_false h' ht', hfactor, hrest'] at hns'
  cases hns
  cases hns'
  have hkept : (t :: rest).filter (· ≠ x) <+: t :: rest' := by
    rw [← hrest, ← hrest', hremoved,
      (NodeRing.minimallyDisrupted_remove h hadm hx (H.hashCode t) (r.repFactor + 1)).1,
      NodeRing.managers_eq_take]
    exact prefix_take_filter _ _ _
  rw [List.filter_cons_of_pos (by simpa using htx)] at hkept
  exact (List.cons_prefix_cons.mp hkept).2

/-! ## Settled networks -/

namespace Detection

variable {ι : Type}

/-- A node inside the cluster, with its member. -/
structure Entered (w : Detection ι) (i : ι) (m : Member) (s : Site) (c : Cluster)
    (ic : InCluster) : Prop where
  site : w.site i = some s
  running : s.actor = .running c
  state : c.state = .inCluster ic
  own : c.common.member = m

/-- The members `ms` are those of the nodes `node`, which all have exactly them as
the members that are up, and one replication factor. -/
def Settled (w : Detection ι) (ms : List Member) (rep : UInt64) (node : Member → ι) : Prop :=
  ∀ m ∈ ms, ∃ s c ic, w.Entered (node m) m s c ic ∧
    c.common.clrConfig.replicationFactor = rep ∧
    ∀ x : Member, ic.gossip.states[x]? = some .up ↔ x ∈ ms

/-- The members that watch `m` are `managers`: its node sends them its heartbeats,
and their nodes are those with a receiver for it, which may have panicked. -/
structure Covered (H : RingHash) (w : Detection ι) (ms : List Member) (node : Member → ι)
    (m : Member) (managers : List Member) : Prop where
  nodup : managers.Nodup
  others : ∀ x ∈ managers, x ∈ ms ∧ x ≠ m
  heartbeats : ∃ s c ic, w.Entered (node m) m s c ic ∧ ∀ o, c.recv H o .heartbeatTick =
    .ok (c, managers.map c.common.heartbeat ++
      [.scheduleHeartbeatTick c.common.clrConfig.hbInterval])
  receivers : ∀ x ∈ ms, ∃ s c ic, w.Entered (node x) x s c ic ∧
    (m ∈ ic.charges ↔ x ∈ managers) ∧
    ∀ k, ic.charges[m]? = some k →
      ∃ y, s.watchers[k]? = some y ∧ y.charge = m ∧
        (y.ended = none ∨ y.ended = some .panicked)

section Runs

variable [DecidableEq ι] {H : RingHash} {U : Set Member} {checks : Bool}
  {durationPhi : IntervalStorage → Except Trap Nat} {w : Detection ι}

theorem configured_of_reachable (hadm : NodeRing.Admissible H U)
    (h : (system H checks durationPhi U).Reachable w) {i : ι} {s : Site} {c : Cluster}
    (hs : w.site i = some s) (hc : s.actor = .running c) : c.Configured c.common.fixed := by
  obtain ⟨fixed, hfixed⟩ := node_invariant (A := fun _ _ => True)
    (P := fun _ n => ∃ fixed, n.cluster.Configured fixed) hadm
    (fun _ _ _ _ _ _ _ _ _ _ => ⟨_, preStart_configured rfl⟩)
    (fun _ _ _ _ _ _ _ _ _ _ _ _ _ _ _ ⟨fixed, hfixed⟩ hrecv _ =>
      ⟨fixed, recv_configured hfixed hrecv⟩)
    (h.mono (S := system H checks durationPhi U)
      (T := (system H checks durationPhi U).restrict fun _ _ => True) (fun _ => id)
      fun _ _ _ hst => ⟨hst, trivial⟩) hs hc
  exact hfixed.fixed.symm ▸ hfixed

/-- A node that entered the cluster has its parts in order. -/
theorem Entered.sound (hadm : NodeRing.Admissible H U)
    (h : (system H checks durationPhi U).Reachable w) {i : ι} {m : Member} {s : Site} {c : Cluster}
    {ic : InCluster} (hentered : w.Entered i m s c ic) : s.Sound H U c := by
  obtain ⟨c', hsound, -⟩ := (inv_of_reachable hadm h).sites i s hentered.site
  cases hentered.running.symm.trans hsound.running
  exact hsound

/-- What a node of a settled network has: a ring of the members with the one
replication factor, and its place in it. -/
theorem Settled.place (hadm : NodeRing.Admissible H U)
    (h : (system H checks durationPhi U).Reachable w) {ms : List Member} {rep : UInt64}
    {node : Member → ι} (hsettled : w.Settled ms rep node) {m : Member} (hm : m ∈ ms) :
    ∃ s c ic, w.Entered (node m) m s c ic ∧ s.Sound H U c ∧ Node.Represented H m ic ∧
      ic.ring.repFactor = rep ∧ NodeRing.Holds H ic.ring {x | x ∈ ms} := by
  obtain ⟨s, c, ic, hentered, hrep, hup⟩ := hsettled m hm
  have hsound := hentered.sound hadm h
  have hrepresented : Node.Represented H m ic := by
    rw [← hentered.own]
    exact .of_sane (hsound.node.represents.sane ic hentered.state)
      (hsound.node.represents.neighbours ic hentered.state)
  have hmembers : {x | x ∈ ic.members} = {x | x ∈ ms} := by
    ext x
    exact (hrepresented.members x).trans (hup x)
  have hconfigured := configured_of_reachable hadm h hentered.site hentered.running
  exact ⟨s, c, ic, hentered, hsound, hrepresented, (hconfigured.ring ic hentered.state).trans hrep,
    hmembers ▸ hrepresented.holds⟩

/-- The members that watch `m` are the managers its node computed. -/
theorem Settled.covered (hadm : NodeRing.Admissible H U)
    (h : (system H checks durationPhi U).Reachable w) {ms : List Member} {rep : UInt64}
    {node : Member → ι} (hsettled : w.Settled ms rep node) (hnodup : ms.Nodup)
    (hrep : rep.toNat + 1 < UInt64.size) {m : Member} (hm : m ∈ ms) :
    ∃ managers r, w.Covered H ms node m managers ∧
      managers.length = min rep.toNat (ms.length - 1) ∧
      r.repFactor = rep ∧ NodeRing.Holds H r {x | x ∈ ms} ∧
      r.nodeManagers H false m = .ok (some managers) := by
  obtain ⟨s, c, ic, hentered, hsound, hrepresented, hfactor, hholds⟩ :=
    hsettled.place hadm h hm
  have hall : ∀ x ∈ ms, x ∈ U := by
    intro x hx
    obtain ⟨s', c', ic', hentered', hsound', -⟩ := hsettled.place hadm h hx
    exact hentered'.own ▸ hsound'.node.represents.own
  have hinverse := NodeRing.chargesInverse_of_lt false hnodup (hadm.mono hall) hholds
    (hfactor ▸ hrep)
  obtain ⟨-, ns, -, hns, -, -, -, hnsNodup, hself, hlength⟩ := hinverse m hm m hm
  cases hrepresented.managers.symm.trans hns
  refine ⟨ic.managers, ic.ring, ⟨hnsNodup, fun x hx => ⟨?_, ?_⟩, ?_, fun x hx => ?_⟩,
    hfactor ▸ hlength, hfactor, hholds, hns⟩
  · have hmem := hns
    rw [NodeRing.nodeManagers_false hholds (x := m) hm, Except.ok.injEq,
      Option.some.injEq] at hmem
    have hx' := List.mem_of_mem_drop (hmem ▸ hx)
    rw [NodeRing.managers] at hx'
    obtain ⟨e, he, rfl⟩ := List.mem_map.mp (List.mem_eraseDups.mp (List.mem_of_mem_take hx'))
    exact ((NodeRing.mem_clockwise_of_holds hholds _ e).mp he).1
  · rintro rfl
    exact hself hx
  · refine ⟨s, c, ic, hentered, fun o => ?_⟩
    obtain ⟨common, state⟩ := c
    obtain rfl : state = .inCluster ic := hentered.state
    rfl
  · obtain ⟨s', c', ic', hentered', hsound', hrepresented', hfactor', hholds'⟩ :=
      hsettled.place hadm h hx
    have hring : ic'.ring = ic.ring :=
      NodeRing.eq_of_holds hholds' hholds (hfactor'.trans hfactor.symm)
    obtain ⟨cs, hcs, hmem⟩ := hrepresented'.charges
    obtain ⟨cs', ns', hcs', hns', hiff, -⟩ := hinverse x hx m hm
    rw [hring] at hcs
    cases hcs.symm.trans hcs'
    cases hns.symm.trans hns'
    refine ⟨s', c', ic', hentered', (hmem m).trans hiff, fun k hk => ?_⟩
    obtain ⟨⟨y, hy, hcharge⟩, hterm⟩ := hsound'.held m k (by rw [hentered'.state]; exact hk)
    exact ⟨y, hy, hcharge, y.ended_of_not_stopped fun hended =>
      hterm (hsound'.stopped k y hy hended)⟩

/-- When a settled network settles without one of its members, under one
replication factor that does not overflow, every other member stays watched by
those that are left of its managers, and one more takes the place of a manager
that is gone, if there is one; nothing changes for the members that the lost one
did not watch. -/
theorem failover_of_settled (hadm : NodeRing.Admissible H U) {w' : Detection ι}
    (h : (system H checks durationPhi U).Reachable w)
    (h' : (system H checks durationPhi U).Reachable w') {ms : List Member} {rep : UInt64}
    {node node' : Member → ι} {x : Member} (hsettled : w.Settled ms rep node)
    (hsettled' : w'.Settled (ms.erase x) rep node') (hnodup : ms.Nodup) (hx : x ∈ ms)
    (hrep : rep.toNat + 1 < UInt64.size) :
    ∀ t ∈ ms.erase x, ∃ managers managers', w.Covered H ms node t managers ∧
      w'.Covered H (ms.erase x) node' t managers' ∧ managers.filter (· ≠ x) <+: managers' ∧
      managers'.length ≤ (managers.filter (· ≠ x)).length + 1 ∧
      (x ∉ managers → managers' = managers) := by
  intro t ht
  obtain ⟨htx, ht'⟩ := hnodup.mem_erase_iff.mp ht
  obtain ⟨managers, r, hcovered, hlength, hfactor, hholds, hns⟩ :=
    hsettled.covered hadm h hnodup hrep ht'
  obtain ⟨managers', r', hcovered', hlength', hfactor', hholds', hns'⟩ :=
    hsettled'.covered hadm h' (hnodup.erase x) hrep ht
  have hset : {y | y ∈ ms.erase x} = {y | y ∈ ms} \ {x} := by
    ext y
    exact hnodup.mem_erase_iff.trans and_comm
  have hall : ∀ y ∈ ms, y ∈ U := by
    intro y hy
    obtain ⟨s, c, ic, hentered, hsound, -⟩ := hsettled.place hadm h hy
    exact hentered.own ▸ hsound.node.represents.own
  have hkept : managers.filter (· ≠ x) <+: managers' :=
    NodeRing.nodeManagers_remove hholds (hset ▸ hholds') (hadm.mono hall) hx ht' htx
      (hfactor'.trans hfactor.symm) (hfactor ▸ hrep) hns hns'
  rw [List.length_erase_of_mem hx] at hlength'
  have hlost : managers.length ≤ (managers.filter (· ≠ x)).length + 1 := by
    have hsub : managers ⊆ x :: managers.filter (· ≠ x) := by
      intro y hy
      by_cases hyx : y = x
      · exact hyx ▸ List.mem_cons_self
      · exact List.mem_cons_of_mem _ (List.mem_filter.mpr ⟨hy, by simpa using hyx⟩)
    exact (hcovered.nodup.subperm hsub).length_le
  refine ⟨managers, managers', hcovered, hcovered', hkept, by omega, fun hnot => ?_⟩
  have hsame : managers.filter (· ≠ x) = managers := by
    rw [List.filter_eq_self]
    intro y hy
    simpa using fun heq : y = x => hnot (heq ▸ hy)
  rw [hsame] at hkept
  exact (hkept.eq_of_length_le (by omega)).symm

end Runs

/-! ### Two nodes, of which one goes silent -/

section Pair

open Node (seat seats firstChoices)

/-- `Settled`, computed. -/
def settles (w : Detection ι) (ms : List Member) (rep : UInt64) (node : Member → ι) : Bool :=
  ms.all fun m =>
    match w.running? (node m) with
    | some (_, ⟨common, .inCluster ic⟩) =>
        common.member = m && common.clrConfig.replicationFactor = rep &&
          ms.all (ic.gossip.states[·]? = some .up) &&
          ic.gossip.states.toList.all fun e => e.2 = .down || e.1 ∈ ms
    | _ => false

theorem settled_of_settles {w : Detection ι} {ms : List Member} {rep : UInt64}
    {node : Member → ι} (h : w.settles ms rep node = true) : w.Settled ms rep node := by
  intro m hm
  have hcheck := List.all_eq_true.mp h m hm
  split at hcheck
  · next s common ic hrunning =>
      simp only [Bool.and_eq_true, decide_eq_true_eq, List.all_eq_true] at hcheck
      obtain ⟨⟨⟨hown, hrep⟩, hall⟩, honly⟩ := hcheck
      obtain ⟨hs, hactor⟩ := running_of_running? hrunning
      refine ⟨s, _, ic, ⟨hs, hactor, rfl, hown⟩, hrep, fun x => ⟨fun hup => ?_, hall x⟩⟩
      have hx := honly (x, .up) (ExtTreeMap.mem_toList_iff_getElem?_eq_some.mpr hup)
      simpa using hx
  · cases hcheck

/-- The node at port 10 joins the one at port 11. -/
def joined : List (Move Bool × Oracle) :=
  silence.take 3 ++ [(.deliver false (Socket.localhost 10) (.state GossipNet.bothUp), firstChoices)]

/-- Which node has the member. -/
def nodeOf (m : Member) : Bool := m = seat 11 2

def pairMembers : List Member := [seat 10 1, seat 11 2]

theorem reachable_joined :
    ∃ w : Detection Bool,
      (system RingHash.byId true (fun _ => .ok 0) {m | m ∈ seats}).Reachable w ∧
      w.Settled pairMembers 2 nodeOf := by
  obtain ⟨w, hw, hsettles⟩ :
      ∃ w ∈ System.execWhere (Admitted {m | m ∈ seats})
        (next RingHash.byId true fun _ => .ok 0) (empty : Detection Bool) joined,
        w.settles pairMembers 2 nodeOf = true := by decide
  exact ⟨w, System.reachable_of_execWhere joined (.of_init rfl) hw, settled_of_settles hsettles⟩

theorem reachable_silenced :
    ∃ w : Detection Bool,
      (system RingHash.byId true (fun _ => .ok 0) {m | m ∈ seats}).Reachable w ∧
      w.Settled (pairMembers.erase (seat 10 1)) 2 nodeOf := by
  obtain ⟨w, hw, hsettles⟩ :
      ∃ w ∈ System.execWhere (Admitted {m | m ∈ seats})
        (next RingHash.byId true fun _ => .ok 0) (empty : Detection Bool) silence,
        w.settles (pairMembers.erase (seat 10 1)) 2 nodeOf = true := by decide
  exact ⟨w, System.reachable_of_execWhere silence (.of_init rfl) hw, settled_of_settles hsettles⟩

theorem admissible_seats : NodeRing.Admissible RingHash.byId {m | m ∈ seats} :=
  NodeRing.admissible_of_nodup (by decide) (by decide)

/-- The node that is left has no manager any more. -/
theorem failover_of_settled_pair :
    ∃ (w w' : Detection Bool) (managers managers' : List Member),
      w.Covered RingHash.byId pairMembers nodeOf (seat 11 2) managers ∧
      w'.Covered RingHash.byId (pairMembers.erase (seat 10 1)) nodeOf (seat 11 2) managers' ∧
      managers.filter (· ≠ seat 10 1) <+: managers' ∧
      managers'.length ≤ (managers.filter (· ≠ seat 10 1)).length + 1 ∧
      (seat 10 1 ∉ managers → managers' = managers) := by
  obtain ⟨w, h, hsettled⟩ := reachable_joined
  obtain ⟨w', h', hsettled'⟩ := reachable_silenced
  obtain ⟨managers, managers', hall⟩ := failover_of_settled admissible_seats h h' hsettled
    hsettled' (by decide) (by decide) (by decide) (seat 11 2) (by decide)
  exact ⟨w, w', managers, managers', hall⟩

end Pair

end Detection

end AurumActors.Cluster
