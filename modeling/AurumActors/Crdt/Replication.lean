/-
  Crdt/Replication.lean --- the replicated data over the clustering of the nodes.

  Beside the clustering actor of every node runs an actor that replicates data.
  It takes the updates of its subscription one after the other, between any other
  messages.  The ids of the members are distinct, and say which node they are of.

  Scope disclosure: the clustering is that of `Cluster/Detection.lean`, where sends
  succeed, the registry takes every receiver and no process is started twice.  The
  data actors are spawned once and stay registered, and their sends succeed too.
-/
import AurumActors.Cluster.Coverage
import AurumActors.Crdt.Exactness
import AurumActors.Crdt.Peers

set_option autoImplicit false

namespace AurumActors.Crdt

open AurumActors.Cluster AurumActors.Core AurumActors.Foundation

attribute [local instance] lexOrd

/-- The clustering of the nodes, the actors that replicate data, and how many
updates each of them has taken. -/
structure Replicas (ι S : Type) [CRDT S] where
  clusters : Detection ι
  net : Net ι S
  taken : ι → Nat

namespace Replicas

/-! ## The network -/

inductive Move (ι S : Type) [CRDT S] where
  | cluster (mv : Detection.Move ι × Oracle)
  /-- an actor takes the next update -/
  | take (i : ι)
  /-- an actor gets another message -/
  | actor (mv : Net.Move ι S)

/-- The update is the message of the move. -/
def isUpdate {ι S : Type} [CRDT S] : Net.Move ι S → Bool
  | .local _ (.update _) => true
  | _ => false

/-- The clustering, its durations and its members, and the subscription of the
actor of every node. -/
structure Setting (ι : Type) where
  H : RingHash
  checks : Bool
  durationPhi : IntervalStorage → Except Trap Nat
  U : Set Member
  placement : Placement ι
  preference : ι → DispersalPreference
  subr : ι → Nat

variable {ι S : Type} [CRDT S]

/-- The updates of the actor of a node. -/
def updates (C : Setting ι) (w : Replicas ι S) (i : ι) : List (Member × ClusterUpdate) :=
  w.clusters.updates i (C.subr i)

section Moves

variable [DecidableEq ι] [DecidableEq S]

def next (C : Setting ι) (w : Replicas ι S) : Move ι S → Option (Replicas ι S)
  | .cluster mv =>
      (w.clusters.next C.H C.checks C.durationPhi mv).map fun clusters => { w with clusters }
  | .take i => do
      let u ← (w.updates C i)[w.taken i]?
      let net ← w.net.handle i (.update u.2)
      return { w with net, taken := Function.update w.taken i (w.taken i + 1) }
  | .actor mv =>
      if isUpdate mv then none
      else (w.net.next C.placement mv).map fun net => { w with net }

/-- The clustering keeps to its universe, and starts every node at its place. -/
def Admitted (C : Setting ι) (w : Replicas ι S) : Move ι S → Prop
  | .cluster mv => Detection.Admitted C.U w.clusters mv ∧
      Detection.Seated C.placement.socket w.clusters mv
  | _ => True

def start (C : Setting ι) : Replicas ι S := ⟨Detection.empty, Net.start C.preference, fun _ => 0⟩

def system (C : Setting ι) : System (Replicas ι S) (Move ι S) :=
  (System.ofNext (start C) (next C)).restrict (Admitted C)

end Moves

/-- The message that a move brings to the actor of a node. -/
inductive Brings (C : Setting ι) (w : Replicas ι S) : Move ι S → ι → CausalMsg S → Prop
  | take {i : ι} {u : Member × ClusterUpdate} (hu : (w.updates C i)[w.taken i]? = some u) :
      Brings C w (.take i) i (.update u.2)
  | actor {i : ι} {mv : Net.Move ι S} {msg : CausalMsg S}
      (harr : Net.Arrives C.placement w.net i mv msg) (hmv : isUpdate mv = false) :
      Brings C w (.actor mv) i msg

/-- Members have ids of their own, which say where they are. -/
structure Setting.Sound (C : Setting ι) : Prop where
  admissible : NodeRing.Admissible C.H C.U
  ids : Set.InjOn Member.id C.U
  placed : ∀ m ∈ C.U, C.placement.Placed m

/-! ## One move -/

section Runs

variable [DecidableEq ι] [DecidableEq S] {C : Setting ι} {w w' : Replicas ι S}

/-- What a move can do. -/
inductive Moved (C : Setting ι) (w : Replicas ι S) : Move ι S → Replicas ι S → Prop
  | cluster {mv : Detection.Move ι × Oracle} {clusters : Detection ι}
      (h : w.clusters.next C.H C.checks C.durationPhi mv = some clusters) :
      Moved C w (.cluster mv) { w with clusters }
  | take {i : ι} {u : Member × ClusterUpdate} {net : Net ι S}
      (hu : (w.updates C i)[w.taken i]? = some u) (h : w.net.handle i (.update u.2) = some net) :
      Moved C w (.take i) { w with net, taken := Function.update w.taken i (w.taken i + 1) }
  | actor {mv : Net.Move ι S} {net : Net ι S} (hmv : isUpdate mv = false)
      (h : w.net.next C.placement mv = some net) : Moved C w (.actor mv) { w with net }

theorem moved_of_next {mv : Move ι S} (h : w.next C mv = some w') : w.Moved C mv w' := by
  cases mv with
  | cluster mv =>
      obtain ⟨clusters, hnext, rfl⟩ := Option.map_eq_some_iff.mp h
      exact .cluster hnext
  | take i =>
      obtain ⟨u, hu, h⟩ := Option.bind_eq_some_iff.mp h
      obtain ⟨net, hnet, h⟩ := Option.bind_eq_some_iff.mp h
      cases h
      exact .take hu hnet
  | actor mv =>
      simp only [next] at h
      split at h
      · cases h
      · next hmv =>
          obtain ⟨net, hnet, rfl⟩ := Option.map_eq_some_iff.mp h
          exact .actor (by simpa using hmv) hnet

/-- The clustering runs by itself. -/
theorem reachable_clusters (h : (system C).Reachable w) :
    ((Detection.system C.H C.checks C.durationPhi C.U).restrict
      (Detection.Seated C.placement.socket)).Reachable w.clusters := by
  refine h.project Replicas.clusters (fun w hw => ?_) fun w mv w' _ hst => ?_
  · rw [show w = start C from hw]
    rfl
  · obtain ⟨hnext, hadmitted⟩ := hst
    cases moved_of_next hnext with
    | cluster h => exact .inr ⟨_, ⟨h, hadmitted.1⟩, hadmitted.2⟩
    | take | actor => exact .inl rfl

/-- The updates up to one tell of the membership. -/
theorem tells (hC : C.Sound) (h : (system C).Reachable w) {i : ι} {k : Nat}
    {u : Member × ClusterUpdate} (hu : (w.updates C i)[k]? = some u) :
    Tells C.U ((w.updates C i).take k) u ∧ u.1.socket = C.placement.socket i ∧
      u.1 ∈ u.2.nodes :=
  Detection.tells_of_reachable hC.admissible (reachable_clusters h) hu

omit [DecidableEq ι] [DecidableEq S] in
/-- The members an update names are where they belong. -/
theorem fromNode_of_tells (hC : C.Sound) {i : ι} {us : List (Member × ClusterUpdate)}
    {u : Member × ClusterUpdate} (htells : Tells C.U us u)
    (hsocket : u.1.socket = C.placement.socket i) (hown : u.1 ∈ u.2.nodes) :
    C.placement.FromNode (S := S) i (.update u.2) := by
  have hplaced : ∀ {m : Member}, m ∈ C.U → m.socket = C.placement.socket i →
      C.placement.owner m.id = i := by
    intro m hm hmi
    exact C.placement.socket_injective ((hC.placed m hm).symm.trans hmi)
  have howner := hplaced (htells.within _ hown) hsocket
  refine ⟨fun e he => ?_, fun m hm =>
    hC.placed m (htells.within m (Std.ExtTreeSet.mem_toList.mp hm))⟩
  have hmoves : ∀ {own : Member}, e.Moves C.U own → C.placement.PlacedEvent i e := by
    intro own hmoves
    cases e with
    | added m => exact hC.placed m hmoves.1
    | removed m => trivial
    | alone | joined | left => exact hmoves.elim
  by_cases hus : us = []
  · have hevents := htells.first hus
    rcases hevents with hevents | hevents <;> rw [hevents] at he <;>
      rw [List.mem_singleton.mp he] <;> exact howner
  · cases hlast : us.getLast? with
    | none => exact absurd (List.getLast?_eq_none_iff.mp hlast) hus
    | some v =>
        generalize hevents : u.2.events = events at he
        obtain ⟨-, -, hnarrates⟩ := htells.later v hlast
        rw [hevents] at hnarrates
        generalize u.1 = own' at hnarrates howner
        generalize u.2.nodes = nodes at hnarrates
        cases hnarrates with
        | stays hall hreplay hmem => exact hmoves (hall e he)
        | replaced hall hreplay hgone hnew =>
            rcases List.mem_append.mp he with he | he
            · exact hmoves (hall e he)
            · rw [List.mem_singleton.mp he]
              exact howner

/-- The replication runs by itself. -/
theorem reachable_net (hC : C.Sound) (h : (system C).Reachable w) :
    (Net.system C.placement C.preference).Reachable w.net := by
  refine h.project Replicas.net (fun w hw => ?_) fun w mv w' hreach hst => ?_
  · rw [show w = start C from hw]
    rfl
  · cases moved_of_next hst.1 with
    | cluster h => exact .inl rfl
    | @take i u net hu h =>
        obtain ⟨htells, hsocket, hown⟩ := tells hC hreach hu
        have hfrom := fromNode_of_tells (S := S) hC htells hsocket hown
        exact .inr ⟨.local i (.update u.2), (if_pos hfrom).trans h⟩
    | actor hmv h => exact .inr ⟨_, h⟩

/-! ## The peers -/

/-- Every actor has caught up with the updates it has taken, and its counts are
indexed and bounded by its clock. -/
structure Inv (C : Setting ι) (w : Replicas ι S) : Prop where
  caught : ∀ i, (w.net.node i).Caught ((w.updates C i).take (w.taken i))
  taken_le : ∀ i, w.taken i ≤ (w.updates C i).length
  indexed : ∀ (i : ι) (ic : InCluster S), (w.net.node i).state = .inCluster ic → ic.Indexed
  counted : ∀ (i : ι) (ic : InCluster S), (w.net.node i).state = .inCluster ic → ic.Counted

variable [SemilatticeSup S] [OrderBot S] [LawfulCRDT S]

/-- An acknowledgement that arrives is not from the future. -/
theorem ack_le (hC : C.Sound) (h : (system C).Reachable w) {i : ι} {mv : Net.Move ι S}
    {id : UInt64} {c : Nat} (harr : Net.Arrives C.placement w.net i mv (.intra (.ack id c)))
    {ic : InCluster S} (hic : (w.net.node i).state = .inCluster ic) : c ≤ ic.clock := by
  obtain ⟨s, moves, rfl, hrun⟩ := reachable_net hC h
  obtain ⟨hist, hinv, -⟩ := (Net.Inv.start C.placement C.preference).run hrun
  exact CausalDisperse.clock_of_state hic ▸ (hinv.has_of_arrives harr).reached

omit [DecidableEq S] [LawfulCRDT S] [OrderBot S] [SemilatticeSup S] [DecidableEq ι] in
theorem ne_update {i : ι} {mv : Net.Move ι S} {msg : CausalMsg S}
    (harr : Net.Arrives C.placement w.net i mv msg) (hmv : isUpdate mv = false)
    (u : ClusterUpdate) :
    msg ≠ .update u := by
  rintro rfl
  cases harr
  cases hmv

/-- A message that a move brings is one of the network and of a membership. -/
theorem Inv.brings (hC : C.Sound) (h : (system C).Reachable w) (hinv : Inv C w) {mv : Move ι S}
    {i : ι} {msg : CausalMsg S} (hmsg : w.Brings C mv i msg) :
    (w.net.node i).Consistent msg ∧ (w.net.node i).Bounded msg ∧ (w.net.node i).Joinable msg := by
  cases hmsg with
  | take hu =>
      obtain ⟨hconsistent, hjoinable⟩ := (hinv.caught i).fits hC.ids (tells hC h hu).1
      exact ⟨hconsistent, trivial, hjoinable⟩
  | actor harr hmv =>
      have hne := ne_update harr hmv
      refine ⟨?_, ?_, ?_⟩
      · unfold CausalDisperse.Consistent
        split
        · exact absurd rfl (hne _)
        · trivial
      · unfold CausalDisperse.Bounded
        split
        · exact fun ic hic => ⟨hinv.counted i ic hic, ack_le hC h harr hic⟩
        · trivial
      · unfold CausalDisperse.Joinable
        split
        · exact absurd rfl (hne _)
        · trivial

/-- An actor that has handled what a move brought. -/
theorem Inv.handled (hC : C.Sound) (h : (system C).Reachable w) (hinv : Inv C w) {mv : Move ι S}
    {i : ι} {msg : CausalMsg S} (hmsg : w.Brings C mv i msg) {a : CausalDisperse S}
    {out : List (Output S)} (hhandled : CausalDisperse.Handled (w.net.node i) msg a out)
    {taken : ι → Nat} (htaken : ∀ j, j ≠ i → taken j = w.taken j)
    (hcaught : a.Caught ((w.updates C i).take (taken i)))
    (hle : taken i ≤ (w.updates C i).length) :
    Inv C { w with
      net := ⟨Function.update w.net.node i a, w.net.sent ++ Net.sends out⟩
      taken } := by
  obtain ⟨hconsistent, hbounded, -⟩ := hinv.brings hC h hmsg
  have hnode : ∀ {Q : ι → CausalDisperse S → Prop}, Q i a → (∀ j, j ≠ i → Q j (w.net.node j)) →
      ∀ j, Q j (Function.update w.net.node i a j) := fun hi hrest =>
    (Function.forall_update_iff ..).mpr ⟨hi, hrest⟩
  refine ⟨?_, fun j => ?_, ?_, ?_⟩
  · refine hnode (Q := fun j a => a.Caught ((w.updates C j).take (taken j))) hcaught fun j hj => ?_
    rw [htaken j hj]
    exact hinv.caught j
  · rcases eq_or_ne j i with rfl | hj
    · exact hle
    · exact (htaken j hj).trans_le (hinv.taken_le j)
  · exact hnode (Q := fun _ a => ∀ ic, a.state = .inCluster ic → ic.Indexed)
      (fun ic hic => hhandled.indexed hconsistent (hinv.indexed i) hic) fun j _ => hinv.indexed j
  · refine hnode (Q := fun _ a => ∀ ic, a.state = .inCluster ic → ic.Counted)
      (fun ic hic => hhandled.counted (hinv.counted i) (fun ic₀ ic' id c hack hic₀ _ => ?_) hic)
      fun j _ => hinv.counted j
    subst hack
    exact (hbounded ic₀ hic₀).2

theorem inv_of_reachable (hC : C.Sound) (h : (system C).Reachable w) : Inv C w := by
  refine h.invariant (I := Inv C) (fun w hw => ?_) fun w mv w' hreach hinv hst => ?_
  · rw [show w = start C from hw]
    refine ⟨fun i => ⟨_, rfl⟩, fun i => Nat.zero_le _, fun i ic hic => ?_, fun i ic hic => ?_⟩
    · cases hic
    · cases hic
  · cases moved_of_next hst.1 with
    | cluster h =>
        have hgrows := fun i => Detection.take_updates_of_next h (hinv.taken_le i)
        refine ⟨fun i => ?_, fun i => (hgrows i).2, hinv.indexed, hinv.counted⟩
        exact (hgrows i).1.symm ▸ hinv.caught i
    | @take i u net hu h =>
        obtain ⟨a, out, hrecv, rfl⟩ := Net.recv_of_handle h
        have hhandled := CausalDisperse.handled_of_recv hrecv
        have hlt := (List.getElem?_eq_some_iff.mp hu).1
        refine hinv.handled hC hreach (.take hu) hhandled (fun j hj => Function.update_of_ne hj ..)
          ?_ ?_
        · rw [Function.update_self, List.take_add_one, hu]
          exact (hinv.caught i).updated hC.ids (tells hC hreach hu).1 hhandled
        · rw [Function.update_self]
          exact hlt
    | @actor mv net hmv h =>
        obtain ⟨i, msg, a, out, harr, hhandled, rfl⟩ := Net.handled_of_next h
        exact hinv.handled hC hreach (.actor harr hmv) hhandled (fun _ _ => rfl)
          ((hinv.caught i).handled (ne_update harr hmv) hhandled) (hinv.taken_le i)

/-- A message that can reach an actor is handled exactly if the priority members
it would send to are peers. -/
theorem next_iff (hC : C.Sound) (h : (system C).Reachable w) {mv : Move ι S} {i : ι}
    {msg : CausalMsg S} (hmsg : w.Brings C mv i msg) :
    (∃ w', w.next C mv = some w') ↔ (w.net.node i).PriorityKnown msg := by
  have hinv := inv_of_reachable hC h
  obtain ⟨hconsistent, hbounded, hjoinable⟩ := hinv.brings hC h hmsg
  rw [← CausalDisperse.recv_ok_iff (hinv.indexed i) hconsistent hbounded hjoinable]
  have hhandle : (∃ net, w.net.handle i msg = some net) ↔ ∃ r, (w.net.node i).recv msg = .ok r := by
    unfold Net.handle
    cases (w.net.node i).recv msg <;> simp
  rw [← hhandle]
  cases hmsg with
  | @take _ u hu =>
      cases hnet : w.net.handle i (.update u.2) <;> simp [next, hu, hnet]
  | actor harr hmv =>
      cases harr with
      | «local» msg hfrom => simp [next, hmv, Net.next, hfrom]
      | deliver dest msg hsent hsocket => simp [next, hmv, Net.next, hsent, hsocket]

/-- An actor that has taken all updates of its subscription is the member of its
node, and has the other members of the node as its peers. -/
theorem peers_of_taken (hC : C.Sound) (h : (system C).Reachable w) {i : ι} {s : Site} {c : Cluster}
    {ic : Cluster.InCluster} (hs : w.clusters.site i = some s) (hc : s.actor = .running c)
    (hic : c.state = .inCluster ic) (hsubr : C.subr i ∈ c.common.subscribers)
    (htaken : w.taken i = (w.updates C i).length) :
    ∃ ic' : InCluster S, (w.net.node i).state = .inCluster ic' ∧
      ic'.Peers c.common.member ic.members ∧ ic'.cluster = ic.members.erase c.common.member := by
  have hcaught := (inv_of_reachable hC h).caught i
  rw [htaken, List.take_length] at hcaught
  have hentered : w.clusters.Entered i c.common.member s c ic := ⟨hs, hc, hic, rfl⟩
  obtain ⟨u, hu, hmember, hnodes⟩ :=
    hentered.last_update hC.admissible (reachable_clusters h) hsubr
  unfold CausalDisperse.Caught at hcaught
  rw [show (w.updates C i).getLast? = some u from hu] at hcaught
  obtain ⟨ic', hic', hpeers, hcluster⟩ := hcaught
  rw [hmember, hnodes] at hpeers hcluster
  exact ⟨ic', hic', hpeers, hcluster⟩

/-- In every run of a `Sound` setting the actors that replicate data run like a
network of their own, so that what holds of its runs holds of them.  Every message
that can reach one is handled, exactly if the priority members it would send to
are peers.  An actor that has taken all updates of its subscription is the member
of its node, and has the other members of the node as its peers. -/
theorem replication_of_reachable (hC : C.Sound) (h : (system C).Reachable w) :
    (Net.system C.placement C.preference).Reachable w.net ∧
    (∀ (mv : Move ι S) (i : ι) (msg : CausalMsg S), w.Brings C mv i msg →
      ((∃ w', w.next C mv = some w') ↔ (w.net.node i).PriorityKnown msg)) ∧
    ∀ (i : ι) (s : Site) (c : Cluster) (ic : Cluster.InCluster), w.clusters.site i = some s →
      s.actor = .running c → c.state = .inCluster ic → C.subr i ∈ c.common.subscribers →
      w.taken i = (w.updates C i).length →
      ∃ ic' : InCluster S, (w.net.node i).state = .inCluster ic' ∧
        ic'.Peers c.common.member ic.members ∧ ic'.cluster = ic.members.erase c.common.member :=
  ⟨reachable_net hC h, fun _ _ _ hmsg => next_iff hC h hmsg,
    fun _ _ _ _ hs hc hic hsubr htaken => peers_of_taken hC h hs hc hic hsubr htaken⟩

/-! ## Agreement -/

/-- The actors of the members are subscribed and have taken all updates. -/
def CaughtUp (C : Setting ι) (w : Replicas ι S) (ms : List Member) (node : Member → ι) : Prop :=
  ∀ m ∈ ms, ∀ e ∈ w.clusters.running? (node m),
    C.subr (node m) ∈ e.2.common.subscribers ∧ w.taken (node m) = (w.updates C (node m)).length

/-- No actor of a member has anything to disperse when its timeout comes. -/
def Quiet (w : Replicas ι S) (ms : List Member) (node : Member → ι) : Prop :=
  ∀ m ∈ ms, (w.net.node (node m)).dispersing .disperseTimeout = none

omit [SemilatticeSup S] [OrderBot S] [LawfulCRDT S] in
/-- The member of a settled node belongs to the node. -/
theorem owner_of_settled (hC : C.Sound) (h : (system C).Reachable w) {ms : List Member}
    {rep : UInt64} {node : Member → ι} (hsettled : w.clusters.Settled ms rep node) {m : Member}
    (hm : m ∈ ms) : C.placement.owner m.id = node m := by
  have hclusters := reachable_clusters h
  obtain ⟨s, c, ic, hentered, -, -⟩ := hsettled m hm
  have hsound := hentered.sound hC.admissible hclusters.of_restrict
  have hplaced := hC.placed c.common.member hsound.node.represents.own
  rw [hentered.own] at hplaced
  exact C.placement.socket_injective
    (hplaced.symm.trans (hentered.seated hC.admissible hclusters))

/-- In a settled network of a `Sound` setting whose actors have taken all updates,
if no actor would disperse at a timeout, then all of them have the same data. -/
theorem agreement_of_quiet (hC : C.Sound) (h : (system C).Reachable w) {ms : List Member}
    {rep : UInt64} {node : Member → ι} (hsettled : w.clusters.Settled ms rep node)
    (hcaught : w.CaughtUp C ms node) (hquiet : w.Quiet ms node) :
    ∀ m ∈ ms, ∀ m' ∈ ms, (w.net.node (node m)).data = (w.net.node (node m')).data := by
  have hle : ∀ m ∈ ms, ∀ m' ∈ ms, (w.net.node (node m)).data ≤ (w.net.node (node m')).data := by
    intro m hm m' hm'
    rcases eq_or_ne m m' with rfl | hne
    · exact le_rfl
    · obtain ⟨s, c, ic, hentered, -, hup⟩ := hsettled m hm
      have hsound := hentered.sound hC.admissible (reachable_clusters h).of_restrict
      obtain ⟨hsubr, htaken⟩ := hcaught m hm (s, c)
        (Detection.running?_of_site hentered.site hentered.running)
      obtain ⟨ic', hic', hpeers, -⟩ :=
        peers_of_taken hC h hentered.site hentered.running hentered.state hsubr htaken
      have hmember : m' ∈ ic.members :=
        ((hsound.node.represents.sane ic hentered.state).members m').mpr ((hup m').mpr hm')
      obtain ⟨cnt, hget⟩ := (hpeers.acks m'.id m').mpr ⟨rfl, hmember, hentered.own ▸ hne.symm⟩
      have hinv := inv_of_reachable hC h
      have hcnt := CausalDisperse.count_eq_clock hic' (hinv.indexed _ ic' hic')
        (hinv.counted _ ic' hic') (hquiet m hm) hget
      -- the node of the peer has what this node had at its clock
      obtain ⟨s₀, moves, rfl, hrun⟩ := reachable_net hC h
      obtain ⟨hist, hnet, -⟩ := (Net.Inv.start C.placement C.preference).run hrun
      have hhas := (hnet.acks _ ic' hic' m'.id m' cnt hget).2.le
      rwa [hcnt, ← CausalDisperse.clock_of_state hic', hnet.current,
        owner_of_settled hC h hsettled hm'] at hhas
  exact fun m hm m' hm' => le_antisymm (hle m hm m' hm') (hle m' hm' m hm)

end Runs

/-! ### Two nodes that join and agree -/

section Pair

open Node (seat firstChoices)
open Detection (pairMembers nodeOf)

attribute [local instance] maxNat

/-- Member 1 is at port 10 and member 2 at port 11. -/
def pairPlacement : Placement Bool where
  owner id := id = 2
  socket i := Socket.localhost (if i then 11 else 10)
  socket_injective i j := by revert i j; decide

def pairSetting : Setting Bool where
  H := .byId
  checks := true
  durationPhi _ := .ok 0
  U := {m | m ∈ pairMembers}
  placement := pairPlacement
  preference _ := .default
  subr _ := 0

instance (w : Replicas Bool Nat) : DecidablePred (w.Admitted pairSetting)
  | .cluster mv => inferInstanceAs (Decidable (
      Detection.Admitted {m | m ∈ pairMembers} w.clusters mv ∧
        Detection.Seated pairPlacement.socket w.clusters mv))
  | .take _ | .actor _ => isTrue trivial

/-- The node at port 10 joins the one at port 11, where a mutation comes, and each
acknowledges it to the other. -/
def joinAndAgree : List (Move Bool Nat) :=
  [.cluster (.start false (Socket.localhost 10) 1 [0] { ClusterConfig.default with
      seedNodes := (∅ : Std.ExtTreeSet Socket compare).insert (Socket.localhost 11) } .default,
        firstChoices),
    .cluster (.start true (Socket.localhost 11) 2 [0] .default .default, firstChoices),
    .cluster (.deliver true (Socket.localhost 11) (.ping (seat 10 1)), firstChoices),
    .cluster (.deliver false (Socket.localhost 10) (.state GossipNet.bothUp), firstChoices),
    .take true, .take true, .take false, .actor (.local true (.mutate (7 : Nat))),
    .actor (.deliver false (seat 10 1) (.delta 7 2 1)),
    .actor (.deliver true (seat 11 2) (.ack 1 1)),
    .actor (.deliver true (seat 11 2) (.delta 7 1 1)),
    .actor (.deliver false (seat 10 1) (.ack 2 1))]

theorem pairSetting_sound : pairSetting.Sound := by
  refine ⟨NodeRing.admissible_of_nodup (by decide) (by decide), ?_, ?_⟩
  · have hids : ∀ m ∈ pairMembers, ∀ m' ∈ pairMembers, m.id = m'.id → m = m' := by decide
    exact fun m hm m' hm' => hids m hm m' hm'
  · have hplaced : ∀ m ∈ pairMembers,
        m.socket = pairPlacement.socket (pairPlacement.owner m.id) := by decide
    exact fun m hm => hplaced m hm

theorem reachable_agreed : ∃ w : Replicas Bool Nat, (system pairSetting).Reachable w ∧
    w.clusters.Settled pairMembers 2 nodeOf ∧ w.CaughtUp pairSetting pairMembers nodeOf ∧
    w.Quiet pairMembers nodeOf ∧ (w.net.node true).data = 7 := by
  obtain ⟨w, hw, hsettles, hcaught, hquiet, hdata⟩ :
      ∃ w ∈ System.execWhere (Admitted pairSetting) (next pairSetting)
        (start pairSetting : Replicas Bool Nat) joinAndAgree,
        w.clusters.settles pairMembers 2 nodeOf = true ∧
        (∀ m ∈ pairMembers, ∀ e ∈ w.clusters.running? (nodeOf m),
          0 ∈ e.2.common.subscribers ∧
            w.taken (nodeOf m) = (w.updates pairSetting (nodeOf m)).length) ∧
        (∀ m ∈ pairMembers,
          ((w.net.node (nodeOf m)).dispersing .disperseTimeout).isNone = true) ∧
        (w.net.node true).data = 7 := by decide
  exact ⟨w, System.reachable_of_execWhere joinAndAgree (.of_init rfl) hw,
    Detection.settled_of_settles hsettles, hcaught,
    fun m hm => Option.isNone_iff_eq_none.mp (hquiet m hm), hdata⟩

theorem replication_of_reachable_pair : ∃ w : Replicas Bool Nat,
    (system pairSetting).Reachable w ∧ (w.net.node true).data = 7 ∧
      (Net.system pairPlacement fun _ => .default).Reachable w.net ∧
      ∀ (mv : Move Bool Nat) (i : Bool) (msg : CausalMsg Nat), w.Brings pairSetting mv i msg →
        ((∃ w', w.next pairSetting mv = some w') ↔ (w.net.node i).PriorityKnown msg) := by
  obtain ⟨w, h, -, -, -, hdata⟩ := reachable_agreed
  obtain ⟨hnet, hnext, -⟩ := replication_of_reachable pairSetting_sound h
  exact ⟨w, h, hdata, hnet, hnext⟩

theorem agreement_of_quiet_pair : ∃ w : Replicas Bool Nat, (system pairSetting).Reachable w ∧
    ∀ m ∈ pairMembers, (w.net.node (nodeOf m)).data = 7 := by
  obtain ⟨w, h, hsettled, hcaught, hquiet, hdata⟩ := reachable_agreed
  refine ⟨w, h, fun m hm => ?_⟩
  exact (agreement_of_quiet pairSetting_sound h hsettled hcaught hquiet m hm (seat 11 2)
    (by decide)).trans hdata

end Pair

end Replicas

end AurumActors.Crdt
