/-
  Cluster/Cluster.lean --- the clustering actor of `cluster/cluster.rs`.

  A handler is a function from the state of the actor and a message to the new
  state and what it does outside, in order.  A failed `unwrap` is an error, with
  what was done before it.
  What a handler gets from outside, its random draws and whether subscribers are
  still there, is an oracle.  Spawned receivers and subscribers are numbers.
  Words wrap, as in a release build.  A build that checks panics in
  `node_managers` at a replication factor of `usize::MAX`, and at the first ping
  of a node that is told to send none, for which `Cluster/PingPhase.lean` has both
  builds.
  A send is an output, and never fails: the hosts of members, seeds and requests
  resolve, where `udp_select` panics at one that does not.
  The failure map, the names of destinations and the configuration of the
  heartbeat receivers are left out.
-/
import AurumActors.Cluster.Gossip

set_option autoImplicit false
set_option linter.dupNamespace false

namespace AurumActors.Cluster

open Std
open AurumActors.Core AurumActors.Foundation

/-! ## Configuration, messages and outputs -/

/-- Times are in nanoseconds. -/
structure ClusterConfig where
  gossipTimeout : Nat
  gossipDisperse : Nat
  pingTimeout : Nat
  numPings : UInt64
  hbInterval : Nat
  seedNodes : ExtTreeSet Socket compare
  replicationFactor : UInt64
  vnodes : UInt32

/-- `Default for ClusterConfig` -/
def ClusterConfig.default : ClusterConfig where
  gossipTimeout := 1000000000
  gossipDisperse := 1
  pingTimeout := 300000000
  numPings := 5
  hbInterval := 50000000
  seedNodes := ∅
  replicationFactor := 2
  vnodes := 1

inductive IntraClusterMsg where
  | foo
  | reqHeartbeat (member : Member) (id : UInt64)
  | reqGossip (member : Member)
  | state (gossip : Gossip)
  | ping (member : Member)
  deriving DecidableEq

inductive ClusterMsg where
  | intraMsg (msg : IntraClusterMsg)
  /-- `LocalCmd(Subscribe(..))` -/
  | subscribe (subr : Nat)
  | pingTimeout
  | gossipTimeout
  | downed (member : Member)
  | heartbeatTick
  deriving DecidableEq

/-- What a handler does outside the actor. -/
inductive Output where
  /-- a message to the cluster at a socket -/
  | udp (dest : Socket) (msg : IntraClusterMsg)
  /-- a heartbeat to the receiver for member id `id` at a socket -/
  | heartbeat (dest : Socket) (id : UInt64) (interval : Nat) (changes : UInt32)
  /-- a `HeartbeatReceiver` starts, with its request -/
  | spawn (hbr : Nat) (charge : Member) (req : IntraClusterMsg)
  /-- `ActorSignal::Term` to a receiver -/
  | term (hbr : Nat)
  | notify (subr : Nat) (update : ClusterUpdate)
  | schedulePingTimeout (delay : Nat)
  | scheduleGossipTimeout (delay : Nat)
  | scheduleHeartbeatTick (delay : Nat)
  /-- the scheduled gossip timeout is aborted -/
  | abortGossipTimeout
  deriving DecidableEq

/-- The failures of the handlers, by the `unwrap` that fails. -/
inductive Panic where
  /-- `self.ring.charges(..)` -/
  | charges
  /-- `self.ring.node_managers(..)` -/
  | nodeManagers
  /-- `self.ring.remove(..)`, with the number of removed keys -/
  | ringRemove (removed : Nat)
  /-- `self.members.remove(..)` -/
  | membersRemove
  /-- `self.gossip.states.get_mut(..)` -/
  | statesGet
  deriving DecidableEq

/-- What a handler gets from outside. -/
structure Oracle where
  /-- the ids that `rand::random` draws, in order -/
  id : Nat → UInt64
  /-- what the `n`-th `choose_multiple` picks from a list -/
  choose : Nat → List Member → Nat → List Member
  /-- whether a send to a subscriber succeeds -/
  delivers : Nat → Bool

/-! ## The state of the node -/

structure NodeState where
  member : Member
  subscribers : List Nat
  hbIntervalChanges : UInt32
  clrConfig : ClusterConfig
  /-- how many receivers were spawned -/
  spawned : Nat

namespace NodeState

/-- `NodeState::new_id` -/
def newId (common : NodeState) (id : UInt64) : NodeState :=
  { common with member := { common.member with id } }

/-- `NodeState::heartbeat` -/
def heartbeat (common : NodeState) (member : Member) : Output :=
  .heartbeat member.socket common.member.id common.clrConfig.hbInterval common.hbIntervalChanges

/-- `NodeState::schedule_gossip_timeout` -/
def scheduleGossipTimeout (common : NodeState) : Output :=
  .scheduleGossipTimeout common.clrConfig.gossipTimeout

end NodeState

/-- A handler that fails: its panic, the state of the node then, and what it did
before. -/
structure Failure where
  panic : Panic
  common : NodeState
  out : List Output

/-- A part of a handler, after the given outputs. -/
def doing {α : Type} (out : List Output) : Except Failure α → Except Failure α
  | .ok a => .ok a
  | .error f => .error { f with out := out ++ f.out }

@[simp] theorem doing_ok {α : Type} (out : List Output) (a : α) :
    doing out (.ok a) = .ok a := rfl

/-! ## Inside the cluster -/

abbrev Charges := ExtTreeMap Member Nat compare

structure InCluster where
  charges : Charges
  managers : List Member
  gossip : Gossip
  members : MemberSet
  ring : NodeRing

/-- The variables in the loop of `InCluster::process` over the events of a merge. -/
structure Merging where
  ic : InCluster
  common : NodeState
  newSelfMember : Option ClusterEvent
  /-- how many ids were drawn -/
  drawn : Nat

namespace InCluster

variable (H : RingHash) (o : Oracle)

/-- `InCluster::alone` -/
def alone (common : NodeState) : InCluster where
  charges := ∅
  managers := []
  gossip := ⟨(∅ : States).insert common.member .up⟩
  members := (∅ : MemberSet).insert common.member
  ring := (NodeRing.new common.clrConfig.replicationFactor).insert H common.member

/-- The loop of `update_charges_managers`: the old charges that are left, the new
ones, the number of spawned receivers and the spawns. -/
def takeCharges (own : Member) :
    List Member → Charges → Charges → Nat → Charges × Charges × Nat × List Output
  | [], charges, newCharges, spawned => (charges, newCharges, spawned, [])
  | m :: ms, charges, newCharges, spawned =>
      match charges[m]? with
      | some hbr => takeCharges own ms (charges.erase m) (newCharges.insert m hbr) spawned
      | none =>
          let (old, new, n, out) :=
            takeCharges own ms charges (newCharges.insert m spawned) (spawned + 1)
          (old, new, n, .spawn spawned m (.reqHeartbeat own m.id) :: out)

/-- `InCluster::update_charges_managers` -/
def updateChargesManagers (ic : InCluster) (common : NodeState) :
    Except Failure (InCluster × NodeState × List Output) :=
  match ic.ring.charges H common.member with
  | none => .error ⟨.charges, common, []⟩
  | some members =>
      let (old, charges, spawned, spawns) :=
        takeCharges common.member members ic.charges ∅ common.spawned
      let common := { common with spawned }
      let out := spawns ++ old.toList.map fun e => .term e.2
      match ic.ring.nodeManagers H false common.member with
      | .ok (some managers) => .ok ({ ic with charges, managers }, common, out)
      | _ => .error ⟨.nodeManagers, common, out⟩

/-- `InCluster::gossip_round`, with its `n`-th random choice -/
def gossipRound (n : Nat) (ic : InCluster) (common : NodeState) (guaranteed : List Member) :
    List Output :=
  let guaranteed : MemberSet :=
    (guaranteed ++ ic.managers ++ ic.charges.keys).foldl (fun set m => set.insert m) ∅
  let guaranteed := guaranteed.insert common.member
  let chosen := o.choose n (ic.members.toList.filter fun m => m ∉ guaranteed)
    common.clrConfig.gossipDisperse
  let recipients := (chosen.foldl (fun set m => set.insert m) guaranteed).erase common.member
  recipients.toList.map fun m => .udp m.socket (.state ic.gossip)

/-- `InCluster::gossip_reqs` -/
def gossipReqs (n : Nat) (ic : InCluster) (common : NodeState) : List Output :=
  let recipients := o.choose n (ic.members.toList.filter fun m => m ≠ common.member)
    common.clrConfig.gossipDisperse
  recipients.map fun m => .udp m.socket (.reqGossip common.member)

/-- `InCluster::notify` -/
def notify (ic : InCluster) (common : NodeState) (events : List ClusterEvent) :
    NodeState × List Output :=
  if events.isEmpty then (common, [])
  else
    let update : ClusterUpdate := ⟨events, ic.members, ic.ring⟩
    ({ common with subscribers := common.subscribers.filter o.delivers },
      common.subscribers.map fun s => .notify s update)

/-- One event in the loop of `process`. -/
def applyEvent (s : Merging) : ClusterEvent → Except Failure Merging
  | .added m =>
      .ok { s with ic := { s.ic with
        ring := s.ic.ring.insert H m
        members := s.ic.members.insert m } }
  | .removed m =>
      match s.ic.ring.remove H m with
      | (_, .error removed) => .error ⟨.ringRemove removed, s.common, []⟩
      | (ring, .ok ()) =>
          if m ∈ s.ic.members then
            let members := s.ic.members.erase m
            if m = s.common.member then
              let common := s.common.newId (o.id s.drawn)
              .ok { ic := { s.ic with
                      ring := ring.insert H common.member
                      members := members.insert common.member
                      gossip := ⟨s.ic.gossip.states.insert common.member .up⟩ }
                    common
                    newSelfMember := some (.joined common.member)
                    drawn := s.drawn + 1 }
            else .ok { s with ic := { s.ic with ring, members } }
          else .error ⟨.membersRemove, s.common, []⟩
  | _ => .ok s

/-- The loop of `process` over the events of a merge. -/
def applyEvents (s : Merging) : List ClusterEvent → Except Failure Merging
  | [] => .ok s
  | e :: es => do
      let s ← applyEvent H o s e
      applyEvents s es

/-- `InCluster::process` -/
def process (ic : InCluster) (common : NodeState) :
    IntraClusterMsg → Except Failure (InCluster × NodeState × List Output)
  | .foo => .ok (ic, common, [])
  | .reqGossip member => .ok (ic, common, [.udp member.socket (.state ic.gossip)])
  | .reqHeartbeat member id =>
      if id = common.member.id then .ok (ic, common, [common.heartbeat member])
      else .ok (ic, common, [])
  | .state gossip => do
      let (gossip, events) := ic.gossip.merge gossip
      let s ← doing [.abortGossipTimeout]
        (applyEvents H o ⟨{ ic with gossip }, common, none, 0⟩ events)
      let round := if events.isEmpty then [] else s.ic.gossipRound o 0 s.common []
      let (ic, common, hbrs) ←
        doing (.abortGossipTimeout :: round) (s.ic.updateChargesManagers H s.common)
      let (common, sent) := ic.notify o common (events ++ s.newSelfMember.toList)
      return (ic, common,
        .abortGossipTimeout :: round ++ hbrs ++ sent ++ [common.scheduleGossipTimeout])
  | .ping member =>
      if ic.gossip.states[member]? = none then do
        let ic := { ic with
          gossip := ⟨ic.gossip.states.insert member .up⟩
          ring := ic.ring.insert H member
          members := ic.members.insert member }
        let (ic, common, hbrs) ← ic.updateChargesManagers H common
        let (common, sent) := ic.notify o common [.added member]
        return (ic, common, hbrs ++ sent ++ ic.gossipRound o 0 common [member])
      else .ok (ic, common, ic.gossipRound o 0 common [member])

/-- `InCluster::down` -/
def down (ic : InCluster) (common : NodeState) (member : Member) :
    Except Failure (InCluster × NodeState × List Output) :=
  match ic.gossip.states[member]? with
  | none => .error ⟨.statesGet, common, []⟩
  | some .down => .ok (ic, common, [])
  | some .up =>
      match ic.ring.remove H member with
      | (_, .error removed) => .error ⟨.ringRemove removed, common, []⟩
      | (ring, .ok ()) =>
          if member ∈ ic.members then do
            let ic := { ic with
              gossip := ⟨ic.gossip.states.insert member .down⟩
              ring
              members := ic.members.erase member }
            let (ic, common, hbrs) ← ic.updateChargesManagers H common
            let (common', sent) := ic.notify o common [.removed member]
            return (ic, common', hbrs ++ ic.gossipRound o 0 common [member] ++ sent)
          else .error ⟨.membersRemove, common, []⟩

end InCluster

/-! ## Before the cluster -/

structure Pinging where
  count : UInt64
  deriving DecidableEq

inductive State where
  | inCluster (ic : InCluster)
  | pinging (png : Pinging)
  | left

namespace Pinging

/-- `Pinging::ping` -/
def ping (png : Pinging) (common : NodeState) : Pinging × List Output :=
  (⟨png.count - 1⟩,
    common.clrConfig.seedNodes.toList.map (fun s => .udp s (.ping common.member)) ++
      [.schedulePingTimeout common.clrConfig.pingTimeout])

/-- What `process` does once it has a gossip: the members that are up enter the
ring, and the node joins them. -/
def join (H : RingHash) (o : Oracle) (common : NodeState) (gossip : Gossip)
    (members : List Member) : Except Failure (InCluster × NodeState × List Output) := do
  let ic : InCluster := {
    charges := ∅
    managers := []
    gossip
    members := members.foldl (fun set m => set.insert m) ∅
    ring := members.foldl (fun ring m => ring.insert H m)
      (NodeRing.new common.clrConfig.replicationFactor) }
  let (ic, common, hbrs) ←
    doing [common.scheduleGossipTimeout] (ic.updateChargesManagers H common)
  let (common', sent) := ic.notify o common [.joined common.member]
  return (ic, common',
    common.scheduleGossipTimeout :: hbrs ++ ic.gossipRound o 0 common [] ++ sent)

/-- The node and the gossip it joins: an id that is down in the gossip is replaced,
and the member of the node is up. -/
def enter (o : Oracle) (common : NodeState) (gossip : Gossip) : NodeState × Gossip :=
  let me := gossip.states[common.member]?
  let common := if me = some .down then common.newId (o.id 0) else common
  (common, if me = none ∨ me = some .down then ⟨gossip.states.insert common.member .up⟩
    else gossip)

/-- `Pinging::process` -/
def process (H : RingHash) (o : Oracle) (png : Pinging) (common : NodeState) :
    IntraClusterMsg → Except Failure (State × NodeState × List Output)
  | .reqHeartbeat member id =>
      let req := Output.udp member.socket (.reqGossip common.member)
      if id = common.member.id then
        .ok (.pinging png, common, [common.heartbeat member, req])
      else .ok (.pinging png, common, [req])
  | .state gossip => do
      let (common, gossip) := enter o common gossip
      let up := (gossip.states.toList.filter fun e => e.2 = .up).map (·.1)
      let (ic, common, out) ← join H o common gossip up
      return (.inCluster ic, common, out)
  | .ping member =>
      if member.socket ∉ common.clrConfig.seedNodes then .ok (.pinging png, common, [])
      else do
        let gossip : Gossip := ⟨((∅ : States).insert member .up).insert common.member .up⟩
        let (ic, common, out) ← join H o common gossip gossip.states.keys
        return (.inCluster ic, common, out)
  | _ => .ok (.pinging png, common, [])

end Pinging

/-! ## The actor -/

structure Cluster where
  common : NodeState
  state : State

namespace Cluster

variable (H : RingHash) (o : Oracle)

/-- `Cluster::new`, on a socket and with a drawn id -/
protected def new (socket : Socket) (id : UInt64) (subrs : List Nat) (clrConfig : ClusterConfig) :
    Cluster where
  common := {
    member := ⟨socket, id, clrConfig.vnodes⟩
    subscribers := subrs
    hbIntervalChanges := 0
    clrConfig := { clrConfig with seedNodes := clrConfig.seedNodes.erase socket }
    spawned := 0 }
  state := .left

/-- `Cluster::create_cluster` -/
def createCluster (c : Cluster) : Cluster × List Output :=
  let ic := InCluster.alone H c.common
  let (common, sent) := ic.notify o c.common [.alone c.common.member]
  (⟨common, .inCluster ic⟩, sent)

/-- `Cluster::pre_start` -/
def preStart (c : Cluster) : Cluster × List Output :=
  let tick := Output.scheduleHeartbeatTick c.common.clrConfig.hbInterval
  if c.common.clrConfig.seedNodes.isEmpty then
    let (c, out) := c.createCluster H o
    (c, out ++ [tick])
  else
    let (png, out) := Pinging.ping ⟨c.common.clrConfig.numPings⟩ c.common
    (⟨c.common, .pinging png⟩, out ++ [tick])

/-- `Cluster::recv` -/
def recv (c : Cluster) : ClusterMsg → Except Failure (Cluster × List Output)
  | .intraMsg msg =>
      match c.state with
      | .inCluster ic => do
          let (ic, common, out) ← ic.process H o c.common msg
          return (⟨common, .inCluster ic⟩, out)
      | .pinging png => do
          let (state, common, out) ← png.process H o c.common msg
          return (⟨common, state⟩, out)
      | .left => .ok (c, [])
  | .subscribe subr =>
      let out := match c.state with
        | .inCluster ic =>
            let event := if ic.members.size = 1 then ClusterEvent.alone c.common.member
              else .joined c.common.member
            [.notify subr ⟨[event], ic.members, ic.ring⟩]
        | _ => []
      .ok ({ c with common := { c.common with subscribers := c.common.subscribers ++ [subr] } },
        out)
  | .pingTimeout =>
      match c.state with
      | .pinging png =>
          if png.count ≠ 0 then
            let (png, out) := png.ping c.common
            .ok ({ c with state := .pinging png }, out)
          else .ok (c.createCluster H o)
      | _ => .ok (c, [])
  | .gossipTimeout =>
      match c.state with
      | .inCluster ic =>
          .ok (c, ic.gossipRound o 0 c.common [] ++ ic.gossipReqs o 1 c.common ++
            [c.common.scheduleGossipTimeout])
      | _ => .ok (c, [])
  | .downed member =>
      match c.state with
      | .inCluster ic => do
          let (ic, common, out) ← ic.down H o c.common member
          return (⟨common, .inCluster ic⟩, out)
      | _ => .ok (c, [])
  | .heartbeatTick =>
      let out := match c.state with
        | .inCluster ic => ic.managers.map c.common.heartbeat
        | _ => []
      .ok (c, out ++ [.scheduleHeartbeatTick c.common.clrConfig.hbInterval])

/-- `Cluster::post_stop` -/
def postStop (c : Cluster) : List Output :=
  match c.state with
  | .inCluster ic => ic.charges.toList.map fun e => .term e.2
  | _ => []

end Cluster

end AurumActors.Cluster
