/-
  Devices/Routing.lean --- the device servers over the clustering of the nodes.

  Beside the clustering actor of every node runs a device server.  It takes the
  updates of its subscription one after the other, between any other messages.
  The table of devices that it is sent, and the messages of its senders, are
  arbitrary; a sender is there once it was started.

  Scope disclosure: the clustering is that of `Cluster/Detection.lean`, where sends
  succeed, the registry takes every receiver and no process is started twice.  The
  servers are spawned once and stay registered, and a forward is sent, as the host
  of the manager resolves.
-/
import AurumActors.Cluster.RingHistory
import AurumActors.Cluster.Subscriptions
import AurumActors.Devices.Forwarding
import AurumActors.Devices.Retired

set_option autoImplicit false
set_option linter.dupNamespace false

namespace AurumActors.Devices

open Std
open AurumActors.Core AurumActors.Cluster AurumActors.Foundation

/-! ## The member of a server -/

/-- The member after an update is the one that sent it. -/
theorem lastJoined_of_tells {U : Set Member} {us : List (Member × ClusterUpdate)}
    {u : Member × ClusterUpdate} (h : Tells U us u) :
    (lastJoined u.2).or (us.getLast?.map Prod.fst) = some u.1 := by
  cases hlast : us.getLast? with
  | none =>
      unfold lastJoined
      rcases h.first (List.getLast?_eq_none_iff.mp hlast) with hevents | hevents <;>
        rw [hevents] <;> rfl
  | some v =>
      obtain ⟨-, -, hnarrates⟩ := h.later v hlast
      unfold lastJoined
      generalize u.2.events = events at hnarrates
      generalize u.2.nodes = nodes at hnarrates
      generalize u.1 = own' at hnarrates
      cases hnarrates with
      | stays hmoves hreplay hown =>
          cases hevent : events.getLast? with
          | none => rfl
          | some e =>
              have he := hmoves e (List.mem_of_getLast? hevent)
              cases e with
              | added | removed => rfl
              | alone | joined | left => exact he.elim
      | replaced hmoves hreplay hgone hnew =>
          rw [List.getLast?_concat]
          rfl

namespace DeviceServer

/-- The server knows the cluster as the last of the updates has it. -/
def Caught (us : List (Member × ClusterUpdate)) (s : DeviceServer) : Prop :=
  match us.getLast? with
  | none => ∃ devices, s.state = .waiting ⟨none, none, none, devices⟩
  | some u => s.state = .waiting ⟨some u.2.nodes, some u.1, some u.2.ring, none⟩ ∨
      ∃ ic, s.state = .inCluster ic ∧ ic.member = u.1 ∧ ic.nodes = u.2.nodes ∧
        ic.ring = u.2.ring

variable {hash : Device → UInt64} {delivers : Nat → Bool} {s s' : DeviceServer}
  {out : List Output} {us : List (Member × ClusterUpdate)}

/-- What a server that waits knows after a message that is no update. -/
theorem waiting_of_recv {w : Waiting} (hstate : s.state = .waiting w) {msg : DeviceServerMsg}
    (hmsg : ∀ update, msg ≠ .update update)
    (h : s.recv hash delivers msg = .ok (s', out)) :
    s'.state = .waiting w ∨ ∃ devices, s'.state = { w with devices := some devices }.toIc := by
  cases msg with
  | setHeartbeatInterval device interval =>
      simp only [recv, hstate] at h
      cases h
      exact .inl hstate
  | update update => exact absurd rfl (hmsg update)
  | deviceData devices =>
      simp only [recv, hstate] at h
      refine .inr ⟨devices, ?_⟩
      unfold published at h
      split at h
      · next hic =>
          cases h
          exact hic.symm
      · next hw =>
          cases h
          exact hw.symm
  | subscribe subr =>
      cases h
      exact .inl hstate
  | amISender device | downedDevice device =>
      simp only [recv, hstate] at h
      cases h

/-- A server inside the cluster knows it as before after a message that is no
update. -/
theorem inCluster_of_handled {ic : InCluster} (hstate : s.state = .inCluster ic)
    {msg : DeviceServerMsg} (hmsg : ∀ update, msg ≠ .update update)
    (h : Handled hash delivers s msg s' out) :
    ∃ ic', s'.state = .inCluster ic' ∧ ic'.member = ic.member ∧ ic'.nodes = ic.nodes ∧
      ic'.ring = ic.ring := by
  cases h with
  | waits w' hwaiting | enters member nodes ring devices hwaiting =>
      rw [hstate] at hwaiting
      cases hwaiting
  | spawns interval ic' hstate' hnone hmanager hic' | removes ic' hstate' hdrops hsender hic' =>
      cases hstate.symm.trans hstate'
      subst hic'
      exact ⟨_, rfl, rfl, rfl, rfl⟩
  | updates update member hstate' => exact absurd rfl (hmsg update)
  | data devices hstate' =>
      cases hstate.symm.trans hstate'
      exact ⟨_, rfl, rfl, rfl, rfl⟩
  | told | forwards | keeps | absent | subscribes => exact ⟨ic, hstate, rfl, rfl, rfl⟩

/-- No message but an update changes what the server knows of the cluster. -/
theorem Caught.handled (hcaught : s.Caught us) {msg : DeviceServerMsg}
    (hmsg : ∀ update, msg ≠ .update update)
    (h : s.recv hash delivers msg = .ok (s', out)) : s'.Caught us := by
  unfold Caught at hcaught ⊢
  cases hlast : us.getLast? with
  | none =>
      rw [hlast] at hcaught
      obtain ⟨devices, hstate⟩ := hcaught
      rcases waiting_of_recv hstate hmsg h with hstate' | ⟨devices', hstate'⟩
      · exact ⟨devices, hstate'⟩
      · exact ⟨some devices', hstate'⟩
  | some u =>
      rw [hlast] at hcaught
      rcases hcaught with hstate | ⟨ic, hstate, hmember, hnodes, hring⟩
      · rcases waiting_of_recv hstate hmsg h with hstate' | ⟨devices, hstate'⟩
        · exact .inl hstate'
        · exact .inr ⟨_, hstate', rfl, rfl, rfl⟩
      · obtain ⟨ic', hstate', hmember', hnodes', hring'⟩ :=
          inCluster_of_handled hstate hmsg (handled_of_recv h)
        exact .inr ⟨ic', hstate', hmember'.trans hmember, hnodes'.trans hnodes,
          hring'.trans hring⟩

/-- An update is what the server knows next. -/
theorem Caught.updated (hcaught : s.Caught us) {U : Set Member} {u : Member × ClusterUpdate}
    (htells : Tells U us u) (h : s.recv hash delivers (.update u.2) = .ok (s', out)) :
    s'.Caught (us ++ [u]) := by
  have hmember := lastJoined_of_tells htells
  have hwaits : ∀ {w : Waiting}, s.state = .waiting w →
      w.member = us.getLast?.map Prod.fst → s'.Caught (us ++ [u]) := by
    intro w hstate hw
    unfold Caught
    rw [List.getLast?_concat]
    simp only [recv, hstate, hw, hmember] at h
    cases hdevices : w.devices with
    | none =>
        simp only [hdevices, Waiting.toIc, published] at h
        cases h
        exact .inl rfl
    | some devices =>
        simp only [hdevices, Waiting.toIc, published] at h
        cases h
        exact .inr ⟨_, rfl, rfl, rfl, rfl⟩
  unfold Caught at hcaught
  cases hlast : us.getLast? with
  | none =>
      rw [hlast] at hcaught
      obtain ⟨devices, hstate⟩ := hcaught
      exact hwaits hstate (by rw [hlast]; rfl)
  | some v =>
      rw [hlast] at hcaught hmember
      rcases hcaught with hstate | ⟨ic, hstate, hv, -, -⟩
      · exact hwaits hstate (by rw [hlast]; rfl)
      · unfold Caught
        rw [List.getLast?_concat]
        simp only [recv, hstate] at h
        cases h
        refine .inr ⟨_, rfl, ?_, rfl, rfl⟩
        cases hjoined : lastJoined u.2 with
        | none =>
            rw [hjoined] at hmember
            exact hv.trans (Option.some.inj hmember)
        | some m =>
            rw [hjoined] at hmember
            exact Option.some.inj hmember

/-! ## The senders of a server -/

/-- A server that waits has started no sender. -/
def Fresh (s : DeviceServer) : Prop :=
  ∀ w, s.state = .waiting w → s.common.spawned = 0

theorem Fresh.handled {msg : DeviceServerMsg} (hfresh : s.Fresh)
    (h : Handled hash delivers s msg s' out) : s'.Fresh := by
  intro w hw
  cases h with
  | waits w' hstate => exact hfresh _ hstate
  | subscribes subr out hwaiting hinside => exact hfresh w hw
  | told _ hstate | forwards _ _ _ hstate | keeps _ hstate | absent hstate =>
      rw [hstate] at hw
      cases hw
  | enters | spawns | updates | data | removes => cases hw

/-- A server that is not the manager of a device starts no sender for it. -/
theorem senderOf_of_handled {msg : DeviceServerMsg} (h : Handled hash delivers s msg s' out)
    {ic : InCluster} (hstate : s.state = .inCluster ic) {device : Device}
    (hmanager : (ic.ring.managers (hash device) 1).head? ≠ some ic.member)
    (hnone : s.senderOf device = none) : s'.senderOf device = none := by
  cases h with
  | waits w' hwaiting | enters member nodes ring devices hwaiting =>
      cases hstate.symm.trans hwaiting
  | told | forwards | keeps | absent => exact hnone
  | spawns interval ic' hstate' hnone' hmanager' hic' =>
      cases hstate.symm.trans hstate'
      subst hic'
      rw [senderOf_insert hstate rfl]
      split
      · next heq => exact absurd hmanager' (heq ▸ hmanager)
      · exact hnone
  | updates update member hstate' | data devices hstate' =>
      rwa [senderOf_of_inCluster hstate'] at hnone
  | subscribes => exact hnone
  | removes ic' hstate' hdrops hsender hic' =>
      subst hic'
      rw [senderOf_erase hstate' rfl]
      split
      · rfl
      · exact hnone

/-- A server that is asked for a device and is not its manager has no sender for it
any more. -/
theorem senderOf_of_asked {ic : InCluster} (hstate : s.state = .inCluster ic) {device : Device}
    (hmanages : ic.isManager hash device = false)
    (h : s.recv hash delivers (.amISender device) = .ok (s', out)) :
    s'.senderOf device = none := by
  simp only [recv, hstate, hmanages] at h
  cases h
  unfold InCluster.removeDevice
  cases hsender : ic.reqSenders[device]? with
  | none => exact hsender
  | some sender =>
      exact (senderOf_erase hstate rfl _ device).trans (if_pos rfl)

/-- The server is inside the cluster, and another member has the device. -/
def Bystander (hash : Device → UInt64) (device : Device) (s : DeviceServer) : Prop :=
  ∃ ic manager, s.state = .inCluster ic ∧
    (ic.ring.managers (hash device) 1).head? = some manager ∧ manager.id ≠ ic.member.id

theorem isManager_of_head? {ic : InCluster} {device : Device} {manager : Member}
    (h : (ic.ring.managers (hash device) 1).head? = some manager) :
    ic.isManager hash device = decide (manager.id = ic.member.id) := by
  have hlength : (ic.ring.managers (hash device) 1).length ≤ 1 := List.length_take_le 1 _
  unfold InCluster.isManager
  generalize ic.ring.managers (hash device) 1 = managers at h hlength
  cases managers with
  | nil => cases h
  | cons m rest =>
      cases h
      rw [List.length_cons, Nat.succ_le_succ_iff, Nat.le_zero, List.length_eq_zero_iff] at hlength
      rw [hlength, List.any_cons, List.any_nil, Bool.or_false]

/-- It starts no sender for the device, and drops the one it has when it is asked. -/
theorem Bystander.handled {device : Device} (hby : s.Bystander hash device)
    {msg : DeviceServerMsg} (hmsg : ∀ update, msg ≠ .update update)
    (h : s.recv hash delivers msg = .ok (s', out)) :
    s'.Bystander hash device ∧
      (s.senderOf device = none ∨ msg = .amISender device → s'.senderOf device = none) := by
  obtain ⟨ic, manager, hstate, hmanager, hid⟩ := hby
  have hhandled := handled_of_recv h
  obtain ⟨ic', hstate', hmember, -, hring⟩ := inCluster_of_handled hstate hmsg hhandled
  refine ⟨⟨ic', manager, hstate', ?_, ?_⟩, ?_⟩
  · rwa [hring]
  · rwa [hmember]
  · rintro (hnone | rfl)
    · refine senderOf_of_handled hhandled hstate ?_ hnone
      rw [hmanager]
      rintro ⟨⟩
      exact hid rfl
    · refine senderOf_of_asked hstate ?_ h
      rw [isManager_of_head? hmanager]
      exact decide_eq_false hid

end DeviceServer

/-! ## The network -/

/-- The clustering of the nodes, their device servers, and how many updates each
of them has taken. -/
structure Servers (ι : Type) where
  clusters : Detection ι
  server : ι → DeviceServer
  taken : ι → Nat

namespace Servers

inductive Move (ι : Type) where
  | cluster (mv : Detection.Move ι × Oracle)
  /-- a server takes the next update -/
  | take (i : ι) (delivers : Nat → Bool)
  /-- a server gets another message -/
  | message (i : ι) (msg : DeviceServerMsg) (delivers : Nat → Bool)

/-- The clustering and its members, where the nodes are, the hash of devices, and
the subscription of every server. -/
structure Setting (ι : Type) where
  H : RingHash
  checks : Bool
  durationPhi : IntervalStorage → Except Trap Nat
  U : Set Member
  place : ι → Socket
  hash : Device → UInt64
  subr : ι → Nat

variable {ι : Type}

/-- The updates of the server of a node. -/
def updates (C : Setting ι) (w : Servers ι) (i : ι) : List (Member × ClusterUpdate) :=
  w.clusters.updates i (C.subr i)

/-- The message is an update. -/
def isUpdate : DeviceServerMsg → Bool
  | .update _ => true
  | _ => false

section Moves

variable [DecidableEq ι]

/-- A server handles a message, if that succeeds. -/
def handle (C : Setting ι) (w : Servers ι) (i : ι) (msg : DeviceServerMsg)
    (delivers : Nat → Bool) : Option (Servers ι) :=
  match (w.server i).recv C.hash delivers msg with
  | .ok (s, _) => some { w with server := Function.update w.server i s }
  | .error _ => none

def next (C : Setting ι) (w : Servers ι) : Move ι → Option (Servers ι)
  | .cluster mv =>
      (w.clusters.next C.H C.checks C.durationPhi mv).map fun clusters => { w with clusters }
  | .take i delivers => do
      let u ← (w.updates C i)[w.taken i]?
      let w' ← w.handle C i (.update u.2) delivers
      return { w' with taken := Function.update w.taken i (w.taken i + 1) }
  | .message i msg delivers => if isUpdate msg then none else w.handle C i msg delivers

/-- The clustering keeps to its universe, and starts every node at its place.  A
sender sends once it was started. -/
def Admitted (C : Setting ι) (w : Servers ι) : Move ι → Prop
  | .cluster mv => Detection.Admitted C.U w.clusters mv ∧
      Detection.Seated C.place w.clusters mv
  | .take .. => True
  | .message i msg _ => msg.isReport = true → 0 < (w.server i).common.spawned

/-- Every server has the subscribers it was started with. -/
def start (subscribers : ι → List Nat) : Servers ι :=
  ⟨Detection.empty, fun i => .new (subscribers i), fun _ => 0⟩

def system (C : Setting ι) (subscribers : ι → List Nat) : System (Servers ι) (Move ι) :=
  (System.ofNext (start subscribers) (next C)).restrict (Admitted C)

end Moves

section Runs

variable [DecidableEq ι] {C : Setting ι} {subscribers : ι → List Nat} {w w' : Servers ι}

/-- What a move can do. -/
inductive Moved (C : Setting ι) (w : Servers ι) : Move ι → Servers ι → Prop
  | cluster {mv : Detection.Move ι × Oracle} {clusters : Detection ι}
      (h : w.clusters.next C.H C.checks C.durationPhi mv = some clusters) :
      Moved C w (.cluster mv) { w with clusters }
  | take {i : ι} {delivers : Nat → Bool} {u : Member × ClusterUpdate} {s : DeviceServer}
      {out : List Output} (hu : (w.updates C i)[w.taken i]? = some u)
      (hrecv : (w.server i).recv C.hash delivers (.update u.2) = .ok (s, out)) :
      Moved C w (.take i delivers) { w with
        server := Function.update w.server i s
        taken := Function.update w.taken i (w.taken i + 1) }
  | message {i : ι} {msg : DeviceServerMsg} {delivers : Nat → Bool} {s : DeviceServer}
      {out : List Output} (hmsg : ∀ update, msg ≠ .update update)
      (hrecv : (w.server i).recv C.hash delivers msg = .ok (s, out)) :
      Moved C w (.message i msg delivers) { w with server := Function.update w.server i s }

theorem recv_of_handle {i : ι} {msg : DeviceServerMsg} {delivers : Nat → Bool}
    (h : w.handle C i msg delivers = some w') :
    ∃ s out, (w.server i).recv C.hash delivers msg = .ok (s, out) ∧
      w' = { w with server := Function.update w.server i s } := by
  unfold handle at h
  split at h
  · next s out hrecv =>
      cases h
      exact ⟨s, out, hrecv, rfl⟩
  · cases h

theorem moved_of_next {mv : Move ι} (h : w.next C mv = some w') : w.Moved C mv w' := by
  cases mv with
  | cluster mv =>
      obtain ⟨clusters, hnext, rfl⟩ := Option.map_eq_some_iff.mp h
      exact .cluster hnext
  | take i delivers =>
      obtain ⟨u, hu, h⟩ := Option.bind_eq_some_iff.mp h
      obtain ⟨w₁, hhandle, h⟩ := Option.bind_eq_some_iff.mp h
      cases h
      obtain ⟨s, out, hrecv, rfl⟩ := recv_of_handle hhandle
      exact .take hu hrecv
  | message i msg delivers =>
      simp only [next] at h
      split at h
      · cases h
      · next hmsg =>
          obtain ⟨s, out, hrecv, rfl⟩ := recv_of_handle h
          refine .message (fun update heq => hmsg ?_) hrecv
          rw [heq]
          rfl

/-- The clustering runs by itself. -/
theorem reachable_clusters (h : (system C subscribers).Reachable w) :
    ((Detection.system C.H C.checks C.durationPhi C.U).restrict
      (Detection.Seated C.place)).Reachable w.clusters := by
  refine h.project Servers.clusters (fun w hw => ?_) fun w mv w' _ hst => ?_
  · rw [show w = start subscribers from hw]
    rfl
  · obtain ⟨hnext, hadmitted⟩ := hst
    cases moved_of_next hnext with
    | cluster h => exact .inr ⟨_, ⟨h, hadmitted.1⟩, hadmitted.2⟩
    | take | message => exact .inl rfl

/-- Every server knows the cluster as the updates it has taken say, and starts no
sender before. -/
structure Inv (C : Setting ι) (w : Servers ι) : Prop where
  caught : ∀ i, (w.server i).Caught ((w.updates C i).take (w.taken i))
  taken_le : ∀ i, w.taken i ≤ (w.updates C i).length
  fresh : ∀ i, (w.server i).Fresh

theorem inv_of_reachable (hadm : NodeRing.Admissible C.H C.U)
    (h : (system C subscribers).Reachable w) : Inv C w := by
  refine h.invariant (I := Inv C) (fun w hw => ?_) fun w mv w' hreach hinv hst => ?_
  · rw [show w = start subscribers from hw]
    exact ⟨fun i => ⟨none, rfl⟩, fun i => Nat.zero_le _, fun _ _ _ => rfl⟩
  · have hserver : ∀ {i : ι} {s : DeviceServer} {Q : ι → DeviceServer → Prop}, Q i s →
        (∀ j, j ≠ i → Q j (w.server j)) → ∀ j, Q j (Function.update w.server i s j) :=
      fun hi hrest => (Function.forall_update_iff ..).mpr ⟨hi, hrest⟩
    cases moved_of_next hst.1 with
    | @cluster mv clusters h =>
        have hgrows := fun i => Detection.take_updates_of_next h (hinv.taken_le i)
        refine ⟨fun i => ?_, fun i => (hgrows i).2, hinv.fresh⟩
        exact (hgrows i).1.symm ▸ hinv.caught i
    | @take i delivers u s out hu hrecv =>
        refine ⟨?_, fun j => ?_, ?_⟩
        · refine hserver (Q := fun j s => s.Caught ((w.updates C j).take
            (Function.update w.taken i (w.taken i + 1) j))) ?_ fun j hj => ?_
          · rw [Function.update_self, List.take_add_one, hu]
            exact (hinv.caught i).updated
              (Detection.tells_of_reachable hadm (reachable_clusters hreach) hu).1 hrecv
          · rw [Function.update_of_ne hj]
            exact hinv.caught j
        · rcases eq_or_ne j i with rfl | hj
          · simp only [Function.update_self]
            exact (List.getElem?_eq_some_iff.mp hu).1
          · simp only [Function.update_of_ne hj]
            exact hinv.taken_le j
        · exact hserver (Q := fun _ s => s.Fresh)
            ((hinv.fresh i).handled (DeviceServer.handled_of_recv hrecv)) fun j _ => hinv.fresh j
    | @message i msg delivers s out hmsg hrecv =>
        refine ⟨?_, hinv.taken_le, ?_⟩
        · exact hserver (Q := fun j s => s.Caught ((w.updates C j).take (w.taken j)))
            ((hinv.caught i).handled hmsg hrecv) fun j _ => hinv.caught j
        · exact hserver (Q := fun _ s => s.Fresh)
            ((hinv.fresh i).handled (DeviceServer.handled_of_recv hrecv)) fun j _ => hinv.fresh j

/-- The servers of the members are subscribed and inside the cluster, and have
taken all updates. -/
def CaughtUp (C : Setting ι) (w : Servers ι) (ms : List Member) (node : Member → ι) : Prop :=
  ∀ m ∈ ms, (∃ ic, (w.server (node m)).state = .inCluster ic) ∧
    ∀ e ∈ w.clusters.running? (node m), C.subr (node m) ∈ e.2.common.subscribers ∧
      w.taken (node m) = (w.updates C (node m)).length

/-- The server of a member knows the settled cluster. -/
theorem CaughtUp.server (hadm : NodeRing.Admissible C.H C.U)
    (h : (system C subscribers).Reachable w) {ms : List Member} {rep : UInt64} {node : Member → ι}
    (hsettled : w.clusters.Settled ms rep node) (hcaught : w.CaughtUp C ms node) {m : Member}
    (hm : m ∈ ms) :
    ∃ ic, (w.server (node m)).state = .inCluster ic ∧ ic.member = m ∧
      m.socket = C.place (node m) ∧ ic.ring.repFactor = rep ∧
      NodeRing.Holds C.H ic.ring {x | x ∈ ms} := by
  have hclusters := reachable_clusters h
  obtain ⟨s, c, ic, hentered, hrep, hup⟩ := hsettled m hm
  have hsound := hentered.sound hadm hclusters.of_restrict
  obtain ⟨⟨ic', hstate⟩, hall⟩ := hcaught m hm
  obtain ⟨hsubr, htaken⟩ := hall (s, c)
    (Detection.running?_of_site hentered.site hentered.running)
  obtain ⟨u, hu, hmember, hnodes⟩ := hentered.last_update hadm hclusters hsubr
  have hlast : (w.updates C (node m)).getLast? = some u := hu
  have hknows := (inv_of_reachable hadm h).caught (node m)
  unfold DeviceServer.Caught at hknows
  rw [htaken, List.take_length, hlast] at hknows
  have hmembers : {x | x ∈ u.2.nodes} = {x | x ∈ ms} := by
    ext x
    rw [hnodes]
    exact ((hsound.node.represents.sane ic hentered.state).members x).trans (hup x)
  obtain ⟨hfactor, hholds⟩ := Detection.rings_of_reachable hadm hclusters hentered.site
    hentered.running _ u (List.mem_of_getLast? hu)
  rcases hknows with hwaiting | ⟨ic₁, hic₁, hown, -, hring⟩
  · cases hstate.symm.trans hwaiting
  · refine ⟨ic₁, hic₁, hown.trans hmember, hentered.seated hadm hclusters, ?_, ?_⟩
    · exact (congrArg NodeRing.repFactor hring).trans (hfactor.trans hrep)
    · rw [hring, ← hmembers]
      exact hholds

/-- The members have a ring. -/
theorem CaughtUp.exists_ring (hadm : NodeRing.Admissible C.H C.U)
    (h : (system C subscribers).Reachable w) {ms : List Member} {rep : UInt64} {node : Member → ι}
    (hsettled : w.clusters.Settled ms rep node) (hcaught : w.CaughtUp C ms node) :
    ∃ ring : NodeRing, ring.repFactor = rep ∧ NodeRing.Holds C.H ring {x | x ∈ ms} := by
  cases ms with
  | nil =>
      refine ⟨NodeRing.new rep, rfl, ?_⟩
      rw [show {x : Member | x ∈ []} = ∅ from Set.eq_empty_of_forall_notMem (by simp)]
      exact NodeRing.holds_new rep
  | cons m ms =>
      obtain ⟨ic, -, -, -, hrep, hholds⟩ := hcaught.server hadm h hsettled (List.mem_cons_self ..)
      exact ⟨ic.ring, hrep, hholds⟩

/-- In a settled network, where ring keys differ (`Admissible`) and the servers have
taken all updates, every device has a manager by the ring of the members.  The
server of the manager takes the intervals of the device; any other still has a
sender for the device and takes them, or has none and forwards them to that one. -/
theorem routed_of_settled (hadm : NodeRing.Admissible C.H C.U)
    (h : (system C subscribers).Reachable w) {ms : List Member} {rep : UInt64} {node : Member → ι}
    (hsettled : w.clusters.Settled ms rep node) (hcaught : w.CaughtUp C ms node) :
    ∃ ring : NodeRing, ring.repFactor = rep ∧ NodeRing.Holds C.H ring {x | x ∈ ms} ∧
      ∀ device, ∀ m ∈ ms, ∃ manager ∈ ms,
        (ring.managers (C.hash device) 1).head? = some manager ∧
        (w.server (node manager)).Takes C.hash device ∧
        (m = manager ∨
          (w.server (node m)).senderOf device ≠ none ∧ (w.server (node m)).Takes C.hash device ∨
          (w.server (node m)).senderOf device = none ∧ node m ≠ node manager ∧
            (w.server (node m)).Forwards C.hash device (C.place (node manager))) := by
  obtain ⟨ring, hrep, hholds⟩ := hcaught.exists_ring hadm h hsettled
  refine ⟨ring, hrep, hholds, fun device m hm => ?_⟩
  have hserver : ∀ x ∈ ms, ∃ ic, (w.server (node x)).state = .inCluster ic ∧ ic.member = x ∧
      x.socket = C.place (node x) ∧ ic.ring = ring := by
    intro x hx
    obtain ⟨ic, hic, hown, hsocket, hrep', hholds'⟩ := hcaught.server hadm h hsettled hx
    exact ⟨ic, hic, hown, hsocket, NodeRing.eq_of_holds hholds' hholds (hrep'.trans hrep.symm)⟩
  -- the manager
  obtain ⟨manager, hmem, hmanager⟩ := NodeRing.manager_of_holds hholds hm (C.hash device)
  obtain ⟨ic, hic, hown, hsocket, rfl⟩ := hserver manager hmem
  refine ⟨manager, hmem, hmanager,
    DeviceServer.takes_of_responsible hic hmanager (.inr hown.symm), ?_⟩
  -- the server the interval reached
  obtain ⟨ic', hic', hown', -, hring'⟩ := hserver m hm
  rw [← hring'] at hmanager
  rw [DeviceServer.senderOf_of_inCluster hic']
  rcases DeviceServer.takes_or_forwards hic' hmanager with
    ⟨hsome | hsame, htakes⟩ | ⟨hnone, hother, hforwards⟩
  · exact .inr (.inl ⟨Option.isSome_iff_ne_none.mp hsome, htakes⟩)
  · exact .inl (hown'.symm.trans hsame.symm)
  · refine .inr (.inr ⟨hnone, fun hnode => hother ?_, hsocket ▸ hforwards⟩)
    rw [hnode, hic] at hic'
    cases hic'
    exact hown.symm

/-! ## Servers that send the same device -/

/-- The member is the manager of the device by the ring of the members. -/
def Manages (C : Setting ι) (ms : List Member) (rep : UInt64) (device : Device)
    (manager : Member) : Prop :=
  ∃ ring : NodeRing, ring.repFactor = rep ∧ NodeRing.Holds C.H ring {x | x ∈ ms} ∧
    (ring.managers (C.hash device) 1).head? = some manager

/-- The server of a node is asked whether it still sends the device. -/
def Asks (i : ι) (device : Device) (mv : Move ι) : Prop :=
  ∃ delivers, mv = .message i (.amISender device) delivers

/-- The server takes no update. -/
def Quiet (mv : Move ι) : Prop := ∀ i delivers, mv ≠ .take i delivers

/-- While no update is taken, a server that is not the manager stays so. -/
theorem Moved.bystander {mv : Move ι} (h : w.Moved C mv w') (hquiet : Quiet mv) {i : ι}
    {device : Device} (hby : (w.server i).Bystander C.hash device) :
    (w'.server i).Bystander C.hash device ∧ ((w.server i).senderOf device = none ∨
      Asks i device mv → (w'.server i).senderOf device = none) := by
  cases h with
  | cluster h =>
      refine ⟨hby, ?_⟩
      rintro (hnone | ⟨delivers, hasks⟩)
      · exact hnone
      · cases hasks
  | take hu hrecv => exact absurd rfl (hquiet _ _)
  | @message j msg delivers s out hmsg hrecv =>
      rcases eq_or_ne i j with rfl | hij
      · obtain ⟨hby', hsender⟩ := hby.handled hmsg hrecv
        simp only [Function.update_self]
        refine ⟨hby', ?_⟩
        rintro (hnone | ⟨delivers', hasks⟩)
        · exact hsender (.inl hnone)
        · cases hasks
          exact hsender (.inr rfl)
      · simp only [Function.update_of_ne hij]
        refine ⟨hby, ?_⟩
        rintro (hnone | ⟨delivers', hasks⟩)
        · exact hnone
        · cases hasks
          exact absurd rfl hij

/-- In a run it has no sender in the end if it had none or was asked. -/
theorem bystander_of_run {moves : List (Move ι)} (hrun : (system C subscribers).Run w moves w')
    (hquiet : ∀ mv ∈ moves, Quiet mv) {i : ι} {device : Device}
    (hby : (w.server i).Bystander C.hash device) :
    (w'.server i).Bystander C.hash device ∧ ((w.server i).senderOf device = none ∨
      (∃ mv ∈ moves, Asks i device mv) → (w'.server i).senderOf device = none) := by
  induction hrun with
  | nil =>
      refine ⟨hby, ?_⟩
      rintro (hnone | ⟨mv, hmv, -⟩)
      · exact hnone
      · cases hmv
  | @snoc moves mv w₁ w₂ hrun hst ih =>
      obtain ⟨hby₁, hsender₁⟩ := ih fun mv hmv => hquiet mv (List.mem_append_left _ hmv)
      obtain ⟨hby₂, hsender₂⟩ := (moved_of_next hst.1).bystander
        (hquiet mv (List.mem_append_right _ (List.mem_singleton_self mv))) hby₁
      refine ⟨hby₂, ?_⟩
      rintro (hnone | ⟨mv', hmv', hasks⟩)
      · exact hsender₂ (.inl (hsender₁ (.inl hnone)))
      · rcases List.mem_append.mp hmv' with hmv' | hmv'
        · exact hsender₂ (.inl (hsender₁ (.inr ⟨mv', hmv', hasks⟩)))
        · cases List.mem_singleton.mp hmv'
          exact hsender₂ (.inr hasks)

/-- When in a settled network every server that sends a device, but its manager's,
has been asked whether it still sends it, no other server than the manager's sends
it, as long as no update is taken. -/
theorem sole_sender_of_asked (hadm : NodeRing.Admissible C.H C.U)
    (h : (system C subscribers).Reachable w) {ms : List Member} {rep : UInt64} {node : Member → ι}
    (hsettled : w.clusters.Settled ms rep node) (hcaught : w.CaughtUp C ms node)
    (hids : Set.InjOn Member.id {x | x ∈ ms}) {device : Device} {manager : Member}
    (hmanages : Manages C ms rep device manager) {moves : List (Move ι)}
    (hrun : (system C subscribers).Run w moves w') (hquiet : ∀ mv ∈ moves, Quiet mv)
    (hasked : ∀ m ∈ ms, m ≠ manager → (w.server (node m)).senderOf device = none ∨
      ∃ mv ∈ moves, Asks (node m) device mv) :
    ∀ m ∈ ms, m ≠ manager → (w'.server (node m)).senderOf device = none := by
  intro m hm hne
  obtain ⟨ring, hrep, hholds, hmanager⟩ := hmanages
  obtain ⟨ic, hic, hown, -, hrep', hholds'⟩ := hcaught.server hadm h hsettled hm
  obtain rfl : ic.ring = ring := NodeRing.eq_of_holds hholds' hholds (hrep'.trans hrep.symm)
  obtain ⟨manager', hmem, hmanager'⟩ := NodeRing.manager_of_holds hholds hm (C.hash device)
  cases hmanager.symm.trans hmanager'
  have hby : (w.server (node m)).Bystander C.hash device := by
    refine ⟨ic, manager, hic, hmanager, fun hid => hne ?_⟩
    rw [hown] at hid
    exact (hids hmem hm hid).symm
  exact (bystander_of_run hrun hquiet hby).2 (hasked m hm hne)

end Runs

/-! ### Two servers -/

section Pair

open Node (seat firstChoices)
open Detection (pairMembers nodeOf)
open DeviceServer (client)

/-- Member 1 is at port 10 and member 2 at port 11. -/
def pairSetting : Setting Bool where
  H := .byId
  checks := true
  durationPhi _ := .ok 0
  U := {m | m ∈ pairMembers}
  place i := Socket.localhost (if i then 11 else 10)
  hash _ := 0
  subr _ := 0

instance (w : Servers Bool) : DecidablePred (w.Admitted pairSetting)
  | .cluster mv => inferInstanceAs (Decidable (
      Detection.Admitted {m | m ∈ pairMembers} w.clusters mv ∧
        Detection.Seated pairSetting.place w.clusters mv))
  | .take .. => isTrue trivial
  | .message i msg _ => inferInstanceAs (Decidable (
      msg.isReport = true → 0 < (w.server i).common.spawned))

/-- The node at port 10 joins the one at port 11.  Their servers get the table, and
an interval of a client each: the one at port 11 while it is alone. -/
def joinAndServe : List (Move Bool) :=
  [.cluster (.start false (Socket.localhost 10) 1 [0] { ClusterConfig.default with
      seedNodes := (∅ : ExtTreeSet Socket compare).insert (Socket.localhost 11) } .default,
        firstChoices),
    .cluster (.start true (Socket.localhost 11) 2 [0] .default .default, firstChoices),
    .cluster (.deliver true (Socket.localhost 11) (.ping (seat 10 1)), firstChoices),
    .cluster (.deliver false (Socket.localhost 10) (.state GossipNet.bothUp), firstChoices),
    .take true fun _ => true, .message true (.deviceData .minimum) fun _ => true,
    .message true (.setHeartbeatInterval (client 20) ⟨1, 100⟩) fun _ => true,
    .take true fun _ => true, .message false (.deviceData .minimum) fun _ => true,
    .take false fun _ => true,
    .message false (.setHeartbeatInterval (client 20) ⟨1, 100⟩) fun _ => true]

/-- The server is inside the cluster, computed. -/
def isInside (s : DeviceServer) : Bool :=
  match s.state with
  | .inCluster _ => true
  | .waiting _ => false

/-- The server at port 11 is asked whether it still sends. -/
def ask : Move Bool := .message true (.amISender (client 20)) fun _ => true

theorem admissible_pairSetting : NodeRing.Admissible pairSetting.H pairSetting.U :=
  NodeRing.admissible_of_nodup (by decide) (by decide)

theorem reachable_served : ∃ w : Servers Bool, (system pairSetting fun _ => []).Reachable w ∧
    w.clusters.Settled pairMembers 2 nodeOf ∧ w.CaughtUp pairSetting pairMembers nodeOf ∧
    (∀ i, (w.server i).common.spawned = 1) ∧
    (∀ i, (w.server i).senderOf (client 20) = some 0) ∧
    ∃ w', w.next pairSetting ask = some w' := by
  obtain ⟨w, hw, hsettles, hcaught, hspawned, hsender, hnext⟩ :
      ∃ w ∈ System.execWhere (Admitted pairSetting) (next pairSetting)
        (start fun _ => [] : Servers Bool) joinAndServe,
        w.clusters.settles pairMembers 2 nodeOf = true ∧
        (∀ m ∈ pairMembers, isInside (w.server (nodeOf m)) = true ∧
          ∀ e ∈ w.clusters.running? (nodeOf m), 0 ∈ e.2.common.subscribers ∧
            w.taken (nodeOf m) = (w.updates pairSetting (nodeOf m)).length) ∧
        (∀ i, (w.server i).common.spawned = 1) ∧
        (∀ i, (w.server i).senderOf (client 20) = some 0) ∧
        (w.next pairSetting ask).isSome = true := by decide
  refine ⟨w, System.reachable_of_execWhere joinAndServe (.of_init rfl) hw,
    Detection.settled_of_settles hsettles, fun m hm => ⟨?_, (hcaught m hm).2⟩, hspawned, hsender,
    Option.isSome_iff_exists.mp hnext⟩
  have hinside := (hcaught m hm).1
  unfold isInside at hinside
  cases hstate : (w.server (nodeOf m)).state with
  | waiting wt =>
      rw [hstate] at hinside
      cases hinside
  | inCluster ic => exact ⟨ic, rfl⟩

theorem routed_of_settled_pair : ∃ w : Servers Bool,
    (system pairSetting fun _ => []).Reachable w ∧
      ∀ m ∈ pairMembers, ∃ manager ∈ pairMembers,
        (w.server (nodeOf manager)).Takes pairSetting.hash (client 20) ∧
        (m = manager ∨
          (w.server (nodeOf m)).senderOf (client 20) ≠ none ∧
            (w.server (nodeOf m)).Takes pairSetting.hash (client 20) ∨
          (w.server (nodeOf m)).senderOf (client 20) = none ∧ nodeOf m ≠ nodeOf manager ∧
            (w.server (nodeOf m)).Forwards pairSetting.hash (client 20)
              (pairSetting.place (nodeOf manager))) := by
  obtain ⟨w, h, hsettled, hcaught, -⟩ := reachable_served
  obtain ⟨ring, -, -, hrouted⟩ := routed_of_settled admissible_pairSetting h hsettled hcaught
  refine ⟨w, h, fun m hm => ?_⟩
  obtain ⟨manager, hmanager, -, hroute⟩ := hrouted (client 20) m hm
  exact ⟨manager, hmanager, hroute⟩

/-- Both servers send the client, and then the manager's alone. -/
theorem sole_sender_of_asked_pair : ∃ w w' : Servers Bool,
    (system pairSetting fun _ => []).Run w [ask] w' ∧
      (∀ i, (w.server i).senderOf (client 20) = some 0) ∧
      ∀ m ∈ pairMembers, m ≠ seat 10 1 → (w'.server (nodeOf m)).senderOf (client 20) = none := by
  obtain ⟨w, h, hsettled, hcaught, hspawned, hsender, w', hnext⟩ := reachable_served
  have hadmitted : w.Admitted pairSetting ask := fun _ => by
    rw [hspawned]
    exact Nat.one_pos
  have hstart : (system pairSetting fun _ => []).Run w [] w := .nil
  have hrun : (system pairSetting fun _ => []).Run w [ask] w' := hstart.snoc ⟨hnext, hadmitted⟩
  have hids : ∀ m ∈ pairMembers, ∀ m' ∈ pairMembers, m.id = m'.id → m = m' := by decide
  have hmanages : Manages pairSetting pairMembers 2 (client 20) (seat 10 1) := by
    refine ⟨NodeRing.ofMembers .byId 2 pairMembers, NodeRing.ofMembers_repFactor .., ?_, by decide⟩
    exact NodeRing.ofMembers_holds 2 admissible_pairSetting
  refine ⟨w, w', hrun, hsender, sole_sender_of_asked admissible_pairSetting h hsettled hcaught
    (fun m hm m' hm' => hids m hm m' hm') hmanages hrun ?_ ?_⟩
  · intro mv hmv
    cases List.mem_singleton.mp hmv
    rintro i delivers ⟨⟩
  · intro m hm hne
    have hother : m = seat 11 2 := by
      rcases List.mem_cons.mp hm with hm | hm
      · exact absurd hm hne
      · exact List.mem_singleton.mp hm
    subst hother
    exact .inr ⟨ask, List.mem_singleton_self _, _, rfl⟩

end Pair

end Servers

end AurumActors.Devices
