/-
  Devices/Forwarding.lean --- the way of an interval through servers that agree
  on their ring.

  A server takes a new device if it is the manager, as a member with its id; it
  forwards to the socket of the manager.  The two differ where the ring holds an
  older member of a socket.
-/
import AurumActors.Devices.DeviceServer

set_option autoImplicit false
set_option linter.dupNamespace false

namespace AurumActors.Devices

open Std
open AurumActors.Core AurumActors.Cluster AurumActors.Foundation

/-- Where an output forwards to. -/
def Output.forward? : Output → Option Socket
  | .forward dest _ _ => some dest
  | _ => none

namespace DeviceServer

/-- The server puts the interval into the table and forwards it nowhere. -/
def Takes (hash : Device → UInt64) (s : DeviceServer) (device : Device) : Prop :=
  ∀ (delivers : Nat → Bool) (interval : DeviceInterval), ∃ s' out,
    s.recv hash delivers (.setHeartbeatInterval device interval) = .ok (s', out) ∧
      .mutate (.put device interval) ∈ out ∧ out.filterMap Output.forward? = []

/-- The server only forwards the interval, to that socket. -/
def Forwards (hash : Device → UInt64) (s : DeviceServer) (device : Device) (dest : Socket) :
    Prop :=
  ∀ (delivers : Nat → Bool) (interval : DeviceInterval),
    s.recv hash delivers (.setHeartbeatInterval device interval) =
      .ok (s, [.forward dest device interval])

/-- The server has a sender for the device, or is its manager. -/
def Responsible (hash : Device → UInt64) (s : DeviceServer) (device : Device) : Prop :=
  ∃ ic, s.state = .inCluster ic ∧ (ic.reqSenders[device]?.isSome = true ∨
    (ic.ring.managers (hash device) 1).head? = some ic.member)

section Recv

variable {hash : Device → UInt64} {s : DeviceServer} {device : Device} {ic : InCluster}
  {manager : Member}

theorem takes_of_responsible (hstate : s.state = .inCluster ic)
    (hmanager : (ic.ring.managers (hash device) 1).head? = some manager)
    (h : ic.reqSenders[device]?.isSome = true ∨ manager = ic.member) :
    s.Takes hash device := by
  intro delivers interval
  cases hsender : ic.reqSenders[device]? with
  | some sender =>
      exact ⟨s, _, recv_told hstate hmanager hsender delivers interval, by simp, rfl⟩
  | none =>
      have hmember : manager = ic.member := by
        rcases h with h | h
        · rw [hsender] at h
          cases h
        · exact h
      refine ⟨_, _, recv_starts hstate (hmember ▸ hmanager) hsender rfl delivers interval,
        by simp, ?_⟩
      rw [List.filterMap_append, InCluster.filterMap_publish _ fun _ _ _ => rfl]
      rfl

theorem forwards_of_not_responsible (hstate : s.state = .inCluster ic)
    (hmanager : (ic.ring.managers (hash device) 1).head? = some manager)
    (hsender : ic.reqSenders[device]? = none) (hmember : manager ≠ ic.member) :
    s.Forwards hash device manager.socket :=
  recv_forwards hstate hmanager hsender hmember

theorem takes_or_forwards (hstate : s.state = .inCluster ic)
    (hmanager : (ic.ring.managers (hash device) 1).head? = some manager) :
    (ic.reqSenders[device]?.isSome = true ∨ manager = ic.member) ∧ s.Takes hash device ∨
      ic.reqSenders[device]? = none ∧ manager ≠ ic.member ∧
        s.Forwards hash device manager.socket := by
  by_cases hresp : ic.reqSenders[device]?.isSome = true ∨ manager = ic.member
  · exact .inl ⟨hresp, takes_of_responsible hstate hmanager hresp⟩
  · obtain ⟨hsome, hmember⟩ := not_or.mp hresp
    have hsender : ic.reqSenders[device]? = none := by simpa using hsome
    exact .inr ⟨hsender, hmember,
      forwards_of_not_responsible hstate hmanager hsender hmember⟩

theorem Forwards.not_takes {dest : Socket} (h : s.Forwards hash device dest) :
    ¬ s.Takes hash device := by
  intro htakes
  obtain ⟨s', out, hrecv, -, hout⟩ := htakes (fun _ => true) ⟨0, 0⟩
  rw [h] at hrecv
  cases hrecv
  cases hout

theorem Forwards.unique {dest dest' : Socket} (h : s.Forwards hash device dest)
    (h' : s.Forwards hash device dest') : dest = dest' := by
  have heq := (h (fun _ => true) ⟨0, 0⟩).symm.trans (h' (fun _ => true) ⟨0, 0⟩)
  simpa using heq

end Recv

/-! ## Servers that agree -/

/-- The servers at their sockets, inside the cluster with one ring: each is in
the ring, as a member of its socket, and each member's socket has a server. -/
structure Agree (ring : NodeRing) (server : Socket → Option DeviceServer) : Prop where
  inside : ∀ socket s, server socket = some s → ∃ ic, s.state = .inCluster ic ∧
    ic.ring = ring ∧ ic.member.socket = socket ∧ ∃ e ∈ ring.ring.toList, e.2.2 = ic.member
  covered : ∀ e ∈ ring.ring.toList, ∃ s, server e.2.2.socket = some s

/-- Whichever server an interval of the device reaches takes it, or forwards it
to another one that takes it. -/
def RoutedOnce (hash : Device → UInt64) (server : Socket → Option DeviceServer)
    (device : Device) : Prop :=
  ∀ socket s, server socket = some s → s.Takes hash device ∨
    ∃ dest t, s.Forwards hash device dest ∧ dest ≠ socket ∧ server dest = some t ∧
      t.Takes hash device

variable {hash : Device → UInt64} {ring : NodeRing} {server : Socket → Option DeviceServer}
  {socket : Socket} {s : DeviceServer}

/-- A server takes the interval, or forwards it to the socket of the manager. -/
theorem Agree.takes_or_forwards (h : Agree ring server) (hash : Device → UInt64)
    (hserver : server socket = some s) (device : Device) :
    ∃ manager, (ring.managers (hash device) 1).head? = some manager ∧
      (∃ t, server manager.socket = some t) ∧
      (s.Responsible hash device ∧ s.Takes hash device ∨
        ¬ s.Responsible hash device ∧ s.Forwards hash device manager.socket) := by
  obtain ⟨ic, hstate, rfl, -, e, he, -⟩ := h.inside socket s hserver
  obtain ⟨f, hf, hmanager⟩ := NodeRing.exists_manager he (hash device)
  refine ⟨f.2.2, hmanager, h.covered f hf, ?_⟩
  rcases DeviceServer.takes_or_forwards hstate hmanager with
    ⟨hresp, htakes⟩ | ⟨hnone, hother, hforwards⟩
  · refine .inl ⟨⟨ic, hstate, ?_⟩, htakes⟩
    rw [hmanager]
    exact hresp.imp_right (congrArg some)
  · refine .inr ⟨?_, hforwards⟩
    rintro ⟨ic', hstate', hresp⟩
    rw [hstate] at hstate'
    cases hstate'
    rw [hnone, hmanager] at hresp
    exact hresp.elim (by simp) fun heq => hother (Option.some.inj heq)

/-- Among servers that agree, the intervals of a device are forwarded at most
once, and never to the server they reached, if and only if the server at the
socket of the device's manager is responsible for the device. -/
theorem routedOnce_iff (h : Agree ring server) (device : Device) :
    RoutedOnce hash server device ↔
      ∀ manager, (ring.managers (hash device) 1).head? = some manager →
        ∀ t, server manager.socket = some t → t.Responsible hash device := by
  constructor
  · intro hrouted manager hmanager t ht
    obtain ⟨manager', hmanager', -, ⟨hresp, -⟩ | ⟨-, hforwards⟩⟩ :=
      h.takes_or_forwards hash ht device
    · exact hresp
    · -- it would forward to its own socket
      rw [hmanager] at hmanager'
      cases hmanager'
      rcases hrouted manager.socket t ht with htakes | ⟨dest, t', hforwards', hne, -⟩
      · exact absurd htakes hforwards.not_takes
      · exact absurd (hforwards'.unique hforwards) hne
  · intro hresp socket s hserver
    obtain ⟨manager, hmanager, ⟨t, ht⟩, ⟨-, htakes⟩ | ⟨hnot, hforwards⟩⟩ :=
      h.takes_or_forwards hash hserver device
    · exact .inl htakes
    · have hresponsible := hresp manager hmanager t ht
      refine .inr ⟨manager.socket, t, hforwards, ?_, ht, ?_⟩
      · rintro rfl
        rw [hserver] at ht
        cases ht
        exact hnot hresponsible
      · obtain ⟨-, -, -, ⟨-, htakes⟩ | ⟨hnot', -⟩⟩ :=
          h.takes_or_forwards hash ht device
        · exact htakes
        · exact absurd hresponsible hnot'

/-! ## A member that came back -/

/-- The two members of one socket, of which the first is not yet down. -/
def stale : Member := ⟨Socket.localhost 10, 1, 1⟩

def current : Member := ⟨Socket.localhost 10, 2, 1⟩

/-- Their ring. -/
def ringOfTwo : NodeRing :=
  ((NodeRing.new 2).insert RingHash.byId stale).insert RingHash.byId current

/-- The server of the socket goes on as the second member. -/
def rejoined : InCluster :=
  .start current (((∅ : MemberSet).insert stale).insert current) ringOfTwo .minimum

def cameBack : DeviceServer := ⟨⟨[], 0⟩, .inCluster rejoined⟩

/-- It is the only server. -/
def onlyServer (socket : Socket) : Option DeviceServer :=
  if socket = Socket.localhost 10 then some cameBack else none

theorem agree_onlyServer : Agree ringOfTwo onlyServer := by
  constructor
  · intro socket s hserver
    unfold onlyServer at hserver
    split at hserver
    · next hsocket =>
        cases hserver
        exact ⟨_, rfl, rfl, hsocket.symm, by decide⟩
    · cases hserver
  · have hsockets : ∀ e ∈ ringOfTwo.ring.toList, e.2.2.socket = Socket.localhost 10 := by decide
    intro e he
    exact ⟨cameBack, by rw [hsockets e he]; rfl⟩

/-- A device that hashes to the first member is forwarded to the server's own
socket. -/
theorem forwards_to_itself :
    Agree ringOfTwo onlyServer ∧ onlyServer (Socket.localhost 10) = some cameBack ∧
      cameBack.Forwards (fun _ => 0) (client 20) (Socket.localhost 10) ∧
      ¬ RoutedOnce (fun _ => 0) onlyServer (client 20) := by
  have hstate : cameBack.state = .inCluster rejoined := rfl
  have hmanager : (rejoined.ring.managers 0 1).head? = some stale := by decide
  have hsender : rejoined.reqSenders[client 20]? = none := by decide
  have hmember : stale ≠ rejoined.member := by decide
  have hforwards : cameBack.Forwards (fun _ => 0) (client 20) (Socket.localhost 10) :=
    @forwards_of_not_responsible (fun _ => 0) _ _ _ _ hstate hmanager hsender hmember
  refine ⟨agree_onlyServer, rfl, hforwards, fun hrouted => ?_⟩
  rcases hrouted (Socket.localhost 10) cameBack rfl with htakes | ⟨dest, t, hforwards', hne, -⟩
  · exact hforwards.not_takes htakes
  · exact hne (hforwards'.unique hforwards)

/-- A device whose key is next to the second member comes to its server. -/
theorem routedOnce_iff_onlyServer :
    (ringOfTwo.managers 2 1).head? = some current ∧
      cameBack.Responsible (fun _ => 2) (client 20) ∧
      RoutedOnce (fun _ => 2) onlyServer (client 20) := by
  have hmanager : (ringOfTwo.managers 2 1).head? = some current := by decide
  have hresp : cameBack.Responsible (fun _ => 2) (client 20) := ⟨rejoined, rfl, .inr hmanager⟩
  refine ⟨hmanager, hresp, (routedOnce_iff agree_onlyServer (client 20)).mpr ?_⟩
  intro manager hm t ht
  rw [hmanager] at hm
  cases hm
  cases ht
  exact hresp

end DeviceServer

end AurumActors.Devices
