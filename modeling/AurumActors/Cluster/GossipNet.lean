/-
  Cluster/GossipNet.lean --- the history of the gossip in a network of nodes.

  Any number of clustering actors start on any sockets and exchange messages,
  which may be lost, duplicated, delayed and reordered.  A restart is the start
  of another actor, and an actor ends when a handler fails.  Every entry of every
  gossip is followed back to the node it names, and every downed member to the
  node that downed it.
-/
import AurumActors.Cluster.Provenance
import AurumActors.Cluster.Representation
import Mathlib.Logic.Function.Basic

set_option autoImplicit false
set_option linter.dupNamespace false

namespace AurumActors.Cluster

open Std
open AurumActors.Core AurumActors.Foundation

/-- An actor that runs, or what is left of one after a failed handler. -/
inductive Actor where
  | running (c : Cluster)
  | failed (common : NodeState)

def Actor.common : Actor → NodeState
  | .running c => c.common
  | .failed common => common

def Actor.gossip? : Actor → Option Gossip
  | .running c => c.state.gossip?
  | .failed _ => none

/-- The actors, and the messages sent to a cluster so far. -/
structure GossipNet (ι : Type) where
  actor : ι → Option Actor
  sent : List (Socket × IntraClusterMsg)

namespace GossipNet

/-! ## Moves -/

inductive Move (ι : Type) where
  /-- an actor starts on a socket, with a drawn id -/
  | start (i : ι) (socket : Socket) (id : UInt64) (subrs : List Nat) (clrConfig : ClusterConfig)
  /-- an actor gets a message from its own node -/
  | «local» (i : ι) (msg : ClusterMsg)
  /-- a message that was ever sent arrives at an actor on its socket -/
  | deliver (i : ι) (dest : Socket) (msg : IntraClusterMsg)

/-- Messages from the timers, the receivers and the subscribers of a node. -/
def isLocal : ClusterMsg → Bool
  | .intraMsg _ => false
  | _ => true

section Step

variable {ι : Type} [DecidableEq ι]

/-- A handler ends. -/
def after (w : GossipNet ι) (i : ι) (a : Actor) (out : List Output) : GossipNet ι where
  actor := Function.update w.actor i (some a)
  sent := w.sent ++ out.filterMap Output.packet?

/-- An actor handles a message. -/
def handle (H : RingHash) (w : GossipNet ι) (o : Oracle) (i : ι) (c : Cluster)
    (msg : ClusterMsg) : GossipNet ι :=
  match c.recv H o msg with
  | .ok (c, out) => w.after i (.running c) out
  | .error f => w.after i (.failed f.common) f.out

def next (H : RingHash) (w : GossipNet ι) : Move ι × Oracle → Option (GossipNet ι)
  | (.start i socket id subrs clrConfig, o) =>
      if (w.actor i).isSome then none
      else
        let (c, out) := (Cluster.new socket id subrs clrConfig).preStart H o
        some (w.after i (.running c) out)
  | (.local i msg, o) =>
      match w.actor i with
      | some (.running c) => if isLocal msg then some (w.handle H o i c msg) else none
      | _ => none
  | (.deliver i dest msg, o) =>
      match w.actor i with
      | some (.running c) =>
          if (dest, msg) ∈ w.sent ∧ c.common.member.socket = dest then
            some (w.handle H o i c (.intraMsg msg))
          else none
      | _ => none

/-- An id that is drawn for a gossip is new to it and to the actor. -/
def Fresh (w : GossipNet ι) : Move ι × Oracle → Prop
  | (.deliver i _ (.state gossip), o) =>
      ∀ a ∈ w.actor i, FreshId o a.common a.gossip? gossip
  | _ => True

/-- No actor runs and nothing was sent. -/
def empty : GossipNet ι := ⟨fun _ => none, []⟩

def system (H : RingHash) : System (GossipNet ι) (Move ι × Oracle) :=
  (System.ofNext empty (next H)).restrict Fresh

end Step

/-! ## Who names a member -/

section Names

variable {ι : Type}

/-- A gossip has the member in a state: that of an actor, or one in a message. -/
def Has (w : GossipNet ι) (m : Member) (s : MachineState) : Prop :=
  (∃ (i : ι) (a : Actor) (g : Gossip), w.actor i = some a ∧ a.gossip? = some g ∧
    g.states[m]? = some s) ∨
  ∃ (dest : Socket) (g : Gossip), (dest, .state g) ∈ w.sent ∧ g.states[m]? = some s

/-- A request names the member. -/
def Requests (w : GossipNet ι) (m : Member) : Prop :=
  ∃ dest : Socket, (dest, .ping m) ∈ w.sent ∨ (dest, .reqGossip m) ∈ w.sent ∨
    ∃ id, (dest, .reqHeartbeat m id) ∈ w.sent

/-- A gossip or a message names the member. -/
def Names (w : GossipNet ι) (m : Member) : Prop := (∃ s, w.Has m s) ∨ w.Requests m

/-- The member is that of an actor. -/
def Owns (w : GossipNet ι) (m : Member) : Prop :=
  ∃ (i : ι) (a : Actor), w.actor i = some a ∧ a.common.member = m

/-- The move lets an actor take the member from up to down. -/
def Downs (w : GossipNet ι) (mv : Move ι × Oracle) (w' : GossipNet ι) (m : Member) : Prop :=
  ∃ (i : ι) (a a' : Actor) (g g' : Gossip), mv.1 = .local i (.downed m) ∧
    w.actor i = some a ∧ a.gossip? = some g ∧ g.states[m]? = some .up ∧
    w'.actor i = some a' ∧ a'.gossip? = some g' ∧ g'.states[m]? = some .down

/-- No running actor inside the cluster forgets a member or brings one back up,
and a failed one stays failed. -/
structure Keeps (w w' : GossipNet ι) : Prop where
  running : ∀ (i : ι) (c : Cluster) (ic : InCluster), w.actor i = some (.running c) →
    c.state = .inCluster ic → (∃ common, w'.actor i = some (.failed common)) ∨
      ∃ (c' : Cluster) (ic' : InCluster), w'.actor i = some (.running c') ∧
        c'.state = .inCluster ic' ∧ ic.gossip.Keeps ic'.gossip
  failed : ∀ (i : ι) (common : NodeState), w.actor i = some (.failed common) →
    w'.actor i = some (.failed common)

theorem Keeps.trans {w₁ w₂ w₃ : GossipNet ι} (h : w₁.Keeps w₂) (h' : w₂.Keeps w₃) :
    w₁.Keeps w₃ := by
  refine ⟨fun i c ic hc hic => ?_, fun i common hfailed => h'.failed i common
    (h.failed i common hfailed)⟩
  rcases h.running i c ic hc hic with ⟨common, hfailed⟩ | ⟨c', ic', hc', hic', hkeeps⟩
  · exact .inl ⟨common, h'.failed i common hfailed⟩
  · rcases h'.running i c' ic' hc' hic' with hfailed | ⟨c'', ic'', hc'', hic'', hkeeps'⟩
    · exact .inl hfailed
    · exact .inr ⟨c'', ic'', hc'', hic'', hkeeps.trans hkeeps'⟩

end Names

/-! ## One move -/

section Step

variable {ι : Type} [DecidableEq ι] {H : RingHash} {w w' : GossipNet ι} {mv : Move ι × Oracle}

/-- What a move does with one actor.  The gossip it sends is `gossip`, which it
still has unless it fails. -/
structure Traces (w : GossipNet ι) (mv : Move ι × Oracle) (w' : GossipNet ι) (i : ι)
    (msg : Option ClusterMsg) (a : Actor) (gossip : Option Gossip) (out : List Output) :
    Prop where
  after : w' = w.after i a out
  alive : ∀ common, w.actor i ≠ some (.failed common)
  told : Told ((w.actor i).bind Actor.gossip?) msg a.common.member gossip out
  shown : ∀ g, a.gossip? = some g → gossip = some g
  kept : ∀ c, a = .running c → ∀ g, (w.actor i).bind Actor.gossip? = some g →
    ∃ g', c.state.gossip? = some g' ∧ g.Keeps g'
  received : ∀ m, msg = some (.intraMsg m) → ∃ dest, (dest, m) ∈ w.sent
  downed : ∀ m, msg = some (.downed m) → mv.1 = .local i (.downed m) ∧ gossip = a.gossip?

theorem traces_of_handle {i : ι} {c : Cluster} {o : Oracle} (msg : ClusterMsg)
    (hc : w.actor i = some (.running c))
    (hfresh : ∀ gossip, msg = .intraMsg (.state gossip) →
      FreshId o c.common c.state.gossip? gossip)
    (hreceived : ∀ m, msg = .intraMsg m → ∃ dest, (dest, m) ∈ w.sent)
    (hdowned : ∀ m, msg = .downed m → mv.1 = .local i (.downed m)) :
    ∃ a gossip out, Traces w mv (w.handle H o i c msg) i (some msg) a gossip out := by
  have hknown : (w.actor i).bind Actor.gossip? = c.state.gossip? := by
    rw [hc]
    rfl
  have halive : ∀ common, w.actor i ≠ some (.failed common) := by
    intro common h
    rw [hc] at h
    cases h
  unfold handle
  split
  · next c' out hrecv =>
      have htraced := Cluster.recv_traced hfresh hrecv
      refine ⟨.running c', c'.state.gossip?, out, rfl, halive, hknown ▸ htraced.toTold,
        fun _ => id, fun c₁ hc₁ => ?_, fun m hm => hreceived m (Option.some.inj hm),
        fun m hm => ⟨hdowned m (Option.some.inj hm), rfl⟩⟩
      cases hc₁
      rw [hknown]
      exact htraced.keeps
  · next f hrecv =>
      obtain ⟨gossip, htold, hnone⟩ := Cluster.recv_failed hfresh hrecv
      exact ⟨.failed f.common, gossip, f.out, rfl, halive, hknown ▸ htold, nofun, nofun,
        fun m hm => hreceived m (Option.some.inj hm),
        fun m hm => ⟨hdowned m (Option.some.inj hm), hnone m (Option.some.inj hm)⟩⟩

theorem traces_of_step (h : (system H).step w mv w') :
    ∃ i msg a gossip out, Traces w mv w' i msg a gossip out := by
  obtain ⟨hnext, hfresh⟩ := h
  replace hnext : w.next H mv = some w' := hnext
  obtain ⟨mv, o⟩ := mv
  cases mv with
  | start i socket id subrs clrConfig =>
      simp only [next] at hnext
      split at hnext
      · cases hnext
      · next hfree =>
          cases hnext
          have hnone : w.actor i = none := by simpa using hfree
          have hknown : (w.actor i).bind Actor.gossip? = none := by
            rw [hnone]
            rfl
          have htraced := Cluster.preStart_traced (H := H) (o := o)
            (c := Cluster.new socket id subrs clrConfig) rfl
          refine ⟨i, none, .running _, _, _, rfl, ?_, ?_, fun _ hg => hg, ?_, nofun, nofun⟩
          · rw [hnone]
            exact nofun
          · rw [hknown]
            exact htraced.toTold
          · rw [hknown]
            exact nofun
  | «local» i msg =>
      simp only [next] at hnext
      split at hnext
      · next c hc =>
          split at hnext
          · next hlocal =>
              cases hnext
              have hintra : ∀ m, msg ≠ .intraMsg m := by
                rintro m rfl
                cases hlocal
              have hdowned : ∀ m, msg = .downed m →
                  (Move.local i msg, o).1 = .local i (.downed m) := by
                rintro m rfl
                rfl
              obtain ⟨a, gossip, out, htraces⟩ := traces_of_handle (H := H) msg hc
                (fun gossip hmsg => absurd hmsg (hintra _))
                (fun m hmsg => absurd hmsg (hintra m)) hdowned
              exact ⟨i, _, a, gossip, out, htraces⟩
          · cases hnext
      · cases hnext
  | deliver i dest msg =>
      simp only [next] at hnext
      split at hnext
      · next c hc =>
          split at hnext
          · next hsent =>
              cases hnext
              obtain ⟨a, gossip, out, htraces⟩ := traces_of_handle (H := H) (o := o)
                (.intraMsg msg) hc
                (fun gossip hmsg => by cases hmsg; exact hfresh _ hc)
                (fun m hmsg => by cases hmsg; exact ⟨dest, hsent.1⟩) nofun
              exact ⟨i, _, a, gossip, out, htraces⟩
          · cases hnext
      · cases hnext

namespace Traces

variable {i : ι} {msg : Option ClusterMsg} {a : Actor} {gossip : Option Gossip}
  {out : List Output}

theorem actor_eq (h : Traces w mv w' i msg a gossip out) : w'.actor i = some a := by
  rw [h.after]
  exact Function.update_self i (some a) w.actor

theorem actor_ne (h : Traces w mv w' i msg a gossip out) {j : ι} (hj : j ≠ i) :
    w'.actor j = w.actor j := by
  rw [h.after]
  exact Function.update_of_ne hj (some a) w.actor

theorem owns (h : Traces w mv w' i msg a gossip out) : w'.Owns a.common.member :=
  ⟨i, a, h.actor_eq, rfl⟩

theorem keeps (h : Traces w mv w' i msg a gossip out) : w.Keeps w' := by
  refine ⟨fun j c ic hc hic => ?_, fun j common hfailed => ?_⟩
  · by_cases hj : j = i
    · subst hj
      have hknown : (w.actor j).bind Actor.gossip? = some ic.gossip := by
        rw [hc, Option.bind_some, Actor.gossip?, hic]
        rfl
      cases a with
      | failed common => exact .inl ⟨common, h.actor_eq⟩
      | running c' =>
          obtain ⟨g, hg, hkeeps⟩ := h.kept c' rfl ic.gossip hknown
          cases hstate : c'.state with
          | inCluster ic' =>
              rw [hstate] at hg
              cases hg
              exact .inr ⟨c', ic', h.actor_eq, hstate, hkeeps⟩
          | pinging png =>
              rw [hstate] at hg
              cases hg
          | left =>
              rw [hstate] at hg
              cases hg
    · exact .inr ⟨c, ic, (h.actor_ne hj).trans hc, hic, .refl _⟩
  · have hj : j ≠ i := by
      rintro rfl
      exact h.alive common hfailed
    exact (h.actor_ne hj).trans hfailed

/-- Where an entry comes from that the actor has or sends. -/
theorem has_of_source (h : Traces w mv w' i msg a gossip out) {g : Gossip} {m : Member}
    {s : MachineState} (hg : gossip = some g) (hs : g.states[m]? = some s) :
    w.Has m s ∨ s = .up ∧ (w'.Owns m ∨ w.Requests m) ∨ s = .down ∧ w.Downs mv w' m := by
  cases h.told.sources g m s hg hs with
  | kept g₀ s hknown hs₀ =>
      obtain ⟨a₀, ha₀, hg₀⟩ := Option.bind_eq_some_iff.mp hknown
      exact .inl (.inl ⟨i, a₀, g₀, ha₀, hg₀, hs₀⟩)
  | told g₀ s hmsg hs₀ =>
      obtain ⟨dest, hsent⟩ := h.received _ hmsg
      exact .inl (.inr ⟨dest, g₀, hsent, hs₀⟩)
  | own heq => exact .inr (.inl ⟨rfl, .inl (heq ▸ h.owns)⟩)
  | pinged hmsg =>
      obtain ⟨dest, hsent⟩ := h.received _ hmsg
      exact .inr (.inl ⟨rfl, .inr ⟨dest, .inl hsent⟩⟩)
  | downed g₀ hmsg hknown hup =>
      obtain ⟨a₀, ha₀, hg₀⟩ := Option.bind_eq_some_iff.mp hknown
      obtain ⟨hmove, hshown⟩ := h.downed m hmsg
      exact .inr (.inr ⟨rfl, i, a₀, a, g₀, g, hmove, ha₀, hg₀, hup, h.actor_eq, hshown ▸ hg, hs⟩)

/-- Where an entry comes from that any gossip has after the move. -/
theorem has (h : Traces w mv w' i msg a gossip out) {m : Member} {s : MachineState}
    (hhas : w'.Has m s) :
    w.Has m s ∨ s = .up ∧ (w'.Owns m ∨ w.Requests m) ∨ s = .down ∧ w.Downs mv w' m := by
  rcases hhas with ⟨j, a₀, g, ha₀, hg, hs⟩ | ⟨dest, g, hsent, hs⟩
  · by_cases hj : j = i
    · subst hj
      rw [h.actor_eq] at ha₀
      cases ha₀
      exact h.has_of_source (h.shown g hg) hs
    · exact .inl (.inl ⟨j, a₀, g, (h.actor_ne hj).symm.trans ha₀, hg, hs⟩)
  · rw [h.after] at hsent
    rcases List.mem_append.mp hsent with hsent | hsent
    · exact .inl (.inr ⟨dest, g, hsent, hs⟩)
    · obtain ⟨x, hx, hpacket⟩ := List.mem_filterMap.mp hsent
      rcases h.told.tells x hx dest _ hpacket with heq | heq | ⟨id, heq⟩ | ⟨g', hg', heq⟩
      · cases heq
      · cases heq
      · cases heq
      · cases heq
        exact h.has_of_source hg' hs

theorem requests (h : Traces w mv w' i msg a gossip out) {m : Member} (hreq : w'.Requests m) :
    w.Requests m ∨ w'.Owns m := by
  obtain ⟨dest, hsent⟩ := hreq
  rw [h.after] at hsent
  have hout : ∀ req : IntraClusterMsg, (req = .ping m ∨ req = .reqGossip m ∨
      ∃ id, req = .reqHeartbeat m id) → (dest, req) ∈ out.filterMap Output.packet? →
      w'.Owns m := by
    intro req hkind hreq
    obtain ⟨x, hx, hpacket⟩ := List.mem_filterMap.mp hreq
    have hown : m = a.common.member := by
      rcases h.told.tells x hx dest _ hpacket with heq | heq | ⟨id, heq⟩ | ⟨g', hg', heq⟩ <;>
        rcases hkind with hm | hm | ⟨id', hm⟩ <;> cases heq.symm.trans hm <;> rfl
    exact hown ▸ h.owns
  rcases hsent with hsent | hsent | ⟨id, hsent⟩
  · rcases List.mem_append.mp hsent with hold | hnew
    · exact .inl ⟨dest, .inl hold⟩
    · exact .inr (hout _ (.inl rfl) hnew)
  · rcases List.mem_append.mp hsent with hold | hnew
    · exact .inl ⟨dest, .inr (.inl hold)⟩
    · exact .inr (hout _ (.inr (.inl rfl)) hnew)
  · rcases List.mem_append.mp hsent with hold | hnew
    · exact .inl ⟨dest, .inr (.inr ⟨id, hold⟩)⟩
    · exact .inr (hout _ (.inr (.inr ⟨id, rfl⟩)) hnew)

/-- A member that is named was named before or is that of an actor. -/
theorem names (h : Traces w mv w' i msg a gossip out) {m : Member} (hnames : w'.Names m) :
    w.Names m ∨ w'.Owns m := by
  rcases hnames with ⟨s, hhas⟩ | hreq
  · rcases h.has hhas with hold | ⟨-, hown | hold⟩ | ⟨-, i, a₀, -, g, -, -, ha₀, hg, hup, -⟩
    · exact .inl (.inl ⟨s, hold⟩)
    · exact .inr hown
    · exact .inl (.inr hold)
    · exact .inl (.inl ⟨.up, .inl ⟨i, a₀, g, ha₀, hg, hup⟩⟩)
  · rcases h.requests hreq with hold | hown
    · exact .inl (.inr hold)
    · exact .inr hown

end Traces

end Step

/-! ## All runs -/

section Runs

variable {ι : Type} [DecidableEq ι] {H : RingHash} {w w' : GossipNet ι}

/-- Every named member was the member of an actor. -/
theorem owned_of_names {as : List (Move ι × Oracle)} (h : (system H).Run empty as w) {m : Member}
    (hnames : w.Names m) : ∃ u, (system H).Through empty u w ∧ u.Owns m := by
  induction h with
  | nil =>
      rcases hnames with ⟨s, ⟨i, c, g, hc, -⟩ | ⟨dest, g, hsent, -⟩⟩ | ⟨dest, hsent⟩
      · cases hc
      · cases hsent
      · rcases hsent with hsent | hsent | ⟨id, hsent⟩ <;> cases hsent
  | snoc hrun hst ih =>
      obtain ⟨i, msg, a, gossip, out, htraces⟩ := traces_of_step hst
      rcases htraces.names hnames with hold | hown
      · obtain ⟨u, hthrough, howns⟩ := ih hold
        exact ⟨u, hthrough.snoc hst, howns⟩
      · exact ⟨_, ⟨⟨_, .snoc hrun hst⟩, [], .nil⟩, hown⟩

/-- Every member that is down was downed by a move. -/
theorem downed_of_has {as : List (Move ι × Oracle)} (h : (system H).Run empty as w) {m : Member}
    (hdown : w.Has m .down) : ∃ u mv u', (∃ bs, (system H).Run empty bs u) ∧
      (system H).step u mv u' ∧ (∃ bs, (system H).Run u' bs w) ∧ u.Downs mv u' m := by
  induction h with
  | nil =>
      rcases hdown with ⟨i, c, g, hc, -⟩ | ⟨dest, g, hsent, -⟩
      · cases hc
      · cases hsent
  | snoc hrun hst ih =>
      obtain ⟨i, msg, a, gossip, out, htraces⟩ := traces_of_step hst
      rcases htraces.has hdown with hold | ⟨hup, -⟩ | ⟨-, hdowns⟩
      · obtain ⟨u, mv, u', hbefore, hstep, ⟨bs, hafter⟩, hdowns⟩ := ih hold
        exact ⟨u, mv, u', hbefore, hstep, ⟨_, hafter.snoc hst⟩, hdowns⟩
      · cases hup
      · exact ⟨_, _, _, ⟨_, hrun⟩, hst, ⟨[], .nil⟩, hdowns⟩

theorem keeps_of_run {as : List (Move ι × Oracle)} (h : (system H).Run w as w') : w.Keeps w' := by
  refine h.relates (R := Keeps) (fun w => ⟨fun i c ic hc hic => .inr ⟨c, ic, hc, hic, .refl _⟩,
    fun _ _ => id⟩) (fun _ _ _ => Keeps.trans) fun u mv v hst => ?_
  obtain ⟨i, msg, a, gossip, out, htraces⟩ := traces_of_step hst
  exact htraces.keeps

/-- In every run of a network of nodes whose drawn ids are new: a running actor
inside the cluster never forgets a member or brings one back up; every member in a
gossip or a message was before the member of an actor; and a member is down only
if an actor took it from up to down before. -/
theorem gossip_history (h : (system (ι := ι) H).Reachable w) :
    (∀ bs w', (system H).Run w bs w' → w.Keeps w') ∧
    (∀ m, w.Names m → ∃ u, (system H).Through empty u w ∧ u.Owns m) ∧
    ∀ m, w.Has m .down → ∃ u mv u', (∃ bs, (system H).Run empty bs u) ∧
      (system H).step u mv u' ∧ (∃ bs, (system H).Run u' bs w) ∧ u.Downs mv u' m := by
  obtain ⟨s, as, hs, hrun⟩ := h
  rw [show s = empty from hs] at hrun
  exact ⟨fun bs w' hbs => keeps_of_run hbs, fun m => owned_of_names hrun,
    fun m => downed_of_has hrun⟩

end Runs

/-! ### A node that is downed and goes on -/

section Rejoin

open Node (seat gossipOf firstChoices)

instance {ι : Type} (w : GossipNet ι) : DecidablePred w.Fresh
  | (.deliver i _ (.state gossip), o) =>
      inferInstanceAs (Decidable (∀ a ∈ w.actor i, FreshId o a.common a.gossip? gossip))
  | (.deliver _ _ .foo, _) | (.deliver _ _ (.reqHeartbeat ..), _) | (.deliver _ _ (.reqGossip _), _)
  | (.deliver _ _ (.ping _), _) | (.start .., _) | (.local .., _) => isTrue trivial

/-- The gossip of member 2 once member 1 has pinged it. -/
def bothUp : Gossip := gossipOf [(seat 11 2, .up), (seat 10 1, .up)]

/-- The same gossip after the downing of member 1. -/
def firstDown : Gossip := gossipOf [(seat 11 2, .up), (seat 10 1, .down)]

/-- The node at port 10 joins the one at port 11, which downs it later; the first
node goes on as member 5. -/
def rejoin : List (Move Bool × Oracle) :=
  [(.start false (Socket.localhost 10) 1 [] { ClusterConfig.default with
      seedNodes := (∅ : ExtTreeSet Socket compare).insert (Socket.localhost 11) }, firstChoices),
    (.start true (Socket.localhost 11) 2 [] .default, firstChoices),
    (.deliver true (Socket.localhost 11) (.ping (seat 10 1)), firstChoices),
    (.deliver false (Socket.localhost 10) (.state bothUp), firstChoices),
    (.local true (.downed (seat 10 1)), firstChoices),
    (.deliver false (Socket.localhost 10) (.state firstDown), firstChoices)]

theorem gossip_history_rejoin :
    ∃ w : GossipNet Bool, (system RingHash.byId).Reachable w ∧
      (∃ a ∈ w.actor false, a.common.member = seat 10 5 ∧
        ∃ g ∈ a.gossip?, g.states[seat 10 1]? = some .down) ∧
      ∃ u mv u', (∃ bs, (system RingHash.byId).Run empty bs u) ∧
        (system RingHash.byId).step u mv u' ∧ (∃ bs, (system RingHash.byId).Run u' bs w) ∧
        u.Downs mv u' (seat 10 1) := by
  obtain ⟨w, hw, a, ha, hown, g, hg, hdown⟩ :
      ∃ w ∈ System.execWhere Fresh (next RingHash.byId) (empty : GossipNet Bool) rejoin,
        ∃ a ∈ w.actor false, a.common.member = seat 10 5 ∧
          ∃ g ∈ a.gossip?, g.states[seat 10 1]? = some .down := by decide
  have h := System.reachable_of_execWhere rejoin (.of_init rfl) hw
  exact ⟨w, h, ⟨a, ha, hown, g, hg, hdown⟩,
    (gossip_history h).2.2 (seat 10 1) (.inl ⟨false, a, g, ha, hg, hdown⟩)⟩

end Rejoin

end GossipNet

end AurumActors.Cluster
