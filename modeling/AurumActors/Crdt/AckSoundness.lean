/-
  Crdt/AckSoundness.lean --- what a recorded acknowledgement says about the data
  of the peer.

  Any number of nodes run the actor and keep their data.  Every member id
  belongs to one node, which may use several in its life, and every node has its
  own socket.  A packet that was ever sent may arrive any number of times, or
  never.  The proof carries the history of the data of every node: the data it
  had at each clock.
-/
import AurumActors.Crdt.Bookkeeping
import AurumActors.Foundation.DeltaLog
import AurumActors.Foundation.Run
import Mathlib.Logic.Function.Basic
import Mathlib.Order.Lattice.Nat
import Mathlib.Order.Nat

set_option autoImplicit false

namespace AurumActors.Crdt

open AurumActors.Cluster AurumActors.Core AurumActors.Foundation

attribute [local instance] lexOrd

/-! ## The data -/

/-- The laws of the data: a semilattice whose least element is the minimum and
the only empty value. -/
class LawfulCRDT (S : Type) [SemilatticeSup S] [OrderBot S] [CRDT S] : Prop where
  join_eq : ∀ a b : S, CRDT.join a b = a ⊔ b
  minimum_eq : (CRDT.minimum : S) = ⊥
  eq_bot_of_empty : ∀ a : S, CRDT.empty a = true → a = ⊥

namespace CausalDisperse

variable {S : Type} [CRDT S]

/-- The data of an actor.  Outside the cluster it has none yet. -/
def data (a : CausalDisperse S) : S :=
  match a.state with
  | .inCluster ic => ic.data
  | .waiting _ => CRDT.minimum

/-- The clock of an actor, which starts when it joins. -/
def clock (a : CausalDisperse S) : Nat :=
  match a.state with
  | .inCluster ic => ic.clock
  | .waiting _ => 0

theorem data_of_state {a : CausalDisperse S} {ic : InCluster S} (h : a.state = .inCluster ic) :
    a.data = ic.data := by
  unfold data
  rw [h]

theorem clock_of_state {a : CausalDisperse S} {ic : InCluster S} (h : a.state = .inCluster ic) :
    a.clock = ic.clock := by
  unfold clock
  rw [h]

end CausalDisperse

namespace CausalDisperse.Handled

variable {S : Type} [SemilatticeSup S] [OrderBot S] [CRDT S] [LawfulCRDT S]
  {a a' : CausalDisperse S} {msg : CausalMsg S} {out : List (Output S)}

/-- The data changes only upwards, and only when the clock ticks. -/
theorem tick (h : Handled a msg a' out) :
    a'.clock = a.clock ∧ a'.data = a.data ∨ a'.clock = a.clock + 1 ∧ a.data ≤ a'.data := by
  cases h with
  | «prefer» p p' state => exact .inl ⟨rfl, rfl⟩
  | queue p w op => exact .inl ⟨rfl, rfl⟩
  | ignore p w msg hmsg => exact .inl ⟨rfl, rfl⟩
  | join p w u m hlast =>
      simp only [clock, data, Waiting.toIc, LawfulCRDT.minimum_eq]
      split
      · next hempty => exact .inl ⟨rfl, LawfulCRDT.eq_bot_of_empty _ hempty⟩
      · exact .inr ⟨rfl, bot_le⟩
  | opEmpty p ic op => exact .inl ⟨rfl, rfl⟩
  | op p ic ic' op sent hgrow hsent =>
      refine .inr ⟨by rw [hgrow]; rfl, ?_⟩
      simp only [data, hgrow, InCluster.grow, LawfulCRDT.join_eq]
      exact le_sup_left
  | ack p ic ic' id clock hcases =>
      rcases hcases with rfl | ⟨⟨member, cnt, minId, -, -, -, -, heq⟩, -⟩
      · exact .inl ⟨rfl, rfl⟩
      · rw [heq]
        exact .inl ⟨rfl, rfl⟩
  | deltaUnknown p ic delta id clock => exact .inl ⟨rfl, rfl⟩
  | deltaOld p ic delta id clock member cnt hmember hdata => exact .inl ⟨rfl, rfl⟩
  | deltaNew p ic ic' delta id clock member cnt sent hmember hgrow hsent =>
      refine .inr ⟨by rw [hgrow]; rfl, ?_⟩
      simp only [data, hgrow, InCluster.grow, LawfulCRDT.join_eq]
      exact le_sup_left
  | update p ic ic' u disperse sent hevents hsent =>
      have hclock := clock_of_events hevents
      exact .inl ⟨hclock, (InCluster.log_of_events hevents).1⟩
  | timeout p ic sent hsent => exact .inl ⟨rfl, rfl⟩
  | idle p ic hidle => exact .inl ⟨rfl, rfl⟩

theorem clock_mono (h : Handled a msg a' out) : a.clock ≤ a'.clock := by
  rcases h.tick with ⟨hclock, -⟩ | ⟨hclock, -⟩ <;> omega

theorem data_mono (h : Handled a msg a' out) : a.data ≤ a'.data := by
  rcases h.tick with ⟨-, hdata⟩ | ⟨-, hdata⟩
  · exact hdata.ge
  · exact hdata

/-- After the delta of a known sender the data is above the delta. -/
theorem delta_le (h : Handled a msg a' out) {ic : InCluster S} {d : S} {id : UInt64} {c : Nat}
    {e : Member × Nat} (hic : a.state = .inCluster ic) (hmsg : msg = .intra (.delta d id c))
    (hknown : ic.acks[id]? = some e) : a.data ⊔ d ≤ a'.data := by
  cases h with
  | «prefer» p p' state => cases hmsg
  | queue p w op => cases hmsg
  | ignore p w msg hmsg => cases hic
  | join p w u m hlast => cases hmsg
  | opEmpty p ic op => cases hmsg
  | op p ic ic' op sent hgrow hsent => cases hmsg
  | ack p ic ic' id clock hcases => cases hmsg
  | deltaUnknown p ic₁ delta id clock hget =>
      cases hmsg
      cases hic
      rw [hget] at hknown
      cases hknown
  | deltaOld p ic₁ delta id clock member cnt hmember hdata =>
      cases hmsg
      rw [LawfulCRDT.join_eq] at hdata
      exact hdata.le
  | deltaNew p ic₁ ic' delta id clock member cnt sent hmember hgrow hsent =>
      cases hmsg
      simp only [data, hgrow, InCluster.grow, LawfulCRDT.join_eq, le_refl]
  | update p ic ic' u disperse sent hevents hsent => cases hmsg
  | timeout p ic sent hsent => cases hmsg
  | idle p ic hidle => cases hmsg

/-- A history that has the data of an actor at its clock and goes on with the new
data has a log again. -/
theorem logged (h : Handled a msg a' out) {hist : Nat → S}
    (hold : hist a.clock = a.data) (hnew : hist a'.clock = a'.data)
    (hlog : ∀ ic, a.state = .inCluster ic → DeltaLog hist ic.minDelta ic.clock ic.deltas)
    {ic' : InCluster S} (hic' : a'.state = .inCluster ic') :
    DeltaLog hist ic'.minDelta ic'.clock ic'.deltas := by
  -- the next version is the join of the last one and the delta
  have hgrown : ∀ {ic : InCluster S} {d : S}, hist ic.clock = ic.data →
      hist (ic.clock + 1) = CRDT.join ic.data d →
      DeltaLog hist ic.minDelta ic.clock ic.deltas →
      DeltaLog hist ic.minDelta (ic.clock + 1) (ic.deltas ++ [d]) := by
    intro ic d hcur hnext hlog
    refine hlog.push ?_
    rw [hcur, hnext, LawfulCRDT.join_eq]
  cases h with
  | «prefer» p p' state => exact hlog ic' hic'
  | queue p w op => cases hic'
  | ignore p w msg hmsg => cases hic'
  | join p w u m hlast =>
      cases hic'
      simp only [clock, data, Waiting.toIc] at hnew ⊢
      split at hnew
      · next hempty =>
          simp only [hempty, if_true]
          exact .nil hist 0
      · next hempty =>
          simp only [hempty]
          refine (DeltaLog.nil hist 0).push ?_
          rw [Nat.zero_add, hnew]
          exact le_sup_right
  | opEmpty p ic op => exact hlog ic' hic'
  | op p ic ic₁ op sent hgrow hsent =>
      cases hic'
      subst hgrow
      exact hgrown hold hnew (hlog ic rfl)
  | ack p ic ic₁ id clock hcases =>
      cases hic'
      rcases hcases with rfl | ⟨⟨member, cnt, minId, -, -, -, -, heq⟩, hpops⟩
      · exact hlog ic' rfl
      · have hdrop := (hlog ic rfl).drop hpops
        have hmax : max ic.minDelta ic'.minOrd =
            ic.minDelta + (ic'.minOrd - ic.minDelta) := by omega
        rw [heq]
        simp only [hmax]
        exact hdrop
  | deltaUnknown p ic delta id clock => exact hlog ic' hic'
  | deltaOld p ic delta id clock member cnt hmember hdata => exact hlog ic' hic'
  | deltaNew p ic ic₁ delta id clock member cnt sent hmember hgrow hsent =>
      cases hic'
      subst hgrow
      exact hgrown hold hnew (hlog ic rfl)
  | update p ic ic₁ u disperse sent hevents hsent =>
      cases hic'
      have hclock := clock_of_events hevents
      obtain ⟨-, hmin, hdeltas⟩ := InCluster.log_of_events hevents
      simp only [hclock, hmin, hdeltas]
      exact hlog ic rfl
  | timeout p ic sent hsent => exact hlog ic' hic'
  | idle p ic hidle => exact hlog ic' hic'

end CausalDisperse.Handled

/-! ## The network -/

/-- Which node a member id belongs to, and the sockets of the nodes. -/
structure Placement (ι : Type) where
  owner : UInt64 → ι
  socket : ι → Socket
  socket_injective : Function.Injective socket

structure Net (ι S : Type) [CRDT S] where
  node : ι → CausalDisperse S
  /-- every message ever sent, with the member it was sent to -/
  sent : List (Member × CausalIntraMsg S)

namespace Net

inductive Move (ι S : Type) [CRDT S] where
  /-- a message from the node itself: an operation, a timeout, an update -/
  | «local» (i : ι) (msg : CausalMsg S)
  | deliver (i : ι) (dest : Member) (msg : CausalIntraMsg S)

end Net

namespace Placement

variable {ι S : Type} (P : Placement ι)

/-- A member is at the socket of the node it belongs to. -/
def Placed (m : Member) : Prop := m.socket = P.socket (P.owner m.id)

/-- The members of an event at node `i`: the node names itself by one of its ids. -/
def PlacedEvent (i : ι) : ClusterEvent → Prop
  | .alone m | .joined m => P.owner m.id = i
  | .added m => P.Placed m
  | _ => True

/-- The messages that a node can receive from itself. -/
def FromNode [CRDT S] (i : ι) : CausalMsg S → Prop
  | .intra _ => False
  | .update u => (∀ e ∈ u.events, P.PlacedEvent i e) ∧ ∀ m ∈ u.nodes.toList, P.Placed m
  | _ => True

variable [DecidableEq ι]

instance (i : ι) : DecidablePred (P.PlacedEvent i)
  | .alone _ | .joined _ | .added _ => inferInstanceAs (Decidable (_ = _))
  | .removed _ | .left => isTrue trivial

instance [CRDT S] (i : ι) : DecidablePred (P.FromNode (S := S) i)
  | .intra _ => isFalse id
  | .update u => inferInstanceAs
      (Decidable ((∀ e ∈ u.events, P.PlacedEvent i e) ∧ ∀ m ∈ u.nodes.toList, _ = _))
  | .mutate _ | .setDispersalPreference _ | .disperseTimeout => isTrue trivial

end Placement

namespace Net

variable {ι S : Type} [CRDT S]

/-- The messages among the outputs of a handler. -/
def sends (out : List (Output S)) : List (Member × CausalIntraMsg S) :=
  out.filterMap fun
    | .send dest msg => some (dest, msg)
    | _ => none

omit [CRDT S] in
theorem mem_sends {out : List (Output S)} {q : Member × CausalIntraMsg S} (h : q ∈ sends out) :
    .send q.1 q.2 ∈ out := by
  obtain ⟨o, ho, heq⟩ := List.mem_filterMap.mp h
  cases o with
  | send dest msg => cases heq; exact ho
  | publish data => cases heq
  | scheduleDisperse timeout => cases heq

section Moves

variable [DecidableEq ι] [DecidableEq S]

/-- Node `i` handles a message to completion. -/
def handle (w : Net ι S) (i : ι) (msg : CausalMsg S) : Option (Net ι S) :=
  match (w.node i).recv msg with
  | .error _ => none
  | .ok (a, out) => some ⟨Function.update w.node i a, w.sent ++ sends out⟩

/-- Messages are routed by the socket of the member they are sent to. -/
def next (P : Placement ι) (w : Net ι S) : Move ι S → Option (Net ι S)
  | .local i msg => if P.FromNode i msg then w.handle i msg else none
  | .deliver i dest msg =>
      if (dest, msg) ∈ w.sent ∧ dest.socket = P.socket i then w.handle i (.intra msg) else none

/-- Every node starts outside the cluster. -/
def start (preference : ι → DispersalPreference) : Net ι S :=
  ⟨fun i => .new (preference i), []⟩

def system (P : Placement ι) (preference : ι → DispersalPreference) :
    System (Net ι S) (Move ι S) :=
  .ofNext (start preference) (next P)

/-! ## Moves -/

/-- The message with which a move reaches node `i`. -/
inductive Arrives (P : Placement ι) (w : Net ι S) (i : ι) : Move ι S → CausalMsg S → Prop
  | «local» (msg : CausalMsg S) (h : P.FromNode i msg) : Arrives P w i (.local i msg) msg
  | deliver (dest : Member) (msg : CausalIntraMsg S) (hsent : (dest, msg) ∈ w.sent)
      (hsocket : dest.socket = P.socket i) : Arrives P w i (.deliver i dest msg) (.intra msg)

/-- Every move is one handler of one node. -/
theorem handled_of_next {P : Placement ι} {w w' : Net ι S} {move : Move ι S}
    (h : w.next P move = some w') :
    ∃ (i : ι) (msg : CausalMsg S) (a : CausalDisperse S) (out : List (Output S)),
      Arrives P w i move msg ∧ CausalDisperse.Handled (w.node i) msg a out ∧
      w' = ⟨Function.update w.node i a, w.sent ++ sends out⟩ := by
  have hhandle : ∀ {i : ι} {msg : CausalMsg S}, Arrives P w i move msg →
      w.handle i msg = some w' →
      ∃ (i : ι) (msg : CausalMsg S) (a : CausalDisperse S) (out : List (Output S)),
        Arrives P w i move msg ∧ CausalDisperse.Handled (w.node i) msg a out ∧
        w' = ⟨Function.update w.node i a, w.sent ++ sends out⟩ := by
    intro i msg harr h
    unfold handle at h
    cases hrecv : (w.node i).recv msg with
    | error e => rw [hrecv] at h; cases h
    | ok r =>
        rw [hrecv] at h
        cases h
        exact ⟨i, msg, r.1, r.2, harr, CausalDisperse.handled_of_recv hrecv, rfl⟩
  unfold next at h
  cases move with
  | «local» i msg =>
      simp only at h
      split at h
      · next hfrom => exact hhandle (.local msg hfrom) h
      · cases h
  | deliver i dest msg =>
      simp only at h
      split at h
      · next hmem => exact hhandle (.deliver dest msg hmem.1 hmem.2) h
      · cases h

end Moves

/-! ## The invariant -/

variable [SemilatticeSup S]

/-- The node that `id` belongs to has the data of node `i` at clock `c`. -/
structure Has (P : Placement ι) (hist : ι → Nat → S) (w : Net ι S) (i : ι) (id : UInt64)
    (c : Nat) : Prop where
  reached : c ≤ (w.node i).clock
  le : hist i c ≤ (w.node (P.owner id)).data

/-- The history of the data of every node, and what counts, deltas and
acknowledgements tell about it. -/
structure Inv [OrderBot S] (P : Placement ι) (hist : ι → Nat → S) (w : Net ι S) : Prop where
  zero : ∀ i, hist i 0 = ⊥
  current : ∀ i, hist i (w.node i).clock = (w.node i).data
  mono : ∀ (i : ι) (j k : Nat), j ≤ k → k ≤ (w.node i).clock → hist i j ≤ hist i k
  log : ∀ (i : ι) (ic : InCluster S), (w.node i).state = .inCluster ic →
    DeltaLog (hist i) ic.minDelta ic.clock ic.deltas
  member : ∀ (i : ι) (ic : InCluster S), (w.node i).state = .inCluster ic →
    P.owner ic.member.id = i
  acks : ∀ (i : ι) (ic : InCluster S), (w.node i).state = .inCluster ic →
    ∀ (id : UInt64) (m : Member) (c : Nat), ic.acks[id]? = some (m, c) →
      m.socket = P.socket (P.owner id) ∧ Has P hist w i id c
  /-- a delta brings whoever it reaches to the clock of its sender -/
  delta : ∀ q ∈ w.sent, ∀ (d : S) (id : UInt64) (c : Nat), q.2 = .delta d id c →
    c ≤ (w.node (P.owner id)).clock ∧
      ∀ i, q.1.socket = P.socket i → hist (P.owner id) c ≤ (w.node i).data ⊔ d
  ack : ∀ q ∈ w.sent, ∀ (id : UInt64) (c : Nat), q.2 = .ack id c →
    ∀ i, q.1.socket = P.socket i → Has P hist w i id c

/-- A later state, with a history that agrees on what has happened. -/
structure Extends (hist : ι → Nat → S) (w : Net ι S) (hist' : ι → Nat → S) (w' : Net ι S) :
    Prop where
  clock_le : ∀ i, (w.node i).clock ≤ (w'.node i).clock
  data_le : ∀ i, (w.node i).data ≤ (w'.node i).data
  agree : ∀ (i : ι) (k : Nat), k ≤ (w.node i).clock → hist' i k = hist i k

namespace Extends

variable {hist hist' hist'' : ι → Nat → S} {w w' w'' : Net ι S}

theorem refl (hist : ι → Nat → S) (w : Net ι S) : Extends hist w hist w :=
  ⟨fun _ => le_rfl, fun _ => le_rfl, fun _ _ _ => rfl⟩

theorem trans (h : Extends hist w hist' w') (h' : Extends hist' w' hist'' w'') :
    Extends hist w hist'' w'' where
  clock_le i := (h.clock_le i).trans (h'.clock_le i)
  data_le i := (h.data_le i).trans (h'.data_le i)
  agree i k hk := (h'.agree i k (hk.trans (h.clock_le i))).trans (h.agree i k hk)

theorem has {P : Placement ι} (h : Extends hist w hist' w') {i : ι} {id : UInt64} {c : Nat}
    (hhas : Has P hist w i id c) : Has P hist' w' i id c where
  reached := hhas.reached.trans (h.clock_le i)
  le := by
    rw [h.agree i c hhas.reached]
    exact hhas.le.trans (h.data_le _)

end Extends

/-- The history after node `i` went on to the state `a`. -/
def record [DecidableEq ι] (hist : ι → Nat → S) (w : Net ι S) (i : ι) (a : CausalDisperse S) :
    ι → Nat → S :=
  Function.update hist i fun k => if k ≤ (w.node i).clock then hist i k else a.data

section Step

variable [OrderBot S] [LawfulCRDT S] [DecidableEq ι] {P : Placement ι} {hist : ι → Nat → S}
  {w : Net ι S} {i : ι} {msg : CausalMsg S} {a : CausalDisperse S} {out : List (Output S)}

theorem record_extends (hist : ι → Nat → S) (h : CausalDisperse.Handled (w.node i) msg a out)
    (sent : List (Member × CausalIntraMsg S)) :
    Extends hist w (record hist w i a) ⟨Function.update w.node i a, sent⟩ := by
  refine ⟨fun j => ?_, fun j => ?_, fun j k hk => ?_⟩
  · rcases eq_or_ne j i with rfl | hj
    · simpa using h.clock_mono
    · simp [hj]
  · rcases eq_or_ne j i with rfl | hj
    · simpa using h.data_mono
    · simp [hj]
  · rcases eq_or_ne j i with rfl | hj
    · simp [record, hk]
    · simp [record, hj]

/-- The recorded history has the new data at the new clock. -/
theorem record_current (hinv : Inv P hist w) (h : CausalDisperse.Handled (w.node i) msg a out) :
    record hist w i a i a.clock = a.data := by
  simp only [record, Function.update_self]
  rcases h.tick with ⟨hclock, hdata⟩ | ⟨hclock, -⟩
  · rw [hclock, if_pos le_rfl, hdata]
    exact hinv.current i
  · rw [hclock, if_neg (by omega)]

theorem record_mono (hinv : Inv P hist w) (h : CausalDisperse.Handled (w.node i) msg a out)
    {j k : Nat} (hjk : j ≤ k) (hk : k ≤ a.clock) :
    record hist w i a i j ≤ record hist w i a i k := by
  have hext := record_extends hist h w.sent
  rcases Nat.lt_or_ge (w.node i).clock k with hlt | hle
  · -- the clock has just ticked to `k`
    have hkc : k = a.clock := by
      rcases h.tick with ⟨hclock, -⟩ | ⟨hclock, -⟩ <;> omega
    subst hkc
    rcases Nat.lt_or_ge (w.node i).clock j with hlt' | hle'
    · have hj : j = a.clock := by
        rcases h.tick with ⟨hclock, -⟩ | ⟨hclock, -⟩ <;> omega
      rw [hj]
    · rw [record_current hinv h, hext.agree i j hle']
      calc hist i j ≤ hist i (w.node i).clock := hinv.mono i j _ hle' le_rfl
        _ = (w.node i).data := hinv.current i
        _ ≤ a.data := h.data_mono
  · rw [hext.agree i j (hjk.trans hle), hext.agree i k hle]
    exact hinv.mono i j k hjk hle

omit [LawfulCRDT S] [DecidableEq ι] in
/-- An acknowledgement that arrives is true. -/
theorem Inv.has_of_arrives (hinv : Inv P hist w) {move : Move ι S} {id : UInt64} {c : Nat}
    (harr : Arrives P w i move (.intra (.ack id c))) : Has P hist w i id c := by
  cases harr with
  | «local» msg hfrom => exact hfrom.elim
  | deliver dest msg hsent hsocket => exact hinv.ack _ hsent id c rfl i hsocket

omit [LawfulCRDT S] [DecidableEq ι] in
/-- A delta that arrives brings its receiver to the clock of its sender. -/
theorem Inv.le_of_arrives (hinv : Inv P hist w) {move : Move ι S} {d : S} {id : UInt64} {c : Nat}
    (harr : Arrives P w i move (.intra (.delta d id c))) :
    c ≤ (w.node (P.owner id)).clock ∧ hist (P.owner id) c ≤ (w.node i).data ⊔ d := by
  cases harr with
  | «local» msg hfrom => exact hfrom.elim
  | deliver dest msg hsent hsocket =>
      obtain ⟨hclock, hle⟩ := hinv.delta _ hsent d id c rfl
      exact ⟨hclock, hle i hsocket⟩

omit [SemilatticeSup S] [OrderBot S] [LawfulCRDT S] [DecidableEq ι] in
/-- The members that an update names are where they belong. -/
theorem placed_of_arrives {move : Move ι S} {u : ClusterUpdate}
    (harr : Arrives P w i move (.update u)) :
    (∀ e ∈ u.events, P.PlacedEvent i e) ∧ ∀ m ∈ u.nodes, P.Placed m := by
  cases harr with
  | «local» msg hfrom =>
      exact ⟨hfrom.1, fun m hm => hfrom.2 m (Std.ExtTreeSet.mem_toList.mpr hm)⟩

omit [LawfulCRDT S] [DecidableEq ι] in
/-- The node that moved has a member id of its own. -/
theorem Inv.member_step (hinv : Inv P hist w) {move : Move ι S} (harr : Arrives P w i move msg)
    (h : CausalDisperse.Handled (w.node i) msg a out) {ic : InCluster S}
    (hic : a.state = .inCluster ic) : P.owner ic.member.id = i := by
  rcases h.member_cases hic with ⟨ic₀, hic₀, hsame⟩ | ⟨u, rfl, hnamed⟩
  · rw [hsame]
    exact hinv.member i ic₀ hic₀
  · obtain ⟨hevents, -⟩ := placed_of_arrives harr
    rcases hnamed with hnamed | hnamed
    · exact hevents _ hnamed
    · exact hevents _ hnamed

/-- The counts of the node that moved are true of the new state. -/
theorem Inv.acks_step (hinv : Inv P hist w) {move : Move ι S} (harr : Arrives P w i move msg)
    (h : CausalDisperse.Handled (w.node i) msg a out) (sent : List (Member × CausalIntraMsg S))
    {ic : InCluster S} (hic : a.state = .inCluster ic) {id : UInt64} {m : Member} {c : Nat}
    (hget : ic.acks[id]? = some (m, c)) :
    m.socket = P.socket (P.owner id) ∧
      Has P (record hist w i a) ⟨Function.update w.node i a, sent⟩ i id c := by
  have hext := record_extends hist h sent
  rcases h.acks_cases hic hget with ⟨ic₀, hic₀, hold⟩ | ⟨u, rfl, rfl, rfl, hnamed⟩ |
    ⟨ic₀, cnt, hic₀, rfl, hold, -⟩
  · exact (hinv.acks i ic₀ hic₀ id m c hold).imp_right hext.has
  · obtain ⟨hevents, hnodes⟩ := placed_of_arrives harr
    refine ⟨?_, Nat.zero_le _, ?_⟩
    · rcases hnamed with hadded | hmem
      · exact hevents _ hadded
      · exact hnodes m hmem
    · rw [hext.agree i 0 (Nat.zero_le _), hinv.zero i]
      exact bot_le
  · exact ⟨(hinv.acks i ic₀ hic₀ id m cnt hold).1, hext.has (hinv.has_of_arrives harr)⟩

/-- The log of the node that moved goes with the new history. -/
theorem Inv.log_step (hinv : Inv P hist w) (h : CausalDisperse.Handled (w.node i) msg a out)
    {ic : InCluster S} (hic : a.state = .inCluster ic) :
    DeltaLog (record hist w i a i) ic.minDelta ic.clock ic.deltas := by
  have hext := record_extends hist h w.sent
  refine h.logged ?_ (record_current hinv h) (fun ic₀ hic₀ => ?_) hic
  · rw [hext.agree i _ le_rfl]
    exact hinv.current i
  · refine (hinv.log i ic₀ hic₀).congr fun k hk => hext.agree i k ?_
    rw [CausalDisperse.clock_of_state hic₀]
    exact hk

/-- A dispersal brings a peer with count `cnt` to the clock. -/
theorem le_dispersal (ic : InCluster S) (cnt : Nat) {h : Nat → S} {x : S}
    (hmono : ∀ j k, j ≤ k → k ≤ ic.clock → h j ≤ h k) (hdata : h ic.clock = ic.data)
    (hlog : DeltaLog h ic.minDelta ic.clock ic.deltas) (hle : cnt ≤ ic.clock) (hx : h cnt ≤ x) :
    ∃ d, ic.dispersal cnt = .delta d ic.member.id ic.clock ∧ h ic.clock ≤ x ⊔ d := by
  refine ⟨_, rfl, ?_⟩
  split
  · rw [hdata]
    exact le_sup_right
  · next hmin =>
      have hjoin : (CRDT.join : S → S → S) = (· ⊔ ·) := by
        funext a b
        exact LawfulCRDT.join_eq a b
      rw [hjoin, LawfulCRDT.minimum_eq]
      exact hlog.le_sup_foldl ((hmono _ _ (Nat.le_of_not_lt hmin) hle).trans hx)

/-- A handler keeps the invariant. -/
theorem Inv.step (hinv : Inv P hist w) {move : Move ι S} (harr : Arrives P w i move msg)
    (h : CausalDisperse.Handled (w.node i) msg a out) :
    Inv P (record hist w i a) ⟨Function.update w.node i a, w.sent ++ sends out⟩ := by
  have hext := record_extends hist h (w.sent ++ sends out)
  -- a node either moved, or it and its history are as before
  have hnode : ∀ j : ι, j = i ∧ Function.update w.node i a j = a ∨
      Function.update w.node i a j = w.node j ∧ record hist w i a j = hist j := by
    intro j
    rcases eq_or_ne j i with rfl | hj
    · simp
    · exact .inr (by simp [record, hj])
  have hacks : ∀ {ic : InCluster S}, a.state = .inCluster ic → ∀ {id m c},
      ic.acks[id]? = some (m, c) → m.socket = P.socket (P.owner id) ∧
        Has P (record hist w i a) ⟨Function.update w.node i a, w.sent ++ sends out⟩ i id c :=
    hinv.acks_step harr h _
  refine ⟨fun j => ?_, fun j => ?_, fun j k l hkl hl => ?_, fun j ic hic => ?_, fun j ic hic => ?_,
    fun j ic hic id m c hget => ?_, fun q hq d id c hq' => ?_, fun q hq id c hq' => ?_⟩
  · rw [hext.agree j 0 (Nat.zero_le _)]
    exact hinv.zero j
  · rcases hnode j with ⟨rfl, hj⟩ | ⟨hj, hhist⟩
    · simp only [hj]
      exact record_current hinv h
    · simp only [hj, hhist]
      exact hinv.current j
  · rcases hnode j with ⟨rfl, hj⟩ | ⟨hj, hhist⟩
    · exact record_mono hinv h hkl (hj ▸ hl)
    · rw [hhist]
      exact hinv.mono j k l hkl (hj ▸ hl)
  · rcases hnode j with ⟨rfl, hj⟩ | ⟨hj, hhist⟩
    · exact hinv.log_step h (hj ▸ hic)
    · rw [hhist]
      exact hinv.log j ic (hj ▸ hic)
  · rcases hnode j with ⟨rfl, hj⟩ | ⟨hj, -⟩
    · exact hinv.member_step harr h (hj ▸ hic)
    · exact hinv.member j ic (hj ▸ hic)
  · rcases hnode j with ⟨rfl, hj⟩ | ⟨hj, -⟩
    · exact hacks (hj ▸ hic) hget
    · exact (hinv.acks j ic (hj ▸ hic) id m c hget).imp_right hext.has
  · rcases List.mem_append.mp hq with hq | hq
    · obtain ⟨hclock, hle⟩ := hinv.delta q hq d id c hq'
      refine ⟨hclock.trans (hext.clock_le _), fun j hj => ?_⟩
      rw [hext.agree _ c hclock]
      exact (hle j hj).trans (sup_le_sup_right (hext.data_le j) d)
    · rcases h.send_cases (mem_sends hq) with ⟨ic, peer, cnt, hic, hget, hlt, hm⟩ |
        ⟨_, _, _, _, _, _, _, _, hm⟩
      · obtain ⟨hsocket, hhas⟩ := hacks hic hget
        have hclock := CausalDisperse.clock_of_state hic
        have hown := hinv.member_step harr h hic
        obtain ⟨d', hd', hle⟩ := le_dispersal ic cnt
          (fun j k hjk hk => record_mono hinv h hjk (hclock ▸ hk))
          (by rw [← hclock, record_current hinv h, CausalDisperse.data_of_state hic])
          (hinv.log_step h hic) hlt.le hhas.le
        rw [hm, hd'] at hq'
        cases hq'
        refine ⟨?_, fun j hj => ?_⟩
        · simp [hown, hclock]
        · have hjp : j = P.owner peer := P.socket_injective (hj.symm.trans hsocket)
          rw [hown, hjp]
          exact hle
      · rw [hm] at hq'
        cases hq'
  · intro j hj
    rcases List.mem_append.mp hq with hq | hq
    · exact hext.has (hinv.ack q hq id c hq' j hj)
    · rcases h.send_cases (mem_sends hq) with ⟨_, _, _, _, _, _, hm⟩ |
        ⟨ic, d, sender, clock, cnt, hic, rfl, hget, hm⟩
      · rw [hm] at hq'
        cases hq'
      · rw [hm] at hq'
        cases hq'
        -- the acknowledgement goes to the sender of the delta
        obtain ⟨hsocket, -⟩ := hinv.acks i ic hic sender q.1 cnt hget
        have hjs : j = P.owner sender := P.socket_injective (hj.symm.trans hsocket)
        obtain ⟨hclock, hle⟩ := hinv.le_of_arrives harr
        subst hjs
        refine ⟨hclock.trans (hext.clock_le _), ?_⟩
        rw [hext.agree _ _ hclock, hinv.member i ic hic]
        simpa using hle.trans (h.delta_le hic rfl hget)

end Step

/-! ## Runs -/

variable [OrderBot S] [LawfulCRDT S] [DecidableEq ι] [DecidableEq S] {P : Placement ι}
  {preference : ι → DispersalPreference}

omit [DecidableEq ι] [DecidableEq S] in
theorem Inv.start (P : Placement ι) (preference : ι → DispersalPreference) :
    Inv P (fun _ _ => ⊥) (start preference : Net ι S) where
  zero _ := rfl
  current i := LawfulCRDT.minimum_eq.symm
  mono _ _ _ _ _ := le_rfl
  log _ _ hic := by cases hic
  member _ _ hic := by cases hic
  acks _ _ hic := by cases hic
  delta _ hq := by cases hq
  ack _ hq := by cases hq

/-- Over a run the history goes on. -/
theorem Inv.run {hist : ι → Nat → S} {w w' : Net ι S} {moves : List (Move ι S)}
    (hinv : Inv P hist w) (hrun : (system P preference).Run w moves w') :
    ∃ hist', Inv P hist' w' ∧ Extends hist w hist' w' := by
  induction hrun with
  | nil => exact ⟨hist, hinv, .refl hist w⟩
  | snoc _ hst ih =>
      obtain ⟨hist', hinv', hext⟩ := ih
      obtain ⟨i, msg, a, out, harr, hhandled, rfl⟩ := handled_of_next hst
      exact ⟨_, hinv'.step harr hhandled, hext.trans (record_extends _ hhandled _)⟩

/-- A run passes through every positive clock of every node. -/
theorem passes_clock {w : Net ι S} {moves : List (Move ι S)}
    (hrun : (system P preference).Run (start preference) moves w) (n : ι) {c : Nat} (hpos : 0 < c)
    (hc : c ≤ (w.node n).clock) :
    ∃ (u : Net ι S) (ic : InCluster S), (system P preference).Through (start preference) u w ∧
      (u.node n).state = .inCluster ic ∧ ic.clock = c := by
  induction hrun with
  | nil => exact absurd (hpos.trans_le hc) (Nat.lt_irrefl _)
  | @snoc moves move w w' hrun hst ih =>
      rcases Nat.lt_or_ge (w.node n).clock c with hlt | hle
      · -- the clock has just ticked
        refine ⟨w', ?_⟩
        obtain ⟨i, msg, a, out, -, hhandled, rfl⟩ := handled_of_next hst
        have hclock : (Function.update w.node i a n).clock = c := by
          rcases eq_or_ne n i with rfl | hn
          · simp only [Function.update_self] at hc ⊢
            rcases hhandled.tick with ⟨htick, -⟩ | ⟨htick, -⟩ <;> omega
          · simp only [Function.update_of_ne hn] at hc
            omega
        rcases hstate : (Function.update w.node i a n).state with ic | q
        · refine ⟨ic, ⟨⟨_, hrun.snoc hst⟩, [], .nil⟩, rfl, ?_⟩
          rw [← CausalDisperse.clock_of_state hstate]
          exact hclock
        · have hzero : (Function.update w.node i a n).clock = 0 := by
            unfold CausalDisperse.clock
            rw [hstate]
          omega
      · obtain ⟨u, ic, hthrough, hu⟩ := ih hle
        exact ⟨u, ic, hthrough.snoc hst, hu⟩

/-- Ack soundness.  In every run, if a node has recorded the count `c` for a
peer, then the peer's data is above the data the node had at clock `c`, a clock
that the run passed through; and when every node has recorded its own clock for
every other node, all have the same data. -/
theorem ack_soundness (P : Placement ι) (preference : ι → DispersalPreference) {w : Net ι S}
    (h : (system P preference).Reachable w) :
    (∀ (n : ι) (ic : InCluster S), (w.node n).state = .inCluster ic →
      ∀ (p : UInt64) (m : Member) (c : Nat), ic.acks[p]? = some (m, c) →
        (∀ (u : Net ι S) (ic₀ : InCluster S),
          (system P preference).Through (start preference) u w →
          (u.node n).state = .inCluster ic₀ → ic₀.clock = c →
            ic₀.data ≤ (w.node (P.owner p)).data) ∧
        (c = 0 ∨ ∃ (u : Net ι S) (ic₀ : InCluster S),
          (system P preference).Through (start preference) u w ∧
          (u.node n).state = .inCluster ic₀ ∧ ic₀.clock = c)) ∧
    ((∀ n n' : ι, n ≠ n' → ∃ (ic : InCluster S) (p : UInt64) (m : Member),
        (w.node n).state = .inCluster ic ∧ P.owner p = n' ∧
        ic.acks[p]? = some (m, ic.clock)) →
      ∀ n n' : ι, (w.node n).data = (w.node n').data) := by
  obtain ⟨s, moves, rfl, hrun⟩ := h
  constructor
  · intro n ic hic p m c hget
    refine ⟨fun u ic₀ hthrough hu hclock => ?_, ?_⟩
    · obtain ⟨⟨before, hbefore⟩, after, hafter⟩ := hthrough
      obtain ⟨hist, hinv, -⟩ := (Inv.start P preference).run hbefore
      obtain ⟨hist', hinv', hext⟩ := hinv.run hafter
      have hnow : ic₀.data = hist' n c := by
        rw [hext.agree n c (by rw [CausalDisperse.clock_of_state hu, hclock]),
          ← hclock, ← CausalDisperse.clock_of_state hu, hinv.current n,
          CausalDisperse.data_of_state hu]
      rw [hnow]
      exact (hinv'.acks n ic hic p m c hget).2.le
    · obtain ⟨hist, hinv, -⟩ := (Inv.start P preference).run hrun
      have hreached := (hinv.acks n ic hic p m c hget).2.reached
      rcases Nat.eq_zero_or_pos c with hzero | hpos
      · exact .inl hzero
      · exact .inr (passes_clock hrun n hpos hreached)
  · intro hall
    have hle : ∀ n n' : ι, (w.node n).data ≤ (w.node n').data := by
      intro n n'
      rcases eq_or_ne n n' with rfl | hne
      · exact le_rfl
      · obtain ⟨ic, p, m, hic, hown, hget⟩ := hall n n' hne
        obtain ⟨hist, hinv, -⟩ := (Inv.start P preference).run hrun
        have hhas := (hinv.acks n ic hic p m ic.clock hget).2.le
        rw [← CausalDisperse.clock_of_state hic, hinv.current n, hown] at hhas
        exact hhas
    exact fun n n' => le_antisymm (hle n n') (hle n' n)

/-! ### Two nodes that agree -/

section Two

attribute [local instance] maxNat

instance : LawfulCRDT Nat where
  join_eq _ _ := rfl
  minimum_eq := rfl
  eq_bot_of_empty _ h := of_decide_eq_true h

/-- Even member ids belong to one node, odd ones to the other. -/
def twoSockets : Placement Bool where
  owner id := id % 2 = 0
  socket i := Socket.localhost (if i then 10 else 11)
  socket_injective i j := by revert i j; decide

/-- The member with an id, where `twoSockets` places it. -/
def memberOf (id : UInt64) : Member := ⟨twoSockets.socket (twoSockets.owner id), id, 1⟩

/-- The node of the member joins the other member. -/
def joinsOther (id other : UInt64) : Move Bool Nat :=
  .local (twoSockets.owner id) (.update ⟨[.joined (memberOf id)],
    ((∅ : MemberSet).insert (memberOf id)).insert (memberOf other), .new 1⟩)

/-- Member 2 mutates and tells member 1, which tells it back. -/
def agree : List (Move Bool Nat) :=
  [joinsOther 2 1, joinsOther 1 2, .local true (.mutate (7 : Nat)),
    .deliver false (memberOf 1) (.delta 7 2 1), .deliver true (memberOf 2) (.ack 1 1),
    .deliver true (memberOf 2) (.delta 7 1 1), .deliver false (memberOf 1) (.ack 2 1)]

/-- Both nodes have recorded the clock of the other and have the same data. -/
theorem ack_soundness_two :
    ∃ w : Net Bool Nat, (system twoSockets fun _ => .default).Reachable w ∧
      (w.node true).data = 7 ∧ ∀ n n' : Bool, (w.node n).data = (w.node n').data := by
  have h₀ : (system (S := Nat) twoSockets fun _ => .default).Reachable (start fun _ => .default) :=
    .of_init rfl
  have h := System.reachable_of_exec agree h₀ rfl
  refine ⟨_, h, rfl, (ack_soundness twoSockets (fun _ => .default) h).2 fun n n' hne => ?_⟩
  match n, n' with
  | true, false => exact ⟨_, 1, memberOf 1, rfl, rfl, by decide⟩
  | false, true => exact ⟨_, 2, memberOf 2, rfl, rfl, by decide⟩
  | true, true | false, false => exact absurd rfl hne

end Two

end Net

end AurumActors.Crdt
