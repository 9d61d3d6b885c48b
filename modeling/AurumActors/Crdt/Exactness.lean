/-
  Crdt/Exactness.lean --- the replicated data are exactly what the nodes put in.

  Beside the network goes a list of the data that every node has added of its
  own.  A property that joins keep passes from them to all the data that nodes
  have and send.
-/
import AurumActors.Crdt.AckSoundness

set_option autoImplicit false

namespace AurumActors.Crdt

open AurumActors.Cluster AurumActors.Core AurumActors.Foundation

attribute [local instance] lexOrd

/-! ## What joins keep -/

namespace CausalDisperse

variable {S : Type} [CRDT S]

/-- What a handler adds of its own: the delta of an operation, or the data of
the operations that waited until the node joined. -/
def introduced (a : CausalDisperse S) : CausalMsg S → S
  | .mutate op =>
      match a.state with
      | .inCluster ic => CRDT.apply op ic.data
      | .waiting _ => CRDT.minimum
  | .update _ =>
      match a.state with
      | .inCluster _ => CRDT.minimum
      | .waiting w => w.opsQueue.foldl
          (fun data op => CRDT.join data (CRDT.apply op data)) CRDT.minimum
  | _ => CRDT.minimum

/-- All data of an actor has a property. -/
def Supported (P : S → Prop) (a : CausalDisperse S) : Prop :=
  ∀ ic, a.state = .inCluster ic → P ic.data ∧ ∀ d ∈ ic.deltas, P d

end CausalDisperse

/-- Joins keep a property, and the least data has it. -/
structure KeptByJoins {S : Type} [CRDT S] (P : S → Prop) : Prop where
  minimum : P CRDT.minimum
  join : ∀ x y, P x → P y → P (CRDT.join x y)

section Support

variable {S : Type} [CRDT S] {P : S → Prop}

theorem KeptByJoins.foldl (hP : KeptByJoins P) {deltas : List S} (h : ∀ d ∈ deltas, P d) {x : S}
    (hx : P x) : P (deltas.foldl CRDT.join x) := by
  induction deltas generalizing x with
  | nil => exact hx
  | cons d deltas ih =>
      exact ih (fun d' hd' => h d' (List.mem_cons_of_mem _ hd'))
        (hP.join x d hx (h d List.mem_cons_self))

/-- What a node disperses has the property of its data and its deltas. -/
theorem KeptByJoins.dispersal (hP : KeptByJoins P) {ic : InCluster S} (hdata : P ic.data)
    (hdeltas : ∀ d ∈ ic.deltas, P d) {cnt c : Nat} {d : S} {id : UInt64}
    (h : ic.dispersal cnt = .delta d id c) : P d := by
  unfold InCluster.dispersal at h
  cases h
  split
  · exact hdata
  · exact hP.foldl hdeltas hP.minimum

namespace CausalDisperse.Handled

variable {a a' : CausalDisperse S} {msg : CausalMsg S} {out : List (Output S)}

/-- A handler keeps a property of the data that what it receives and what it
adds have. -/
theorem supported (h : Handled a msg a' out) (hP : KeptByJoins P) (ha : a.Supported P)
    (hmsg : ∀ d id c, msg = .intra (.delta d id c) → P d) (hnew : P (a.introduced msg)) :
    a'.Supported P := by
  have hgrow : ∀ {ic : InCluster S} {d : S}, P ic.data → (∀ d ∈ ic.deltas, P d) → P d →
      P (ic.grow (CRDT.join ic.data d) d).data ∧
        ∀ d' ∈ (ic.grow (CRDT.join ic.data d) d).deltas, P d' := by
    intro ic d hdata hdeltas hd
    refine ⟨hP.join _ _ hdata hd, fun d' hd' => ?_⟩
    rcases List.mem_append.mp hd' with hd' | hd'
    · exact hdeltas d' hd'
    · rw [List.mem_singleton.mp hd']
      exact hd
  intro ic' hic'
  cases h with
  | «prefer» p p' state => exact ha ic' hic'
  | queue p w op => cases hic'
  | ignore p w msg hmsg => cases hic'
  | join p w u m hlast =>
      cases hic'
      refine ⟨hnew, fun d hd => ?_⟩
      simp only [Waiting.toIc] at hd
      split at hd
      · cases hd
      · rw [List.mem_singleton.mp hd]
        exact hnew
  | opEmpty p ic op => exact ha ic' hic'
  | op p ic ic₁ op sent hgrown hsent =>
      cases hic'
      obtain ⟨hdata, hdeltas⟩ := ha ic rfl
      rw [hgrown]
      exact hgrow hdata hdeltas hnew
  | ack p ic ic₁ id clock hcases =>
      cases hic'
      obtain ⟨hdata, hdeltas⟩ := ha ic rfl
      rcases hcases with rfl | ⟨⟨member, cnt, minId, -, -, -, -, heq⟩, -⟩
      · exact ⟨hdata, hdeltas⟩
      · rw [heq]
        exact ⟨hdata, fun d hd => hdeltas d (List.mem_of_mem_drop hd)⟩
  | deltaUnknown p ic delta id clock => exact ha ic' hic'
  | deltaOld p ic delta id clock member cnt hmember hdata => exact ha ic' hic'
  | deltaNew p ic ic₁ delta id clock member cnt sent hmember hgrown hsent =>
      cases hic'
      obtain ⟨hdata, hdeltas⟩ := ha ic rfl
      rw [hgrown]
      exact hgrow hdata hdeltas (hmsg delta id clock rfl)
  | update p ic ic₁ u disperse sent hevents hsent =>
      cases hic'
      obtain ⟨hdata, -, hdeltas⟩ := InCluster.log_of_events hevents
      change P ic₁.data ∧ ∀ d ∈ ic₁.deltas, P d
      rw [hdata, hdeltas]
      exact ha ic rfl
  | timeout p ic sent hsent => exact ha ic' hic'
  | idle p ic hidle => exact ha ic' hic'

end CausalDisperse.Handled

namespace Net

variable {ι : Type}

/-- All data in a network has a property. -/
structure Supports (P : S → Prop) (w : Net ι S) : Prop where
  node : ∀ i, (w.node i).Supported P
  sent : ∀ q ∈ w.sent, ∀ d id c, q.2 = .delta d id c → P d

theorem supports_start (preference : ι → DispersalPreference) (P : S → Prop) :
    (start preference : Net ι S).Supports P where
  node _ _ hic := by cases hic
  sent _ hq := by cases hq

/-- A move keeps a property of the data that what it adds has. -/
theorem Supports.step [DecidableEq ι] [DecidableEq S] {placement : Placement ι} {w : Net ι S}
    {i : ι} {move : Move ι S} {msg : CausalMsg S} {a : CausalDisperse S} {out : List (Output S)}
    (hw : w.Supports P) (hP : KeptByJoins P) (harr : Arrives placement w i move msg)
    (h : CausalDisperse.Handled (w.node i) msg a out) (hnew : P ((w.node i).introduced msg)) :
    Supports P ⟨Function.update w.node i a, w.sent ++ sends out⟩ := by
  have hmsg : ∀ d id c, msg = .intra (.delta d id c) → P d := by
    rintro d id c rfl
    cases harr with
    | «local» msg hfrom => exact hfrom.elim
    | deliver dest msg hsent hsocket => exact hw.sent _ hsent d id c rfl
  have ha : a.Supported P := h.supported hP (hw.node i) hmsg hnew
  refine ⟨fun j => ?_, fun q hq d id c hd => ?_⟩
  · rcases eq_or_ne j i with rfl | hj
    · simpa only [Function.update_self] using ha
    · simpa only [Function.update_of_ne hj] using hw.node j
  · rcases List.mem_append.mp hq with hq | hq
    · exact hw.sent q hq d id c hd
    · rcases h.send_cases (mem_sends hq) with ⟨ic, peer, cnt, hic, -, -, hm⟩ |
        ⟨_, _, _, _, _, _, _, _, hm⟩
      · obtain ⟨hdata, hdeltas⟩ := ha ic hic
        exact hP.dispersal hdata hdeltas (hm.symm.trans hd)
      · rw [hm] at hd
        cases hd

/-- A message that is handled is one that `recv` returns from. -/
theorem recv_of_handle [DecidableEq ι] [DecidableEq S] {w w' : Net ι S} {i : ι}
    {msg : CausalMsg S} (h : w.handle i msg = some w') :
    ∃ (a : CausalDisperse S) (out : List (Output S)), (w.node i).recv msg = .ok (a, out) ∧
      w' = ⟨Function.update w.node i a, w.sent ++ sends out⟩ := by
  unfold handle at h
  split at h
  · cases h
  · next a out hrecv => exact ⟨a, out, hrecv, (Option.some.inj h).symm⟩

end Net

end Support

/-! ## What the nodes have put in -/

/-- A network, and what every node has added of its own. -/
structure Issuing (ι S : Type) [CRDT S] where
  net : Net ι S
  issued : List (ι × S)

namespace Issuing

variable {ι S : Type} [CRDT S] [DecidableEq ι] [DecidableEq S]

/-- The node that a move reaches. -/
def actor : Net.Move ι S → ι
  | .local i _ | .deliver i _ _ => i

/-- The message that a move brings. -/
def message : Net.Move ι S → CausalMsg S
  | .local _ msg => msg
  | .deliver _ _ msg => .intra msg

def next (placement : Placement ι) (w : Issuing ι S) (move : Net.Move ι S) :
    Option (Issuing ι S) :=
  (w.net.next placement move).map fun net =>
    ⟨net, w.issued ++ [(actor move, (w.net.node (actor move)).introduced (message move))]⟩

def system (placement : Placement ι) (preference : ι → DispersalPreference) :
    System (Issuing ι S) (Net.Move ι S) :=
  .ofNext ⟨Net.start preference, []⟩ (next placement)

/-- A move is a handler of one node. -/
theorem recv_of_next {placement : Placement ι} {w w' : Net ι S} {move : Net.Move ι S}
    (h : w.next placement move = some w') :
    Net.Arrives placement w (actor move) move (message move) ∧
      ∃ (a : CausalDisperse S) (out : List (Output S)),
        (w.node (actor move)).recv (message move) = .ok (a, out) ∧
        w' = ⟨Function.update w.node (actor move) a, w.sent ++ Net.sends out⟩ := by
  unfold Net.next at h
  cases move with
  | «local» i msg =>
      simp only at h
      split at h
      · next hfrom => exact ⟨.local msg hfrom, Net.recv_of_handle h⟩
      · cases h
  | deliver i dest msg =>
      simp only at h
      split at h
      · next hmem => exact ⟨.deliver dest msg hmem.1 hmem.2, Net.recv_of_handle h⟩
      · cases h

theorem reachable_net {placement : Placement ι} {preference : ι → DispersalPreference}
    {w : Issuing ι S} (h : (system placement preference).Reachable w) :
    (Net.system placement preference).Reachable w.net := by
  refine h.project Issuing.net (fun w hw => ?_) fun w move w' _ hst => ?_
  · rw [show w = ⟨Net.start preference, []⟩ from hw]
    rfl
  · obtain ⟨net, hnet, rfl⟩ := Option.map_eq_some_iff.mp hst
    exact .inr ⟨move, hnet⟩

section Lattice

variable [SemilatticeSup S] [OrderBot S] [LawfulCRDT S] {placement : Placement ι}
  {preference : ι → DispersalPreference}

/-- The join of all that was put in. -/
def total (issued : List (ι × S)) : S := (issued.map Prod.snd).foldr (· ⊔ ·) ⊥

omit [DecidableEq ι] [DecidableEq S] [CRDT S] [LawfulCRDT S] in
theorem le_total {issued : List (ι × S)} {e : ι × S} (he : e ∈ issued) : e.2 ≤ total issued := by
  induction issued with
  | nil => cases he
  | cons e' issued ih =>
      rcases List.mem_cons.mp he with rfl | he
      · exact le_sup_left
      · exact (ih he).trans le_sup_right

omit [DecidableEq ι] [DecidableEq S] [CRDT S] [LawfulCRDT S] in
theorem total_le {issued : List (ι × S)} {x : S} (h : ∀ e ∈ issued, e.2 ≤ x) :
    total issued ≤ x := by
  induction issued with
  | nil => exact bot_le
  | cons e issued ih =>
      exact sup_le (h e List.mem_cons_self) (ih fun e' he' => h e' (List.mem_cons_of_mem _ he'))

omit [DecidableEq ι] [DecidableEq S] in
/-- Being below a bound is kept by joins. -/
theorem keptByJoins_le (x : S) : KeptByJoins fun y : S => y ≤ x where
  minimum := by
    rw [LawfulCRDT.minimum_eq]
    exact bot_le
  join y z hy hz := by
    rw [LawfulCRDT.join_eq]
    exact sup_le hy hz

omit [DecidableEq ι] in
/-- What a handler adds is in the data after it. -/
theorem introduced_le {a a' : CausalDisperse S} {msg : CausalMsg S} {out : List (Output S)}
    (hrecv : a.recv msg = .ok (a', out)) : a.introduced msg ≤ a'.data := by
  obtain ⟨p, state⟩ := a
  have hbot : ∀ x : S, (CRDT.minimum : S) ≤ x := by
    intro x
    rw [LawfulCRDT.minimum_eq]
    exact bot_le
  cases msg with
  | setDispersalPreference | intra | disperseTimeout => exact hbot _
  | mutate op =>
      cases state with
      | waiting w => exact hbot _
      | inCluster ic =>
          simp only [CausalDisperse.recv, InCluster.op] at hrecv
          split at hrecv
          · next hempty =>
              change CRDT.apply op ic.data ≤ _
              rw [LawfulCRDT.eq_bot_of_empty _ hempty]
              exact bot_le
          · cases hsent : (ic.grow (CRDT.join ic.data (CRDT.apply op ic.data))
                (CRDT.apply op ic.data)).disperse p with
            | error e =>
                rw [hsent] at hrecv
                cases hrecv
            | ok sent =>
                rw [hsent] at hrecv
                cases hrecv
                change CRDT.apply op ic.data ≤ CRDT.join ic.data (CRDT.apply op ic.data)
                rw [LawfulCRDT.join_eq]
                exact le_sup_right
  | update u =>
      cases state with
      | inCluster ic => exact hbot _
      | waiting w =>
          cases CausalDisperse.handled_of_recv hrecv with
          | ignore _ _ _ hmsg => simp at hmsg
          | join p w u m hlast => exact le_rfl

/-- The data that were put in are in the data of their nodes, and nothing else is
in the data of any node. -/
structure Exact (w : Issuing ι S) : Prop where
  kept : ∀ e ∈ w.issued, e.2 ≤ (w.net.node e.1).data
  supported : w.net.Supports fun x => x ≤ total w.issued

theorem exact_of_reachable {w : Issuing ι S}
    (h : (system placement preference).Reachable w) : Exact w := by
  refine h.invariant (I := Exact) ?_ fun w move w' _ hw hst => ?_
  · rintro w rfl
    refine ⟨fun e he => ?_, Net.supports_start _ _⟩
    cases he
  · obtain ⟨net, hnet, rfl⟩ := Option.map_eq_some_iff.mp hst
    obtain ⟨harr, a, out, hrecv, rfl⟩ := recv_of_next hnet
    have hhandled := CausalDisperse.handled_of_recv hrecv
    generalize hnew : (w.net.node (actor move)).introduced (message move) = x at *
    have hmono : ∀ y, y ≤ total w.issued → y ≤ total (w.issued ++ [(actor move, x)]) :=
      fun y hy => hy.trans (total_le fun e he => le_total (List.mem_append_left _ he))
    have hx : x ≤ total (w.issued ++ [(actor move, x)]) :=
      le_total (List.mem_append_right w.issued (List.mem_singleton_self (actor move, x)))
    refine ⟨fun e he => ?_, ?_⟩
    · have hdata : ∀ i, (w.net.node i).data ≤
          (Function.update w.net.node (actor move) a i).data := by
        intro i
        rcases eq_or_ne i (actor move) with rfl | hi
        · simpa only [Function.update_self] using hhandled.data_mono
        · simp only [Function.update_of_ne hi, le_refl]
      rcases List.mem_append.mp he with he | he
      · exact (hw.kept e he).trans (hdata _)
      · rw [List.mem_singleton.mp he, ← hnew]
        simpa only [Function.update_self] using introduced_le hrecv
    · have hwider : w.net.Supports fun y => y ≤ total (w.issued ++ [(actor move, x)]) :=
        ⟨fun i ic hic => ⟨hmono _ (hw.supported.node i ic hic).1,
          fun d hd => hmono d ((hw.supported.node i ic hic).2 d hd)⟩,
          fun q hq d id c hd => hmono d (hw.supported.sent q hq d id c hd)⟩
      exact hwider.step (keptByJoins_le _) harr hhandled (hnew ▸ hx)

/-- Every node has recorded its own clock for every other node. -/
def AllAcked (placement : Placement ι) (w : Net ι S) : Prop :=
  ∀ n n' : ι, n ≠ n' → ∃ (ic : InCluster S) (p : UInt64) (m : Member),
    (w.node n).state = .inCluster ic ∧ placement.owner p = n' ∧ ic.acks[p]? = some (m, ic.clock)

/-- A node whose clock a peer has acknowledged has nothing that the peer lacks. -/
theorem le_of_allAcked {w : Net ι S} (h : (Net.system placement preference).Reachable w)
    (hall : AllAcked placement w) (n n' : ι) : (w.node n).data ≤ (w.node n').data := by
  obtain ⟨s, moves, rfl, hrun⟩ := h
  rcases eq_or_ne n n' with rfl | hne
  · exact le_rfl
  · obtain ⟨ic, p, m, hic, hown, hget⟩ := hall n n' hne
    obtain ⟨hist, hinv, -⟩ := (Net.Inv.start placement preference).run hrun
    have hhas := (hinv.acks n ic hic p m ic.clock hget).2.le
    rwa [← CausalDisperse.clock_of_state hic, hinv.current n, hown] at hhas

/-- In every run nothing that a node has put in is ever lost at that node, no
node has or sends anything beyond what the nodes have put in, and when all
clocks are acknowledged every node has exactly the join of all of it. -/
theorem data_exact (placement : Placement ι) (preference : ι → DispersalPreference)
    {w : Issuing ι S} (h : (system placement preference).Reachable w) :
    (∀ e ∈ w.issued, e.2 ≤ (w.net.node e.1).data) ∧
    (∀ i, (w.net.node i).data ≤ total w.issued) ∧
    (∀ q ∈ w.net.sent, ∀ d id c, q.2 = .delta d id c → d ≤ total w.issued) ∧
    (AllAcked placement w.net → ∀ i, (w.net.node i).data = total w.issued) := by
  have hexact := exact_of_reachable h
  have hle : ∀ i, (w.net.node i).data ≤ total w.issued := by
    intro i
    cases hstate : (w.net.node i).state with
    | inCluster ic =>
        rw [CausalDisperse.data_of_state hstate]
        exact (hexact.supported.node i ic hstate).1
    | waiting q =>
        have hmin : (w.net.node i).data = CRDT.minimum := by
          unfold CausalDisperse.data
          rw [hstate]
        rw [hmin]
        exact (keptByJoins_le _).minimum
  refine ⟨hexact.kept, hle, hexact.supported.sent, fun hall i => le_antisymm (hle i) ?_⟩
  refine total_le fun e he => (hexact.kept e he).trans ?_
  exact le_of_allAcked (reachable_net h) hall e.1 i

end Lattice

/-! ### Two nodes that agree -/

section Two

attribute [local instance] maxNat

/-- One node puts in 7; both have it when both clocks are acknowledged. -/
theorem data_exact_two : ∃ w : Issuing Bool Nat,
    (system Net.twoSockets fun _ => .default).Reachable w ∧ total w.issued = 7 ∧
      ∀ i, (w.net.node i).data = total w.issued := by
  have h₀ : (system (S := Nat) Net.twoSockets fun _ => .default).Reachable
      ⟨Net.start fun _ => .default, []⟩ := .of_init rfl
  have h := System.reachable_of_exec Net.agree h₀ rfl
  refine ⟨_, h, rfl, (data_exact Net.twoSockets (fun _ => .default) h).2.2.2 fun n n' hne => ?_⟩
  match n, n' with
  | true, false => exact ⟨_, 1, Net.memberOf 1, rfl, rfl, by decide⟩
  | false, true => exact ⟨_, 2, Net.memberOf 2, rfl, rfl, by decide⟩
  | true, true | false, false => exact absurd rfl hne

end Two

end Issuing

end AurumActors.Crdt
