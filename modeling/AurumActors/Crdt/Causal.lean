/-
  Crdt/Causal.lean --- the dissemination actor of `cluster/crdt/causal.rs`.

  A handler is a function from the state of the actor and a message to the new
  state and what the handler sends, in order.  A failed `unwrap` or `assert` is
  an error.  A send is an output, and never fails: the hosts of the peers resolve,
  where `udp_select` panics at one that does not.  Clocks are natural numbers: the
  `u64` of the source goes up by one with a change of the data, so a run that
  wraps it has made 2^64 of them.  Subscribers of the data, the failure map and
  the destination of the messages are left out: a publication is one output, and a
  message is addressed to the member it is sent to.
-/
import AurumActors.Cluster.NodeRing
import AurumActors.Foundation.Maps

set_option autoImplicit false

namespace AurumActors.Crdt

open Std
open AurumActors.Cluster AurumActors.Foundation

attribute [local instance] lexOrd

/-! ## The interface of the data -/

/-- `CRDT`, with `DeltaMutator::apply` of its deltas. -/
class CRDT (S : Type) where
  Delta : Type
  apply : Delta → S → S
  empty : S → Bool
  join : S → S → S
  minimum : S

/-- The largest number seen, for concrete runs. -/
@[reducible] def maxNat : CRDT Nat where
  Delta := Nat
  apply n _ := n
  empty n := n = 0
  join := max
  minimum := 0

/-! ## Messages -/

inductive CausalIntraMsg (S : Type) where
  /-- data, the id of the sender and its clock -/
  | delta (delta : S) (id : UInt64) (clock : Nat)
  | ack (id : UInt64) (clock : Nat)
  deriving DecidableEq

inductive DispersalSelector where
  | outOfDate
  | all
  deriving DecidableEq

structure DispersalPreference where
  priority : MemberSet
  amount : UInt32
  selector : DispersalSelector
  /-- in nanoseconds -/
  timeout : Nat
  deriving DecidableEq

/-- `Default for DispersalPreference` -/
def DispersalPreference.default : DispersalPreference := ⟨∅, 1, .outOfDate, 50000000⟩

inductive CausalMsg (S : Type) [CRDT S] where
  | mutate (op : CRDT.Delta S)
  | setDispersalPreference (preference : DispersalPreference)
  | intra (msg : CausalIntraMsg S)
  | update (update : ClusterUpdate)
  | disperseTimeout

/-- What a handler sends. -/
inductive Output (S : Type) where
  /-- a message to the socket of a member -/
  | send (dest : Member) (msg : CausalIntraMsg S)
  /-- the data to the subscribers -/
  | publish (data : S)
  /-- a `DisperseTimeout` to itself after the timeout -/
  | scheduleDisperse (timeout : Nat)
  deriving DecidableEq

/-- The failures of the handlers. -/
inductive Panic where
  /-- a member of `ord_acks` or of the priority is not in `acks` -/
  | noAck
  /-- `assert!(self.ord_acks.remove(..))` -/
  | assertOrdAcks
  /-- `self.ord_acks.iter().next().unwrap()` -/
  | noMinOrd
  /-- `self.deltas.pop_front().unwrap()` -/
  | popFront
  /-- `update.events.pop().unwrap()` -/
  | noEvent
  | unreachable
  deriving DecidableEq

/-! ## Inside the cluster -/

/-- The counts of the peers in their order. -/
abbrev OrdAcks := ExtTreeSet (Nat × UInt64) compare

structure InCluster (S : Type) where
  data : S
  clock : Nat
  member : Member
  cluster : MemberSet
  deltas : List S
  acks : ExtTreeMap UInt64 (Member × Nat) compare
  ordAcks : OrdAcks
  minOrd : Nat
  minDelta : Nat

namespace InCluster

variable {S : Type} [CRDT S]

/-- The members that the iterator of `disperse` collects for `OutOfDate`: the
first `amount` ones without priority. -/
def outOfDate (ic : InCluster S) (priority : MemberSet) :
    Nat → List (Nat × UInt64) → Except Panic (List (Member × Nat))
  | 0, _ | _, [] => .ok []
  | amount + 1, (_, id) :: rest =>
      match ic.acks[id]? with
      | none => .error .noAck
      | some (member, cnt) =>
          if member ∈ priority then ic.outOfDate priority (amount + 1) rest
          else do
            let members ← ic.outOfDate priority amount rest
            return (member, cnt) :: members

/-- `self.acks.get(i).unwrap()` over a list of ids. -/
def lookupAll (ic : InCluster S) : List UInt64 → Except Panic (List (Member × Nat))
  | [] => .ok []
  | id :: ids =>
      match ic.acks[id]? with
      | none => .error .noAck
      | some entry => do
          let entries ← ic.lookupAll ids
          return entry :: entries

/-- The message for a peer with count `cnt`: all data, or the deltas. -/
def dispersal (ic : InCluster S) (cnt : Nat) : CausalIntraMsg S :=
  let delta := ic.deltas.foldl CRDT.join CRDT.minimum
  .delta (if cnt < ic.minDelta then ic.data else delta) ic.member.id ic.clock

/-- `InCluster::disperse` -/
def disperse (ic : InCluster S) (preference : DispersalPreference) :
    Except Panic (List (Output S)) := do
  let toSend ← match preference.selector with
    | .outOfDate =>
        ic.outOfDate preference.priority preference.amount.toNat ic.ordAcks.toList
    | .all => ic.lookupAll (ic.ordAcks.toList.map (·.2))
  let priority ← ic.lookupAll (preference.priority.toList.map (·.id))
  let members := (priority ++ toSend).filter (fun e => e.2 < ic.clock)
  return members.map (fun e => .send e.1 (ic.dispersal e.2)) ++
    [.scheduleDisperse preference.timeout]

/-- `InCluster::ack` -/
def ack (ic : InCluster S) (id : UInt64) (clock : Nat) : Except Panic (InCluster S) :=
  match ic.acks[id]? with
  | none => .ok ic
  | some (member, cnt) =>
      if cnt < clock then
        if (cnt, id) ∈ ic.ordAcks then
          let ordAcks := (ic.ordAcks.erase (cnt, id)).insert (clock, id)
          match ordAcks.toList.head? with
          | none => .error .noMinOrd
          | some (minOrd, _) =>
              if minOrd - ic.minDelta ≤ ic.deltas.length then
                .ok { ic with
                  acks := ic.acks.insert id (member, clock)
                  ordAcks, minOrd
                  deltas := ic.deltas.drop (minOrd - ic.minDelta)
                  minDelta := max ic.minDelta minOrd }
              else .error .popFront
        else .error .assertOrdAcks
      else .ok ic

/-- The data, the deltas and the clock after a change of the data. -/
def grow (ic : InCluster S) (data delta : S) : InCluster S :=
  { ic with data, deltas := ic.deltas ++ [delta], clock := ic.clock + 1 }

/-- `InCluster::op` -/
def op (ic : InCluster S) (preference : DispersalPreference) (op : CRDT.Delta S) :
    Except Panic (InCluster S × List (Output S)) :=
  let d := CRDT.apply op ic.data
  if CRDT.empty d then .ok (ic, [])
  else do
    let ic := ic.grow (CRDT.join ic.data d) d
    let sent ← ic.disperse preference
    return (ic, sent ++ [.publish ic.data])

/-- `InCluster::delta` -/
def delta [DecidableEq S] (ic : InCluster S) (preference : DispersalPreference) (delta : S)
    (id : UInt64) (clock : Nat) : Except Panic (InCluster S × List (Output S)) :=
  match ic.acks[id]? with
  | none => .ok (ic, [])
  | some (member, _) =>
      let ack := Output.send member (.ack ic.member.id clock)
      let newState := CRDT.join ic.data delta
      if newState = ic.data then .ok (ic, [ack])
      else do
        let ic := ic.grow newState delta
        let sent ← ic.disperse preference
        return (ic, ack :: sent ++ [.publish ic.data])

/-- One event in the loop of `update`, with the flag `disperse`. -/
def event (ic : InCluster S) (disperse : Bool) :
    ClusterEvent → Except Panic (InCluster S × Bool)
  | .alone m | .joined m => .ok ({ ic with member := m }, disperse)
  | .removed m =>
      if m.id = ic.member.id then .ok (ic, disperse)
      else match ic.acks[m.id]? with
        | none => .error .noAck
        | some (_, cnt) =>
            if (cnt, m.id) ∈ ic.ordAcks then
              let ordAcks := ic.ordAcks.erase (cnt, m.id)
              .ok ({ ic with
                acks := ic.acks.erase m.id
                ordAcks
                minOrd := (ordAcks.toList.head?.map (·.1)).getD 0 }, true)
            else .error .assertOrdAcks
  | .added m =>
      .ok ({ ic with
        ordAcks := ic.ordAcks.insert (0, m.id)
        acks := ic.acks.insert m.id (m, 0)
        minOrd := 0 }, true)
  | .left => .error .unreachable

/-- The loop of `update`. -/
def events (ic : InCluster S) (disperse : Bool) :
    List ClusterEvent → Except Panic (InCluster S × Bool)
  | [] => .ok (ic, disperse)
  | e :: es => do
      let (ic, disperse) ← ic.event disperse e
      ic.events disperse es

/-- `InCluster::update` -/
def update (ic : InCluster S) (preference : DispersalPreference) (update : ClusterUpdate) :
    Except Panic (InCluster S × List (Output S)) := do
  let (ic, disperse) ← ic.events false update.events
  let ic := { ic with cluster := update.nodes.erase ic.member }
  if disperse then
    let sent ← ic.disperse preference
    return (ic, sent)
  else return (ic, [])

end InCluster

/-! ## The actor -/

/-- `Waiting`, with its `ops_queue`. -/
structure Waiting (S : Type) [CRDT S] where
  opsQueue : List (CRDT.Delta S)

/-- `Waiting::to_ic` -/
def Waiting.toIc {S : Type} [CRDT S] (w : Waiting S) (member : Member) (nodes : MemberSet) :
    InCluster S :=
  let initData := w.opsQueue.foldl
    (fun data op => CRDT.join data (CRDT.apply op data)) CRDT.minimum
  let nodes := nodes.erase member
  { clock := if CRDT.empty initData then 0 else 1
    data := initData
    deltas := if CRDT.empty initData then [] else [initData]
    member
    acks := nodes.toList.foldl (fun acks m => acks.insert m.id (m, 0)) ∅
    ordAcks := nodes.toList.foldl (fun ordAcks m => ordAcks.insert (0, m.id)) ∅
    cluster := nodes
    minOrd := 0
    minDelta := 0 }

/-- `State` -/
inductive State (S : Type) [CRDT S] where
  | inCluster (ic : InCluster S)
  | waiting (w : Waiting S)

/-- The actor, with the dispersal preference of its `Common`. -/
structure CausalDisperse (S : Type) [CRDT S] where
  preference : DispersalPreference
  state : State S

namespace CausalDisperse

variable {S : Type} [CRDT S]

/-- `CausalDisperse::new` -/
protected def new (preference : DispersalPreference) : CausalDisperse S :=
  ⟨preference, .waiting ⟨[]⟩⟩

/-- A handler of `InCluster` in the actor. -/
def inCluster (a : CausalDisperse S) (r : Except Panic (InCluster S × List (Output S))) :
    Except Panic (CausalDisperse S × List (Output S)) :=
  r.map fun (ic, sent) => ({ a with state := .inCluster ic }, sent)

/-- `CausalDisperse::recv` -/
def recv [DecidableEq S] (a : CausalDisperse S) :
    CausalMsg S → Except Panic (CausalDisperse S × List (Output S))
  | .mutate op =>
      match a.state with
      | .inCluster ic => a.inCluster (ic.op a.preference op)
      | .waiting w => .ok ({ a with state := .waiting ⟨w.opsQueue ++ [op]⟩ }, [])
  | .setDispersalPreference preference => .ok ({ a with preference }, [])
  | .intra msg =>
      match a.state with
      | .inCluster ic =>
          match msg with
          | .ack id clock => a.inCluster ((ic.ack id clock).map fun ic => (ic, []))
          | .delta delta id clock => a.inCluster (ic.delta a.preference delta id clock)
      | .waiting _ => .ok (a, [])
  | .update update =>
      match a.state with
      | .inCluster ic => a.inCluster (ic.update a.preference update)
      | .waiting w =>
          match update.events.getLast? with
          | none => .error .noEvent
          | some (.alone m) | some (.joined m) =>
              let ic := w.toIc m update.nodes
              .ok ({ a with state := .inCluster ic }, [.publish ic.data])
          | some _ => .error .unreachable
  | .disperseTimeout =>
      match a.state with
      | .inCluster ic =>
          if ic.minOrd ≠ ic.clock ∧ ¬ ic.acks.isEmpty then
            a.inCluster ((ic.disperse a.preference).map fun sent => (ic, sent))
          else .ok (a, [])
      | .waiting _ => .ok (a, [])

end CausalDisperse

/-! ## What the handlers do -/

namespace InCluster

variable {S : Type}

theorem mem_outOfDate {ic : InCluster S} {priority : MemberSet} {amount : Nat}
    {ids : List (Nat × UInt64)} {entries : List (Member × Nat)}
    (h : ic.outOfDate priority amount ids = .ok entries) :
    ∀ e ∈ entries, ∃ id : UInt64, ic.acks[id]? = some e := by
  induction ids generalizing amount entries with
  | nil =>
      cases amount <;> cases h <;> simp
  | cons id ids ih =>
      cases amount with
      | zero => cases h; simp
      | succ amount =>
          simp only [outOfDate] at h
          split at h
          · cases h
          · next member cnt hget =>
              split at h
              · exact ih h
              · cases hrest : ic.outOfDate priority amount ids with
                | error e => rw [hrest] at h; cases h
                | ok rest =>
                    rw [hrest] at h
                    cases h
                    intro e he
                    rcases List.mem_cons.mp he with rfl | he
                    · exact ⟨id.2, hget⟩
                    · exact ih hrest e he

theorem mem_lookupAll {ic : InCluster S} {ids : List UInt64} {entries : List (Member × Nat)}
    (h : ic.lookupAll ids = .ok entries) : ∀ e ∈ entries, ∃ id ∈ ids, ic.acks[id]? = some e := by
  induction ids generalizing entries with
  | nil => cases h; simp
  | cons id ids ih =>
      simp only [lookupAll] at h
      split at h
      · cases h
      · next entry hget =>
          cases hrest : ic.lookupAll ids with
          | error e => rw [hrest] at h; cases h
          | ok rest =>
              rw [hrest] at h
              cases h
              intro e he
              rcases List.mem_cons.mp he with rfl | he
              · exact ⟨id, List.mem_cons_self, hget⟩
              · obtain ⟨id', hid', hget'⟩ := ih hrest e he
                exact ⟨id', List.mem_cons_of_mem _ hid', hget'⟩

/-- A dispersal sends to peers behind the clock, and then starts one timer. -/
theorem disperse_eq_ok [CRDT S] {ic : InCluster S} {preference : DispersalPreference}
    {sent : List (Output S)} (h : ic.disperse preference = .ok sent) :
    ∃ members : List (Member × Nat),
      (∀ e ∈ members, e.2 < ic.clock ∧ ∃ id : UInt64, ic.acks[id]? = some e) ∧
      sent = members.map (fun e => .send e.1 (ic.dispersal e.2)) ++
        [.scheduleDisperse preference.timeout] := by
  unfold disperse at h
  have key : ∀ toSend priority : List (Member × Nat),
      (∀ e ∈ toSend, ∃ id : UInt64, ic.acks[id]? = some e) →
      (∀ e ∈ priority, ∃ id : UInt64, ic.acks[id]? = some e) →
      ∀ e ∈ (priority ++ toSend).filter (fun e => e.2 < ic.clock),
        e.2 < ic.clock ∧ ∃ id : UInt64, ic.acks[id]? = some e := by
    intro toSend priority ht hp e he
    obtain ⟨hmem, hlt⟩ := List.mem_filter.mp he
    refine ⟨of_decide_eq_true hlt, ?_⟩
    rcases List.mem_append.mp hmem with hmem | hmem
    · exact hp e hmem
    · exact ht e hmem
  have hlookup : ∀ {ids entries}, ic.lookupAll ids = .ok entries →
      ∀ e ∈ entries, ∃ id : UInt64, ic.acks[id]? = some e := fun hok e he =>
    (mem_lookupAll hok e he).imp fun _ hid => hid.2
  cases hp : ic.lookupAll (preference.priority.toList.map (·.id)) with
  | error e =>
      rw [hp] at h
      split at h
      · cases ht : ic.outOfDate preference.priority preference.amount.toNat ic.ordAcks.toList <;>
          rw [ht] at h <;> cases h
      · cases ht : ic.lookupAll (ic.ordAcks.toList.map (·.2)) <;> rw [ht] at h <;> cases h
  | ok priority =>
      rw [hp] at h
      split at h
      · cases ht : ic.outOfDate preference.priority preference.amount.toNat ic.ordAcks.toList with
        | error e => rw [ht] at h; cases h
        | ok toSend =>
            rw [ht] at h
            cases h
            exact ⟨_, key toSend priority (mem_outOfDate ht) (hlookup hp), rfl⟩
      · cases ht : ic.lookupAll (ic.ordAcks.toList.map (·.2)) with
        | error e => rw [ht] at h; cases h
        | ok toSend =>
            rw [ht] at h
            cases h
            exact ⟨_, key toSend priority (hlookup ht) (hlookup hp), rfl⟩

/-- An acknowledgement is recorded. -/
structure Acked (ic : InCluster S) (id : UInt64) (clock : Nat) (ic' : InCluster S) : Prop where
  entry : ∃ member cnt minId, ic.acks[id]? = some (member, cnt) ∧ cnt < clock ∧
    (cnt, id) ∈ ic.ordAcks ∧
    ((ic.ordAcks.erase (cnt, id)).insert (clock, id)).toList.head? = some (ic'.minOrd, minId) ∧
    ic' = { ic with
      acks := ic.acks.insert id (member, clock)
      ordAcks := (ic.ordAcks.erase (cnt, id)).insert (clock, id)
      minOrd := ic'.minOrd
      deltas := ic.deltas.drop (ic'.minOrd - ic.minDelta)
      minDelta := max ic.minDelta ic'.minOrd }
  pops : ic'.minOrd - ic.minDelta ≤ ic.deltas.length

theorem ack_cases {ic ic' : InCluster S} {id : UInt64} {clock : Nat}
    (h : ic.ack id clock = .ok ic') : ic' = ic ∨ ic.Acked id clock ic' := by
  unfold ack at h
  split at h
  · cases h
    exact .inl rfl
  · next member cnt hget =>
      split at h
      · next hlt =>
          split at h
          · next hord =>
              simp only at h
              split at h
              · cases h
              · next minOrd minId hmin =>
                  split at h
                  · next hpops =>
                      cases h
                      exact .inr ⟨⟨member, cnt, minId, hget, hlt, hord, hmin, rfl⟩, hpops⟩
                  · cases h
          · cases h
      · cases h
        exact .inl rfl

/-- An event of the membership. -/
inductive Evented (ic : InCluster S) (disperse : Bool) :
    ClusterEvent → InCluster S → Bool → Prop
  | alone (m : Member) : Evented ic disperse (.alone m) { ic with member := m } disperse
  | joined (m : Member) : Evented ic disperse (.joined m) { ic with member := m } disperse
  | self (m : Member) (h : m.id = ic.member.id) : Evented ic disperse (.removed m) ic disperse
  | removed (m member : Member) (cnt : Nat) (hget : ic.acks[m.id]? = some (member, cnt)) :
      Evented ic disperse (.removed m) { ic with
        acks := ic.acks.erase m.id
        ordAcks := ic.ordAcks.erase (cnt, m.id)
        minOrd := ((ic.ordAcks.erase (cnt, m.id)).toList.head?.map (·.1)).getD 0 } true
  | added (m : Member) : Evented ic disperse (.added m) { ic with
        ordAcks := ic.ordAcks.insert (0, m.id)
        acks := ic.acks.insert m.id (m, 0)
        minOrd := 0 } true

theorem event_cases {ic ic' : InCluster S} {disperse disperse' : Bool} {e : ClusterEvent}
    (h : ic.event disperse e = .ok (ic', disperse')) :
    ic.Evented disperse e ic' disperse' := by
  cases e with
  | alone m => cases h; exact .alone m
  | joined m => cases h; exact .joined m
  | removed m =>
      simp only [event] at h
      split at h
      · next hself => cases h; exact .self m hself
      · split at h
        · cases h
        · next member cnt hget =>
            split at h
            · cases h; exact .removed m member cnt hget
            · cases h
  | added m => cases h; exact .added m
  | left => cases h

/-- What every event keeps, the loop of `update` keeps. -/
theorem events_invariant {P : InCluster S → Bool → Prop} {es : List ClusterEvent}
    (hstep : ∀ ic disperse e ic' disperse', e ∈ es → P ic disperse →
      ic.Evented disperse e ic' disperse' → P ic' disperse') :
    ∀ {ic ic' : InCluster S} {disperse disperse' : Bool}, P ic disperse →
      ic.events disperse es = .ok (ic', disperse') → P ic' disperse' := by
  induction es with
  | nil =>
      intro ic ic' disperse disperse' h heq
      cases heq
      exact h
  | cons e es ih =>
      intro ic ic' disperse disperse' h heq
      simp only [events] at heq
      cases hev : ic.event disperse e with
      | error err => rw [hev] at heq; cases heq
      | ok p =>
          rw [hev] at heq
          exact ih (fun ic d e' ic' d' he' => hstep ic d e' ic' d' (List.mem_cons_of_mem _ he'))
            (hstep _ _ _ _ _ List.mem_cons_self h (event_cases hev)) heq

end InCluster

namespace CausalDisperse

variable {S : Type} [CRDT S] [DecidableEq S]

/-- Everything a handler that returns can do. -/
inductive Handled : CausalDisperse S → CausalMsg S → CausalDisperse S → List (Output S) → Prop
  | prefer (p p' : DispersalPreference) (state : State S) :
      Handled ⟨p, state⟩ (.setDispersalPreference p') ⟨p', state⟩ []
  | queue (p : DispersalPreference) (w : Waiting S) (op : CRDT.Delta S) :
      Handled ⟨p, .waiting w⟩ (.mutate op) ⟨p, .waiting ⟨w.opsQueue ++ [op]⟩⟩ []
  | ignore (p : DispersalPreference) (w : Waiting S) (msg : CausalMsg S)
      (hmsg : msg = .disperseTimeout ∨ ∃ m, msg = .intra m) :
      Handled ⟨p, .waiting w⟩ msg ⟨p, .waiting w⟩ []
  | join (p : DispersalPreference) (w : Waiting S) (update : ClusterUpdate) (m : Member)
      (hlast : update.events.getLast? = some (.alone m) ∨
        update.events.getLast? = some (.joined m)) :
      Handled ⟨p, .waiting w⟩ (.update update) ⟨p, .inCluster (w.toIc m update.nodes)⟩
        [.publish (w.toIc m update.nodes).data]
  | opEmpty (p : DispersalPreference) (ic : InCluster S) (op : CRDT.Delta S) :
      Handled ⟨p, .inCluster ic⟩ (.mutate op) ⟨p, .inCluster ic⟩ []
  | op (p : DispersalPreference) (ic ic' : InCluster S) (op : CRDT.Delta S)
      (sent : List (Output S))
      (hic : ic' = ic.grow (CRDT.join ic.data (CRDT.apply op ic.data)) (CRDT.apply op ic.data))
      (hsent : ic'.disperse p = .ok sent) :
      Handled ⟨p, .inCluster ic⟩ (.mutate op) ⟨p, .inCluster ic'⟩ (sent ++ [.publish ic'.data])
  | ack (p : DispersalPreference) (ic ic' : InCluster S) (id : UInt64) (clock : Nat)
      (h : ic' = ic ∨ ic.Acked id clock ic') :
      Handled ⟨p, .inCluster ic⟩ (.intra (.ack id clock)) ⟨p, .inCluster ic'⟩ []
  | deltaUnknown (p : DispersalPreference) (ic : InCluster S) (delta : S) (id : UInt64)
      (clock : Nat) (hget : ic.acks[id]? = none) :
      Handled ⟨p, .inCluster ic⟩ (.intra (.delta delta id clock)) ⟨p, .inCluster ic⟩ []
  | deltaOld (p : DispersalPreference) (ic : InCluster S) (delta : S) (id : UInt64) (clock : Nat)
      (member : Member) (cnt : Nat) (hget : ic.acks[id]? = some (member, cnt))
      (hdata : CRDT.join ic.data delta = ic.data) :
      Handled ⟨p, .inCluster ic⟩ (.intra (.delta delta id clock)) ⟨p, .inCluster ic⟩
        [.send member (.ack ic.member.id clock)]
  | deltaNew (p : DispersalPreference) (ic ic' : InCluster S) (delta : S) (id : UInt64)
      (clock : Nat) (member : Member) (cnt : Nat) (sent : List (Output S))
      (hget : ic.acks[id]? = some (member, cnt))
      (hic : ic' = ic.grow (CRDT.join ic.data delta) delta) (hsent : ic'.disperse p = .ok sent) :
      Handled ⟨p, .inCluster ic⟩ (.intra (.delta delta id clock)) ⟨p, .inCluster ic'⟩
        (.send member (.ack ic.member.id clock) :: sent ++ [.publish ic'.data])
  | update (p : DispersalPreference) (ic ic' : InCluster S) (update : ClusterUpdate)
      (disperse : Bool) (sent : List (Output S))
      (hevents : ic.events false update.events = .ok (ic', disperse))
      (hsent : if disperse then
          ({ ic' with cluster := update.nodes.erase ic'.member }).disperse p = .ok sent
        else sent = []) :
      Handled ⟨p, .inCluster ic⟩ (.update update)
        ⟨p, .inCluster { ic' with cluster := update.nodes.erase ic'.member }⟩ sent
  | timeout (p : DispersalPreference) (ic : InCluster S) (sent : List (Output S))
      (hsent : ic.disperse p = .ok sent) :
      Handled ⟨p, .inCluster ic⟩ .disperseTimeout ⟨p, .inCluster ic⟩ sent
  | idle (p : DispersalPreference) (ic : InCluster S)
      (hidle : ic.minOrd = ic.clock ∨ ic.acks.isEmpty = true) :
      Handled ⟨p, .inCluster ic⟩ .disperseTimeout ⟨p, .inCluster ic⟩ []

/-- The handlers of `recv`, read once. -/
theorem handled_of_recv {a a' : CausalDisperse S} {msg : CausalMsg S} {out : List (Output S)}
    (h : a.recv msg = .ok (a', out)) : Handled a msg a' out := by
  obtain ⟨p, state⟩ := a
  cases msg with
  | setDispersalPreference p' => cases h; exact .prefer p p' state
  | mutate op =>
      cases state with
      | waiting w => cases h; exact .queue p w op
      | inCluster ic =>
          simp only [recv, InCluster.op] at h
          split at h
          · cases h; exact .opEmpty p ic op
          · generalize hic : ic.grow _ _ = ic' at h
            cases hd : ic'.disperse p with
            | error e => rw [hd] at h; cases h
            | ok sent =>
                rw [hd] at h
                cases h
                exact .op p ic ic' op sent hic.symm hd
  | intra m =>
      cases state with
      | waiting w => cases h; exact .ignore p w _ (.inr ⟨m, rfl⟩)
      | inCluster ic =>
          cases m with
          | ack id clock =>
              simp only [recv] at h
              cases hack : ic.ack id clock with
              | error e => rw [hack] at h; cases h
              | ok ic' =>
                  rw [hack] at h
                  cases h
                  exact .ack p ic ic' id clock (InCluster.ack_cases hack)
          | delta delta id clock =>
              simp only [recv, InCluster.delta] at h
              split at h
              · next hget => cases h; exact .deltaUnknown p ic delta id clock hget
              · next member cnt hget =>
                  split at h
                  · next hdata => cases h; exact .deltaOld p ic delta id clock member cnt hget hdata
                  · generalize hic : ic.grow _ _ = ic' at h
                    cases hd : ic'.disperse p with
                    | error e => rw [hd] at h; cases h
                    | ok sent =>
                        rw [hd] at h
                        cases h
                        exact .deltaNew p ic ic' delta id clock member cnt sent hget hic.symm hd
  | update u =>
      cases state with
      | waiting w =>
          simp only [recv] at h
          split at h
          · cases h
          · next m hlast =>
              cases h
              exact .join p w u m (.inl hlast)
          · next m hlast =>
              cases h
              exact .join p w u m (.inr hlast)
          · cases h
      | inCluster ic =>
          simp only [recv, InCluster.update] at h
          cases hev : ic.events false u.events with
          | error e => rw [hev] at h; cases h
          | ok r =>
              obtain ⟨ic', disperse⟩ := r
              rw [hev] at h
              cases disperse with
              | false => cases h; exact .update p ic ic' u false [] hev rfl
              | true =>
                  cases hd : ({ ic' with cluster := u.nodes.erase ic'.member }).disperse p with
                  | error e =>
                      simp only [Except.bind, bind, hd] at h
                      cases h
                  | ok sent =>
                      simp only [Except.bind, bind, hd] at h
                      injection h with h
                      obtain ⟨rfl, rfl⟩ := Prod.mk.inj h
                      exact .update p ic ic' u true sent hev hd
  | disperseTimeout =>
      cases state with
      | waiting w => cases h; exact .ignore p w _ (.inl rfl)
      | inCluster ic =>
          simp only [recv] at h
          split at h
          · cases hd : ic.disperse p with
            | error e => rw [hd] at h; cases h
            | ok sent =>
                rw [hd] at h
                injection h with h
                obtain ⟨rfl, rfl⟩ := Prod.mk.inj h
                exact .timeout p ic sent hd
          · next hidle =>
              cases h
              refine .idle p ic ?_
              simp only [ne_eq, not_and, Bool.not_eq_true] at hidle
              by_cases hc : ic.minOrd = ic.clock
              · exact .inl hc
              · exact .inr (by simpa using hidle hc)

omit [DecidableEq S] in
/-- What a dispersal sends is the dispersal of its state to a peer behind. -/
theorem send_of_disperse {ic : InCluster S} {p : DispersalPreference} {sent : List (Output S)}
    (h : ic.disperse p = .ok sent) {dest : Member} {m : CausalIntraMsg S}
    (hmem : .send dest m ∈ sent) :
    ∃ (id : UInt64) (cnt : Nat), ic.acks[id]? = some (dest, cnt) ∧ cnt < ic.clock ∧
      m = ic.dispersal cnt := by
  obtain ⟨members, hmembers, rfl⟩ := InCluster.disperse_eq_ok h
  simp only [List.mem_append, List.mem_map, List.mem_singleton, reduceCtorEq, or_false] at hmem
  obtain ⟨⟨dest', cnt⟩, he, heq⟩ := hmem
  cases heq
  obtain ⟨hlt, id, hget⟩ := hmembers _ he
  exact ⟨id, cnt, hget, hlt, rfl⟩

omit [DecidableEq S] in
/-- What a handler sends is the dispersal of its new state to a peer behind, or
the acknowledgement of the delta it handles. -/
theorem Handled.send_cases {a a' : CausalDisperse S} {msg : CausalMsg S} {out : List (Output S)}
    (h : Handled a msg a' out) {dest : Member} {m : CausalIntraMsg S}
    (hmem : .send dest m ∈ out) :
    (∃ (ic' : InCluster S) (id : UInt64) (cnt : Nat), a'.state = .inCluster ic' ∧
      ic'.acks[id]? = some (dest, cnt) ∧ cnt < ic'.clock ∧ m = ic'.dispersal cnt) ∨
    ∃ (ic : InCluster S) (delta : S) (id : UInt64) (clock cnt : Nat), a.state = .inCluster ic ∧
      msg = .intra (.delta delta id clock) ∧ ic.acks[id]? = some (dest, cnt) ∧
      m = .ack ic.member.id clock := by
  cases h with
  | «prefer» p p' state => cases hmem
  | queue p w op => cases hmem
  | ignore p w msg hmsg => cases hmem
  | join p w update m' hlast => simp at hmem
  | opEmpty p ic op => cases hmem
  | op p ic ic' op sent hic hsent =>
      simp only [List.mem_append, List.mem_singleton, reduceCtorEq, or_false] at hmem
      obtain ⟨id, cnt, hsend⟩ := send_of_disperse hsent hmem
      exact .inl ⟨ic', id, cnt, rfl, hsend⟩
  | ack p ic ic' id clock hack => cases hmem
  | deltaUnknown p ic delta id clock => cases hmem
  | deltaOld p ic delta id clock member cnt hget hdata =>
      simp only [List.mem_singleton] at hmem
      cases hmem
      exact .inr ⟨ic, delta, id, clock, cnt, rfl, rfl, hget, rfl⟩
  | deltaNew p ic ic' delta id clock member cnt sent hget hic hsent =>
      simp only [List.cons_append, List.mem_cons, List.mem_append, List.not_mem_nil, reduceCtorEq,
        or_false] at hmem
      rcases hmem with hmem | hmem
      · cases hmem
        exact .inr ⟨ic, delta, id, clock, cnt, rfl, rfl, hget, rfl⟩
      · obtain ⟨id', cnt', hsend⟩ := send_of_disperse hsent hmem
        exact .inl ⟨ic', id', cnt', rfl, hsend⟩
  | update p ic ic' update disperse sent hevents hsent =>
      cases disperse with
      | false =>
          simp only [Bool.false_eq_true, if_false] at hsent
          rw [hsent] at hmem
          cases hmem
      | true =>
          obtain ⟨id, cnt, hsend⟩ := send_of_disperse hsent hmem
          exact .inl ⟨_, id, cnt, rfl, hsend⟩
  | timeout p ic sent hsent =>
      obtain ⟨id, cnt, hsend⟩ := send_of_disperse hsent hmem
      exact .inl ⟨ic, id, cnt, rfl, hsend⟩
  | idle p ic hidle => cases hmem

omit [CRDT S] [DecidableEq S] in
theorem clock_of_events {ic ic' : InCluster S} {es : List ClusterEvent} {disperse : Bool}
    (h : ic.events false es = .ok (ic', disperse)) : ic'.clock = ic.clock := by
  refine InCluster.events_invariant (P := fun ic₁ _ => ic₁.clock = ic.clock) ?_ rfl h
  intro ic₁ d e ic₂ d' _ hclock hev
  cases hev <;> exact hclock

omit [DecidableEq S] in
/-- An actor in the cluster stays there, and its clock does not go back. -/
theorem Handled.clock_le {a a' : CausalDisperse S} {msg : CausalMsg S} {out : List (Output S)}
    (h : Handled a msg a' out) {ic : InCluster S} (hic : a.state = .inCluster ic) :
    ∃ ic', a'.state = .inCluster ic' ∧ ic.clock ≤ ic'.clock := by
  cases h with
  | «prefer» p p' state => exact ⟨ic, hic, le_rfl⟩
  | queue p w op => cases hic
  | ignore p w msg hmsg => cases hic
  | join p w update m' hlast => cases hic
  | opEmpty p ic₁ op => exact ⟨ic, hic, le_rfl⟩
  | op p ic₁ ic' op sent hgrow hsent =>
      cases hic
      exact ⟨ic', rfl, hgrow ▸ Nat.le_succ _⟩
  | ack p ic₁ ic' id clock hack =>
      cases hic
      refine ⟨ic', rfl, ?_⟩
      rcases hack with rfl | ⟨⟨member, cnt, minId, -, -, -, -, heq⟩, -⟩
      · exact le_rfl
      · rw [heq]
  | deltaUnknown p ic₁ delta id clock => exact ⟨ic, hic, le_rfl⟩
  | deltaOld p ic₁ delta id clock member cnt hget hdata => exact ⟨ic, hic, le_rfl⟩
  | deltaNew p ic₁ ic' delta id clock member cnt sent hget hgrow hsent =>
      cases hic
      exact ⟨ic', rfl, hgrow ▸ Nat.le_succ _⟩
  | update p ic₁ ic' update disperse sent hevents hsent =>
      cases hic
      exact ⟨_, rfl, (clock_of_events hevents).ge⟩
  | timeout p ic₁ sent hsent => exact ⟨ic, hic, le_rfl⟩
  | idle p ic₁ hidle => exact ⟨ic, hic, le_rfl⟩

end CausalDisperse

end AurumActors.Crdt
