/-
  Cluster/Gossip.lean --- the gossip of `cluster/gossip.rs` and its merge.

  The merge walks through two maps in member order at once.  Its result is
  described entry by entry, and its events as a way from the members that were
  up before to those that are up after.
-/
import AurumActors.Cluster.NodeRing
import AurumActors.Foundation.Maps

set_option autoImplicit false

namespace AurumActors.Cluster

open Std
open AurumActors.Foundation

/-- `Up` is below `Down`. -/
inductive MachineState where
  | up
  | down
  deriving DecidableEq, Repr, Ord

@[simp] theorem MachineState.compare_eq_lt {l r : MachineState} :
    compare l r = .lt ↔ l = .up ∧ r = .down := by
  cases l <;> cases r <;> decide

abbrev States := ExtTreeMap Member MachineState compare

structure Gossip where
  states : States
  deriving DecidableEq

namespace Gossip

/-- What the merge does with an entry of the other gossip whose member is absent:
it is a change, and an event if the member is up. -/
def pushNew (e : Member × MachineState) (rest : List (Member × MachineState) × List ClusterEvent) :
    List (Member × MachineState) × List ClusterEvent :=
  (e :: rest.1, if e.2 = .up then .added e.1 :: rest.2 else rest.2)

/-- The event of an entry that is newer than the present one. -/
def changeEvent : Member × MachineState → ClusterEvent
  | (m, .up) => .added m
  | (m, .down) => .removed m

/-- The loop of `merge` while the left iterator stands at `l`, with what it does
after the left iterator moved. -/
def mergeRight (l : Member × MachineState)
    (next : List (Member × MachineState) →
      List (Member × MachineState) × List ClusterEvent) :
    List (Member × MachineState) → List (Member × MachineState) × List ClusterEvent
  | [] => ([], [])
  | r :: right =>
      match compare l.1 r.1 with
      | .eq =>
          let (changes, events) := next right
          if compare l.2 r.2 = .lt then (r :: changes, changeEvent r :: events)
          else (changes, events)
      | .gt => pushNew r (mergeRight l next right)
      | .lt => next (r :: right)

/-- The loop of `merge` over the entries on both sides: the changes and the
events. -/
def mergeLoop : List (Member × MachineState) → List (Member × MachineState) →
    List (Member × MachineState) × List ClusterEvent
  | [] => fun right => right.foldr pushNew ([], [])
  | l :: left => mergeRight l (mergeLoop left)

/-- `Gossip::merge` -/
def merge (g other : Gossip) : Gossip × List ClusterEvent :=
  let (changes, events) := mergeLoop g.states.toList other.states.toList
  (⟨changes.foldl (fun states e => states.insert e.1 e.2) g.states⟩, events)

/-! ## Entry by entry -/

/-- Whether an entry of the other gossip changes the present state. -/
def newer : Option MachineState → MachineState → Bool
  | none, _ => true
  | some l, r => compare l r = .lt

/-- The event of an entry of the other gossip, given the present state. -/
def news : Option MachineState → Member × MachineState → Option ClusterEvent
  | none, (m, .up) => some (.added m)
  | some .up, (m, .down) => some (.removed m)
  | _, _ => none

/-- Entries in ascending member order. -/
abbrev Ascending (es : List (Member × MachineState)) : Prop :=
  es.Pairwise fun a b => compare a.1 b.1 = .lt

theorem ascending_toList (states : States) : Ascending states.toList :=
  ExtTreeMap.ordered_keys_toList

theorem pushNew_eq {m : Member} {s : MachineState}
    {rest : List (Member × MachineState) × List ClusterEvent} :
    pushNew (m, s) rest = ((m, s) :: rest.1, (news none (m, s)).toList ++ rest.2) := by
  cases s <;> rfl

/-- What the loop returns, by a lookup in the left entries. -/
def collect (get : Member → Option MachineState) (right : List (Member × MachineState)) :
    List (Member × MachineState) × List ClusterEvent :=
  (right.filter fun e => newer (get e.1) e.2, right.filterMap fun e => news (get e.1) e)

theorem collect_cons (get : Member → Option MachineState) (r : Member × MachineState)
    (right : List (Member × MachineState)) :
    collect get (r :: right) =
      (if newer (get r.1) r.2 then r :: (collect get right).1 else (collect get right).1,
        (news (get r.1) r).toList ++ (collect get right).2) := by
  unfold collect
  rw [List.filter_cons, List.filterMap_cons]
  cases news (get r.1) r <;> rfl

/-- The loop is right about every entry, if the lookup agrees with the left
entries on what the right iterator has still to visit. -/
theorem mergeLoop_eq (get : Member → Option MachineState)
    (left right : List (Member × MachineState)) (hleft : Ascending left) (hright : Ascending right)
    (hget : ∀ e ∈ right, ∀ s, get e.1 = some s ↔ (e.1, s) ∈ left) :
    mergeLoop left right = collect get right := by
  induction left generalizing right with
  | nil =>
      induction right with
      | nil => rfl
      | cons r right ih =>
          have hnone : get r.1 = none := by
            rw [Option.eq_none_iff_forall_not_mem]
            intro s hs
            exact List.not_mem_nil ((hget r List.mem_cons_self s).mp hs)
          have hrest := ih (List.pairwise_cons.mp hright).2
            fun e he => hget e (List.mem_cons_of_mem _ he)
          unfold mergeLoop at hrest ⊢
          rw [List.foldr_cons, hrest, pushNew_eq, collect_cons, hnone]
          rfl
  | cons l left ihl =>
      obtain ⟨hl, hleft⟩ := List.pairwise_cons.mp hleft
      unfold mergeLoop
      induction right with
      | nil => rfl
      | cons r right ihr =>
          obtain ⟨hr, hright'⟩ := List.pairwise_cons.mp hright
          unfold mergeRight
          -- entries after `l` that the right side has not passed yet
          have hskip : ∀ e : Member × MachineState, compare l.1 e.1 = .lt →
              ∀ s, (e.1, s) ∈ l :: left ↔ (e.1, s) ∈ left := by
            intro e he s
            rw [List.mem_cons, or_iff_right]
            rintro rfl
            simp at he
          cases hcmp : compare l.1 r.1 with
          | eq =>
              have hlr : l.1 = r.1 := LawfulEqCmp.eq_of_compare hcmp
              have hstate : get r.1 = some l.2 := by
                rw [hget r List.mem_cons_self, ← hlr]
                exact List.mem_cons_self
              have hrest := ihl right hleft hright' fun e he s => by
                rw [hget e (List.mem_cons_of_mem _ he)]
                exact hskip e (hlr ▸ hr e he) s
              rw [collect_cons, hstate, hrest]
              obtain ⟨m, s⟩ := r
              simp only [newer]
              rcases hls : l.2 with _ | _ <;> cases s <;> rfl
          | gt =>
              have hnone : get r.1 = none := by
                rw [Option.eq_none_iff_forall_not_mem]
                intro s hs
                rcases List.mem_cons.mp ((hget r List.mem_cons_self s).mp hs) with heq | hmem
                · rw [← heq] at hcmp
                  simp at hcmp
                · have hlt := hl _ hmem
                  rw [hcmp] at hlt
                  cases hlt
              have hrest := ihr hright' fun e he => hget e (List.mem_cons_of_mem _ he)
              simp only
              rw [hrest, pushNew_eq, collect_cons, hnone]
              rfl
          | lt =>
              simp only
              refine ihl (r :: right) hleft hright fun e he s => ?_
              rw [hget e he]
              refine hskip e ?_ s
              rcases List.mem_cons.mp he with rfl | he
              · exact hcmp
              · exact TransCmp.lt_trans hcmp (hr e he)

/-- The merged state of a member. -/
def combined : Option MachineState → Option MachineState → Option MachineState
  | none, r => r
  | some l, none => some l
  | some l, some r => if compare l r = .lt then some r else some l

theorem mergeLoop_states (g other : Gossip) :
    mergeLoop g.states.toList other.states.toList =
      collect (fun m => g.states[m]?) other.states.toList := by
  refine mergeLoop_eq _ _ _ (ascending_toList _) (ascending_toList _) fun e _ s => ?_
  exact ExtTreeMap.mem_toList_iff_getElem?_eq_some.symm

/-- The events of a merge are the news of the other gossip, in member order. -/
theorem merge_events (g other : Gossip) :
    (g.merge other).2 = other.states.toList.filterMap fun e => news g.states[e.1]? e := by
  unfold merge
  rw [mergeLoop_states]
  rfl

/-- A merge combines the states of every member. -/
theorem merge_getElem? (g other : Gossip) (m : Member) :
    (g.merge other).1.states[m]? = combined g.states[m]? other.states[m]? := by
  unfold merge
  rw [mergeLoop_states]
  simp only [collect]
  have hdistinct : (other.states.toList.filter fun e => newer g.states[e.1]? e.2).Pairwise
      fun e e' => e.1 ≠ e'.1 := by
    refine ((ascending_toList other.states).sublist List.filter_sublist).imp ?_
    rintro e e' hlt heq
    rw [heq] at hlt
    simp at hlt
  rcases hr : other.states[m]? with _ | r
  · -- the other gossip says nothing about `m`
    rw [getElem?_foldl_insert_of_notMem]
    · cases g.states[m]? <;> rfl
    · rintro e he rfl
      have hmem := (List.mem_filter.mp he).1
      rw [ExtTreeMap.mem_toList_iff_getElem?_eq_some, hr] at hmem
      cases hmem
  · cases hnewer : newer g.states[m]? r with
    | true =>
        have hmem : (m, r) ∈ other.states.toList.filter fun e => newer g.states[e.1]? e.2 :=
          List.mem_filter.mpr ⟨ExtTreeMap.mem_toList_iff_getElem?_eq_some.mpr hr, hnewer⟩
        rw [getElem?_foldl_insert_of_mem _ _ hdistinct _ hmem]
        rcases hl : g.states[m]? with _ | l
        · rfl
        · rw [hl] at hnewer
          exact (if_pos (of_decide_eq_true hnewer)).symm
    | false =>
        rw [getElem?_foldl_insert_of_notMem]
        · rcases hl : g.states[m]? with _ | l
          · rw [hl] at hnewer
            cases hnewer
          · rw [hl] at hnewer
            exact (if_neg (of_decide_eq_false hnewer)).symm
        · rintro e he rfl
          obtain ⟨hmem, hnew⟩ := List.mem_filter.mp he
          rw [ExtTreeMap.mem_toList_iff_getElem?_eq_some, hr] at hmem
          cases hmem
          rw [hnewer] at hnew
          cases hnew

/-- A merge forgets no member and brings none back up. -/
theorem merge_mono (g other : Gossip) {m : Member} {s : MachineState}
    (h : g.states[m]? = some s) :
    ∃ s', (g.merge other).1.states[m]? = some s' ∧ (s = .down → s' = .down) := by
  rw [merge_getElem?, h]
  rcases other.states[m]? with _ | r
  · exact ⟨s, rfl, id⟩
  · cases s <;> cases r <;> simp [combined]

/-- A merged entry is from one of the two sides. -/
theorem of_merge_getElem? {g other : Gossip} {m : Member} {s : MachineState}
    (h : (g.merge other).1.states[m]? = some s) :
    g.states[m]? = some s ∨ other.states[m]? = some s := by
  rw [merge_getElem?] at h
  rcases hl : g.states[m]? with _ | l <;> rcases hr : other.states[m]? with _ | r <;>
    rw [hl, hr] at h
  · cases h
  · exact .inr h
  · exact .inl h
  · simp only [combined] at h
    split at h
    · exact .inr h
    · exact .inl h

/-- Only additions and removals, of an entry of the other gossip that is news. -/
theorem of_mem_events {g other : Gossip} {e : ClusterEvent} (h : e ∈ (g.merge other).2) :
    (∃ m, e = .added m ∧ g.states[m]? = none ∧ other.states[m]? = some .up) ∨
    ∃ m, e = .removed m ∧ g.states[m]? = some .up ∧ other.states[m]? = some .down := by
  rw [merge_events] at h
  obtain ⟨⟨m, s⟩, hmem, hnews⟩ := List.mem_filterMap.mp h
  rw [ExtTreeMap.mem_toList_iff_getElem?_eq_some] at hmem
  simp only at hnews
  rcases hl : g.states[m]? with _ | l <;> rw [hl] at hnews
  · cases s with
    | up => cases hnews; exact .inl ⟨m, rfl, hl, hmem⟩
    | down => cases hnews
  · cases l with
    | up =>
        cases s with
        | up => cases hnews
        | down => cases hnews; exact .inr ⟨m, rfl, hl, hmem⟩
    | down => cases s <;> cases hnews

theorem added_mem_events {g other : Gossip} {m : Member} :
    .added m ∈ (g.merge other).2 ↔ g.states[m]? = none ∧ other.states[m]? = some .up := by
  constructor
  · intro h
    rcases of_mem_events h with ⟨m', heq, hl, hr⟩ | ⟨m', heq, -⟩
    · cases heq
      exact ⟨hl, hr⟩
    · cases heq
  · rintro ⟨hl, hr⟩
    rw [merge_events]
    refine List.mem_filterMap.mpr
      ⟨(m, .up), ExtTreeMap.mem_toList_iff_getElem?_eq_some.mpr hr, ?_⟩
    simp only [hl]
    rfl

theorem removed_mem_events {g other : Gossip} {m : Member} :
    .removed m ∈ (g.merge other).2 ↔
      g.states[m]? = some .up ∧ other.states[m]? = some .down := by
  constructor
  · intro h
    rcases of_mem_events h with ⟨m', heq, -⟩ | ⟨m', heq, hl, hr⟩
    · cases heq
    · cases heq
      exact ⟨hl, hr⟩
  · rintro ⟨hl, hr⟩
    rw [merge_events]
    refine List.mem_filterMap.mpr
      ⟨(m, .down), ExtTreeMap.mem_toList_iff_getElem?_eq_some.mpr hr, ?_⟩
    simp only [hl]
    rfl

/-- The other gossip knows every member that an event is about. -/
theorem known_of_mem_events {g other : Gossip} {e : ClusterEvent} (h : e ∈ (g.merge other).2) :
    (∃ m, e = .added m ∧ m ∈ other.states) ∨ ∃ m, e = .removed m ∧ m ∈ other.states := by
  have hmem : ∀ {m s}, other.states[m]? = some s → m ∈ other.states := fun h => by
    rw [ExtTreeMap.mem_iff_isSome_getElem?, h]
    rfl
  rcases of_mem_events h with ⟨m, rfl, -, hr⟩ | ⟨m, rfl, -, hr⟩
  · exact .inl ⟨m, rfl, hmem hr⟩
  · exact .inr ⟨m, rfl, hmem hr⟩

theorem mem_merge_left {g other : Gossip} {m : Member} (h : m ∈ g.states) :
    m ∈ (g.merge other).1.states := by
  rw [ExtTreeMap.mem_iff_isSome_getElem?, Option.isSome_iff_exists] at h ⊢
  obtain ⟨s, hs⟩ := h
  obtain ⟨s', hs', -⟩ := merge_mono g other hs
  exact ⟨s', hs'⟩

/-- A member that is up stays so, unless its removal is an event. -/
theorem merge_up {g other : Gossip} {m : Member} (hup : g.states[m]? = some .up)
    (hnot : .removed m ∉ (g.merge other).2) : (g.merge other).1.states[m]? = some .up := by
  rw [merge_getElem?, hup]
  cases hr : other.states[m]? with
  | none => rfl
  | some r =>
      cases r with
      | up => rfl
      | down => exact absurd (removed_mem_events.mpr ⟨hup, hr⟩) hnot

end Gossip

/-! ## Events and sets of members -/

/-- The member an event is about. -/
def ClusterEvent.member? : ClusterEvent → Option Member
  | .alone m | .joined m | .added m | .removed m => some m
  | .left => none

theorem Gossip.mem_of_event {g other : Gossip} {e : ClusterEvent} (he : e ∈ (g.merge other).2)
    {m : Member} (hm : e.member? = some m) : m ∈ other.states := by
  rcases known_of_mem_events he with ⟨x, rfl, hx⟩ | ⟨x, rfl, hx⟩
  · cases hm
    exact hx
  · cases hm
    exact hx

/-- The events after a first update, on the set of members before them: an added
member is absent and a removed one is present. -/
def replay (nodes : MemberSet) : List ClusterEvent → Option MemberSet
  | [] => some nodes
  | .added m :: es => if m ∈ nodes then none else replay (nodes.insert m) es
  | .removed m :: es => if m ∈ nodes then replay (nodes.erase m) es else none
  | .joined m :: es => replay (nodes.insert m) es
  | .alone _ :: _ | .left :: _ => none

theorem replay_append (nodes : MemberSet) (es es' : List ClusterEvent) :
    replay nodes (es ++ es') = (replay nodes es).bind fun nodes => replay nodes es' := by
  induction es generalizing nodes with
  | nil => rfl
  | cons e es ih =>
      rw [List.cons_append]
      cases e with
      | alone m => rfl
      | left => rfl
      | joined m => exact ih _
      | added m =>
          simp only [replay]
          split
          · rfl
          · exact ih _
      | removed m =>
          simp only [replay]
          split
          · exact ih _
          · rfl

/-- A member that no event is about can be inserted first. -/
theorem replay_insert (nodes : MemberSet) {es : List ClusterEvent} {x : Member}
    (hx : ∀ e ∈ es, e.member? ≠ some x) :
    replay (nodes.insert x) es = (replay nodes es).map fun nodes => nodes.insert x := by
  induction es generalizing nodes with
  | nil => rfl
  | cons e es ih =>
      have htail : ∀ e ∈ es, e.member? ≠ some x := fun e he => hx e (List.mem_cons_of_mem _ he)
      have hne : ∀ m, e.member? = some m → m ≠ x := by
        rintro m hm rfl
        exact hx e List.mem_cons_self hm
      have hcomm : ∀ m, (nodes.insert x).insert m = (nodes.insert m).insert x := by
        intro m
        ext k
        simp only [mem_insert_iff]
        exact or_left_comm
      cases e with
      | alone m => rfl
      | left => rfl
      | joined m =>
          unfold replay
          rw [hcomm, ih _ htail]
      | added m =>
          have hmem : m ∈ nodes.insert x ↔ m ∈ nodes := by
            rw [mem_insert_iff, or_iff_right (hne m rfl)]
          unfold replay
          simp only [hmem]
          split
          · rfl
          · rw [hcomm, ih _ htail]
      | removed m =>
          have hmem : m ∈ nodes.insert x ↔ m ∈ nodes := by
            rw [mem_insert_iff, or_iff_right (hne m rfl)]
          have herase : (nodes.insert x).erase m = (nodes.erase m).insert x := by
            ext k
            simp only [mem_insert_iff, mem_erase_iff]
            constructor
            · rintro ⟨hk, rfl | hmem⟩
              · exact .inl rfl
              · exact .inr ⟨hk, hmem⟩
            · rintro (rfl | ⟨hk, hmem⟩)
              · exact ⟨(hne m rfl).symm, .inl rfl⟩
              · exact ⟨hk, .inr hmem⟩
          unfold replay
          simp only [hmem]
          split
          · rw [herase, ih _ htail]
          · rfl

/-- Additions and removals of distinct members, each possible at the start, can be
replayed. -/
theorem replay_of_distinct (nodes : MemberSet) {es : List ClusterEvent}
    (hdistinct : es.Pairwise fun e e' => e.member? ≠ e'.member?)
    (hes : ∀ e ∈ es, (∃ m, e = .added m ∧ m ∉ nodes) ∨ ∃ m, e = .removed m ∧ m ∈ nodes) :
    ∃ nodes', replay nodes es = some nodes' ∧
      ∀ m, m ∈ nodes' ↔ .added m ∈ es ∨ m ∈ nodes ∧ .removed m ∉ es := by
  induction es generalizing nodes with
  | nil => exact ⟨nodes, rfl, by simp⟩
  | cons e es ih =>
      obtain ⟨hne, htail⟩ := List.pairwise_cons.mp hdistinct
      rcases hes e List.mem_cons_self with ⟨m, rfl, hm⟩ | ⟨m, rfl, hm⟩
      · have hother : ∀ x, (.added x ∈ es ∨ .removed x ∈ es) → x ≠ m := by
          rintro x (hx | hx) rfl
          · exact hne _ hx rfl
          · exact hne _ hx rfl
        obtain ⟨nodes', hreplay, hnodes'⟩ := ih (nodes.insert m) htail fun e he => by
          rcases hes e (List.mem_cons_of_mem _ he) with ⟨x, rfl, hx⟩ | ⟨x, rfl, hx⟩
          · refine .inl ⟨x, rfl, fun hmem => ?_⟩
            rcases (mem_insert_iff _ _ _).mp hmem with heq | hmem
            · exact hother x (.inl he) heq
            · exact hx hmem
          · exact .inr ⟨x, rfl, (mem_insert_iff _ _ _).mpr (.inr hx)⟩
        refine ⟨nodes', ?_, fun x => ?_⟩
        · simp only [replay]
          rw [if_neg hm, hreplay]
        · rw [hnodes' x, mem_insert_iff]
          simp only [List.mem_cons, ClusterEvent.added.injEq, reduceCtorEq, false_or]
          constructor
          · rintro (hx | ⟨rfl | hx, hrem⟩)
            · exact .inl (.inr hx)
            · exact .inl (.inl rfl)
            · exact .inr ⟨hx, hrem⟩
          · rintro ((rfl | hx) | ⟨hx, hrem⟩)
            · exact .inr ⟨.inl rfl, fun hrem => hother x (.inr hrem) rfl⟩
            · exact .inl hx
            · exact .inr ⟨.inr hx, hrem⟩
      · have hother : ∀ x, (.added x ∈ es ∨ .removed x ∈ es) → x ≠ m := by
          rintro x (hx | hx) rfl
          · exact hne _ hx rfl
          · exact hne _ hx rfl
        obtain ⟨nodes', hreplay, hnodes'⟩ := ih (nodes.erase m) htail fun e he => by
          rcases hes e (List.mem_cons_of_mem _ he) with ⟨x, rfl, hx⟩ | ⟨x, rfl, hx⟩
          · exact .inl ⟨x, rfl, fun hmem => hx ((mem_erase_iff _ _ _).mp hmem).2⟩
          · exact .inr ⟨x, rfl, (mem_erase_iff _ _ _).mpr ⟨hother x (.inr he), hx⟩⟩
        refine ⟨nodes', ?_, fun x => ?_⟩
        · simp only [replay]
          rw [if_pos hm, hreplay]
        · rw [hnodes' x, mem_erase_iff]
          simp only [List.mem_cons, ClusterEvent.removed.injEq, reduceCtorEq, false_or, not_or]
          tauto

namespace Gossip

/-- The events of a merge are in ascending order of their members. -/
theorem events_ascending (g other : Gossip) :
    (g.merge other).2.Pairwise fun e e' => ∀ m ∈ e.member?, ∀ m' ∈ e'.member?,
      compare m m' = .lt := by
  rw [merge_events, List.pairwise_filterMap]
  refine (ascending_toList other.states).imp ?_
  rintro ⟨m, s⟩ ⟨m', s'⟩ hlt e he e' he' x hx x' hx'
  have hmember : ∀ {l : Option MachineState} {m : Member} {s : MachineState} {e : ClusterEvent},
      news l (m, s) = some e → e.member? = some m := by
    intro l m s e h
    unfold news at h
    split at h
    · next heq => cases heq; cases h; rfl
    · next heq => cases heq; cases h; rfl
    · cases h
  rw [hmember he] at hx
  rw [hmember he'] at hx'
  cases hx
  cases hx'
  exact hlt

/-- The events of a merge lead from the members that were up to those that are
up. -/
theorem merge_replay (g other : Gossip) {nodes : MemberSet}
    (hnodes : ∀ m, m ∈ nodes ↔ g.states[m]? = some .up) :
    ∃ nodes', replay nodes (g.merge other).2 = some nodes' ∧
      ∀ m, m ∈ nodes' ↔ (g.merge other).1.states[m]? = some .up := by
  have hdistinct : (g.merge other).2.Pairwise fun e e' => e.member? ≠ e'.member? := by
    refine (events_ascending g other).imp_of_mem fun {e e'} he _ hlt heq => ?_
    obtain ⟨m, hm⟩ : ∃ m, e.member? = some m := by
      rcases of_mem_events he with ⟨m, rfl, -⟩ | ⟨m, rfl, -⟩ <;> exact ⟨m, rfl⟩
    have hself := hlt m hm m (heq ▸ hm)
    simp at hself
  obtain ⟨nodes', hreplay, hnodes'⟩ := replay_of_distinct nodes hdistinct fun e he => by
    rcases of_mem_events he with ⟨m, rfl, hl, -⟩ | ⟨m, rfl, hl, -⟩
    · refine .inl ⟨m, rfl, fun hm => ?_⟩
      rw [hnodes, hl] at hm
      cases hm
    · exact .inr ⟨m, rfl, (hnodes m).mpr hl⟩
  refine ⟨nodes', hreplay, fun m => ?_⟩
  rw [hnodes', hnodes, merge_getElem?, added_mem_events, removed_mem_events]
  rcases g.states[m]? with _ | l <;> rcases other.states[m]? with _ | r
  · simp [combined]
  · simp [combined]
  · simp [combined]
  · cases l <;> cases r <;> simp [combined]

/-! ### The join -/

/-- Unknown is below `Up`, and that is below `Down`. -/
def rank : Option MachineState → Nat
  | none => 0
  | some .up => 1
  | some .down => 2

theorem rank_injective : Function.Injective rank := by
  intro l r h
  rcases l with _ | _ | _ <;> rcases r with _ | _ | _ <;> first | rfl | cases h

theorem rank_combined (l r : Option MachineState) :
    rank (combined l r) = max (rank l) (rank r) := by
  rcases l with _ | _ | _ <;> rcases r with _ | _ | _ <;> rfl

/-- A merge takes the greater state of every member. -/
theorem rank_merge (g other : Gossip) (m : Member) :
    rank (g.merge other).1.states[m]? = max (rank g.states[m]?) (rank other.states[m]?) := by
  rw [merge_getElem?, rank_combined]

/-- A gossip is determined by the ranks of the members. -/
theorem eq_of_rank {g g' : Gossip} (h : ∀ m : Member, rank g.states[m]? = rank g'.states[m]?) :
    g = g' := by
  obtain ⟨states⟩ := g
  obtain ⟨states'⟩ := g'
  exact congrArg mk (ExtTreeMap.ext_getElem? fun m => rank_injective (h m))

theorem merge_comm (a b : Gossip) : (a.merge b).1 = (b.merge a).1 :=
  eq_of_rank fun m => by rw [rank_merge, rank_merge, Nat.max_comm]

theorem merge_assoc (a b c : Gossip) :
    ((a.merge b).1.merge c).1 = (a.merge (b.merge c).1).1 :=
  eq_of_rank fun m => by rw [rank_merge, rank_merge, rank_merge, rank_merge, Nat.max_assoc]

theorem merge_self (a : Gossip) : (a.merge a).1 = a :=
  eq_of_rank fun m => by rw [rank_merge, Nat.max_self]

/-- A merge is the pointwise maximum, and reports exactly the members that came up
and those that went down, in ascending order. -/
structure MergesExactly (a b : Gossip) : Prop where
  join : ∀ m : Member,
    rank (a.merge b).1.states[m]? = max (rank a.states[m]?) (rank b.states[m]?)
  added : ∀ m : Member, .added m ∈ (a.merge b).2 ↔
    (a.merge b).1.states[m]? = some .up ∧ a.states[m]? ≠ some .up
  removed : ∀ m : Member, .removed m ∈ (a.merge b).2 ↔
    a.states[m]? = some .up ∧ (a.merge b).1.states[m]? = some .down
  only : ∀ e ∈ (a.merge b).2, ∃ m, e = .added m ∨ e = .removed m
  ascending : (a.merge b).2.Pairwise fun e e' => ∀ m ∈ e.member?, ∀ m' ∈ e'.member?,
    compare m m' = .lt

theorem mergesExactly (a b : Gossip) : MergesExactly a b := by
  refine ⟨rank_merge a b, fun m => ?_, fun m => ?_, fun e he => ?_, events_ascending a b⟩
  · rw [added_mem_events, merge_getElem?]
    rcases a.states[m]? with _ | _ | _ <;> rcases b.states[m]? with _ | _ | _ <;> simp [combined]
  · rw [removed_mem_events, merge_getElem?]
    rcases a.states[m]? with _ | _ | _ <;> rcases b.states[m]? with _ | _ | _ <;> simp [combined]
  · rcases of_mem_events he with ⟨m, rfl, -⟩ | ⟨m, rfl, -⟩
    · exact ⟨m, .inl rfl⟩
    · exact ⟨m, .inr rfl⟩

/-- The merge of gossips is a join, and its events are exact. -/
theorem merge_is_join (a b c : Gossip) :
    MergesExactly a b ∧ (a.merge b).1 = (b.merge a).1 ∧
      ((a.merge b).1.merge c).1 = (a.merge (b.merge c).1).1 ∧ (a.merge a).1 = a :=
  ⟨mergesExactly a b, merge_comm a b, merge_assoc a b c, merge_self a⟩

end Gossip

end AurumActors.Cluster
