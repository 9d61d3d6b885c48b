/-
  Cluster/GossipTimer.lean --- the gossip timers of a clustering actor.

  The actor runs with its mailbox and its timers, which are numbered.  A timer
  that fires only sends `GossipTimeout` to the actor.  The handlers of gossip
  store the handle of the timer that they schedule, the handler of
  `GossipTimeout` drops it.
-/
import AurumActors.Cluster.Representation
import AurumActors.Cluster.Timers

set_option autoImplicit false
set_option linter.dupNamespace false

namespace AurumActors.Cluster

open Std
open AurumActors.Core AurumActors.Foundation

/-! ## What handlers do to timers -/

/-- Outputs about gossip timers. -/
def Output.isGossipTimer : Output → Bool
  | .scheduleGossipTimeout _ | .abortGossipTimeout => true
  | _ => false

def State.isInCluster : State → Bool
  | .inCluster _ => true
  | _ => false

/-- What a handler that ends does to the gossip timers, in order. -/
inductive Timing (c : Cluster) (msg : ClusterMsg) (c' : Cluster) : List Output → Prop
  | none (hkeeps : c.state.isInCluster = true → c'.state.isInCluster = true ∧
      msg ≠ .gossipTimeout ∧ ∀ gossip, msg ≠ .intraMsg (.state gossip)) : Timing c msg c' []
  | join (delay : Nat) (houtside : c.state.isInCluster = false)
      (hinside : c'.state.isInCluster = true) (hmsg : msg ≠ .gossipTimeout) :
      Timing c msg c' [.scheduleGossipTimeout delay]
  | gossip (delay : Nat) (gossip : Gossip) (hinside : c'.state.isInCluster = true)
      (hmsg : msg = .intraMsg (.state gossip)) :
      Timing c msg c' [.abortGossipTimeout, .scheduleGossipTimeout delay]
  | silence (delay : Nat) (hsame : c' = c) (hinside : c.state.isInCluster = true)
      (hmsg : msg = .gossipTimeout) : Timing c msg c' [.scheduleGossipTimeout delay]

theorem isInCluster_eq (state : State) : state.isInCluster = state.gossip?.isSome := by
  cases state <;> rfl

/-- The gossip timers are read off from all timers. -/
theorem filter_isGossipTimer (out : List Output) :
    out.filter Output.isGossipTimer =
      (out.filter Output.isTimer).filter Output.isGossipTimer := by
  rw [List.filter_filter]
  refine List.filter_congr fun x _ => ?_
  cases x <;> rfl

theorem recv_timing {H : RingHash} {o : Oracle} {c c' : Cluster} {msg : ClusterMsg}
    {out : List Output} (h : c.recv H o msg = .ok (c', out)) :
    Timing c msg c' (out.filter Output.isGossipTimer) := by
  have htimed := recv_timed h
  rw [filter_isGossipTimer]
  -- outside the cluster a handler without gossip timers has nothing to keep
  have houtside : c.state.gossip? = none → Timing c msg c' [] := by
    intro hout
    refine .none fun hin => ?_
    rw [isInCluster_eq, hout] at hin
    cases hin
  generalize out.filter Output.isTimer = timers at htimed
  cases htimed with
  | still hstate hmsg =>
      refine .none fun hin => ?_
      rw [isInCluster_eq] at hin ⊢
      refine ⟨?_, hmsg hin⟩
      rcases hstate with hstate | ⟨-, hinside⟩
      · rw [hstate, hin]
      · exact hinside
  | alone png hpinging hcount hinside hmsg => exact houtside (hpinging ▸ rfl)
  | ping png delay hpinging hcount hstate hmsg => exact houtside (hpinging ▸ rfl)
  | join delay hnone hinside hmsg =>
      exact .join delay (by rw [isInCluster_eq, hnone]; rfl) (isInCluster_eq _ ▸ hinside) hmsg
  | gossip delay gossip hinside hmsg =>
      exact .gossip delay gossip (isInCluster_eq _ ▸ hinside) hmsg
  | silence delay hsame hinside hmsg =>
      exact .silence delay hsame (isInCluster_eq _ ▸ hinside) hmsg
  | tick delay hsame hmsg =>
      subst hsame hmsg
      exact .none fun hin => ⟨hin, nofun, nofun⟩

/-! ## The actor among its timers -/

/-- The actor, its mailbox and its gossip timers. -/
structure Clocked where
  cluster : Cluster
  mailbox : List ClusterMsg
  /-- the timer whose handle the field `gossip_timeout` has, if it is one -/
  gossipTimeout : Option Nat
  /-- the timers that sleep -/
  running : List Nat
  nextTimer : Nat

namespace Clocked

/-- Whether a handler stores the handle of a timer that it schedules. -/
def stores : ClusterMsg → Bool
  | .gossipTimeout => false
  | _ => true

/-- One output of a handler that handles `msg`. -/
def act (msg : ClusterMsg) (t : Clocked) : Output → Clocked
  | .abortGossipTimeout => { t with
      running := t.running.filter fun n => t.gossipTimeout ≠ some n }
  | .scheduleGossipTimeout _ => { t with
      gossipTimeout := if stores msg then some t.nextTimer else t.gossipTimeout
      running := t.running ++ [t.nextTimer]
      nextTimer := t.nextTimer + 1 }
  | _ => t

/-- A message from outside arrives, a timer fires, or the actor handles the next
message. -/
inductive Move where
  | arrive (msg : ClusterMsg)
  | fire (timer : Nat)
  | handle (o : Oracle)

def next (H : RingHash) (t : Clocked) : Move → Option Clocked
  | .arrive msg =>
      -- only timers send this message
      if msg = .gossipTimeout then none else some { t with mailbox := t.mailbox ++ [msg] }
  | .fire timer =>
      if timer ∈ t.running then
        some { t with
          running := t.running.erase timer
          mailbox := t.mailbox ++ [.gossipTimeout] }
      else none
  | .handle o =>
      match t.mailbox with
      | [] => none
      | msg :: mailbox =>
          match t.cluster.recv H o msg with
          | .ok (cluster, out) => some (out.foldl (act msg) { t with cluster, mailbox })
          | .error _ => none

/-- The actor after `pre_start`, which schedules no gossip timer. -/
def start (H : RingHash) (o : Oracle) (c : Cluster) : Clocked :=
  ⟨(c.preStart H o).1, [], none, [], 0⟩

def system (H : RingHash) (o : Oracle) (c : Cluster) : System Clocked Move :=
  .ofNext (start H o c) (next H)

/-- At most one timer sleeps, the one whose handle is stored. -/
structure OneTimer (t : Clocked) : Prop where
  atMost : t.running.length ≤ 1
  stored : ∀ timer ∈ t.running, t.gossipTimeout = some timer

/-- The actor hears from the cluster before its timer does: inside the cluster
no `GossipTimeout` is handled. -/
def Heard (t : Clocked) : Move → Prop
  | .handle _ => t.cluster.state.isInCluster = true → t.mailbox.head? ≠ some .gossipTimeout
  | _ => True

/-- The actor handles a gossip inside the cluster. -/
def HandlesGossip (t : Clocked) : Move → Prop
  | .handle _ => t.cluster.state.isInCluster = true ∧
      ∃ gossip, t.mailbox.head? = some (.intraMsg (.state gossip))
  | _ => False

variable {H : RingHash} {o : Oracle} {t t' : Clocked}

/-! ### What the outputs do -/

/-- Only the outputs about gossip timers do anything here. -/
theorem foldl_act (msg : ClusterMsg) (out : List Output) (t : Clocked) :
    out.foldl (act msg) t = (out.filter Output.isGossipTimer).foldl (act msg) t := by
  induction out generalizing t with
  | nil => rfl
  | cons x out ih =>
      cases hx : x.isGossipTimer with
      | true => rw [List.foldl_cons, List.filter_cons_of_pos hx, List.foldl_cons, ih]
      | false =>
          have hsame : act msg t x = t := by
            cases x with
            | scheduleGossipTimeout delay => cases hx
            | abortGossipTimeout => cases hx
            | _ => rfl
          rw [List.foldl_cons, List.filter_cons_of_neg (by simp [hx]), hsame, ih]

/-- A handler that ends: its message, and what it does to the timers. -/
theorem handle_cases (h : t.next H (.handle o) = some t') :
    ∃ msg mailbox c timing, t.mailbox = msg :: mailbox ∧ Timing t.cluster msg c timing ∧
      t' = timing.foldl (act msg) { t with cluster := c, mailbox } := by
  simp only [next] at h
  split at h
  · cases h
  · next msg mailbox hmailbox =>
      split at h
      · next c out hrecv =>
          cases h
          exact ⟨msg, mailbox, c, _, hmailbox, recv_timing hrecv, foldl_act _ _ _⟩
      · cases h

theorem fire_cases {timer : Nat} (h : t.next H (.fire timer) = some t') :
    t' = { t with
      running := t.running.erase timer
      mailbox := t.mailbox ++ [.gossipTimeout] } := by
  simp only [next] at h
  split at h
  · cases h
    rfl
  · cases h

theorem arrive_cases {msg : ClusterMsg} (h : t.next H (.arrive msg) = some t') :
    t' = { t with mailbox := t.mailbox ++ [msg] } := by
  simp only [next] at h
  split at h
  · cases h
  · cases h
    rfl

/-! ### The stored timer -/

/-- The stored handle is of a timer that was scheduled. -/
def Scheduled (t : Clocked) : Prop :=
  ∀ timer, t.gossipTimeout = some timer → timer < t.nextTimer

theorem scheduled_step {m : Move} (ht : t.Scheduled) (h : t.next H m = some t') :
    t'.Scheduled := by
  cases m with
  | arrive msg => rw [arrive_cases h]; exact ht
  | fire timer => rw [fire_cases h]; exact ht
  | handle o =>
      obtain ⟨msg, mailbox, c, timing, -, htiming, rfl⟩ := handle_cases h
      -- a timer that is scheduled last has the highest number
      have hschedule : ∀ (s : Clocked) (delay : Nat), s.Scheduled →
          (s.act msg (.scheduleGossipTimeout delay)).Scheduled := by
        intro s delay hs timer heq
        simp only [act] at heq ⊢
        split at heq
        · cases heq
          exact Nat.lt_succ_self _
        · exact Nat.lt_succ_of_lt (hs timer heq)
      cases htiming with
      | none hkeeps => exact ht
      | join delay _ _ _ => exact hschedule _ delay ht
      | gossip delay _ _ _ => exact hschedule _ delay ht
      | silence delay _ _ _ => exact hschedule _ delay ht

/-- At most the stored timer sleeps, and none outside the cluster. -/
structure Kept (t : Clocked) : Prop where
  one : t.OneTimer
  outside : t.cluster.state.isInCluster = false → t.running = []

/-- The state after a handler that scheduled and stored a timer while no other
one was asleep. -/
theorem Kept.of_single (timer : Nat) (hrunning : t.running = [timer])
    (hstored : t.gossipTimeout = some timer) (hinside : t.cluster.state.isInCluster = true) :
    t.Kept := by
  refine ⟨⟨by simp [hrunning], fun n hn => ?_⟩, fun hout => ?_⟩
  · rw [hrunning, List.mem_singleton] at hn
    rw [hn, hstored]
  · rw [hinside] at hout
    cases hout

/-- Aborting the stored timer leaves no timer. -/
theorem OneTimer.filter_eq_nil (ht : t.OneTimer) :
    (t.running.filter fun n => t.gossipTimeout ≠ some n) = [] := by
  rw [List.filter_eq_nil_iff]
  intro n hn
  simp [ht.stored n hn]

/-- A gossip that is handled leaves one timer. -/
theorem single_of_gossip {msg : ClusterMsg} {gossip : Gossip} (ht : t.OneTimer)
    (hmsg : msg = .intraMsg (.state gossip)) (c : Cluster) (mailbox : List ClusterMsg)
    (delay : Nat) :
    ([.abortGossipTimeout, .scheduleGossipTimeout delay].foldl (act msg)
        { t with cluster := c, mailbox }) =
      ⟨c, mailbox, some t.nextTimer, [t.nextTimer], t.nextTimer + 1⟩ := by
  subst hmsg
  simp only [List.foldl_cons, List.foldl_nil, act, ht.filter_eq_nil]
  rfl

theorem kept_step {m : Move} (ht : t.Kept) (hheard : t.Heard m) (h : t.next H m = some t') :
    t'.Kept := by
  cases m with
  | arrive msg =>
      rw [arrive_cases h]
      exact ⟨⟨ht.one.atMost, ht.one.stored⟩, ht.outside⟩
  | fire timer =>
      rw [fire_cases h]
      refine ⟨⟨?_, fun n hn => ht.one.stored n (List.mem_of_mem_erase hn)⟩, fun hout => ?_⟩
      · exact Nat.le_trans List.erase_sublist.length_le ht.one.atMost
      · simp [ht.outside hout]
  | handle o =>
      obtain ⟨msg, mailbox, c, timing, hmailbox, htiming, rfl⟩ := handle_cases h
      cases htiming with
      | none hkeeps =>
          refine ⟨⟨ht.one.atMost, ht.one.stored⟩, fun hout => ht.outside ?_⟩
          have hout : c.state.isInCluster = false := hout
          by_contra hin
          rw [(hkeeps (by simpa using hin)).1] at hout
          cases hout
      | join delay houtside hinside hmsg =>
          have hstores : stores msg = true := by
            cases msg <;> first | rfl | exact absurd rfl hmsg
          refine Kept.of_single t.nextTimer ?_ ?_ hinside
          · simp [act, ht.outside houtside]
          · simp [act, hstores]
      | gossip delay gossip hinside hmsg =>
          rw [single_of_gossip ht.one hmsg]
          exact Kept.of_single _ rfl rfl hinside
      | silence delay hsame hinside hmsg =>
          refine absurd ?_ (hheard hinside)
          rw [hmailbox, hmsg]
          rfl

theorem kept_reachable {c : Cluster} (h : ((system H o c).restrict Heard).Reachable t) :
    t.Kept := by
  refine h.invariant (S := (system H o c).restrict Heard) (I := Kept) ?_
    fun s m u _ hs hst => kept_step hs hst.2 hst.1
  rintro s rfl
  exact ⟨⟨by simp [start], by simp [start]⟩, fun _ => rfl⟩

theorem scheduled_reachable {c : Cluster} (h : (system H o c).Reachable t) : t.Scheduled := by
  refine h.invariant (S := system H o c) (I := Scheduled) ?_
    fun s m u _ hs hst => scheduled_step hs hst
  rintro s rfl
  exact nofun

/-- A timer scheduled by the timeout of another one is not the stored one. -/
theorem not_oneTimer_of_silence {m : Move} (ht : t.Scheduled) (hsilent : ¬ t.Heard m)
    (h : t.next H m = some t') : ¬ t'.OneTimer := by
  cases m with
  | arrive msg => exact absurd trivial hsilent
  | fire timer => exact absurd trivial hsilent
  | handle o =>
      simp only [Heard, Classical.not_imp, not_not] at hsilent
      obtain ⟨hin, hhead⟩ := hsilent
      obtain ⟨msg, mailbox, c, timing, hmailbox, htiming, rfl⟩ := handle_cases h
      rw [hmailbox] at hhead
      cases hhead
      intro hone
      cases htiming with
      | none hkeeps => exact (hkeeps hin).2.1 rfl
      | join delay houtside hinside hmsg => exact hmsg rfl
      | gossip delay gossip hinside hmsg => cases hmsg
      | silence delay hsame hinside hmsg =>
          have hstored := hone.stored t.nextTimer (by simp [act])
          exact Nat.lt_irrefl _ (ht _ hstored)

/-- In every run whose gossip timeouts are not handled inside the cluster, at
most one timer sleeps, its handle is stored, and a gossip leaves one timer.  The
first such timeout that is handled leaves a timer whose handle is not stored. -/
theorem one_timer_of_heard (H : RingHash) (o : Oracle) (socket : Socket) (id : UInt64)
    (subrs : List Nat) (clrConfig : ClusterConfig) :
    (∀ t, ((system H o (.new socket id subrs clrConfig)).restrict Heard).Reachable t →
      t.OneTimer ∧ ∀ m t', t.HandlesGossip m → t.next H m = some t' →
        ∃ timer, t'.running = [timer] ∧ t'.gossipTimeout = some timer) ∧
    ∀ t m t', (system H o (.new socket id subrs clrConfig)).Reachable t → ¬ t.Heard m →
      t.next H m = some t' → ¬ t'.OneTimer := by
  constructor
  · intro t hreach
    have hkept := kept_reachable hreach
    refine ⟨hkept.one, fun m t' hgossip h => ?_⟩
    cases m with
    | arrive msg => exact hgossip.elim
    | fire timer => exact hgossip.elim
    | handle o =>
        obtain ⟨hin, gossip, hhead⟩ := hgossip
        obtain ⟨msg, mailbox, c, timing, hmailbox, htiming, rfl⟩ := handle_cases h
        rw [hmailbox] at hhead
        cases hhead
        cases htiming with
        | none hkeeps => exact absurd rfl ((hkeeps hin).2.2 gossip)
        | join delay houtside hinside hmsg =>
            rw [hin] at houtside
            cases houtside
        | gossip delay gossip hinside hmsg =>
            rw [single_of_gossip hkept.one hmsg]
            exact ⟨_, rfl, rfl⟩
        | silence delay hsame hinside hmsg => cases hmsg
  · intro t m t' hreach hsilent h
    exact not_oneTimer_of_silence (scheduled_reachable hreach) hsilent h

/-! ### A node that hears nothing for a while -/

instance (t : Clocked) : DecidablePred t.Heard
  | .handle _ => inferInstanceAs (Decidable (_ → _ ≠ _))
  | .arrive _ => .isTrue trivial
  | .fire _ => .isTrue trivial

/-- A gossip arrives and is handled. -/
def hears : List Move :=
  [.arrive (.intraMsg (.state (Node.gossipOf [(Node.seat 11 2, .up)]))),
    .handle Node.firstChoices]

/-- The node joins with a gossip, its timer fires and is handled, and the next
gossip leaves two timers. -/
theorem silence_adds_timer :
    ∃ t, (system RingHash.byId Node.firstChoices Node.seeded).Reachable t ∧
      t.cluster.state.isInCluster = true ∧ t.running = [1, 2] ∧ t.gossipTimeout = some 2 ∧
      ¬ t.OneTimer := by
  have hexec : ∃ t ∈ System.exec (next RingHash.byId)
      (start RingHash.byId Node.firstChoices Node.seeded)
      (hears ++ [.fire 0, .handle Node.firstChoices] ++ hears),
      t.cluster.state.isInCluster = true ∧ t.running = [1, 2] ∧ t.gossipTimeout = some 2 := by
    decide
  obtain ⟨t, ht, hin, hrunning, hstored⟩ := hexec
  refine ⟨t, System.reachable_of_exec _ (.of_init rfl) ht, hin, hrunning, hstored, ?_⟩
  intro hone
  have hlength := hone.atMost
  rw [hrunning] at hlength
  exact absurd hlength (by decide)

/-- Two gossips in a row leave one timer; handling its timeout does not. -/
theorem one_timer_of_heard_seeded :
    (∃ t t' timer, HandlesGossip t (.handle Node.firstChoices) ∧
      t.next RingHash.byId (.handle Node.firstChoices) = some t' ∧ t.OneTimer ∧
      t'.running = [timer] ∧ t'.gossipTimeout = some timer) ∧
    ∃ t t' : Clocked, ¬ t.Heard (.handle Node.firstChoices) ∧
      t.next RingHash.byId (.handle Node.firstChoices) = some t' ∧ ¬ t'.OneTimer := by
  have hmain := one_timer_of_heard RingHash.byId Node.firstChoices (Socket.localhost 10) 1 [0]
    { ClusterConfig.default with
      seedNodes := (∅ : ExtTreeSet Socket compare).insert (Socket.localhost 11) }
  constructor
  · have hexec : ∃ t ∈ System.execWhere Heard (next RingHash.byId)
        (start RingHash.byId Node.firstChoices Node.seeded) (hears ++ hears.take 1),
        t.cluster.state.isInCluster = true ∧ t.mailbox.head? =
          some (.intraMsg (.state (Node.gossipOf [(Node.seat 11 2, .up)]))) ∧
        (t.next RingHash.byId (.handle Node.firstChoices)).isSome := by decide
    obtain ⟨t, ht, hin, hhead, hnext⟩ := hexec
    obtain ⟨t', ht'⟩ := Option.isSome_iff_exists.mp hnext
    have hreach := System.reachable_of_execWhere (C := Heard) _ (.of_init rfl) ht
    have hgossip : HandlesGossip t (.handle Node.firstChoices) := ⟨hin, _, hhead⟩
    obtain ⟨hone, hafter⟩ := hmain.1 t hreach
    obtain ⟨timer, hrunning, hstored⟩ := hafter _ t' hgossip ht'
    exact ⟨t, t', timer, hgossip, ht', hone, hrunning, hstored⟩
  · have hexec : ∃ t ∈ System.exec (next RingHash.byId)
        (start RingHash.byId Node.firstChoices Node.seeded) (hears ++ [.fire 0]),
        ¬ t.Heard (.handle Node.firstChoices) ∧
          (t.next RingHash.byId (.handle Node.firstChoices)).isSome := by decide
    obtain ⟨t, ht, hsilent, hnext⟩ := hexec
    obtain ⟨t', ht'⟩ := Option.isSome_iff_exists.mp hnext
    have hreach := System.reachable_of_exec _ (.of_init rfl) ht
    exact ⟨t, t', hsilent, ht', hmain.2 t _ t' hreach hsilent ht'⟩

end Clocked

end AurumActors.Cluster
