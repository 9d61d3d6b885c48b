/-
  Cluster/PingPhase.lean --- a clustering actor from its start on, and the pings
  it sends before it is in a cluster.

  `Pinging::ping` counts the attempts down.  Whether `self.count -= 1` panics
  below zero or wraps depends on the build, which is a parameter.  The outputs
  of the actor are kept in a log; a round of pings is a ping timeout in it.
-/
import AurumActors.Cluster.Representation
import AurumActors.Cluster.Timers
import AurumActors.Foundation.Words

set_option autoImplicit false
set_option linter.dupNamespace false

namespace AurumActors.Cluster

open Std
open AurumActors.Core AurumActors.Foundation

/-! ## The actor in a build -/

/-- What became of an actor. -/
inductive Life where
  | running (c : Cluster)
  /-- `self.count -= 1` found zero, in a build that checks it -/
  | underflowed
  | failed (panic : Panic)

/-- An actor and its outputs so far. -/
structure Joining where
  life : Life
  log : List Output

namespace Joining

section Build

variable (checks : Bool) (H : RingHash) (o : Oracle)

/-- `Pinging::ping` -/
def ping (png : Pinging) (common : NodeState) : Except Trap (Pinging × List Output) := do
  let count ← Word.sub checks png.count.toBitVec 1
  return (⟨.ofBitVec count⟩, (png.ping common).2)

/-- `Cluster::pre_start` -/
def start (c : Cluster) : Joining :=
  let tick := Output.scheduleHeartbeatTick c.common.clrConfig.hbInterval
  if c.common.clrConfig.seedNodes.isEmpty then
    let (c, out) := c.createCluster H o
    ⟨.running c, out ++ [tick]⟩
  else
    match ping checks ⟨c.common.clrConfig.numPings⟩ c.common with
    | .ok (png, out) => ⟨.running ⟨c.common, .pinging png⟩, out ++ [tick]⟩
    | .error _ => ⟨.underflowed, []⟩

/-- The actor after a handler. -/
def after (log : List Output) : Except Failure (Cluster × List Output) → Joining
  | .ok (c, out) => ⟨.running c, log ++ out⟩
  | .error f => ⟨.failed f.panic, log ++ f.out⟩

/-- `Cluster::recv` -/
def recv (log : List Output) (c : Cluster) (msg : ClusterMsg) : Joining :=
  match c.state, msg with
  | .pinging png, .pingTimeout =>
      if png.count ≠ 0 then
        match ping checks png c.common with
        | .ok (png, out) => ⟨.running { c with state := .pinging png }, log ++ out⟩
        | .error _ => ⟨.underflowed, log⟩
      else after log (.ok (c.createCluster H o))
  | _, msg => after log (c.recv H o msg)

/-- An actor that runs handles a message. -/
def next (t : Joining) (mv : ClusterMsg × Oracle) : Option Joining :=
  match t.life with
  | .running c => some (recv checks H mv.2 t.log c mv.1)
  | _ => none

def system (c : Cluster) : System Joining (ClusterMsg × Oracle) :=
  .ofNext (start checks H o c) (next checks H)

end Build

/-! ## Rounds and messages -/

/-- How many rounds of pings are among the outputs: each schedules a ping timeout. -/
def rounds (out : List Output) : Nat :=
  out.countP fun
    | .schedulePingTimeout _ => true
    | _ => false

/-- Messages that end the pings of a node with these seeds. -/
def Joins (seeds : ExtTreeSet Socket compare) : ClusterMsg → Prop
  | .intraMsg (.state _) => True
  | .intraMsg (.ping member) => member.socket ∈ seeds
  | _ => False

/-- The node hears of no cluster. -/
def Quiet (seeds : ExtTreeSet Socket compare) (_ : Joining) (mv : ClusterMsg × Oracle) : Prop :=
  ¬ Joins seeds mv.1

/-- How many ping timeouts were handled. -/
def timeouts (mvs : List (ClusterMsg × Oracle)) : Nat :=
  mvs.countP fun mv => mv.1 = .pingTimeout

/-- The pings of a node are bounded: by `num_pings` in every run, with a counter
that is exact, and in a run that hears of no cluster every timeout but the one
after the last round makes another round, and that one makes a cluster of the
node alone. -/
structure Bounded (checks : Bool) (H : RingHash) (o : Oracle) (c : Cluster) : Prop where
  atMost : ∀ t, (system checks H o c).Reachable t →
    rounds t.log ≤ c.common.clrConfig.numPings.toNat
  counted : ∀ t, (system checks H o c).Reachable t → t.life ≠ .underflowed ∧
    ∀ common png, t.life = .running ⟨common, .pinging png⟩ →
      png.count.toNat + rounds t.log = c.common.clrConfig.numPings.toNat
  waits : ∀ mvs t, ((system checks H o c).restrict (Quiet c.common.clrConfig.seedNodes)).Run
      (start checks H o c) mvs t → timeouts mvs < c.common.clrConfig.numPings.toNat →
    rounds t.log = timeouts mvs + 1 ∧ ∃ common png, t.life = .running ⟨common, .pinging png⟩
  givesUp : ∀ mvs t, ((system checks H o c).restrict (Quiet c.common.clrConfig.seedNodes)).Run
      (start checks H o c) mvs t → timeouts mvs + 1 = c.common.clrConfig.numPings.toNat →
    ∃ c', t.life = .running c' ∧ ∀ o', next checks H t (.pingTimeout, o') =
      some (after t.log (.ok (c'.createCluster H o')))

variable {checks : Bool} {H : RingHash} {o : Oracle}

@[simp] theorem rounds_append (out out' : List Output) :
    rounds (out ++ out') = rounds out + rounds out' :=
  List.countP_append

/-- Rounds are read off from the timers. -/
theorem rounds_filter (out : List Output) : rounds (out.filter Output.isTimer) = rounds out := by
  rw [rounds, List.countP_filter]
  refine List.countP_congr fun x _ => ?_
  cases x <;> simp [Output.isTimer]

theorem rounds_ping (png : Pinging) (common : NodeState) : rounds (png.ping common).2 = 1 := by
  rw [← rounds_filter, filter_isTimer_ping]
  rfl

/-- A handler that fails made no round. -/
theorem rounds_of_error {c : Cluster} {msg : ClusterMsg} {f : Failure}
    (h : c.recv H o msg = .error f) : rounds f.out = 0 := by
  rw [rounds, List.countP_eq_zero]
  intro x hx
  have htimers := recv_failed_timers h x hx
  cases x with
  | schedulePingTimeout delay =>
      rcases htimers rfl with heq | ⟨_, heq⟩
      · cases heq
      · cases heq
  | _ => exact Bool.false_ne_true

/-- Both builds subtract where there is something to subtract from. -/
theorem ping_eq {png : Pinging} (common : NodeState) (h : checks = true → png.count ≠ 0) :
    ping checks png common = .ok (png.ping common) := by
  have hfits : checks = true → (1 : BitVec 64).toNat ≤ png.count.toBitVec.toNat := by
    intro hchecks
    have hne : png.count.toNat ≠ 0 := fun heq => h hchecks (UInt64.toNat_inj.mp heq)
    exact Nat.one_le_iff_ne_zero.mpr hne
  rw [ping, Word.sub_eq_ok hfits]
  rfl

/-- A message is handled the same way in both builds. -/
theorem recv_eq (log : List Output) (c : Cluster) (msg : ClusterMsg) :
    recv checks H o log c msg = after log (c.recv H o msg) := by
  obtain ⟨common, state⟩ := c
  unfold recv
  split
  · next png hstate =>
      simp only at hstate
      subst hstate
      simp only [Cluster.recv]
      split
      · next hcount =>
          rw [ping_eq _ fun _ => hcount]
          rfl
      · rfl
  · rfl

section Start

variable {c : Cluster} {s : Socket}

theorem not_isEmpty_seeds (hs : s ∈ c.common.clrConfig.seedNodes) :
    ¬ c.common.clrConfig.seedNodes.isEmpty = true := by
  intro hempty
  rw [ExtTreeSet.isEmpty_iff] at hempty
  simp [hempty] at hs

variable (checks H o) in
/-- The start with a seed makes the first round. -/
theorem start_eq (hs : s ∈ c.common.clrConfig.seedNodes)
    (hchecks : checks = true → c.common.clrConfig.numPings ≠ 0) :
    ∃ out, start checks H o c =
        ⟨.running ⟨c.common, .pinging ⟨c.common.clrConfig.numPings - 1⟩⟩, out⟩ ∧
      rounds out = 1 := by
  have hstart : start checks H o c =
      ⟨.running ⟨c.common, .pinging ⟨c.common.clrConfig.numPings - 1⟩⟩,
        (Pinging.ping ⟨c.common.clrConfig.numPings⟩ c.common).2 ++
          [.scheduleHeartbeatTick c.common.clrConfig.hbInterval]⟩ := by
    rw [start, if_neg (not_isEmpty_seeds hs), ping_eq _ hchecks]
    rfl
  refine ⟨_, hstart, ?_⟩
  rw [rounds_append, rounds_ping]
  rfl

/-- There is no check before the first round. -/
theorem start_underflows (hs : s ∈ c.common.clrConfig.seedNodes)
    (hzero : c.common.clrConfig.numPings = 0) : start true H o c = ⟨.underflowed, []⟩ := by
  rw [start, if_neg (not_isEmpty_seeds hs), hzero]
  rfl

end Start

/-- Only a round takes from the counter, and a node that left its pings does not
go back to them. -/
theorem rounds_of_ok {c c' : Cluster} {msg : ClusterMsg} {out : List Output}
    (h : c.recv H o msg = .ok (c', out)) :
    (rounds out = 0 ∧ ∀ png, c'.state = .pinging png → c.state = .pinging png) ∨
      ∃ png, msg = .pingTimeout ∧ c.state = .pinging png ∧ png.count ≠ 0 ∧ rounds out = 1 ∧
        c'.state = .pinging ⟨png.count - 1⟩ := by
  have htimed := recv_timed h
  rw [← rounds_filter out]
  have hinside : ∀ {state : State}, state.gossip?.isSome = true →
      ∀ png, state = .pinging png → c.state = .pinging png := by
    intro state hsome png heq
    rw [heq] at hsome
    cases hsome
  generalize out.filter Output.isTimer = timers at htimed
  cases htimed with
  | still hstate hmsg =>
      rcases hstate with hstate | ⟨-, hin⟩
      · exact .inl ⟨rfl, fun png hpng => hstate ▸ hpng⟩
      · exact .inl ⟨rfl, hinside hin⟩
  | alone png hpinging hcount hin hmsg => exact .inl ⟨rfl, hinside hin⟩
  | ping png delay hpinging hcount hstate hmsg =>
      exact .inr ⟨png, hmsg, hpinging, hcount, rfl, hstate⟩
  | join delay hnone hin hmsg => exact .inl ⟨rfl, hinside hin⟩
  | gossip delay gossip hin hmsg => exact .inl ⟨rfl, hinside hin⟩
  | silence delay hsame hin hmsg => exact .inl ⟨rfl, fun png hpng => hsame ▸ hpng⟩
  | tick delay hsame hmsg => exact .inl ⟨rfl, fun png hpng => hsame ▸ hpng⟩

theorem next_cases {t t' : Joining} {mv : ClusterMsg × Oracle} (h : next checks H t mv = some t') :
    ∃ c, t.life = .running c ∧ t' = after t.log (c.recv H mv.2 mv.1) := by
  unfold next at h
  split at h
  · next c hlife =>
      cases h
      exact ⟨c, hlife, recv_eq _ _ _⟩
  · cases h

/-- A counter that is not zero counts down exactly. -/
theorem toNat_sub_one {count : UInt64} (h : count ≠ 0) : (count - 1).toNat + 1 = count.toNat := by
  have hpos : 1 ≤ count.toNat :=
    Nat.one_le_iff_ne_zero.mpr fun heq => h (UInt64.toNat_inj.mp heq)
  have hle : (1 : UInt64) ≤ count := UInt64.le_iff_toNat_le.mpr hpos
  rw [UInt64.toNat_sub_of_le _ _ hle]
  exact Nat.sub_add_cancel hpos

/-! ## Every run -/

/-- The rounds made and the attempts left are `n`. -/
structure Counting (n : Nat) (t : Joining) : Prop where
  atMost : rounds t.log ≤ n
  sound : t.life ≠ .underflowed
  exact : ∀ common png, t.life = .running ⟨common, .pinging png⟩ →
    png.count.toNat + rounds t.log = n

theorem counting_step {n : Nat} {t t' : Joining} {mv : ClusterMsg × Oracle}
    (ht : t.Counting n) (h : next checks H t mv = some t') : t'.Counting n := by
  obtain ⟨⟨common, state⟩, hlife, rfl⟩ := next_cases h
  cases hrecv : Cluster.recv H mv.2 ⟨common, state⟩ mv.1 with
  | error f =>
      refine ⟨?_, nofun, nofun⟩
      simp only [after, rounds_append, rounds_of_error hrecv]
      exact ht.atMost
  | ok result =>
      obtain ⟨⟨common', state'⟩, out⟩ := result
      rcases rounds_of_ok hrecv with ⟨hrounds, hback⟩ | ⟨png, -, hpinging, hcount, hrounds, hstate⟩
      · refine ⟨?_, nofun, fun d png heq => ?_⟩
        · simp only [after, rounds_append, hrounds]
          exact ht.atMost
        · cases heq
          have hpinging : state = .pinging png := hback png rfl
          simp only [after, rounds_append, hrounds]
          exact ht.exact common png (hpinging ▸ hlife)
      · have hpinging : state = .pinging png := hpinging
        have hstate : state' = .pinging ⟨png.count - 1⟩ := hstate
        have hexact := ht.exact common png (hpinging ▸ hlife)
        have hless := toNat_sub_one hcount
        refine ⟨?_, nofun, fun d png' heq => ?_⟩
        · simp only [after, rounds_append, hrounds]
          omega
        · cases heq
          cases hstate
          simp only [after, rounds_append, hrounds]
          omega

/-! ## Runs that hear of no cluster -/

/-- After `k` timeouts with `n` attempts left at the start. -/
structure Waiting (config : ClusterConfig) (n k : Nat) (t : Joining) : Prop where
  rounds_eq : rounds t.log = k + 1
  pinging : ∃ common png, t.life = .running ⟨common, .pinging png⟩ ∧
    common.clrConfig = config ∧ png.count.toNat + k = n

/-- Other messages leave a quiet node pinging. -/
theorem recv_waits (png : Pinging) {common : NodeState} {msg : ClusterMsg}
    (hquiet : ¬ Joins common.clrConfig.seedNodes msg) (hmsg : msg ≠ .pingTimeout) :
    ∃ common' out, Cluster.recv H o ⟨common, .pinging png⟩ msg =
        .ok (⟨common', .pinging png⟩, out) ∧ common'.clrConfig = common.clrConfig := by
  cases msg with
  | intraMsg msg =>
      cases msg with
      | foo => exact ⟨_, _, rfl, rfl⟩
      | reqGossip member => exact ⟨_, _, rfl, rfl⟩
      | reqHeartbeat member id =>
          simp only [Cluster.recv, Pinging.process]
          split
          · exact ⟨_, _, rfl, rfl⟩
          · exact ⟨_, _, rfl, rfl⟩
      | state gossip => exact absurd trivial hquiet
      | ping member =>
          have hseed : member.socket ∉ common.clrConfig.seedNodes := hquiet
          simp only [Cluster.recv, Pinging.process, if_pos hseed]
          exact ⟨_, _, rfl, rfl⟩
  | subscribe subr => exact ⟨_, _, rfl, rfl⟩
  | pingTimeout => exact absurd rfl hmsg
  | gossipTimeout => exact ⟨_, _, rfl, rfl⟩
  | downed member => exact ⟨_, _, rfl, rfl⟩
  | heartbeatTick => exact ⟨_, _, rfl, rfl⟩

theorem waiting_step {config : ClusterConfig} {n k : Nat} {t t' : Joining}
    {mv : ClusterMsg × Oracle} (ht : t.Waiting config n k) (hquiet : Quiet config.seedNodes t mv)
    (h : next checks H t mv = some t') :
    (mv.1 ≠ .pingTimeout → t'.Waiting config n k) ∧
      (mv.1 = .pingTimeout → k < n → t'.Waiting config n (k + 1)) := by
  obtain ⟨msg, o⟩ := mv
  obtain ⟨common, png, hlife, hconfig, hcount⟩ := ht.pinging
  obtain ⟨c, hrunning, rfl⟩ := next_cases h
  rw [hlife] at hrunning
  cases hrunning
  constructor
  · intro hmsg
    have hquiet : ¬ Joins common.clrConfig.seedNodes msg := by rwa [hconfig]
    obtain ⟨common', out, hrecv, hsame⟩ := recv_waits (H := H) (o := o) png hquiet hmsg
    have hrounds : rounds out = 0 := by
      rcases rounds_of_ok hrecv with ⟨hrounds, -⟩ | ⟨-, htimeout, -⟩
      · exact hrounds
      · exact absurd htimeout hmsg
    rw [hrecv]
    refine ⟨?_, common', png, rfl, hsame.trans hconfig, hcount⟩
    simp only [after, rounds_append, hrounds, ht.rounds_eq]
  · intro hmsg hk
    have hne : png.count ≠ 0 := by
      intro hzero
      rw [hzero, UInt64.toNat_zero] at hcount
      omega
    have hless := toNat_sub_one hne
    simp only at hmsg
    subst hmsg
    simp only [Cluster.recv, if_pos hne, after]
    refine ⟨?_, common, ⟨png.count - 1⟩, rfl, hconfig, ?_⟩
    · rw [rounds_append, rounds_ping, ht.rounds_eq]
    · simp only
      omega

theorem timeouts_append (mvs : List (ClusterMsg × Oracle)) (mv : ClusterMsg × Oracle) :
    timeouts (mvs ++ [mv]) = timeouts mvs + if mv.1 = .pingTimeout then 1 else 0 := by
  simp [timeouts, List.countP_singleton]

/-- In a run that hears of no cluster every timeout makes a round, as long as
there are attempts left. -/
theorem waiting_of_run {c : Cluster} {n : Nat} {mvs : List (ClusterMsg × Oracle)} {t : Joining}
    (hstart : (start checks H o c).Waiting c.common.clrConfig n 0)
    (hrun : ((system checks H o c).restrict (Quiet c.common.clrConfig.seedNodes)).Run
      (start checks H o c) mvs t) (hmvs : timeouts mvs ≤ n) :
    t.Waiting c.common.clrConfig n (timeouts mvs) := by
  induction hrun with
  | nil => exact hstart
  | @snoc mvs mv t u _ hst ih =>
      rw [timeouts_append] at hmvs ⊢
      have hwaiting := ih (Nat.le_trans (Nat.le_add_right _ _) hmvs)
      obtain ⟨hother, htimeout⟩ := waiting_step hwaiting hst.2 hst.1
      by_cases hmsg : mv.1 = .pingTimeout
      · rw [if_pos hmsg] at hmvs ⊢
        exact htimeout hmsg hmvs
      · rw [if_neg hmsg]
        exact hother hmsg

/-- With no attempt left, a timeout makes a cluster of the node alone. -/
theorem alone_of_waiting {config : ClusterConfig} {n : Nat} {t : Joining}
    (ht : t.Waiting config n n) :
    ∃ c', t.life = .running c' ∧ ∀ o', next checks H t (.pingTimeout, o') =
      some (after t.log (.ok (c'.createCluster H o'))) := by
  obtain ⟨common, png, hlife, -, hcount⟩ := ht.pinging
  have hzero : png.count = 0 := UInt64.toNat_inj.mp (Nat.add_eq_right.mp hcount)
  refine ⟨_, hlife, fun o' => ?_⟩
  unfold next
  rw [hlife]
  simp only [recv_eq, Cluster.recv, hzero]
  rfl

/-! ## The ping phase -/

/-- A node that is told to send no pings and is built without checks makes a
round at every timeout for longer than any run lasts. -/
theorem pings_on {c : Cluster} {s : Socket} (hs : s ∈ c.common.clrConfig.seedNodes)
    (hzero : c.common.clrConfig.numPings = 0) {mvs : List (ClusterMsg × Oracle)} {t : Joining}
    (hrun : ((system false H o c).restrict (Quiet c.common.clrConfig.seedNodes)).Run
      (start false H o c) mvs t) (hmvs : timeouts mvs < 2 ^ 64) :
    rounds t.log = timeouts mvs + 1 := by
  obtain ⟨out, hstart, hrounds⟩ := start_eq false H o hs nofun
  have hwaiting : (start false H o c).Waiting c.common.clrConfig (2 ^ 64 - 1) 0 := by
    rw [hstart, hzero]
    exact ⟨hrounds, c.common, _, rfl, rfl, rfl⟩
  exact (waiting_of_run hwaiting hrun (by omega)).rounds_eq

theorem not_bounded_of_zero {c : Cluster} {s : Socket} (hs : s ∈ c.common.clrConfig.seedNodes)
    (hzero : c.common.clrConfig.numPings = 0) : ¬ Bounded checks H o c := by
  intro hbounded
  have hinit : (system checks H o c).Reachable (start checks H o c) := .of_init rfl
  cases checks with
  | true =>
      refine (hbounded.counted _ hinit).1 ?_
      rw [start_underflows hs hzero]
  | false =>
      obtain ⟨out, hstart, hrounds⟩ := start_eq false H o hs nofun
      have hatMost := hbounded.atMost _ hinit
      rw [hstart, hzero, hrounds] at hatMost
      exact absurd hatMost (by decide)

theorem bounded_of_ne_zero {c : Cluster} {s : Socket} (hs : s ∈ c.common.clrConfig.seedNodes)
    (hne : c.common.clrConfig.numPings ≠ 0) : Bounded checks H o c := by
  obtain ⟨out, hstart, hrounds⟩ := start_eq checks H o hs fun _ => hne
  have hless := toNat_sub_one hne
  have hcounting : (start checks H o c).Counting c.common.clrConfig.numPings.toNat := by
    rw [hstart]
    refine ⟨?_, nofun, fun common png heq => ?_⟩
    · rw [hrounds, ← hless]
      exact Nat.le_add_left _ _
    · cases heq
      rw [hrounds, hless]
  have hreach : ∀ t, (system checks H o c).Reachable t →
      t.Counting c.common.clrConfig.numPings.toNat := by
    intro t h
    refine h.invariant (S := system checks H o c)
      (I := Counting c.common.clrConfig.numPings.toNat) ?_ fun s mv u _ hs hst =>
        counting_step hs hst
    rintro s rfl
    exact hcounting
  have hwaiting : (start checks H o c).Waiting c.common.clrConfig
      (c.common.clrConfig.numPings - 1).toNat 0 := by
    rw [hstart]
    exact ⟨hrounds, c.common, _, rfl, rfl, rfl⟩
  constructor
  · exact fun t h => (hreach t h).atMost
  · exact fun t h => ⟨(hreach t h).sound, (hreach t h).exact⟩
  · intro mvs t hrun hmvs
    have ht := waiting_of_run hwaiting hrun (by omega)
    obtain ⟨common, png, hlife, -, -⟩ := ht.pinging
    exact ⟨ht.rounds_eq, common, png, hlife⟩
  · intro mvs t hrun hmvs
    have hlast : timeouts mvs = (c.common.clrConfig.numPings - 1).toNat := by omega
    have ht := waiting_of_run hwaiting hrun (Nat.le_of_eq hlast)
    rw [hlast] at ht
    exact alone_of_waiting ht

/-- The pings of a node with a seed are bounded exactly if it may send any. -/
theorem bounded_iff (checks : Bool) (H : RingHash) (o : Oracle) (socket : Socket) (id : UInt64)
    (subrs : List Nat) (clrConfig : ClusterConfig)
    (hseed : ∃ s ∈ clrConfig.seedNodes, s ≠ socket) :
    Bounded checks H o (.new socket id subrs clrConfig) ↔ clrConfig.numPings ≠ 0 := by
  obtain ⟨s, hs, hne⟩ := hseed
  have hs : s ∈ (Cluster.new socket id subrs clrConfig).common.clrConfig.seedNodes :=
    (mem_erase_iff _ _ _).mpr ⟨hne, hs⟩
  constructor
  · exact fun hbounded hzero => not_bounded_of_zero hs hzero hbounded
  · exact bounded_of_ne_zero hs

/-- The default configuration with a seed. -/
theorem bounded_seeded : Bounded true RingHash.byId Node.firstChoices Node.seeded := by
  refine (bounded_iff true RingHash.byId Node.firstChoices (Socket.localhost 10) 1 [0]
    { ClusterConfig.default with
      seedNodes := (∅ : ExtTreeSet Socket compare).insert (Socket.localhost 11) }
    ⟨Socket.localhost 11, ?_, ?_⟩).mpr ?_
  · decide
  · decide
  · decide

/-- The same node, told to send no pings. -/
def pingless : Cluster :=
  .new (Socket.localhost 10) 1 [0] { ClusterConfig.default with
    numPings := 0
    seedNodes := (∅ : ExtTreeSet Socket compare).insert (Socket.localhost 11) }

/-- It panics at its start, or makes a round and goes on counting from the top. -/
theorem pingless_not_bounded :
    start true RingHash.byId Node.firstChoices pingless = ⟨.underflowed, []⟩ ∧
      ¬ Bounded true RingHash.byId Node.firstChoices pingless ∧
      (∃ out, start false RingHash.byId Node.firstChoices pingless =
        ⟨.running ⟨pingless.common, .pinging ⟨0xffff_ffff_ffff_ffff⟩⟩, out⟩ ∧ rounds out = 1) ∧
      ¬ Bounded false RingHash.byId Node.firstChoices pingless := by
  have hs : Socket.localhost 11 ∈ pingless.common.clrConfig.seedNodes := by decide
  refine ⟨start_underflows hs rfl, not_bounded_of_zero hs rfl, ?_, not_bounded_of_zero hs rfl⟩
  exact start_eq _ _ _ hs nofun

end Joining

end AurumActors.Cluster
