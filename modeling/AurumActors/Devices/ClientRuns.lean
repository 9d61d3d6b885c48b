/-
  Devices/ClientRuns.lean --- a device client over its whole life.

  The run carries beside the client who has subscribed, the senders that have
  asked for a heartbeat and everything the client has done outside.
-/
import AurumActors.Devices.ClientActor

set_option autoImplicit false
set_option linter.dupNamespace false

namespace AurumActors.Devices

open Std
open AurumActors.Core AurumActors.Cluster AurumActors.Foundation

/-- The interval that is announced to a server. -/
def ClientOutput.announced? : ClientOutput → Option DeviceInterval
  | .setHeartbeatInterval _ _ interval => some interval
  | _ => none

/-- What a subscriber is told of the server. -/
def ClientOutput.told? (subr : Nat) : ClientOutput → Option (Option Socket)
  | .manager n server => if n = subr then some server else none
  | _ => none

/-- The delay of a `Tick`. -/
def ClientOutput.delay? : ClientOutput → Option Nat
  | .scheduleTick delay => some delay
  | _ => none

/-- The server that the last `Manager` to a subscriber has named. -/
def lastManager (subr : Nat) (log : List ClientOutput) : Option (Option Socket) :=
  (log.filterMap (ClientOutput.told? subr)).getLast?

namespace DeviceClient

/-! ## The run of a client -/

structure Running where
  client : DeviceClient
  /-- `pre_start` has been called -/
  started : Bool
  /-- how many `Tick`s are on their way -/
  ticks : Nat
  /-- the subscribers it was started with or that subscribed -/
  subscribed : List Nat
  /-- the subscribers that have closed their channel -/
  gone : List Nat
  /-- the senders of the requests for a heartbeat, in order -/
  requests : List SenderRef
  /-- what was done outside, in order -/
  log : List ClientOutput

namespace Running

inductive Move where
  | preStart
  | handle (msg : DeviceClientMsg) (now : Nat)
  /-- a subscriber closes its channel -/
  | leave (subr : Nat)

/-- The subscriber that a message brings. -/
def newcomers : DeviceClientMsg → List Nat
  | .subscribe subr => [subr]
  | _ => []

/-- The sender that a message comes from. -/
def requesters : DeviceClientMsg → List SenderRef
  | .heartbeatRequest sender => [sender]
  | _ => []

/-- The `Tick`s that are left when a message is taken. -/
def ticksAfter (ticks : Nat) : DeviceClientMsg → Nat
  | .tick => ticks - 1
  | _ => ticks

/-- The state after a handler. -/
def handled (r : Running) (msg : DeviceClientMsg) (client : DeviceClient)
    (out : List ClientOutput) : Running :=
  { r with
    client
    ticks := ticksAfter r.ticks msg + (out.filterMap ClientOutput.delay?).length
    subscribed := r.subscribed ++ newcomers msg
    requests := r.requests ++ requesters msg
    log := r.log ++ out }

/-- The state after `pre_start`. -/
def begun (r : Running) : Running :=
  { r with
    started := true
    ticks := r.ticks + (r.client.preStart.filterMap ClientOutput.delay?).length
    log := r.log ++ r.client.preStart }

/-- A `Tick` is handled when one is there. -/
inductive Step (checks : Bool) (suspects : IntervalStorage → Nat → Bool) (r : Running) :
    Move → Running → Prop
  | preStart (hnew : r.started = false) : Step checks suspects r .preStart r.begun
  | handle {msg : DeviceClientMsg} {now : Nat} {client : DeviceClient} {out : List ClientOutput}
      (hstarted : r.started = true) (htick : msg = .tick → 0 < r.ticks)
      (hrecv : Returns (fun fuel => r.client.recv checks suspects
        (fun subr => decide (subr ∉ r.gone)) fuel now msg) (client, out)) :
      Step checks suspects r (.handle msg now) (r.handled msg client out)
  | leave (subr : Nat) : Step checks suspects r (.leave subr) { r with gone := subr :: r.gone }

/-- A client from its start. -/
def system (checks : Bool) (suspects : IntervalStorage → Nat → Bool) (socket : Socket)
    (config : DeviceClientConfig) (subscribers : List Nat) (now : Nat) :
    System Running Move where
  init r := ∃ client, DeviceClient.new checks socket config subscribers now = .ok client ∧
    r = ⟨client, false, 0, subscribers, [], [], []⟩
  step := Step checks suspects

end Running

/-! ## The clock of a client -/

/-- The clock that a message makes the client count on from. -/
def countsFrom (c : DeviceClient) : DeviceClientMsg → Option UInt64
  | .setInterval _ => some c.interval.clock
  | .intervalAck _ interval =>
      if interval = c.interval ∨ interval.clock < c.interval.clock then none
      else some interval.clock
  | _ => none

/-- The clock does not wrap around. -/
def Countable (c : DeviceClient) (msg : DeviceClientMsg) : Prop :=
  ∀ clock ∈ c.countsFrom msg, clock.toNat + 1 < 2 ^ 64

instance (c : DeviceClient) (msg : DeviceClientMsg) : Decidable (c.Countable msg) :=
  inferInstanceAs (Decidable (∀ clock ∈ c.countsFrom msg, _))

theorem Succeeds.lt {checks : Bool} {old : UInt64} {dur : Nat} {next : DeviceInterval}
    (h : Succeeds checks old dur next) (hfits : checks = true ∨ old.toNat + 1 < 2 ^ 64) :
    old < next.clock := by
  obtain ⟨hchecked, hclock⟩ := Word.checked_eq_ok_iff.mp h.clock
  have hlt : old.toBitVec.toNat + (1 : BitVec 64).toNat < 2 ^ 64 := hfits.elim hchecked id
  have hnat : next.clock.toNat = old.toNat + 1 := by
    rw [← UInt64.toNat_toBitVec, ← hclock, BitVec.toNat_add_of_lt hlt]
    rfl
  rw [UInt64.lt_iff_toNat_lt, hnat]
  exact Nat.lt_succ_self _

/-! ## What a handler tells the outside -/

theorem filterMap_notifyServer {α : Type} (f : ClientOutput → Option α)
    (hf : ∀ dest device interval, f (.setHeartbeatInterval dest device interval) = none)
    (c : DeviceClient) : c.notifyServer.filterMap f = [] := by
  rw [List.filterMap_eq_nil_iff, notifyServer]
  split
  · intro o ho
    rw [List.mem_singleton.mp ho]
    exact hf _ _ _
  · intro o ho
    obtain ⟨seed, -, rfl⟩ := List.mem_map.mp ho
    exact hf _ _ _

/-- The server is told the interval of the client. -/
theorem of_mem_notifyServer {c : DeviceClient} {dest : Socket} {device : Device}
    {interval : DeviceInterval} (h : .setHeartbeatInterval dest device interval ∈ c.notifyServer) :
    device = c.myInfo ∧ interval = c.interval := by
  unfold notifyServer at h
  split at h
  · cases List.mem_singleton.mp h
    exact ⟨rfl, rfl⟩
  · obtain ⟨seed, -, heq⟩ := List.mem_map.mp h
    cases heq
    exact ⟨rfl, rfl⟩

theorem filterMap_setServer {α : Type} (f : ClientOutput → Option α)
    (hf : ∀ subr server, f (.manager subr server) = none) (delivers : Nat → Bool)
    (c : DeviceClient) (svr : Option Socket) : (c.setServer delivers svr).2.filterMap f = [] := by
  rw [setServer, List.filterMap_map, List.filterMap_eq_nil_iff]
  exact fun _ _ => hf _ _

theorem filterMap_warnings {α : Type} (f : ClientOutput → Option α)
    (hf : ∀ dest, f (.multipleSenders dest) = none) (log : FrequencyBuffer SenderRef)
    (multiple : Bool) : (warnings log multiple).filterMap f = [] := by
  unfold warnings
  split
  · rw [List.filterMap_map, List.filterMap_eq_nil_iff]
    exact fun _ _ => hf _
  · rfl

/-! ### The last `Manager` -/

theorem lastManager_append (subr : Nat) (log out : List ClientOutput) :
    lastManager subr (log ++ out) = (lastManager subr out).or (lastManager subr log) := by
  rw [lastManager, List.filterMap_append, List.getLast?_append]
  rfl

/-- Every subscriber is told of a new server, whatever else is done after it. -/
theorem lastManager_setServer {c : DeviceClient} {subr : Nat} (hsubr : subr ∈ c.subscribers)
    (delivers : Nat → Bool) (svr : Option Socket) {out : List ClientOutput}
    (hout : out.filterMap (ClientOutput.told? subr) = []) :
    lastManager subr ((c.setServer delivers svr).2 ++ out) = some svr := by
  have hmem : svr ∈ (c.setServer delivers svr).2.filterMap (ClientOutput.told? subr) := by
    refine List.mem_filterMap.mpr ⟨_, List.mem_map_of_mem hsubr, ?_⟩
    simp [ClientOutput.told?]
  have hall : ∀ v ∈ (c.setServer delivers svr).2.filterMap (ClientOutput.told? subr),
      v = svr := by
    intro v hv
    obtain ⟨o, ho, htold⟩ := List.mem_filterMap.mp hv
    obtain ⟨n, -, rfl⟩ := List.mem_map.mp ho
    simp only [ClientOutput.told?] at htold
    split at htold
    · exact (Option.some.inj htold).symm
    · cases htold
  rw [lastManager, List.filterMap_append, hout, List.append_nil,
    List.getLast?_eq_some_getLast (List.ne_nil_of_mem hmem), hall _ (List.getLast_mem _)]

theorem lastManager_of_none {subr : Nat} {out : List ClientOutput}
    (hout : out.filterMap (ClientOutput.told? subr) = []) : lastManager subr out = none := by
  rw [lastManager, hout]
  rfl

/-! ### What a handler does to the run -/

namespace Handled

variable {checks : Bool} {suspects : IntervalStorage → Nat → Bool} {delivers : Nat → Bool}
  {now : Nat} {c c' : DeviceClient} {msg : DeviceClientMsg} {out : List ClientOutput}

/-- A handler starts a `Tick` exactly when it handles one. -/
theorem ticks (h : Handled checks suspects delivers now c msg c' out) :
    (out.filterMap ClientOutput.delay?).length = if msg = .tick then 1 else 0 := by
  cases h with
  | beats htrusts => rfl
  | loses c' hsuspects hc' =>
      rw [List.filterMap_append, List.filterMap_append,
        filterMap_setServer _ (fun _ _ => rfl), filterMap_notifyServer _ (fun _ _ _ => rfl)]
      rfl
  | hears storage hserver hpush hmultiple =>
      rw [List.filterMap_cons_none rfl, filterMap_warnings _ (fun _ => rfl)]
      rfl
  | finds storage hserver hpush hmultiple =>
      rw [List.filterMap_append, filterMap_setServer _ (fun _ _ => rfl),
        List.filterMap_cons_none rfl, filterMap_warnings _ (fun _ => rfl)]
      rfl
  | agrees socket storage =>
      rw [filterMap_setServer _ (fun _ _ => rfl)]
      rfl
  | behind | ahead =>
      rw [List.filterMap_append, filterMap_setServer _ (fun _ _ => rfl),
        filterMap_notifyServer _ (fun _ _ _ => rfl)]
      rfl
  | changes =>
      rw [filterMap_notifyServer _ (fun _ _ _ => rfl)]
      rfl
  | subscribes subr => rfl

/-- The seeds grow by a socket that asks for a heartbeat and is not the server. -/
theorem mem_seeds (h : Handled checks suspects delivers now c msg c' out) (s : Socket) :
    s ∈ c'.config.seeds ↔ s ∈ c.config.seeds ∨
      ∃ sender, msg = .heartbeatRequest sender ∧ c.server ≠ some sender.socket ∧
        sender.socket = s := by
  cases h with
  | @finds sender log multiple storage hserver hpush hmultiple =>
      simp only [ExtTreeSet.mem_insert, LawfulEqOrd.compare_eq_iff_eq]
      constructor
      · rintro (rfl | hmem)
        · exact .inr ⟨sender, rfl, hserver, rfl⟩
        · exact .inl hmem
      · rintro (hmem | ⟨sender', heq, -, rfl⟩)
        · exact .inr hmem
        · cases heq
          exact .inl rfl
  | hears storage hserver hpush hmultiple =>
      refine ⟨.inl, fun hmem => hmem.resolve_right ?_⟩
      rintro ⟨sender', heq, hne, -⟩
      cases heq
      exact hne hserver
  | loses _ _ hc' | behind _ _ _ hc' | ahead _ _ _ _ _ hc' | changes _ _ hc' =>
      rw [hc']
      exact ⟨.inl, fun hmem => hmem.resolve_right (by simp)⟩
  | _ => exact ⟨.inl, fun hmem => hmem.resolve_right (by simp)⟩

/-- A subscriber that is there stays, and a new one comes. -/
theorem mem_subscribers (h : Handled checks suspects delivers now c msg c' out) {subr : Nat}
    (hsubr : subr ∈ c.subscribers ∧ delivers subr = true ∨ subr ∈ Running.newcomers msg) :
    subr ∈ c'.subscribers := by
  have hkept : subr ∈ c.subscribers ∧ delivers subr = true → subr ∈ c.subscribers.filter delivers :=
    List.mem_filter.mpr
  cases h with
  | subscribes subr' => exact List.mem_append.mpr (hsubr.imp And.left id)
  | loses _ _ hc' | behind _ _ _ hc' | ahead _ _ _ _ _ hc' =>
      rw [hc']
      exact hkept (hsubr.resolve_right (by simp [Running.newcomers]))
  | changes _ _ hc' =>
      rw [hc']
      exact (hsubr.resolve_right (by simp [Running.newcomers])).1
  | beats | hears => exact (hsubr.resolve_right (by simp [Running.newcomers])).1
  | finds | agrees => exact hkept (hsubr.resolve_right (by simp [Running.newcomers]))

/-- What a subscriber knows of the server after a handler. -/
theorem told (h : Handled checks suspects delivers now c msg c' out) {subr : Nat}
    (hsubr : subr ∈ c.subscribers) : (lastManager subr out).getD c.server = c'.server := by
  have hnotify : ∀ c : DeviceClient, c.notifyServer.filterMap (ClientOutput.told? subr) = [] :=
    filterMap_notifyServer _ fun _ _ _ => rfl
  have hwarn : ∀ (sender : SenderRef) log multiple,
      (ClientOutput.heartbeat sender :: warnings log multiple).filterMap
        (ClientOutput.told? subr) = [] := by
    intro sender log multiple
    rw [List.filterMap_cons_none rfl, filterMap_warnings _ fun _ => rfl]
  cases h with
  | beats htrusts => rfl
  | loses c' hsuspects hc' =>
      rw [List.append_assoc, lastManager_setServer hsubr, hc']
      · rfl
      · rw [List.filterMap_append, hnotify]
        rfl
  | hears storage hserver hpush hmultiple =>
      rw [lastManager_of_none (hwarn _ _ _)]
      rfl
  | finds storage hserver hpush hmultiple =>
      rw [lastManager_setServer hsubr _ _ (hwarn _ _ _)]
      rfl
  | agrees socket storage =>
      rw [← List.append_nil (c.setServer delivers (some socket)).2,
        lastManager_setServer hsubr _ _ rfl]
      rfl
  | behind socket c' hclock hc' =>
      rw [lastManager_setServer hsubr _ _ (hnotify _), hc']
      rfl
  | ahead socket c' hne hclock hnext hc' =>
      rw [lastManager_setServer hsubr _ _ (hnotify _), hc']
      rfl
  | changes c' hnext hc' =>
      rw [lastManager_of_none (hnotify _), hc']
      rfl
  | subscribes subr' =>
      by_cases hsame : subr' = subr <;> simp [lastManager, ClientOutput.told?, hsame]

theorem newcomer (h : Handled checks suspects delivers now c msg c' out) {subr : Nat}
    (hsubr : subr ∈ Running.newcomers msg) : lastManager subr out = some c'.server := by
  cases h with
  | subscribes subr' =>
      rw [List.mem_singleton.mp hsubr]
      simp [lastManager, ClientOutput.told?]
  | _ => cases hsubr

/-- A client announces its own interval, as it is after the handler. -/
theorem announces (h : Handled checks suspects delivers now c msg c' out) {dest : Socket}
    {device : Device} {interval : DeviceInterval}
    (hmem : .setHeartbeatInterval dest device interval ∈ out) :
    device = c'.myInfo ∧ interval = c'.interval := by
  have hset : ∀ svr, .setHeartbeatInterval dest device interval ∉ (c.setServer delivers svr).2 := by
    intro svr hmem
    obtain ⟨subr, -, heq⟩ := List.mem_map.mp hmem
    cases heq
  have hwarn : ∀ (sender : SenderRef) log multiple, .setHeartbeatInterval dest device interval ∉
      ClientOutput.heartbeat sender :: warnings log multiple := by
    intro sender log multiple hmem
    unfold warnings at hmem
    split at hmem <;> simp at hmem
  cases h with
  | beats htrusts => simp at hmem
  | loses c' hsuspects hc' =>
      rcases List.mem_append.mp hmem with hmem | hmem
      · exact of_mem_notifyServer ((List.mem_append.mp hmem).resolve_left (hset _))
      · simp at hmem
  | hears => exact absurd hmem (hwarn _ _ _)
  | finds => exact absurd ((List.mem_append.mp hmem).resolve_left (hset _)) (hwarn _ _ _)
  | agrees => exact absurd hmem (hset _)
  | behind | ahead => exact of_mem_notifyServer ((List.mem_append.mp hmem).resolve_left (hset _))
  | changes => exact of_mem_notifyServer hmem
  | subscribes subr => simp at hmem

theorem myInfo (h : Handled checks suspects delivers now c msg c' out) : c'.myInfo = c.myInfo := by
  cases h with
  | loses _ _ hc' | behind _ _ _ hc' | ahead _ _ _ _ _ hc' =>
      rw [hc']
      rfl
  | changes _ _ hc' => rw [hc']
  | _ => rfl

/-- A new interval has a greater clock and is announced. -/
theorem interval_cases (h : Handled checks suspects delivers now c msg c' out)
    (hfits : checks = true ∨ c.Countable msg) :
    c'.interval = c.interval ∨
      c.interval.clock < c'.interval.clock ∧ ∀ o ∈ c'.notifyServer, o ∈ out := by
  cases h with
  | loses _ _ hc' | behind _ _ _ hc' =>
      rw [hc']
      exact .inl rfl
  | @ahead socket interval next c' hne hclock hnext hc' =>
      have hcounts : c.countsFrom (.intervalAck socket interval) = some interval.clock :=
        if_neg (by exact fun h => h.elim hne (UInt64.not_lt.mpr hclock))
      have hlt : interval.clock < next.clock :=
        hnext.lt (hfits.imp_right fun hcount => hcount _ hcounts)
      refine .inr ⟨?_, fun o => List.mem_append_right _⟩
      rw [hc']
      exact UInt64.lt_of_le_of_lt hclock hlt
  | @changes dur next c' hnext hc' =>
      refine .inr ⟨?_, fun o => id⟩
      rw [hc']
      exact hnext.lt (hfits.imp_right fun hcount => hcount _ rfl)
  | _ => exact .inl rfl

/-- A request is answered, and the senders in the log are warned of each other. -/
theorem answered {sender : SenderRef}
    (h : Handled checks suspects delivers now c (.heartbeatRequest sender) c' out) :
    ∃ multiple, Returns (FrequencyBuffer.push checks · c.serverLog sender) c'.serverLog ∧
      c'.serverLog.multipleSenders checks = .ok multiple ∧ .heartbeat sender ∈ out ∧
      ∀ q, .multipleSenders q ∈ out ↔ multiple = true ∧ q ∈ c'.serverLog.frequencies.keys := by
  have hwarn : ∀ (log : FrequencyBuffer SenderRef) multiple q,
      .multipleSenders q ∈ ClientOutput.heartbeat sender :: warnings log multiple ↔
        multiple = true ∧ q ∈ log.frequencies.keys := by
    intro log multiple q
    cases multiple <;> simp [warnings]
  cases h with
  | hears storage hserver hpush hmultiple =>
      exact ⟨_, hpush, hmultiple, List.mem_cons_self, hwarn _ _⟩
  | finds storage hserver hpush hmultiple =>
      refine ⟨_, hpush, hmultiple, List.mem_append_right _ List.mem_cons_self, fun q => ?_⟩
      rw [List.mem_append, ← hwarn]
      refine ⟨fun hmem => hmem.resolve_left fun hset => ?_, .inr⟩
      obtain ⟨subr, -, heq⟩ := List.mem_map.mp hset
      cases heq

/-- Only requests are logged. -/
theorem serverLog_eq (h : Handled checks suspects delivers now c msg c' out)
    (hmsg : Running.requesters msg = []) : c'.serverLog = c.serverLog := by
  cases h with
  | hears | finds => cases hmsg
  | loses _ _ hc' | behind _ _ _ hc' | ahead _ _ _ _ _ hc' =>
      rw [hc']
      rfl
  | changes _ _ hc' => rw [hc']
  | _ => rfl

end Handled

/-! ## Every run -/

namespace Running

variable {checks : Bool} {suspects : IntervalStorage → Nat → Bool} {socket : Socket}
  {config : DeviceClientConfig} {subscribers : List Nat} {now : Nat} {r r' : Running}

/-- What holds of a client and of what it has done outside. -/
structure Consistent (config : DeviceClientConfig) (r : Running) : Prop where
  /-- one `Tick` is on its way, from `pre_start` on -/
  ticks : r.ticks = if r.started then 1 else 0
  /-- a subscriber that is there knows the server -/
  manager : ∀ subr ∈ r.subscribed, subr ∉ r.gone →
    subr ∈ r.client.subscribers ∧ (lastManager subr r.log).getD none = r.client.server
  /-- the seeds are those of the configuration, and sockets that asked for heartbeats -/
  seeds : ∀ s, s ∈ config.seeds → s ∈ r.client.config.seeds
  asked : ∀ s ∈ r.client.config.seeds, s ∈ config.seeds ∨ ∃ q ∈ r.requests, q.socket = s
  serverLog : r.client.serverLog.Holds config.logCapacity r.requests

theorem consistent_new {client : DeviceClient}
    (h : DeviceClient.new checks socket config subscribers now = .ok client) :
    Consistent config ⟨client, false, 0, subscribers, [], [], []⟩ := by
  obtain ⟨storage, -, heq⟩ := bind_eq_ok_iff.mp h
  cases heq
  exact {
    ticks := rfl
    manager := fun subr hsubr _ => ⟨hsubr, rfl⟩
    seeds := fun _ => id
    asked := fun _ => .inl
    serverLog := ⟨rfl, by simp [FrequencyBuffer.new], FrequencyBuffer.exact_new _⟩ }

theorem Consistent.begun (h : r.Consistent config) (hnew : r.started = false) :
    r.begun.Consistent config where
  ticks := by
    have hticks := h.ticks
    rw [hnew] at hticks
    change r.ticks + (r.client.preStart.filterMap ClientOutput.delay?).length = _
    rw [hticks, DeviceClient.preStart, List.filterMap_append,
      filterMap_notifyServer _ fun _ _ _ => rfl]
    rfl
  manager subr hsubr hgone := by
    obtain ⟨hmem, hmanager⟩ := h.manager subr hsubr hgone
    refine ⟨hmem, ?_⟩
    have hnone : lastManager subr r.client.preStart = none := by
      refine lastManager_of_none ?_
      rw [DeviceClient.preStart, List.filterMap_append, filterMap_notifyServer _ fun _ _ _ => rfl]
      rfl
    change (lastManager subr (r.log ++ r.client.preStart)).getD none = _
    rw [lastManager_append, hnone, Option.none_or, hmanager]
    rfl
  seeds := h.seeds
  asked := h.asked
  serverLog := h.serverLog

/-- The log takes the sender of a request. -/
theorem holds_push {log log' : FrequencyBuffer SenderRef} {requests : List SenderRef}
    {sender : SenderRef} (h : log.Holds config.logCapacity requests)
    (hpush : Returns (FrequencyBuffer.push checks · log sender) log') :
    1 ≤ config.logCapacity.toNat ∧ log'.Holds config.logCapacity (requests ++ [sender]) := by
  have hpos : 1 ≤ config.logCapacity.toNat := by
    refine Nat.pos_of_ne_zero fun hzero => ?_
    have hcap : log.capacity = 0 := h.capacity.trans (BitVec.eq_of_toNat_eq hzero)
    exact FrequencyBuffer.not_returns_of_capacity_zero checks hcap sender log' hpush
  obtain ⟨t, ht, hholds⟩ := h.push hpos checks sender
  obtain rfl : t = log' := returns_whileThen_unique ht hpush
  exact ⟨hpos, hholds⟩

theorem Consistent.handled {msg : DeviceClientMsg} {client : DeviceClient}
    {out : List ClientOutput} {time : Nat} (h : r.Consistent config) (hstarted : r.started = true)
    (htick : msg = .tick → 0 < r.ticks)
    (hhandled : Handled checks suspects (fun subr => decide (subr ∉ r.gone)) time r.client msg
      client out) : (r.handled msg client out).Consistent config where
  ticks := by
    have hticks := h.ticks
    rw [hstarted] at hticks
    change ticksAfter r.ticks msg + (out.filterMap ClientOutput.delay?).length =
      if r.started = true then 1 else 0
    rw [hhandled.ticks, hstarted, hticks]
    cases msg <;> rfl
  manager subr hsubr hgone := by
    change (subr ∈ client.subscribers ∧ (lastManager subr (r.log ++ out)).getD none = client.server)
    rw [lastManager_append]
    rcases List.mem_append.mp hsubr with hsubr | hsubr
    · obtain ⟨hmem, hmanager⟩ := h.manager subr hsubr hgone
      refine ⟨hhandled.mem_subscribers (.inl ⟨hmem, decide_eq_true hgone⟩), ?_⟩
      rw [← hhandled.told hmem, ← hmanager]
      cases lastManager subr out <;> rfl
    · refine ⟨hhandled.mem_subscribers (.inr hsubr), ?_⟩
      rw [hhandled.newcomer hsubr]
      rfl
  seeds s hs := (hhandled.mem_seeds s).mpr (.inl (h.seeds s hs))
  asked s hs := by
    rcases (hhandled.mem_seeds s).mp hs with hs | ⟨sender, rfl, -, rfl⟩
    · refine (h.asked s hs).imp_right ?_
      rintro ⟨q, hq, rfl⟩
      exact ⟨q, List.mem_append_left _ hq, rfl⟩
    · exact .inr ⟨sender, List.mem_append_right _ List.mem_cons_self, rfl⟩
  serverLog := by
    change client.serverLog.Holds config.logCapacity (r.requests ++ requesters msg)
    cases msg with
    | heartbeatRequest sender =>
        obtain ⟨multiple, hpush, -⟩ := hhandled.answered
        exact (holds_push h.serverLog hpush).2
    | _ =>
        rw [hhandled.serverLog_eq rfl]
        simpa only [requesters, List.append_nil] using h.serverLog

theorem consistent_of_reachable
    (h : (system checks suspects socket config subscribers now).Reachable r) :
    r.Consistent config := by
  refine h.invariant (I := fun r => r.Consistent config) ?_ fun r move r' _ hcon hst => ?_
  · rintro _ ⟨client, hnew, rfl⟩
    exact consistent_new hnew
  · cases hst with
    | preStart hnew => exact hcon.begun hnew
    | handle hstarted htick hrecv => exact hcon.handled hstarted htick (handled_of_recv hrecv)
    | leave subr =>
        exact { hcon with
          manager := fun n hn hgone => hcon.manager n hn fun hmem =>
            hgone (List.mem_cons_of_mem _ hmem) }

end Running

end DeviceClient

end AurumActors.Devices
