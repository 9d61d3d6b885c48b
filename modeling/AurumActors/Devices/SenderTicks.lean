/-
  Devices/SenderTicks.lean --- the one timer of a sender of
  `cluster/devices/heartbeat_request_sender.rs`.

  A `Tick` is in the mailbox of its sender or on its way.  The sender that reports
  its device down takes the last one.
-/
import AurumActors.Devices.Retired

set_option autoImplicit false
set_option linter.dupNamespace false

namespace AurumActors.Devices

open AurumActors.Core AurumActors.Cluster AurumActors.Foundation

namespace SenderTask

def ticksIn (inbox : List (LocalActorMsg HBReqSenderMsg)) : Nat := inbox.count (.msg .tick)

/-- The `Tick`s that a sender has or that are on their way to it. -/
def pending (t : SenderTask) : Nat := ticksIn t.inbox + t.scheduled

/-- One `Tick` goes around until the sender reports its device down, or ends. -/
structure Ticking (t : SenderTask) : Prop where
  fresh : t.started = false → t.pending = 0 ∧ t.reported = false ∧ t.ended = false
  live : t.started = true → t.ended = false → t.pending = if t.reported then 0 else 1
  ended : t.ended = true → t.started = true ∧ t.inbox = [] ∧ t.scheduled ≤ 1

theorem ticking_new (device : Device) (interval : DeviceInterval) :
    (SenderTask.new device interval).Ticking where
  fresh _ := ⟨rfl, rfl, rfl⟩
  live h := by cases h
  ended h := by cases h

theorem send_of_ended {t : SenderTask} (h : t.ended = true) (msg : LocalActorMsg HBReqSenderMsg) :
    t.send msg = t := if_pos h

theorem send_of_not_ended {t : SenderTask} (h : t.ended = false)
    (msg : LocalActorMsg HBReqSenderMsg) : t.send msg = { t with inbox := t.inbox ++ [msg] } :=
  if_neg (by simp [h])

theorem ticksIn_concat (inbox : List (LocalActorMsg HBReqSenderMsg)) :
    ticksIn (inbox ++ [.msg .tick]) = ticksIn inbox + 1 := by
  rw [ticksIn, List.count_append, List.count_singleton_self, ticksIn]

theorem ticksIn_cons (msg : HBReqSenderMsg) (rest : List (LocalActorMsg HBReqSenderMsg)) :
    ticksIn (.msg msg :: rest) = ticksIn rest + if msg = .tick then 1 else 0 := by
  unfold ticksIn
  by_cases hmsg : msg = .tick <;> simp [hmsg]

/-- Any other message leaves the `Tick`s as they are. -/
theorem Ticking.send {t : SenderTask} (h : t.Ticking) {msg : LocalActorMsg HBReqSenderMsg}
    (hmsg : msg ≠ .msg .tick) : (t.send msg).Ticking := by
  rcases Bool.eq_false_or_eq_true t.ended with hended | hended
  · rw [send_of_ended hended]
    exact h
  · rw [send_of_not_ended hended]
    have hpending : pending { t with inbox := t.inbox ++ [msg] } = t.pending := by
      simp [pending, ticksIn, List.count_append, hmsg]
    refine ⟨fun hs => ?_, fun hs he => ?_, fun he => ?_⟩
    · rw [hpending]
      exact h.fresh hs
    · rw [hpending]
      exact h.live hs he
    · exact absurd (hended.symm.trans he) Bool.false_ne_true

theorem Ticking.preStart {t t' : SenderTask} (h : t.Ticking) (hst : t.preStart = some t') :
    t'.Ticking := by
  unfold SenderTask.preStart at hst
  split at hst
  · cases hst
  · next hnew =>
      obtain ⟨hpending, hreported, hended⟩ := h.fresh (by simpa using hnew)
      cases hst
      rw [send_of_not_ended (by exact hended)]
      refine ⟨fun hs => ?_, fun _ _ => ?_, fun he => ?_⟩
      · cases hs
      · unfold pending at hpending
        change ticksIn (t.inbox ++ [.msg .tick]) + t.scheduled =
          if t.reported then 0 else 1
        rw [ticksIn_concat, hreported, if_neg Bool.false_ne_true]
        omega
      · exact absurd (hended.symm.trans he) Bool.false_ne_true

/-- A `Tick` goes from its timer to the mailbox, or is lost at a sender that has ended. -/
theorem Ticking.fire {t t' : SenderTask} (h : t.Ticking) (hst : t.fire = some t') :
    t'.Ticking := by
  unfold SenderTask.fire at hst
  split at hst
  · cases hst
  · next hscheduled =>
      cases hst
      rcases Bool.eq_false_or_eq_true t.ended with hended | hended
      · obtain ⟨hstarted, hinbox, hle⟩ := h.ended hended
        rw [send_of_ended (by exact hended)]
        refine ⟨fun hs => ?_, fun _ he => ?_, fun _ => ⟨hstarted, hinbox, ?_⟩⟩
        · exact absurd (hstarted.symm.trans hs) Bool.false_ne_true.symm
        · exact absurd (hended.symm.trans he) Bool.false_ne_true.symm
        · exact Nat.le_trans (Nat.sub_le _ _) hle
      · rw [send_of_not_ended (by exact hended)]
        have hpending : pending { t with
            scheduled := t.scheduled - 1, inbox := t.inbox ++ [.msg .tick] } = t.pending := by
          change ticksIn (t.inbox ++ [.msg .tick]) + (t.scheduled - 1) =
            ticksIn t.inbox + t.scheduled
          rw [ticksIn_concat]
          omega
        refine ⟨fun hs => ?_, fun hs he => ?_, fun he => ?_⟩
        · have hfresh := h.fresh hs
          rwa [← hpending] at hfresh
        · rw [hpending]
          exact h.live hs he
        · exact absurd (hended.symm.trans he) Bool.false_ne_true

/-- A sender that handles its `Tick` starts the next one, or reports. -/
theorem Ticking.run {suspects : Bool} {t t' : SenderTask} {reports : List DeviceServerMsg}
    (h : t.Ticking) (hrun : t.run suspects = some (t', reports)) : t'.Ticking := by
  unfold SenderTask.run at hrun
  split at hrun
  · next hruns =>
      obtain ⟨hstarted, hended⟩ := hruns
      have hlive := h.live hstarted (by simpa using hended)
      split at hrun
      · cases hrun
      · cases hrun
        refine ⟨fun hs => ?_, fun _ he => ?_, fun _ => ⟨hstarted, rfl, ?_⟩⟩
        · exact absurd (hstarted.symm.trans hs) Bool.false_ne_true.symm
        · cases he
        · unfold pending at hlive
          change t.scheduled ≤ 1
          split at hlive <;> omega
      · next msg rest hinbox =>
          cases hrun
          rw [pending, hinbox, ticksIn_cons] at hlive
          refine ⟨fun hs => ?_, fun _ _ => ?_, fun he => absurd he hended⟩
          · exact absurd (hstarted.symm.trans hs) Bool.false_ne_true.symm
          cases msg with
          | tick =>
              rw [if_pos rfl] at hlive
              have hreported : t.reported = false := by
                cases hrep : t.reported with
                | false => rfl
                | true =>
                    rw [hrep, if_pos rfl] at hlive
                    omega
              rw [hreported, if_neg Bool.false_ne_true] at hlive
              cases suspects with
              | true =>
                  change ticksIn rest + t.scheduled = if t.reported || true then 0 else 1
                  rw [Bool.or_true, if_pos rfl]
                  omega
              | false =>
                  change ticksIn rest + (t.scheduled + 1) =
                    if t.reported || false then 0 else 1
                  rw [hreported, Bool.or_self, if_neg Bool.false_ne_true]
                  omega
          | heartbeat | multipleSenders | interval =>
              rw [if_neg (by simp), Nat.add_zero] at hlive
              change ticksIn rest + t.scheduled = if t.reported || false then 0 else 1
              rw [Bool.or_false]
              exact hlive
  · cases hrun

/-- A sender that reports its device down has not done so before. -/
theorem Ticking.not_reported {suspects : Bool} {t t' : SenderTask} {reports : List DeviceServerMsg}
    {device : Device} (h : t.Ticking) (hrun : t.run suspects = some (t', reports))
    (hdown : .downedDevice device ∈ reports) : t.reported = false := by
  obtain ⟨-, hdowned⟩ := run_downed hrun
  obtain ⟨-, ⟨hended, htick⟩, -⟩ := hdowned device hdown
  have hpos : 0 < ticksIn t.inbox :=
    List.count_pos_iff.mpr ((List.takeWhile_sublist _).subset htick)
  have hstarted : t.started = true := by
    unfold SenderTask.run at hrun
    split at hrun
    · next hruns => exact hruns.1
    · cases hrun
  have hlive := h.live hstarted hended
  unfold pending at hlive
  split at hlive
  · omega
  · next hreported => simpa using hreported

end SenderTask

/-! ## A server and its senders -/

namespace Supervision

variable {hash : Device → UInt64} {c c' : Supervision}

/-- What an output does to the senders: one is sent to, or one is new. -/
theorem perform_cases (c : Supervision) (o : Output) :
    (perform c o).senders = c.senders ∨
      (∃ device interval, (perform c o).senders = c.senders ++ [.new device interval]) ∨
      ∃ n msg, msg ≠ .msg .tick ∧
        (perform c o).senders = c.senders.modify n fun t => t.send msg := by
  cases o with
  | spawn n device interval => exact .inr (.inl ⟨device, interval, rfl⟩)
  | interval n j => exact .inr (.inr ⟨n, .msg (.interval j), by simp, rfl⟩)
  | term n => exact .inr (.inr ⟨n, .term, by simp, rfl⟩)
  | mutate | charges | forward => exact .inl rfl

/-- The senders that are there go on. -/
def GoOn (senders senders' : List SenderTask) : Prop :=
  ∀ (n : Nat) (t : SenderTask), senders[n]? = some t → ∃ t', senders'[n]? = some t' ∧ t.Goes t'

theorem GoOn.refl (senders : List SenderTask) : GoOn senders senders :=
  fun _ t ht => ⟨t, ht, .refl t⟩

theorem GoOn.trans {s s' s'' : List SenderTask} (h : GoOn s s') (h' : GoOn s' s'') : GoOn s s'' := by
  intro n t ht
  obtain ⟨t', ht', hgoes⟩ := h n t ht
  obtain ⟨t'', ht'', hgoes'⟩ := h' n t' ht'
  exact ⟨t'', ht'', hgoes.trans hgoes'⟩

theorem GoOn.of_forall₂ {senders senders' : List SenderTask}
    (h : List.Forall₂ SenderTask.Goes senders senders') : GoOn senders senders' :=
  fun _ _ ht => exists_after h ht

/-- Every sender has its one `Tick`, and the senders of `before` have gone on. -/
structure Timed (before : List SenderTask) (c : Supervision) : Prop where
  ticking : ∀ t ∈ c.senders, t.Ticking
  goOn : GoOn before c.senders

theorem Timed.send {before senders : List SenderTask} (n : Nat)
    {msg : LocalActorMsg HBReqSenderMsg} (hmsg : msg ≠ .msg .tick)
    (hticking : ∀ t ∈ senders, t.Ticking) (hgo : GoOn before senders) :
    (∀ t ∈ senders.modify n fun t => t.send msg, t.Ticking) ∧
      GoOn before (senders.modify n fun t => t.send msg) := by
  refine ⟨fun t ht => ?_, hgo.trans (.of_forall₂ (forall₂_modify .refl (fun t => ?_) _ n))⟩
  swap
  · exact t.goes_send msg
  obtain ⟨i, hi⟩ := List.mem_iff_getElem?.mp ht
  rw [List.getElem?_modify] at hi
  obtain ⟨u, hu, rfl⟩ := Option.map_eq_some_iff.mp hi
  have hticks := hticking u (List.mem_of_getElem? hu)
  split
  · exact hticks.send hmsg
  · exact hticks

theorem Timed.perform {before : List SenderTask} (h : c.Timed before) (o : Output) :
    (c.perform o).Timed before := by
  rcases perform_cases c o with hsame | ⟨device, interval, hnew⟩ | ⟨n, msg, hmsg, hsent⟩
  · exact ⟨hsame ▸ h.ticking, hsame ▸ h.goOn⟩
  · refine ⟨fun t ht => ?_, h.goOn.trans fun n t ht => ?_⟩
    · rw [hnew] at ht
      rcases List.mem_append.mp ht with ht | ht
      · exact h.ticking t ht
      · rw [List.mem_singleton.mp ht]
        exact SenderTask.ticking_new device interval
    · rw [hnew]
      exact ⟨t, getElem?_concat_of_some _ ht, .refl t⟩
  · obtain ⟨hticking, hgo⟩ := Timed.send n hmsg h.ticking h.goOn
    exact ⟨hsent ▸ hticking, hsent ▸ hgo⟩

theorem Timed.foldl {before : List SenderTask} (out : List Output) :
    ∀ {c : Supervision}, c.Timed before → (out.foldl Supervision.perform c).Timed before := by
  induction out with
  | nil => exact fun h => h
  | cons o out ih => exact fun h => ih (h.perform o)

/-- One sender goes on. -/
theorem Timed.set {before : List SenderTask} (h : c.Timed before) {n : Nat} {t t' : SenderTask}
    (ht : c.senders[n]? = some t) (hticking : t'.Ticking) (hgoes : t.Goes t')
    (inbox : List (Option Nat × DeviceServerMsg)) :
    Timed before { c with senders := c.senders.set n t', inbox } := by
  refine ⟨fun u hu => ?_, h.goOn.trans (.of_forall₂ (forall₂_set .refl ht hgoes))⟩
  rcases List.mem_or_eq_of_mem_set hu with hu | rfl
  · exact h.ticking u hu
  · exact hticking

/-- A move keeps the one `Tick` of every sender. -/
theorem Timed.next {before : List SenderTask} {move : Move} (h : c.Timed before)
    (hst : next hash c move = some c') : c'.Timed before := by
  cases move with
  | post msg =>
      simp only [Supervision.next] at hst
      split at hst
      · cases hst
      · cases hst
        exact ⟨h.ticking, h.goOn⟩
  | serve delivers =>
      simp only [Supervision.next] at hst
      split at hst
      · cases hst
      · next source msg rest hinbox =>
          split at hst
          · next server out hrecv =>
              cases hst
              have htake : Timed before { c with server, inbox := rest } := ⟨h.ticking, h.goOn⟩
              exact htake.foldl out
          · cases hst
  | deliver sender msg =>
      simp only [Supervision.next] at hst
      split at hst
      · next hremote =>
          cases hst
          have hmsg : LocalActorMsg.msg msg ≠ .msg .tick := by
            rintro heq
            cases heq
            cases hremote
          obtain ⟨hticking, hgo⟩ := Timed.send sender hmsg h.ticking h.goOn
          exact ⟨hticking, hgo⟩
      · cases hst
  | preStart sender =>
      obtain ⟨t', hstart, rfl⟩ := Option.map_eq_some_iff.mp hst
      obtain ⟨t, ht, hstart⟩ := Option.bind_eq_some_iff.mp hstart
      have hticks := h.ticking t (List.mem_of_getElem? ht)
      exact h.set ht (hticks.preStart hstart) (SenderTask.goes_preStart hstart) c.inbox
  | fire sender =>
      obtain ⟨t', hfire, rfl⟩ := Option.map_eq_some_iff.mp hst
      obtain ⟨t, ht, hfire⟩ := Option.bind_eq_some_iff.mp hfire
      have hticks := h.ticking t (List.mem_of_getElem? ht)
      exact h.set ht (hticks.fire hfire) (SenderTask.goes_fire hfire) c.inbox
  | run sender suspects =>
      obtain ⟨⟨t', reports⟩, hrun, rfl⟩ := Option.map_eq_some_iff.mp hst
      obtain ⟨t, ht, hrun⟩ := Option.bind_eq_some_iff.mp hrun
      have hticks := h.ticking t (List.mem_of_getElem? ht)
      exact h.set ht (hticks.run hrun) (SenderTask.run_downed hrun).1 _

theorem timed_of_run {subscribers : List Nat} {before : List SenderTask} {moves : List Move}
    (hrun : (system hash subscribers).Run c moves c') (h : c.Timed before) : c'.Timed before :=
  hrun.invariant (I := fun c => c.Timed before) (fun _ _ _ h hst => h.next hst) h

theorem ticking_of_reachable {subscribers : List Nat}
    (h : (system hash subscribers).Reachable c) : ∀ t ∈ c.senders, t.Ticking := by
  obtain ⟨c₀, moves, rfl, hrun⟩ := h
  have hstart : (start subscribers).Timed [] := by
    refine ⟨fun t ht => ?_, fun n t ht => ?_⟩
    · cases ht
    · cases ht
  exact (timed_of_run hrun hstart).ticking

/-- In every run of a server and its senders, a sender that has started has one
`Tick`, in its mailbox or on its way, until it reports its device down or ends,
and none after it has reported; it reports its device down once at most. -/
theorem tick_of_reachable (hash : Device → UInt64) (subscribers : List Nat)
    (h : (system hash subscribers).Reachable c) {n : Nat} {t : SenderTask}
    (ht : c.senders[n]? = some t) :
    (t.started = false → t.pending = 0) ∧
    (t.started = true → t.ended = false → t.pending = if t.reported then 0 else 1) ∧
    ∀ suspects t' reports device, t.run suspects = some (t', reports) →
      .downedDevice device ∈ reports → t.reported = false ∧ device = t.actor.charge ∧
        ∀ c₁ moves c', next hash c (.run n suspects) = some c₁ →
          (system hash subscribers).Run c₁ moves c' →
          ∃ u, c'.senders[n]? = some u ∧ u.actor.charge = t.actor.charge ∧
            ∀ suspects u' reports' device', u.run suspects = some (u', reports') →
              .downedDevice device' ∉ reports' := by
  have hticks := ticking_of_reachable h t (List.mem_of_getElem? ht)
  refine ⟨fun hs => (hticks.fresh hs).1, hticks.live, fun suspects t' reports device hrun hdown => ?_⟩
  obtain ⟨hgoes, hdowned⟩ := SenderTask.run_downed hrun
  obtain ⟨hcharge, -, hreported⟩ := hdowned device hdown
  refine ⟨hticks.not_reported hrun hdown, hcharge.symm, fun c₁ moves c' hst hmoves => ?_⟩
  have hsenders : c₁.senders = c.senders.set n t' := by
    simp only [next, ht, Option.bind_some, hrun, Option.map_some] at hst
    rw [← Option.some.inj hst]
  have hset : c₁.Timed c₁.senders :=
    ⟨ticking_of_reachable (h.step (show (system hash subscribers).step c _ c₁ from hst)), .refl _⟩
  have hafter := timed_of_run hmoves hset
  obtain ⟨u, hu, hgoes'⟩ := hafter.goOn n t' (hsenders ▸ getElem?_set_of_some t' ht)
  refine ⟨u, hu, (hgoes.trans hgoes').charge, fun suspects u' reports' device' hrun' hdown' => ?_⟩
  have hnot := (hafter.ticking u (List.mem_of_getElem? hu)).not_reported hrun' hdown'
  exact absurd (hgoes'.reported hreported) (by simp [hnot])

/-- Sender 0 of `severalSenders` after its second `Tick` has come. -/
def tickedSender : SenderTask :=
  ⟨⟨DeviceServer.client 20, ⟨1, 50⟩⟩, true, [.msg .tick], 0, false, false⟩

/-- It reports its device down, for the first time. -/
theorem tick_of_reachable_second : ∃ c, (system (fun _ => 2) []).Reachable c ∧
    c.senders[0]? = some tickedSender ∧ tickedSender.pending = 1 ∧
      tickedSender.reported = false ∧ ∃ t', tickedSender.run true =
        some (t', [.downedDevice (DeviceServer.client 20)]) := by
  obtain ⟨c, hexec, ht⟩ : ∃ c, System.exec (next fun _ => 2) (start [])
      (severalSenders ++ [.fire 0]) = some c ∧ c.senders[0]? = some tickedSender :=
    ⟨_, rfl, rfl⟩
  have h := System.reachable_of_exec (severalSenders ++ [.fire 0])
    (.of_init rfl : (system (fun _ => 2) []).Reachable (start [])) hexec
  obtain ⟨-, hlive, honce⟩ := tick_of_reachable (fun _ => 2) [] h ht
  refine ⟨c, h, ht, hlive rfl rfl, ?_, _, rfl⟩
  exact (honce true _ _ (DeviceServer.client 20) rfl List.mem_cons_self).1

end Supervision

end AurumActors.Devices
