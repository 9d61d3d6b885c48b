/-
  Core/Timeouts.lean --- which timer an expiry of the receiving task is of.

  The channel of the timeouts carries message ids only.  Here the receiver runs
  beside the numbers of the timers whose ids wait in that channel, so that an
  expiry can be traced to the timer that sent it.
-/
import AurumActors.Core.Progress

set_option autoImplicit false

namespace AurumActors.Core

open AurumActors.Foundation Std

namespace Receiver

/-! ## What an iteration does to the builders and timers -/

/-- The head of the socket opens a builder for the message of the header. -/
structure Opens (r : Receiver) (header : DatagramHeader) : Prop where
  head : ∃ datagram rest, r.socket = datagram :: rest ∧
    DatagramHeader.tryFrom (overlay r.headerBuf datagram) = some header
  multi : header.maxSeqNum ≠ 0
  vacant : r.recvd[header.msgId]? = none

/-- The builders, the timers and the next number that an iteration leaves. -/
inductive Filed (r : Receiver) :
    ExtTreeMap UInt64 (Nat × MessageBuilder) compare → List (Nat × UInt64) → Nat → Prop
  | same : Filed r r.recvd r.timers r.nextTimer
  | last {msgId : UInt64} {e : Nat × MessageBuilder} (hget : r.recvd[msgId]? = some e) :
      Filed r (r.recvd.erase msgId) (r.timers.filter (fun t => t.1 ≠ e.1)) r.nextTimer
  | more {msgId : UInt64} {e : Nat × MessageBuilder} {mb : MessageBuilder}
      (hget : r.recvd[msgId]? = some e) :
      Filed r (r.recvd.insert msgId (e.1, mb)) r.timers r.nextTimer
  | first {header : DatagramHeader} {mb : MessageBuilder} (hopens : r.Opens header) :
      Filed r (r.recvd.insert header.msgId (r.nextTimer, mb))
        (r.timers ++ [(r.nextTimer, header.msgId)]) (r.nextTimer + 1)

theorem filed_of_peek {r r' : Receiver} (h : r.peek = .ok r') :
    r.Filed r'.recvd r'.timers r'.nextTimer ∧ r'.rx = r.rx := by
  cases peeked_of_ok h with
  | rejected hs hh => exact ⟨.same, rfl⟩
  | @accepted datagram rest header mb socket hs hh hins =>
      unfold store
      split
      · exact ⟨.same, rfl⟩
      · next hmulti =>
          split
          · next hget =>
              split
              · exact ⟨.last (r := r) hget, rfl⟩
              · exact ⟨.more (r := r) hget, rfl⟩
          · next hget =>
              have hopens : r.Opens header := ⟨⟨datagram, rest, hs, hh⟩, hmulti, hget⟩
              exact ⟨.first hopens, rfl⟩

end Receiver

/-- The receiver, and the timers that sent the ids that wait in `rx`. -/
structure Timed where
  receiver : Receiver
  fired : List (Nat × UInt64)
  deriving DecidableEq

namespace Timed

open Receiver

def start : Timed := ⟨.start, []⟩

/-- The move of the receiver.  A timer that wakes is noted, an expiry takes the
note of its timer. -/
def next (t : Timed) : Move → Option Timed
  | .arrive datagram =>
      some { t with receiver := { t.receiver with socket := t.receiver.socket ++ [datagram] } }
  | .peek => t.receiver.peek.toOption.map fun r => { t with receiver := r }
  | .expire => t.receiver.expire.toOption.map fun r => ⟨r, t.fired.tail⟩
  | .wake timer =>
      if timer ∈ t.receiver.timers then some ⟨t.receiver.wake timer, t.fired ++ [timer]⟩
      else none

def system : System Timed Move := .ofNext start next

/-- An expiry removes a builder only if it comes from the timer that was started
with that builder, so only after the timeout of that builder. -/
def Own (t : Timed) : Prop :=
  ∀ r, t.receiver.expire = .ok r → ∀ (msgId : UInt64) (e : Nat × MessageBuilder),
    t.receiver.recvd[msgId]? = some e → r.recvd[msgId]? = none →
      t.fired.head? = some (e.1, msgId)

/-- No builder is opened for a message whose id waits in the timeout channel. -/
def Timely (t : Timed) : Move → Prop
  | .peek => ∀ header, t.receiver.Opens header → header.msgId ∉ t.receiver.rx
  | _ => True

/-! ## The numbers of the timers -/

/-- No two timers, asleep or fired, have one number. -/
structure Numbered (timers : List (Nat × UInt64)) (nextTimer : Nat)
    (fired : List (Nat × UInt64)) : Prop where
  nodup : ((timers ++ fired).map Prod.fst).Nodup
  below : ∀ timer ∈ timers ++ fired, timer.1 < nextTimer

theorem Numbered.sublist {timers timers' fired fired' : List (Nat × UInt64)} {nextTimer : Nat}
    (h : Numbered timers nextTimer fired)
    (hsub : (timers' ++ fired').Sublist (timers ++ fired)) :
    Numbered timers' nextTimer fired' :=
  ⟨h.nodup.sublist (hsub.map _), fun u hu => h.below u (hsub.subset hu)⟩

theorem Numbered.filed {r : Receiver}
    {recvd : ExtTreeMap UInt64 (Nat × MessageBuilder) compare}
    {timers fired : List (Nat × UInt64)} {nextTimer : Nat}
    (h : Numbered r.timers r.nextTimer fired) (hfiled : r.Filed recvd timers nextTimer) :
    Numbered timers nextTimer fired := by
  cases hfiled with
  | same => exact h
  | more hget => exact h
  | last hget => exact h.sublist (List.filter_sublist.append_right _)
  | @first header mb hopens =>
      have hperm : (r.timers ++ [(r.nextTimer, header.msgId)] ++ fired).Perm
          ((r.nextTimer, header.msgId) :: (r.timers ++ fired)) := by
        rw [List.append_assoc]
        exact List.perm_middle
      constructor
      · rw [(hperm.map Prod.fst).nodup_iff, List.map_cons, List.nodup_cons]
        refine ⟨fun hmem => ?_, h.nodup⟩
        obtain ⟨u, hu, heq⟩ := List.mem_map.mp hmem
        exact absurd (h.below u hu) (by simp [heq])
      · intro u hu
        rcases List.mem_cons.mp (hperm.mem_iff.mp hu) with rfl | hu
        · exact Nat.lt_succ_self _
        · exact Nat.lt_succ_of_lt (h.below u hu)

/-- The timer of a wake-up only changes its place. -/
theorem wake_perm {timers : List (Nat × UInt64)} {timer : Nat × UInt64}
    (fired : List (Nat × UInt64)) (hmem : timer ∈ timers) :
    (timers.erase timer ++ (fired ++ [timer])).Perm (timers ++ fired) := by
  rw [← List.append_assoc]
  refine (List.perm_append_singleton _ _).trans ?_
  exact (List.perm_cons_erase hmem).symm.append_right fired

/-- What an expiry leaves. -/
theorem expire_cases {t t' : Timed} (h : t.next .expire = some t') :
    ∃ msgId rx, t.receiver.rx = msgId :: rx ∧ t'.fired = t.fired.tail ∧
      t'.receiver = { t.receiver with rx, recvd := t.receiver.recvd.erase msgId } := by
  obtain ⟨r, hr, rfl⟩ := Option.map_eq_some_iff.mp h
  obtain ⟨msgId, rx, hrx, rfl⟩ := Receiver.expire_cases (ok_of_toOption hr)
  exact ⟨msgId, rx, hrx, rfl, rfl⟩

/-- The channel holds the ids of the timers that fired. -/
structure Noted (t : Timed) : Prop where
  channel : t.receiver.rx = t.fired.map Prod.snd
  numbered : Numbered t.receiver.timers t.receiver.nextTimer t.fired

theorem noted_step {t t' : Timed} {m : Move} (ht : t.Noted) (h : system.step t m t') :
    t'.Noted := by
  have h : t.next m = some t' := h
  obtain ⟨hchannel, hnumbered⟩ := ht
  cases m with
  | arrive datagram =>
      cases h
      exact ⟨hchannel, hnumbered⟩
  | wake timer =>
      simp only [next] at h
      split at h
      · next hmem =>
          cases h
          have hperm := wake_perm t.fired hmem
          refine ⟨by simp [wake, hchannel], ?_⟩
          exact ⟨(hperm.map Prod.fst).nodup_iff.mpr hnumbered.nodup,
            fun u hu => hnumbered.below u (hperm.mem_iff.mp hu)⟩
      · cases h
  | expire =>
      obtain ⟨msgId, rx, hrx, hfired, hr⟩ := expire_cases h
      rw [hrx] at hchannel
      constructor
      · rw [hr, hfired, List.map_tail, ← hchannel, List.tail_cons]
      · rw [hr, hfired]
        exact hnumbered.sublist ((List.tail_sublist _).append_left _)
  | peek =>
      obtain ⟨r, hr, rfl⟩ := Option.map_eq_some_iff.mp h
      obtain ⟨hfiled, hrx⟩ := filed_of_peek (ok_of_toOption hr)
      exact ⟨hrx.trans hchannel, hnumbered.filed hfiled⟩

theorem noted_reachable {t : Timed} (h : system.Reachable t) : t.Noted := by
  refine h.invariant ?_ fun s m u _ hs hst => noted_step hs hst
  rintro s rfl
  exact ⟨rfl, .nil, by simp [start, Receiver.start]⟩

/-! ## Timers and builders -/

/-- A sleeping timer belongs to the stored builder of its message, and so does
an expiry that waits. -/
structure Belongs (recvd : ExtTreeMap UInt64 (Nat × MessageBuilder) compare)
    (timers fired : List (Nat × UInt64)) : Prop where
  sleeping : ∀ timer ∈ timers, ∃ mb, recvd[timer.2]? = some (timer.1, mb)
  expired : ∀ timer ∈ fired, ∀ e, recvd[timer.2]? = some e → e.1 = timer.1

theorem Belongs.filed {r : Receiver}
    {recvd : ExtTreeMap UInt64 (Nat × MessageBuilder) compare}
    {timers fired : List (Nat × UInt64)} {nextTimer : Nat} (h : Belongs r.recvd r.timers fired)
    (hfresh : ∀ header, r.Opens header → header.msgId ∉ fired.map Prod.snd)
    (hfiled : r.Filed recvd timers nextTimer) : Belongs recvd timers fired := by
  cases hfiled with
  | same => exact h
  | @last msgId e hget =>
      constructor
      · intro timer ht
        obtain ⟨ht, hne⟩ := List.mem_filter.mp ht
        obtain ⟨mb, hmb⟩ := h.sleeping timer ht
        refine ⟨mb, ?_⟩
        rw [getElem?_erase_eq, if_neg, hmb]
        rintro rfl
        rw [hget] at hmb
        cases hmb
        simp at hne
      · intro timer ht e' he'
        rw [getElem?_erase_eq] at he'
        split at he'
        · cases he'
        · exact h.expired timer ht e' he'
  | @more msgId e mb hget =>
      constructor
      · intro timer ht
        obtain ⟨mb', hmb'⟩ := h.sleeping timer ht
        rw [getElem?_insert_eq]
        split
        · next heq =>
            rw [heq, hget] at hmb'
            cases hmb'
            exact ⟨mb, rfl⟩
        · exact ⟨mb', hmb'⟩
      · intro timer ht e' he'
        rw [getElem?_insert_eq] at he'
        split at he'
        · next heq =>
            cases he'
            exact h.expired timer ht e (heq ▸ hget)
        · exact h.expired timer ht e' he'
  | @first header mb hopens =>
      constructor
      · intro timer ht
        rw [getElem?_insert_eq]
        rcases List.mem_append.mp ht with ht | ht
        · obtain ⟨mb', hmb'⟩ := h.sleeping timer ht
          refine ⟨mb', ?_⟩
          rw [if_neg, hmb']
          intro heq
          rw [heq, hopens.vacant] at hmb'
          cases hmb'
        · rw [List.mem_singleton.mp ht]
          exact ⟨mb, if_pos rfl⟩
      · intro timer ht e' he'
        rw [getElem?_insert_eq, if_neg] at he'
        · exact h.expired timer ht e' he'
        · intro heq
          exact hfresh header hopens (List.mem_map.mpr ⟨timer, ht, heq⟩)

theorem belongs_step {t t' : Timed} {m : Move} (hnoted : t.Noted)
    (ht : Belongs t.receiver.recvd t.receiver.timers t.fired) (htimely : t.Timely m)
    (h : system.step t m t') : Belongs t'.receiver.recvd t'.receiver.timers t'.fired := by
  have h : t.next m = some t' := h
  cases m with
  | arrive datagram =>
      cases h
      exact ht
  | wake timer =>
      simp only [next] at h
      split at h
      · next hmem =>
          cases h
          refine ⟨fun u hu => ht.sleeping u (List.mem_of_mem_erase hu), fun u hu e he => ?_⟩
          rcases List.mem_append.mp hu with hu | hu
          · exact ht.expired u hu e he
          · rw [List.mem_singleton.mp hu] at he ⊢
            obtain ⟨mb, hmb⟩ := ht.sleeping timer hmem
            have he : t.receiver.recvd[timer.2]? = some e := he
            rw [hmb] at he
            cases he
            rfl
      · cases h
  | expire =>
      obtain ⟨msgId, rx, hrx, hfired, hr⟩ := expire_cases h
      have hchannel := hnoted.channel
      rw [hrx] at hchannel
      obtain ⟨timer, fired, hcons, rfl, -⟩ := List.map_eq_cons_iff.mp hchannel.symm
      have hdistinct := hnoted.numbered.nodup
      rw [List.map_append, List.nodup_append] at hdistinct
      rw [hr, hfired]
      constructor
      · -- a sleeping timer of that message would have the number of the one that fired
        intro u hu
        obtain ⟨mb, hmb⟩ := ht.sleeping u hu
        refine ⟨mb, ?_⟩
        rw [getElem?_erase_eq, if_neg, hmb]
        intro heq
        rw [heq] at hmb
        have hmem : timer ∈ t.fired := by simp [hcons]
        exact hdistinct.2.2 u.1 (List.mem_map_of_mem hu) timer.1 (List.mem_map_of_mem hmem)
          (ht.expired timer hmem _ hmb)
      · intro u hu e he
        rw [getElem?_erase_eq] at he
        split at he
        · cases he
        · exact ht.expired u (List.mem_of_mem_tail hu) e he
  | peek =>
      obtain ⟨r, hr, rfl⟩ := Option.map_eq_some_iff.mp h
      obtain ⟨hfiled, -⟩ := filed_of_peek (ok_of_toOption hr)
      refine ht.filed (fun header hopens => ?_) hfiled
      rw [← hnoted.channel]
      exact htimely header hopens

theorem belongs_reachable {t : Timed} (h : (system.restrict Timely).Reachable t) :
    Belongs t.receiver.recvd t.receiver.timers t.fired := by
  refine h.invariant (I := fun t => Belongs t.receiver.recvd t.receiver.timers t.fired) ?_
    fun s m u hreach hs hst => ?_
  · rintro s rfl
    exact ⟨by simp [start, Receiver.start], by simp [start]⟩
  · exact belongs_step (noted_reachable hreach.of_restrict) hs hst.2 hst.1

theorem Belongs.own {t : Timed} (h : Belongs t.receiver.recvd t.receiver.timers t.fired)
    (hnoted : t.Noted) : t.Own := by
  intro r hr msgId e he hgone
  have hnext : t.next .expire = some ⟨r, t.fired.tail⟩ := by
    simp only [next, hr]
    rfl
  obtain ⟨head, rx, hrx, -, hr'⟩ := expire_cases hnext
  have hr' : r = { t.receiver with rx, recvd := t.receiver.recvd.erase head } := hr'
  have hchannel := hnoted.channel
  rw [hrx] at hchannel
  obtain ⟨timer, fired, hcons, rfl, -⟩ := List.map_eq_cons_iff.mp hchannel.symm
  rw [hr', getElem?_erase_eq] at hgone
  split at hgone
  · next heq =>
      subst heq
      rw [hcons, h.expired timer (by simp [hcons]) e he]
      rfl
  · rw [he] at hgone
    cases hgone

/-- The expiry at the head of the channel removes a builder of another timer. -/
theorem not_own {t : Timed} {msgId : UInt64} {rx : List UInt64} {e : Nat × MessageBuilder}
    (hrx : t.receiver.rx = msgId :: rx) (hget : t.receiver.recvd[msgId]? = some e)
    (hother : t.fired.head? ≠ some (e.1, msgId)) : ¬ t.Own := by
  intro hown
  have hexpire : t.receiver.expire =
      .ok { t.receiver with rx, recvd := t.receiver.recvd.erase msgId } := by
    simp only [Receiver.expire, hrx]
  exact hother (hown _ hexpire msgId e hget (by rw [getElem?_erase_eq, if_pos rfl]))

/-- If the id of a stored builder waits in the channel, and no timer that fired
is that of the builder, then the expiries up to that id remove it. -/
theorem stale_of_waiting (rx : List UInt64) {t : Timed} {msgId : UInt64}
    {e : Nat × MessageBuilder} (hrx : t.receiver.rx = rx) (hmem : msgId ∈ rx)
    (hget : t.receiver.recvd[msgId]? = some e) (hother : ∀ u ∈ t.fired, u.1 ≠ e.1) :
    ∃ moves u, system.Run t moves u ∧ ¬ u.Own := by
  induction rx generalizing t with
  | nil => cases hmem
  | cons head rx ih =>
      by_cases hhead : msgId = head
      · subst hhead
        refine ⟨[], t, .nil, not_own hrx hget fun heq => ?_⟩
        exact hother _ (List.mem_of_mem_head? heq) rfl
      · have hstep : system.step t .expire
            ⟨{ t.receiver with rx, recvd := t.receiver.recvd.erase head }, t.fired.tail⟩ := by
          change t.next .expire = _
          simp only [next, Receiver.expire, hrx]
          rfl
        obtain ⟨moves, u, hrun, hstale⟩ := ih
          (t := ⟨{ t.receiver with rx, recvd := t.receiver.recvd.erase head }, t.fired.tail⟩) rfl
          ((List.mem_cons.mp hmem).resolve_left hhead)
          (by rw [getElem?_erase_eq, if_neg hhead, hget])
          fun u hu => hother u (List.mem_of_mem_tail hu)
        exact ⟨[.expire] ++ moves, u, System.Run.append (.snoc .nil hstep) hrun, hstale⟩

/-- Opening a builder under an id that waits in the channel leads to its removal
by the expiry of another timer. -/
theorem stale_of_not_timely {t t' : Timed} {m : Move} (hnoted : t.Noted)
    (h : system.step t m t') (hlate : ¬ t.Timely m) :
    ∃ moves u, system.Run t' moves u ∧ ¬ u.Own := by
  have h : t.next m = some t' := h
  cases m with
  | arrive datagram => exact absurd trivial hlate
  | expire => exact absurd trivial hlate
  | wake timer => exact absurd trivial hlate
  | peek =>
      simp only [Timely, not_forall, not_not] at hlate
      obtain ⟨header, hopens, hwaits⟩ := hlate
      obtain ⟨datagram, rest, hs, hh⟩ := hopens.head
      obtain ⟨r, hr, rfl⟩ := Option.map_eq_some_iff.mp h
      obtain ⟨mb, socket, -, rfl⟩ := peek_eq_ok hs hh (ok_of_toOption hr)
      rw [store_first (r := { t.receiver with
        headerBuf := overlay t.receiver.headerBuf datagram }) socket hopens.multi hopens.vacant]
      refine stale_of_waiting _ (e := (t.receiver.nextTimer, mb)) rfl hwaits
        (by rw [getElem?_insert_eq, if_pos rfl]) fun u hu => ?_
      exact Nat.ne_of_lt (hnoted.numbered.below u (List.mem_append_right _ hu))

/-- In every run that opens no builder while the id of its message waits in the
timeout channel, an expiry removes a builder only if it comes from the timer of
that builder.  A run that opens one can go on to remove it by another timer. -/
theorem own_of_timely (t : Timed) :
    ((system.restrict Timely).Reachable t → t.Own) ∧
      ∀ m t', system.Reachable t → system.step t m t' → ¬ t.Timely m →
        ∃ moves u, system.Run t' moves u ∧ ¬ u.Own := by
  constructor
  · intro h
    exact (belongs_reachable h).own (noted_reachable h.of_restrict)
  · intro m t' hreach hst hlate
    exact stale_of_not_timely (noted_reachable hreach) hst hlate

/-- The datagrams are peeked at while no expiry waits. -/
def Quiet (t : Timed) : Move → Prop
  | .peek => t.receiver.rx = []
  | _ => True

instance (t : Timed) : DecidablePred t.Quiet
  | .peek => inferInstanceAs (Decidable (t.receiver.rx = []))
  | .arrive _ => .isTrue trivial
  | .expire => .isTrue trivial
  | .wake _ => .isTrue trivial

theorem Quiet.timely {t : Timed} {m : Move} (h : t.Quiet m) : t.Timely m := by
  cases m with
  | peek =>
      have h : t.receiver.rx = [] := h
      intro header _
      simp [h]
  | arrive datagram => trivial
  | expire => trivial
  | wake timer => trivial

/-- The timer of a message of two packets fires, then its second packet completes
it. -/
def lateTimer : List Move :=
  [.arrive firstOfTwo, .peek, .wake (0, 5), .arrive secondOfTwo, .peek]

/-- The message is sent again while the expiry waits, and the expiry removes the
builder of the second copy. -/
theorem expiry_of_completed_message :
    ∃ t, system.Reachable t ∧ t.receiver.forwarded.length = 1 ∧ ¬ t.Own := by
  have hexec : ∃ t ∈ System.exec next start (lateTimer ++ [.arrive firstOfTwo, .peek]),
      t.receiver.forwarded.length = 1 ∧ t.receiver.rx = [5] ∧ t.fired = [(0, 5)] ∧
        ∃ e ∈ t.receiver.recvd[(5 : UInt64)]?, e.1 = 1 := by decide
  obtain ⟨t, ht, hforwarded, hrx, hfired, e, hget, he⟩ := hexec
  refine ⟨t, System.reachable_of_exec _ (.of_init rfl) ht, hforwarded, not_own hrx hget ?_⟩
  rw [hfired, he]
  decide

/-- A builder whose own timer fires; and the two copies of a message again. -/
theorem own_of_timely_firstOfTwo :
    (∃ t : Timed, t.receiver.rx = [5] ∧ t.receiver.recvd[(5 : UInt64)]?.isSome ∧ t.Own) ∧
      ∃ t' moves u, system.Reachable t' ∧ system.Run t' moves u ∧ ¬ u.Own := by
  constructor
  · have hexec : ∃ t ∈ System.execWhere Quiet next start
        [.arrive firstOfTwo, .peek, .wake (0, 5)],
        t.receiver.rx = [5] ∧ t.receiver.recvd[(5 : UInt64)]?.isSome := by decide
    obtain ⟨t, ht, hrx, hget⟩ := hexec
    have hreach := System.reachable_of_execWhere (C := Quiet) _ (.of_init rfl) ht
    have htimely : (system.restrict Timely).Reachable t :=
      hreach.mono (S := system.restrict Quiet) (T := system.restrict Timely) (fun _ => id)
        fun _ _ _ hst => ⟨hst.1, hst.2.timely⟩
    exact ⟨t, hrx, hget, (own_of_timely t).1 htimely⟩
  · have hexec : ∃ t ∈ System.exec next start (lateTimer ++ [.arrive firstOfTwo]),
        t.receiver.rx = [5] ∧ t.receiver.socket = [firstOfTwo] ∧
          DatagramHeader.tryFrom (overlay t.receiver.headerBuf firstOfTwo) =
            some (headerOfTwo 0) ∧
          t.receiver.recvd[(5 : UInt64)]? = none ∧ (t.next .peek).isSome := by decide
    obtain ⟨t, ht, hrx, hs, hh, hvacant, hnext⟩ := hexec
    obtain ⟨t', ht'⟩ := Option.isSome_iff_exists.mp hnext
    have hreach : system.Reachable t := System.reachable_of_exec _ (.of_init rfl) ht
    have hlate : ¬ t.Timely .peek := by
      intro h
      have hopens : t.receiver.Opens (headerOfTwo 0) :=
        ⟨⟨firstOfTwo, [], hs, hh⟩, by decide, hvacant⟩
      exact h _ hopens (by rw [hrx]; decide)
    obtain ⟨moves, u, hrun, hstale⟩ := (own_of_timely t).2 .peek t' hreach ht' hlate
    exact ⟨t', moves, u, hreach.step ht', hrun, hstale⟩

end Timed

end AurumActors.Core
