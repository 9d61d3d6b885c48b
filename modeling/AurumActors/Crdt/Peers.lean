/-
  Crdt/Peers.lean --- the peers of an actor are the other members of the updates.

  Members of the universe have ids of their own, and every update tells how the
  members became those it has.  The actor follows it without a failed `unwrap`,
  and other messages leave its peers as they are.
-/
import AurumActors.Cluster.Subscriptions
import AurumActors.Crdt.Dispersal

set_option autoImplicit false

namespace AurumActors.Crdt

open Std
open AurumActors.Cluster AurumActors.Core AurumActors.Foundation

attribute [local instance] lexOrd

/-! ## Peers -/

namespace InCluster

variable {S : Type} {ic ic' : InCluster S} {U : Set Member} {own own' : Member}
  {nodes nodes' : MemberSet}

/-- The actor is the member `own`, and has a count for each other one of `nodes`. -/
structure Peers (own : Member) (nodes : MemberSet) (ic : InCluster S) : Prop where
  member : ic.member = own
  acks : ∀ (id : UInt64) (m : Member),
    (∃ c, ic.acks[id]? = some (m, c)) ↔ m.id = id ∧ m ∈ nodes ∧ m ≠ own

/-- An actor that enters the cluster has them. -/
theorem peers_toIc [CRDT S] (hids : Set.InjOn Member.id U) (hU : ∀ m ∈ nodes, m ∈ U)
    (w : Waiting S) (own : Member) : Peers own nodes (w.toIc own nodes) := by
  refine ⟨rfl, fun id m => ⟨fun ⟨c, hget⟩ => ?_, ?_⟩⟩
  · rcases of_getElem?_foldl_insert (fun m : Member => m.id) (fun m => (m, 0)) _ _ hget with
      h | ⟨m', hm', hid, he⟩
    · simp at h
    · cases he
      have hmem := ExtTreeSet.mem_toList.mp hm'
      rw [mem_erase_iff] at hmem
      exact ⟨hid, hmem.2, hmem.1⟩
  · rintro ⟨rfl, hm, hne⟩
    refine ⟨0, getElem?_foldl_insert_of_mem (fun m : Member => m.id) (fun m => (m, 0)) ?_ ∅ ?_⟩
    · refine ExtTreeSet.distinct_toList.imp_of_mem fun {a b} ha hb hdistinct hsame => ?_
      have hmem : ∀ {x}, x ∈ (nodes.erase own).toList → x ∈ U := fun hx =>
        hU _ ((mem_erase_iff _ _ _).mp (ExtTreeSet.mem_toList.mp hx)).2
      exact hdistinct (compare_eq_iff_eq.mpr (hids (hmem ha) (hmem hb) hsame))
    · rw [ExtTreeSet.mem_toList, mem_erase_iff]
      exact ⟨hne, hm⟩

/-- An event that tells of another member, or of any that goes, is one of the
membership, and the peers follow it. -/
theorem Peers.event (hids : Set.InjOn Member.id U) (hpeers : ic.Peers own nodes)
    (hU : ∀ m ∈ nodes, m ∈ U) (hown : own ∈ U) {e : ClusterEvent} (hmoves : e.Moves U own)
    {es : List ClusterEvent} (hreplay : replay nodes (e :: es) = some nodes') :
    ic.Fits e ∧ ∃ nodes₁ : MemberSet, replay nodes₁ es = some nodes' ∧ (∀ m ∈ nodes₁, m ∈ U) ∧
      ∀ disperse ic' disperse', ic.event disperse e = .ok (ic', disperse') →
        ic'.Peers own nodes₁ := by
  cases e with
  | alone | joined | left => exact hmoves.elim
  | added m =>
      obtain ⟨hm, hne⟩ := hmoves
      simp only [replay] at hreplay
      split at hreplay
      · cases hreplay
      · next hnot =>
          have hinj : ∀ x ∈ nodes, x.id ≠ m.id := by
            intro x hx hid
            exact hnot (hids (hU x hx) hm hid ▸ hx)
          refine ⟨?_, _, hreplay, fun x hx => ?_, fun disperse ic' disperse' h => ?_⟩
          · refine Option.eq_none_iff_forall_not_mem.mpr fun e hget => ?_
            obtain ⟨hid, hx, -⟩ := (hpeers.acks m.id e.1).mp ⟨e.2, hget⟩
            exact hinj e.1 hx hid
          · rcases (mem_insert_iff _ _ _).mp hx with rfl | hx
            · exact hm
            · exact hU x hx
          · cases h
            refine ⟨hpeers.member, fun id x => ?_⟩
            simp only [getElem?_insert_eq, mem_insert_iff]
            split
            · next hid =>
                subst hid
                constructor
                · rintro ⟨c, hget⟩
                  cases hget
                  exact ⟨rfl, .inl rfl, hne⟩
                · rintro ⟨hid, rfl | hx, -⟩
                  · exact ⟨0, rfl⟩
                  · exact absurd hid (hinj x hx)
            · next hid =>
                rw [hpeers.acks]
                refine and_congr_right fun hx => and_congr_left fun _ => ?_
                refine (or_iff_right ?_).symm
                rintro rfl
                exact hid hx.symm
  | removed m =>
      simp only [replay] at hreplay
      split at hreplay
      · next hmem =>
          have hinj : ∀ x ∈ nodes, x.id = m.id → x = m :=
            fun x hx hid => hids (hU x hx) (hU m hmem) hid
          refine ⟨?_, _, hreplay, fun x hx => hU x ((mem_erase_iff _ _ _).mp hx).2,
            fun disperse ic' disperse' h => ?_⟩
          · by_cases hself : m = own
            · exact .inr (by rw [hself, hpeers.member])
            · obtain ⟨c, hget⟩ := (hpeers.acks m.id m).mpr ⟨rfl, hmem, hself⟩
              exact .inl (by rw [hget]; rfl)
          · cases event_cases h with
            | self _ hself =>
                rw [hpeers.member] at hself
                obtain rfl := hids (hU m hmem) hown hself
                refine ⟨hpeers.member, fun id x => ?_⟩
                rw [hpeers.acks, mem_erase_iff]
                tauto
            | removed _ member cnt hget =>
                refine ⟨hpeers.member, fun id x => ?_⟩
                simp only [getElem?_erase_eq, mem_erase_iff]
                split
                · next hid =>
                    subst hid
                    constructor
                    · rintro ⟨c, hnone⟩
                      cases hnone
                    · rintro ⟨hid, ⟨hne, hx⟩, -⟩
                      exact absurd (hinj x hx hid) hne
                · next hid =>
                    rw [hpeers.acks]
                    refine and_congr_right fun hx => and_congr_left fun _ => ?_
                    refine (and_iff_right ?_).symm
                    rintro rfl
                    exact hid hx.symm
      · cases hreplay

/-- The peers follow events as long as they can be replayed. -/
theorem Peers.events (hids : Set.InjOn Member.id U) (hown : own ∈ U) {es : List ClusterEvent}
    (rest : List ClusterEvent) (hpeers : ic.Peers own nodes) (hU : ∀ m ∈ nodes, m ∈ U)
    (hmoves : ∀ e ∈ es, e.Moves U own)
    (hreplay : replay nodes es = some nodes')
    (hrest : ∀ ic' : InCluster S, ic'.Peers own nodes' → ic'.AllFit rest) :
    ic.AllFit (es ++ rest) ∧ ∀ disperse r, ic.events disperse (es ++ rest) = .ok r →
      ∃ (ic₁ : InCluster S) (disperse₁ : Bool), ic₁.Peers own nodes' ∧
        ic₁.events disperse₁ rest = .ok r := by
  induction es generalizing ic nodes with
  | nil =>
      cases hreplay
      exact ⟨hrest ic hpeers, fun disperse r h => ⟨ic, disperse, hpeers, h⟩⟩
  | cons e es ih =>
      obtain ⟨hfits, nodes₁, hreplay₁, hU₁, hevent⟩ :=
        hpeers.event hids hU hown (hmoves e List.mem_cons_self) hreplay
      have hnext := fun {ic₁ : InCluster S} (h : ic₁.Peers own nodes₁) =>
        ih h hU₁ (fun e' he' => hmoves e' (List.mem_cons_of_mem e he')) hreplay₁
      refine ⟨⟨hfits, ?_⟩, fun disperse r h => ?_⟩
      · split
        · next ic₁ disperse₁ hok => exact (hnext (hevent _ _ _ hok)).1
        · trivial
      · obtain ⟨⟨ic₁, disperse₁⟩, hok, h⟩ := ok_of_bind h
        exact (hnext (hevent _ _ _ hok)).2 disperse₁ r h

/-- The events of an update are those of a membership, and afterwards the peers
are the other members of the update. -/
theorem Peers.narrated (hids : Set.InjOn Member.id U) (hown : own ∈ U)
    (hpeers : ic.Peers own nodes) (hU : ∀ m ∈ nodes, m ∈ U) {es : List ClusterEvent}
    (h : Narrates U own nodes own' nodes' es) :
    ic.AllFit es ∧ ∀ disperse ic' disperse', ic.events disperse es = .ok (ic', disperse') →
      ic'.Peers own' nodes' := by
  cases h with
  | stays hmoves hreplay hmem =>
      obtain ⟨hfit, hevents⟩ := Peers.events hids hown [] hpeers hU hmoves hreplay
        fun _ _ => trivial
      rw [List.append_nil] at hfit hevents
      refine ⟨hfit, fun disperse ic' disperse' hok => ?_⟩
      obtain ⟨ic₁, disperse₁, hpeers₁, hend⟩ := hevents disperse _ hok
      cases hend
      exact hpeers₁
  | @replaced nodes₁ own' es hmoves hreplay hgone hnew =>
      obtain ⟨hfit, hevents⟩ := Peers.events hids hown [.joined own'] hpeers hU hmoves hreplay
        fun _ _ => ⟨trivial, trivial⟩
      refine ⟨hfit, fun disperse ic' disperse' hok => ?_⟩
      obtain ⟨ic₁, disperse₁, hpeers₁, hend⟩ := hevents disperse _ hok
      cases hend
      refine ⟨rfl, fun id m => (hpeers₁.acks id m).trans ?_⟩
      -- neither the member that is gone nor the new one is among the others
      refine and_congr_right fun _ => ?_
      rw [mem_insert_iff]
      constructor
      · rintro ⟨hm, -⟩
        exact ⟨.inr hm, fun heq => hnew (heq ▸ hm)⟩
      · rintro ⟨rfl | hm, hne⟩
        · exact absurd rfl hne
        · exact ⟨hm, fun heq => hgone (heq ▸ hm)⟩

end InCluster

/-! ## Messages -/

namespace CausalDisperse

variable {S : Type} [CRDT S] {a a' : CausalDisperse S} {msg : CausalMsg S}
  {out : List (Output S)} {U : Set Member}

/-- An actor that has taken the updates waits for the first one, or has the other
members of the last one as its peers. -/
def Caught (us : List (Member × ClusterUpdate)) (a : CausalDisperse S) : Prop :=
  match us.getLast? with
  | none => ∃ w, a.state = .waiting w
  | some u => ∃ ic, a.state = .inCluster ic ∧ ic.Peers u.1 u.2.nodes ∧
      ic.cluster = u.2.nodes.erase u.1

/-- An actor that waits joins with its first update. -/
def Joinable (a : CausalDisperse S) : CausalMsg S → Prop
  | .update u => ∀ w, a.state = .waiting w → ∃ m, u.events = [.alone m] ∨ u.events = [.joined m]
  | _ => True

/-- No acknowledgement is from the future. -/
def Bounded (a : CausalDisperse S) : CausalMsg S → Prop
  | .intra (.ack _ c) => ∀ ic, a.state = .inCluster ic → ic.Counted ∧ c ≤ ic.clock
  | _ => True

/-- A message of the network and of a membership is handled exactly if the priority
members are peers. -/
theorem recv_ok_iff [DecidableEq S] (hind : ∀ ic, a.state = .inCluster ic → ic.Indexed) (hcons : a.Consistent msg)
    (hbounded : a.Bounded msg) (hjoinable : a.Joinable msg) :
    (∃ r, a.recv msg = .ok r) ↔ a.PriorityKnown msg := by
  cases hdispersing : a.dispersing msg with
  | some ic =>
      obtain ⟨before, after, -, -, hrecv⟩ := recv_of_dispersing hdispersing
      have hindexed := indexed_of_dispersing hdispersing hcons hind
      have hknown : a.PriorityKnown msg ↔ ic.PriorityKnown a.preference := by
        simp [PriorityKnown, hdispersing]
      rw [hknown, ← hindexed.disperse_ok_iff, hrecv]
      cases ic.disperse a.preference <;> simp [Except.map]
  | none =>
      refine iff_of_true ?_ fun ic hic => ?_
      swap
      · rw [hdispersing] at hic
        cases hic
      obtain ⟨p, state⟩ := a
      cases state with
      | waiting w =>
          cases msg with
          | update u =>
              obtain ⟨m, hevents | hevents⟩ := hjoinable w rfl
              · exact ⟨_, by simp only [recv, hevents]; rfl⟩
              · exact ⟨_, by simp only [recv, hevents]; rfl⟩
          | _ => exact ⟨_, rfl⟩
      | inCluster ic =>
          have hindexed := hind ic rfl
          cases msg with
          | setDispersalPreference p' => exact ⟨_, rfl⟩
          | mutate op =>
              simp only [dispersing] at hdispersing
              split at hdispersing
              · next hempty =>
                  exact ⟨_, by simp only [recv, InCluster.op, hempty, if_true]; rfl⟩
              · cases hdispersing
          | intra m =>
              cases m with
              | ack id clock =>
                  obtain ⟨hcounted, hclock⟩ := hbounded ic rfl
                  obtain ⟨ic', hok⟩ := hindexed.ack_ok hcounted id hclock
                  exact ⟨_, by simp only [recv, hok]; rfl⟩
              | delta delta id clock =>
                  simp only [dispersing] at hdispersing
                  split at hdispersing
                  · cases hdispersing
                  · next hnot =>
                      cases hget : ic.acks[id]? with
                      | none => exact ⟨_, by simp only [recv, InCluster.delta, hget]; rfl⟩
                      | some e =>
                          have hold : CRDT.join ic.data delta = ic.data := by
                            by_contra hne
                            exact hnot ⟨by rw [hget]; rfl, hne⟩
                          exact ⟨_, by simp only [recv, InCluster.delta, hget, hold, if_true]; rfl⟩
          | update u =>
              simp only [dispersing] at hdispersing
              obtain ⟨ic', disperse, hev, -⟩ := hindexed.events_ok false hcons
              rw [hev] at hdispersing
              cases disperse with
              | true => cases hdispersing
              | false => exact ⟨_, by simp only [recv, InCluster.update, hev]; rfl⟩
          | disperseTimeout =>
              simp only [dispersing] at hdispersing
              split at hdispersing
              · cases hdispersing
              · next hidle => exact ⟨_, by simp only [recv, if_neg hidle]; rfl⟩

/-- A quiet actor has recorded its clock for every peer. -/
theorem count_eq_clock [DecidableEq S] {ic : InCluster S} (hic : a.state = .inCluster ic)
    (hindexed : ic.Indexed) (hcounted : ic.Counted) (hquiet : a.dispersing .disperseTimeout = none)
    {id : UInt64} {m : Member} {c : Nat} (hget : ic.acks[id]? = some (m, c)) : c = ic.clock := by
  have hmem := (hindexed.indexes c id).mpr ⟨m, hget⟩
  have hle := hcounted.ordAcks_le c id hmem
  have hmin := hindexed.minOrd_eq ▸ firstCount_le hmem
  have hnonempty : ¬ ic.acks.isEmpty := by
    intro hempty
    rw [Std.ExtTreeMap.isEmpty_iff.mp hempty] at hget
    simp at hget
  unfold dispersing at hquiet
  rw [hic] at hquiet
  simp only at hquiet
  split at hquiet
  · cases hquiet
  · next hidle =>
      have hclock : ic.minOrd = ic.clock := by
        by_contra hne
        exact hidle ⟨hne, hnonempty⟩
      omega

/-- A message that is no update leaves the peers as they are. -/
theorem Caught.handled {us : List (Member × ClusterUpdate)} (hcaught : a.Caught us)
    (hmsg : ∀ u, msg ≠ .update u) (h : Handled a msg a' out) : a'.Caught us := by
  unfold Caught at hcaught ⊢
  cases hlast : us.getLast? with
  | none =>
      rw [hlast] at hcaught
      obtain ⟨w, hw⟩ := hcaught
      cases h with
      | «prefer» p p' state => exact ⟨w, hw⟩
      | queue p w' op => exact ⟨_, rfl⟩
      | ignore p w' msg hmsg => exact ⟨_, rfl⟩
      | join p w' u m hlast => exact absurd rfl (hmsg u)
      | _ => cases hw
  | some u =>
      rw [hlast] at hcaught
      obtain ⟨ic, hic, hpeers, hcluster⟩ := hcaught
      have hgrow : ∀ data delta, (ic.grow data delta).Peers u.1 u.2.nodes :=
        fun _ _ => ⟨hpeers.member, hpeers.acks⟩
      cases h with
      | «prefer» p p' state => exact ⟨ic, hic, hpeers, hcluster⟩
      | queue p w op => cases hic
      | ignore p w msg hmsg => cases hic
      | join p w u m hlast => cases hic
      | op p ic₀ ic' op sent hgrown hsent =>
          cases hic
          exact ⟨ic', rfl, hgrown ▸ hgrow _ _, hgrown ▸ hcluster⟩
      | deltaNew p ic₀ ic' delta id clock member cnt sent hget hgrown hsent =>
          cases hic
          exact ⟨ic', rfl, hgrown ▸ hgrow _ _, hgrown ▸ hcluster⟩
      | ack p ic₀ ic' id clock hcases =>
          cases hic
          rcases hcases with rfl | ⟨⟨member, cnt, minId, hget, -, -, -, heq⟩, -⟩
          · exact ⟨_, rfl, hpeers, hcluster⟩
          · refine ⟨ic', rfl, ?_, heq ▸ hcluster⟩
            rw [heq]
            refine ⟨hpeers.member, fun id' m => ?_⟩
            rw [← hpeers.acks]
            simp only [getElem?_insert_eq]
            split
            · next hid =>
                subst hid
                simp [hget]
            · exact Iff.rfl
      | update p ic₀ ic' u disperse sent hevents hsent => exact absurd rfl (hmsg u)
      | _ =>
          cases hic
          exact ⟨_, rfl, hpeers, hcluster⟩

/-- The next update fits the membership. -/
theorem Caught.fits {us : List (Member × ClusterUpdate)} {u : Member × ClusterUpdate}
    (hcaught : a.Caught us) (hids : Set.InjOn Member.id U) (htells : Tells U us u) :
    a.Consistent (.update u.2) ∧ a.Joinable (.update u.2) := by
  unfold Caught at hcaught
  cases hlast : us.getLast? with
  | none =>
      rw [hlast] at hcaught
      obtain ⟨w, hw⟩ := hcaught
      refine ⟨?_, fun w' _ => ⟨u.1, htells.first (List.getLast?_eq_none_iff.mp hlast)⟩⟩
      unfold Consistent
      rw [hw]
      trivial
  | some v =>
      rw [hlast] at hcaught
      obtain ⟨ic, hic, hpeers, -⟩ := hcaught
      obtain ⟨hown, hU, hnarrates⟩ := htells.later v hlast
      refine ⟨?_, fun w hw => ?_⟩
      · unfold Consistent
        rw [hic]
        exact (hpeers.narrated hids hown hU hnarrates).1
      · rw [hic] at hw
        cases hw

/-- The next update is caught up with. -/
theorem Caught.updated {us : List (Member × ClusterUpdate)} {u : Member × ClusterUpdate}
    (hcaught : a.Caught us) (hids : Set.InjOn Member.id U) (htells : Tells U us u)
    (h : Handled a (.update u.2) a' out) : a'.Caught (us ++ [u]) := by
  unfold Caught at hcaught ⊢
  rw [List.getLast?_concat]
  cases hlast : us.getLast? with
  | none =>
      rw [hlast] at hcaught
      obtain ⟨w, hw⟩ := hcaught
      have hevents := htells.first (List.getLast?_eq_none_iff.mp hlast)
      cases h with
      | ignore p w' msg hmsg => rcases hmsg with hmsg | ⟨m, hmsg⟩ <;> cases hmsg
      | join p w' u' m hjoin =>
          have hm : m = u.1 := by
            rcases hevents with hevents | hevents <;> rw [hevents] at hjoin <;>
              rcases hjoin with hjoin | hjoin <;> cases hjoin <;> rfl
          subst hm
          exact ⟨_, rfl, InCluster.peers_toIc hids htells.within w' u.1, rfl⟩
      | update p ic ic' u' disperse sent hevents hsent => cases hw
  | some v =>
      rw [hlast] at hcaught
      obtain ⟨ic, hic, hpeers, -⟩ := hcaught
      obtain ⟨hown, hU, hnarrates⟩ := htells.later v hlast
      cases h with
      | ignore p w' msg hmsg => cases hic
      | join p w' u' m hjoin => cases hic
      | update p ic₀ ic' u' disperse sent hevents hsent =>
          cases hic
          have hpeers' := (hpeers.narrated hids hown hU hnarrates).2 _ _ _ hevents
          refine ⟨_, rfl, ⟨hpeers'.member, hpeers'.acks⟩, ?_⟩
          rw [hpeers'.member]

end CausalDisperse

end AurumActors.Crdt
