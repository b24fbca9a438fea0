import Mathlib.Data.Multiset.AddSub
import Vcass.Vcablk.Framing

/-!
# Where a Context Is

Each of the `VCABLK_BIO_CTX_POOL_SIZE + 1` contexts is in exactly one place: free in the pool,
held by the request thread, standing for a published batch, or held by the completion handler.
-/

namespace Vcass.Vcablk

open Vcass.Core Vcass.BlockIo Multiset DiskState

/-! ## Places -/

/-- The request that the request thread works on -/
def MakeRequestThread.worksOn : MakeRequestThread → Option Nat
  | .idle => none
  | .getContext l | .syncBefore l _ | .segment l _ | .syncAfter l _ | .finish l _ | .abort l _
  | .waiting l _ => some l.id

/-- The cookie of the context that the request thread holds -/
def MakeRequestThread.cookies : MakeRequestThread → List Nat
  | .syncBefore _ c | .segment _ c | .syncAfter _ c | .finish _ c | .abort _ (some c) => [c + 1]
  | .idle | .getContext _ | .abort _ none | .waiting _ _ => []

/-- The cookie that the completion handler holds -/
def CompletionHandler.cookies : CompletionHandler → List Nat
  | .taken cookie _ => [cookie]
  | .cleaned c _ _ => [c + 1]
  | .idle | .pushed _ _ _ _ => []

/-- The cookies of batches that were published and whose answers were not yet taken -/
def DiskState.flight (s : DiskState) : Multiset Nat :=
  (s.unread.map fun b => b.context + 1 : List Nat) + (s.unanswered : Multiset Nat) +
    (s.pendingAcks.map VcablkCompletion.cookie : List Nat) + (s.lost : Multiset Nat)

def DiskState.busy (s : DiskState) : Multiset Nat :=
  (s.thread.cookies : Multiset Nat) + s.flight + (s.handler.cookies : Multiset Nat)

theorem DiskState.mem_busy {s : DiskState} {cookie : Nat} : cookie ∈ s.busy ↔
    cookie ∈ s.thread.cookies ∨ cookie ∈ s.flight ∨ cookie ∈ s.handler.cookies := by
  simp only [busy, mem_add, mem_coe, or_assoc]

def allCookies : List Nat := (List.range (vcablkBioCtxPoolSize + 1)).map (· + 1)

/-- **Every context is in one place.** -/
structure Places (s : DiskState) (free : List Nat) : Prop where
  pool : Represents s.pool free
  num : s.pool.num = vcablkBioCtxPoolSize + 1
  cookies : (free.map (· + 1) : Multiset Nat) + s.busy = (allCookies : Multiset Nat)

theorem allCookies_nodup : allCookies.Nodup :=
  List.nodup_range.map (Nat.succ_injective)

namespace Places

variable {s s' : DiskState} {free : List Nat} (p : Places s free)

include p

theorem nodup : ((free.map (· + 1) : Multiset Nat) + s.busy).Nodup := by
  rw [p.cookies]
  exact coe_nodup.mpr allCookies_nodup

theorem of_busy {cookie : Nat} (h : cookie ∈ s.busy) :
    ∃ c, cookie = c + 1 ∧ c < s.pool.num ∧ c ∉ free := by
  have hall : cookie ∈ allCookies := by
    rw [← mem_coe, ← p.cookies]
    exact mem_add.mpr (.inr h)
  obtain ⟨c, hc, rfl⟩ := List.mem_map.mp hall
  refine ⟨c, rfl, ?_, fun hfree => ?_⟩
  · rw [p.num]
    exact List.mem_range.mp hc
  · have hdisjoint := (nodup_add.mp p.nodup).2.2
    refine disjoint_left.mp hdisjoint ?_ h
    exact mem_coe.mpr (List.mem_map.mpr ⟨c, hfree, rfl⟩)

theorem of_taken {cookie : Nat} {ret : Int} (h : s.handler = .taken cookie ret) :
    ∃ c, cookie = c + 1 ∧ c < s.pool.num ∧ c ∉ free :=
  p.of_busy (mem_busy.mpr (.inr (.inr (by rw [h]; exact List.mem_cons_self))))

theorem taken_used {cookie : Nat} {ret : Int}
    (h : s.handler = .taken cookie ret) :
    cookie ≠ 0 ∧ vcablkPoolGetById s.pool (cookie - 1) := by
  obtain ⟨c, rfl, hlt, hfree⟩ := p.of_taken h
  exact ⟨Nat.succ_ne_zero c, (p.pool.getById_iff hlt).mpr hfree⟩

theorem busy_nodup : s.busy.Nodup := (nodup_add.mp p.nodup).2.1

theorem unread_nodup : (s.unread.map Batch.context).Nodup := by
  have hle : ((s.unread.map fun b => b.context + 1 : List Nat) : Multiset Nat) ≤ s.busy := by
    unfold busy flight
    refine le_trans ?_ (le_add_right _ _)
    refine le_trans ?_ (le_add_left _ _)
    rw [add_assoc, add_assoc]
    exact le_add_right _ _
  have hnodup := coe_nodup.mp (nodup_of_le hle p.busy_nodup)
  refine List.Nodup.of_map (· + 1) ?_
  rw [List.map_map]
  exact hnodup

variable {c : Nat}

theorem thread_not_flight (h : c + 1 ∈ s.thread.cookies) :
    c + 1 ∉ s.flight ∧ c + 1 ∉ s.handler.cookies := by
  have hnodup := p.busy_nodup
  unfold busy at hnodup
  rw [add_assoc] at hnodup
  have hdisjoint := disjoint_left.mp (nodup_add.mp hnodup).2.2
    (mem_coe.mpr h)
  rw [mem_add, not_or] at hdisjoint
  exact ⟨hdisjoint.1, fun hmem => hdisjoint.2 (mem_coe.mpr hmem)⟩

theorem handler_not_flight (h : c + 1 ∈ s.handler.cookies) : c + 1 ∉ s.flight := by
  have hnodup := p.busy_nodup
  unfold busy at hnodup
  have hdisjoint := (nodup_add.mp hnodup).2.2
  intro hflight
  exact disjoint_left.mp hdisjoint (mem_add.mpr (.inr hflight))
    (mem_coe.mpr h)

theorem free_not_busy (h : c ∈ free) : c + 1 ∉ s.busy :=
  disjoint_left.mp (nodup_add.mp p.nodup).2.2
    (mem_coe.mpr (List.mem_map.mpr ⟨c, h, rfl⟩))

theorem frame (hpool : s'.pool = s.pool) (hbusy : s'.busy = s.busy) :
    Places s' free where
  pool := hpool ▸ p.pool
  num := hpool ▸ p.num
  cookies := hbusy ▸ p.cookies

theorem pop {pool : VcablkPool}
    (hpop : vcablkPoolPop s.pool = some (c, pool)) (hpool : s'.pool = pool)
    (hbusy : s'.busy = {c + 1} + s.busy) : ∃ rest, free = c :: rest ∧ Places s' rest := by
  obtain ⟨rest, hfree, hrep, hnum⟩ := p.pool.pop hpop
  refine ⟨rest, hfree, hpool ▸ hrep, ?_, ?_⟩
  · rw [hpool, hnum, p.num]
  · rw [hbusy, ← p.cookies, hfree, List.map_cons, ← cons_coe, ← singleton_add]
    ac_rfl

theorem push {pool : VcablkPool}
    (hpush : vcablkPoolPush s.pool c = some pool) (hpool : s'.pool = pool)
    (hbusy : s.busy = {c + 1} + s'.busy) : Places s' (free ++ [c]) := by
  have hmem : c + 1 ∈ s.busy := by
    rw [hbusy, singleton_add]
    exact mem_cons_self _ _
  obtain ⟨c', heq, hlt, hfree⟩ := p.of_busy hmem
  cases heq
  obtain ⟨pool', hpush', hrep, hnum⟩ := p.pool.push hlt hfree
  rw [hpush] at hpush'
  cases hpush'
  refine ⟨hpool ▸ hrep, ?_, ?_⟩
  · rw [hpool, hnum, p.num]
  · rw [List.map_append, ← coe_add, List.map_singleton, coe_singleton,
      ← p.cookies, hbusy]
    ac_rfl

end Places

/-! ## Steps -/

section

variable {s s' : DiskState} {free : List Nat}

theorem unread_append (ring : RingOk s) {b : Batch} (hpublished : s'.published = s.published ++ [b])
    (hreturned : s'.returned = s.returned) : s'.unread = s.unread ++ [b] := by
  unfold unread
  rw [hpublished, hreturned, List.drop_append_of_le_length ring.returned_le]

theorem flight_publish (ring : RingOk s) {b : Batch} {c : Nat} (hb : b.context = c)
    (hpublished : s'.published = s.published ++ [b]) (hreturned : s'.returned = s.returned)
    (hunanswered : s'.unanswered = s.unanswered) (hacks : s'.pendingAcks = s.pendingAcks)
    (hlost : s'.lost = s.lost) : s'.flight = {c + 1} + s.flight := by
  subst hb
  unfold flight
  rw [unread_append ring hpublished hreturned, hunanswered, hacks, hlost, List.map_append,
    ← coe_add, List.map_singleton, coe_singleton]
  ac_rfl

theorem busy_publish (ring : RingOk s) {b : Batch} (hthread : s.thread.cookies = [b.context + 1])
    (hthread' : s'.thread.cookies = []) (hpublished : s'.published = s.published ++ [b])
    (hreturned : s'.returned = s.returned) (hunanswered : s'.unanswered = s.unanswered)
    (hacks : s'.pendingAcks = s.pendingAcks) (hlost : s'.lost = s.lost)
    (hhandler : s'.handler = s.handler) : s'.busy = s.busy := by
  unfold busy
  rw [flight_publish ring rfl hpublished hreturned hunanswered hacks hlost, hthread, hthread', hhandler,
    coe_singleton, coe_nil, zero_add]

theorem flight_take (acks : AckRingOk s)
    (hne : s.completionRing.lastUsed ≠ s.completionRing.lastAdd) {ack : VcablkCompletion}
    (hack : s.completionRing.elems
      (vcaRbCounterToIdx s.completionRing.lastUsed vcablkQueueAckNums) = ack)
    (hunread : s'.unread = s.unread) (hunanswered : s'.unanswered = s.unanswered)
    (hacks : s'.acks = s.acks) (htaken : s'.acksTaken = s.acksTaken + 1)
    (hlost : s'.lost = s.lost) : s.flight = {ack.cookie} + s'.flight := by
  obtain ⟨ack', rest, hpending, -, -, hread⟩ := acks.next hne
  cases hack.symm.trans hread
  have hdrop : s'.pendingAcks = rest := by
    unfold pendingAcks at hpending ⊢
    rw [hacks, htaken, ← List.drop_drop, hpending, List.drop_one, List.tail_cons]
  unfold flight
  rw [hpending, hdrop, hunread, hunanswered, hlost, List.map_cons, ← cons_coe,
    ← singleton_add]
  ac_rfl

theorem busy_take (hidle : s.handler.cookies = []) {cookie : Nat}
    (hhandler : s'.handler.cookies = [cookie]) (hthread : s'.thread = s.thread)
    (hflight : s.flight = {cookie} + s'.flight) : s'.busy = s.busy := by
  unfold busy
  rw [hflight, hidle, hhandler, hthread, coe_nil, coe_singleton]
  ac_rfl

theorem ReadEffect.flight (h : ReadEffect s s') : s'.flight = s.flight := by
  cases h with
  | copied r busy heq ok =>
    subst heq
    rfl
  | returned b rest hunread heq =>
    subst heq
    have hdrop : s.published.drop (s.returned.length + 1) = rest := by
      unfold unread at hunread
      rw [← List.drop_drop, hunread, List.drop_one, List.tail_cons]
    unfold flight
    rw [hunread]
    unfold unread
    dsimp only
    rw [List.length_append, List.length_singleton, hdrop, List.map_cons, ← cons_coe,
      ← singleton_add, ← coe_add, coe_singleton]
    simp only [pendingAcks]
    ac_rfl

theorem coe_eraseIdx {l : List Nat} {k a : Nat} (hk : l[k]? = some a) :
    (l : Multiset Nat) = {a} + (l.eraseIdx k : Multiset Nat) := by
  obtain ⟨hlt, hget⟩ := List.getElem?_eq_some_iff.mp hk
  rw [singleton_add, cons_coe, coe_eq_coe, ← hget]
  exact (List.getElem_cons_eraseIdx_perm hlt).symm

theorem ResponseStep.flight {a : DiskAct} (acks : AckRingOk s) (h : ResponseStep s a s') :
    s'.flight = s.flight := by
  cases h with
  | write at_idle hk hroom =>
    have hle : s.acksTaken ≤ s.acks.length := by
      have := acks.taken_le
      omega
    unfold flight
    rw [coe_eraseIdx hk]
    unfold pendingAcks
    dsimp only
    rw [List.drop_append_of_le_length hle, List.map_append, ← coe_add,
      List.map_singleton, coe_singleton]
    simp only [unread]
    ac_rfl
  | timeout at_idle hk hfull =>
    -- an answer that finds no slot is lost, but its context stays accounted for
    unfold flight
    rw [coe_eraseIdx hk]
    dsimp only
    rw [← coe_add, coe_singleton]
    simp only [unread, pendingAcks]
    ac_rfl
  | publish at_written => rfl

theorem ThreadStep.places {map : Option Nat} {stop : Bool} (ring : RingOk s) (p : Places s free)
    (h : ThreadStep s map stop s') : ∃ free', Places s' free' := by
  cases h with
  | take at_idle | noContext at_idle | breakNone at_idle | endAborted at_idle =>
    refine ⟨free, p.frame rfl ?_⟩
    unfold busy
    rw [at_idle]
    rfl
  | getContext at_get hpop =>
    rename_i l c pool
    have hbusy : busy { initContext s pool c l.id with
        thread := if l.req.doSync ∧ l.previous = none then .syncBefore l c else .segment l c } =
        {c + 1} + s.busy := by
      unfold busy
      rw [at_get, ← add_assoc, ← add_assoc]
      split <;> rfl
    obtain ⟨rest, -, hp⟩ := p.pop hpop rfl hbusy
    exact ⟨rest, hp⟩
  | syncBefore at_sync | syncAfter at_sync | splitFailed at_sync | noMap at_sync
  | mapNull at_sync | segment at_sync | finishFailed at_sync =>
    refine ⟨free, p.frame rfl ?_⟩
    unfold busy
    rw [at_sync]
    rfl
  | segmentsDone at_segment =>
    refine ⟨free, p.frame rfl ?_⟩
    unfold busy
    rw [at_segment]
    dsimp only
    split <;> rfl
  | giveUp hat =>
    refine ⟨free, p.frame rfl ?_⟩
    unfold busy
    rcases hat with hat | hat | hat <;> rw [hat] <;> rfl
  | split hat _ _ _ | finish hat _ =>
    exact ⟨free, p.frame rfl
      (busy_publish ring (by rw [hat]; rfl) rfl rfl rfl rfl rfl rfl rfl)⟩
  | breakContext at_abort hpush =>
    refine ⟨_, p.push hpush rfl ?_⟩
    unfold busy
    rw [at_abort, ← add_assoc, ← add_assoc]
    rfl

theorem HandlerStep.places (acks : AckRingOk s) (p : Places s free) (h : HandlerStep s s') :
    ∃ free', Places s' free' := by
  cases h with
  | take at_idle hne hack =>
    -- the answer moves from the ring to the handler
    refine ⟨free, p.frame rfl (busy_take (by rw [at_idle]; rfl) rfl rfl ?_)⟩
    exact flight_take acks hne hack rfl rfl rfl rfl rfl
  | clean at_taken =>
    refine ⟨free, p.frame rfl ?_⟩
    unfold busy
    rw [at_taken]
    rfl
  | drop at_taken hbad => exact absurd (p.taken_used at_taken) hbad
  | push at_cleaned hpush =>
    rename_i c req ret pool
    refine ⟨_, p.push hpush rfl ?_⟩
    unfold busy
    rw [at_cleaned]
    show _ = {c + 1} + ((s.thread.cookies : Multiset Nat) + s.flight + 0)
    rw [add_zero, add_comm]
    rfl
  | ends at_pushed | remembers at_pushed =>
    refine ⟨free, p.frame rfl ?_⟩
    unfold busy
    rw [at_pushed]
    rfl

theorem ReadEffect.places (p : Places s free) (h : ReadEffect s s') : Places s' free := by
  have hflight := h.flight
  cases h with
  | copied r busy heq ok | returned b rest hunread heq =>
    subst heq
    refine p.frame rfl ?_
    unfold DiskState.busy
    rw [hflight]

theorem ResponseStep.places {a : DiskAct} (acks : AckRingOk s) (p : Places s free)
    (h : ResponseStep s a s') : Places s' free := by
  have hflight := h.flight acks
  cases h <;>
    · refine p.frame rfl ?_
      unfold busy
      rw [hflight]

end

end Vcass.Vcablk
