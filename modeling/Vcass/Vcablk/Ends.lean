import Mathlib.Data.Multiset.Bind
import Vcass.Vcablk.Delivery

/-!
# Where a Request Is, and Its Mappings

A request that was taken from the ring is in exactly one place: the request thread works on it,
the context of a batch on its way points to it, the completion handler is about to end it, or it
was ended.  `MappedOk` follows the page mappings of the contexts.
-/

namespace Vcass.Vcablk

open Vcass.Core Vcass.BlockIo Function Multiset DiskState

/-! ## Where a request is -/

/-- What the contexts on their way hold, by `f` -/
def DiskState.inFlight (s : DiskState) (f : VcablkBioContext → List Nat) : Multiset Nat :=
  s.flight.bind fun cookie => (f (s.contexts (cookie - 1)) : Multiset Nat)

/-- The requests that contexts on their way point to -/
def DiskState.pointers (s : DiskState) : Multiset Nat :=
  s.inFlight fun context => context.req.toList

/-- The request that the completion handler is about to end -/
def DiskState.inHandler (s : DiskState) : List Nat :=
  match s.handler with
  | .idle => []
  | .taken cookie _ => (s.contexts (cookie - 1)).req.toList
  | .cleaned _ req _ | .pushed _ _ req _ => req.toList

def DiskState.endedRequests (s : DiskState) : List Nat := s.ended.map EndRequest.req

/-- **Every request is in one place.** -/
def RequestsOk (s : DiskState) : Prop :=
  (s.thread.worksOn.toList : Multiset Nat) + s.pointers + (s.inHandler : Multiset Nat) +
    (s.endedRequests : Multiset Nat) = (List.range s.taken : Multiset Nat)

namespace RequestsOk

variable {s : DiskState}

section

variable (ok : RequestsOk s)

include ok

theorem nodup :
    ((s.thread.worksOn.toList : Multiset Nat) + s.pointers + (s.inHandler : Multiset Nat) +
      (s.endedRequests : Multiset Nat)).Nodup := by
  rw [show _ = _ from ok]
  exact coe_nodup.mpr List.nodup_range

theorem ended_nodup : s.endedRequests.Nodup :=
  coe_nodup.mp (nodup_add.mp ok.nodup).2.1

theorem handler_not_ended {id : Nat} (h : id ∈ s.inHandler) :
    id ∉ s.endedRequests := by
  have hdisjoint := (nodup_add.mp ok.nodup).2.2
  intro hended
  refine disjoint_left.mp hdisjoint ?_ (mem_coe.mpr hended)
  exact mem_add.mpr (.inr (mem_coe.mpr h))

theorem handler_not_worksOn {id : Nat} (h : id ∈ s.inHandler) :
    s.thread.worksOn ≠ some id := by
  have hnodup := (nodup_add.mp ok.nodup).1
  have hdisjoint := (nodup_add.mp hnodup).2.2
  intro hworks
  refine disjoint_left.mp hdisjoint ?_ (mem_coe.mpr h)
  rw [hworks]
  exact mem_add.mpr (.inl (mem_singleton_self id))

end

end RequestsOk

section

variable {s s' : DiskState} {free : List Nat} {f : VcablkBioContext → List Nat}

theorem Places.of_flight (p : Places s free) {cookie : Nat} (h : cookie ∈ s.flight) :
    ∃ c, cookie = c + 1 := by
  obtain ⟨c, hc, -, -⟩ := p.of_busy (mem_busy.mpr (.inr (.inl h)))
  exact ⟨c, hc⟩

theorem inFlight_frame (p : Places s free) (hflight : s'.flight = s.flight)
    (hcontexts : ∀ c, c + 1 ∈ s.flight → f (s'.contexts c) = f (s.contexts c)) :
    s'.inFlight f = s.inFlight f := by
  unfold inFlight
  rw [hflight]
  refine bind_congr fun cookie hcookie => ?_
  obtain ⟨c, rfl⟩ := p.of_flight hcookie
  rw [Nat.add_sub_cancel, hcontexts c hcookie]

theorem inFlight_update (p : Places s free) (hflight : s'.flight = s.flight) {c : Nat}
    {context : VcablkBioContext} (hc : c + 1 ∉ s.flight)
    (hcontexts : s'.contexts = update s.contexts c context) :
    s'.inFlight f = s.inFlight f := by
  refine inFlight_frame p hflight fun c' hc' => ?_
  have hne : c' ≠ c := by
    rintro rfl
    exact hc hc'
  rw [hcontexts, update_of_ne hne]

theorem inFlight_publish (p : Places s free) {c : Nat} (hflight : s'.flight = {c + 1} + s.flight)
    (hcontexts : ∀ c', c' ≠ c → s'.contexts c' = s.contexts c') (hc : c + 1 ∉ s.flight) :
    s'.inFlight f = (f (s'.contexts c) : Multiset Nat) + s.inFlight f := by
  have hrest : s.flight.bind (fun cookie => (f (s'.contexts (cookie - 1)) : Multiset Nat)) =
      s.inFlight f := by
    refine bind_congr fun cookie hcookie => ?_
    obtain ⟨c', rfl⟩ := p.of_flight hcookie
    have hne : c' ≠ c := by
      rintro rfl
      exact hc hcookie
    rw [Nat.add_sub_cancel, hcontexts c' hne]
  unfold inFlight at hrest ⊢
  rw [hflight, add_bind, hrest, singleton_bind, Nat.add_sub_cancel]

theorem inFlight_take {cookie : Nat} (hflight : s.flight = {cookie} + s'.flight)
    (hcontexts : s'.contexts = s.contexts) :
    s.inFlight f = (f (s.contexts (cookie - 1)) : Multiset Nat) + s'.inFlight f := by
  unfold inFlight
  rw [hflight, add_bind, singleton_bind, hcontexts]

end

section

variable {s s' : DiskState} {free : List Nat}

theorem inHandler_update (p : Places s free) (hhandler : s'.handler = s.handler) {c : Nat}
    {context : VcablkBioContext} (hc : c + 1 ∉ s.handler.cookies)
    (hcontexts : s'.contexts = update s.contexts c context) :
    s'.inHandler = s.inHandler := by
  unfold inHandler
  rw [hhandler, hcontexts]
  cases hh : s.handler with
  | taken cookie ret =>
    obtain ⟨c', rfl, -, -⟩ := p.of_taken hh
    have hne : c' ≠ c := by
      rintro rfl
      rw [hh] at hc
      exact hc List.mem_cons_self
    dsimp only
    rw [Nat.add_sub_cancel, update_of_ne hne]
  | idle | cleaned c' req ret | pushed c' owner req ret => rfl

theorem RequestsOk.frame (ok : RequestsOk s) (hworks : s'.thread.worksOn = s.thread.worksOn)
    (hpointers : s'.pointers = s.pointers) (hhandler : s'.inHandler = s.inHandler)
    (hended : s'.ended = s.ended) (htaken : s'.taken = s.taken) : RequestsOk s' := by
  unfold RequestsOk endedRequests at ok ⊢
  rw [hworks, hpointers, hhandler, hended, htaken]
  exact ok

theorem RequestsOk.update (p : Places s free) (ok : RequestsOk s) {c : Nat}
    {context : VcablkBioContext} (hflight : c + 1 ∉ s.flight) (hcookies : c + 1 ∉ s.handler.cookies)
    (hcontexts : s'.contexts = update s.contexts c context)
    (hworks : s'.thread.worksOn = s.thread.worksOn) (hsame : s'.flight = s.flight)
    (hhandler : s'.handler = s.handler) (hended : s'.ended = s.ended)
    (htaken : s'.taken = s.taken) : RequestsOk s' :=
  ok.frame hworks (inFlight_update p hsame hflight hcontexts)
    (inHandler_update p hhandler hcookies hcontexts) hended htaken

theorem Places.pop_not_busy (p : Places s free) {c : Nat} {pool : VcablkPool}
    (hpop : vcablkPoolPop s.pool = some (c, pool)) :
    c + 1 ∉ s.thread.cookies ∧ c + 1 ∉ s.flight ∧ c + 1 ∉ s.handler.cookies := by
  obtain ⟨rest, hfree, -, -⟩ := p.pool.pop hpop
  have hbusy := p.free_not_busy (c := c) (by rw [hfree]; exact List.mem_cons_self)
  rw [mem_busy, not_or, not_or] at hbusy
  exact hbusy

theorem ThreadStep.requests {map : Option Nat} {stop : Bool} (inv : DiskInv s) (p : Places s free)
    (ok : RequestsOk s) (h : ThreadStep s map stop s') : RequestsOk s' := by
  have hthread : ∀ {c}, s.thread.cookies = [c + 1] →
      c + 1 ∉ s.flight ∧ c + 1 ∉ s.handler.cookies := by
    intro c hcookies
    refine p.thread_not_flight ?_
    rw [hcookies]
    exact List.mem_cons_self
  cases h with
  | take at_idle hne hring hreq =>
    obtain ⟨rfl, -⟩ := inv.queue.next hne hring
    unfold RequestsOk at ok ⊢
    rw [at_idle] at ok
    dsimp only
    rw [List.range_succ, ← coe_add, ← ok]
    show {s.taken} + s.pointers + (s.inHandler : Multiset Nat) +
      (s.endedRequests : Multiset Nat) = 0 + s.pointers + (s.inHandler : Multiset Nat) +
      (s.endedRequests : Multiset Nat) + {s.taken}
    rw [zero_add]
    ac_rfl
  | getContext at_get hpop =>
    obtain ⟨-, hflight, hcookies⟩ := p.pop_not_busy hpop
    refine ok.update p hflight hcookies rfl ?_ rfl rfl rfl rfl
    rw [at_get]
    dsimp only
    split <;> rfl
  | noContext hat _ _ | syncBefore hat _ | syncAfter hat _ | splitFailed hat _ _ | noMap hat _ _
  | breakNone hat =>
    exact ok.frame (by rw [hat]; rfl) rfl rfl rfl rfl
  | giveUp hat _ =>
    refine ok.frame ?_ rfl rfl rfl rfl
    rcases hat with hat | hat | hat <;> rw [hat] <;> rfl
  | segmentsDone hat _ =>
    refine ok.frame ?_ rfl rfl rfl rfl
    rw [hat]
    dsimp only
    split <;> rfl
  | mapNull hat _ _ _ _ | segment hat _ _ _ _ _ | finishFailed hat _ | breakContext hat _ =>
    obtain ⟨hflight, hcookies⟩ := hthread (by rw [hat]; rfl)
    exact ok.update p hflight hcookies rfl (by rw [hat]; rfl) rfl rfl rfl rfl
  | split hat hsegs hsplit hne =>
    rename_i l c bvec rest
    obtain ⟨hflight, hcookies⟩ := hthread (by rw [hat]; rfl)
    -- a batch that is not the last one has no request pointer
    have build := inv.build
    unfold BuildOk at build
    rw [hat] at build
    obtain ⟨before, -, hfill⟩ := build
    have hpublish : flight { startBatch s l c with
        thread := .getContext { l with previous := some c } } = {c + 1} + s.flight :=
      flight_publish inv.ring rfl rfl rfl rfl rfl rfl
    refine ok.frame (by rw [hat]; rfl) ?_ rfl rfl rfl
    refine (inFlight_publish p hpublish (fun _ _ => rfl) hflight).trans ?_
    show ((s.contexts c).req.toList : Multiset Nat) + s.pointers = s.pointers
    rw [hfill.req, Option.toList_none, coe_nil, zero_add]
  | finish hat hne =>
    rename_i l c
    obtain ⟨hflight, hcookies⟩ := hthread (by rw [hat]; rfl)
    have hpublish : flight { startBatch (setReq s c l.id) l c with thread := .idle } =
        {c + 1} + s.flight := flight_publish inv.ring rfl rfl rfl rfl rfl rfl
    have hpointers : pointers { startBatch (setReq s c l.id) l c with thread := .idle } =
        {l.id} + s.pointers := by
      refine (inFlight_publish p hpublish (fun c' hc' => update_of_ne hc' _ _)
        hflight).trans ?_
      show ((update s.contexts c _ c).req.toList : Multiset Nat) + s.pointers = _
      rw [update_self]
      rfl
    have hinHandler : inHandler { startBatch (setReq s c l.id) l c with
        thread := .idle } = s.inHandler := inHandler_update p rfl hcookies rfl
    unfold RequestsOk at ok ⊢
    rw [hpointers, hinHandler]
    rw [hat] at ok
    refine Eq.trans ?_ ok
    show 0 + ({l.id} + s.pointers) + (s.inHandler : Multiset Nat) +
      (s.endedRequests : Multiset Nat) = {l.id} + s.pointers + (s.inHandler : Multiset Nat) +
      (s.endedRequests : Multiset Nat)
    rw [zero_add]
  | endAborted hat hprevious =>
    rename_i l c
    unfold RequestsOk at ok ⊢
    rw [hat] at ok
    refine Eq.trans ?_ ok
    show 0 + s.pointers + (s.inHandler : Multiset Nat) +
      ((s.ended ++ [_]).map EndRequest.req : Multiset Nat) =
      {l.id} + s.pointers + (s.inHandler : Multiset Nat) + (s.endedRequests : Multiset Nat)
    rw [List.map_append, ← coe_add, zero_add]
    show s.pointers + (s.inHandler : Multiset Nat) + ((s.endedRequests : Multiset Nat) + {l.id}) = _
    ac_rfl

theorem HandlerStep.requests (inv : DiskInv s) (p : Places s free) (ok : RequestsOk s)
    (h : HandlerStep s s') : RequestsOk s' := by
  cases h with
  | take hat hne hack =>
    rename_i ack
    -- the pointer moves with the cookie
    have hflight : s.flight = {ack.cookie} + flight { s with
        completionRing :=
          { s.completionRing with
            elems := update s.completionRing.elems
              (vcaRbCounterToIdx s.completionRing.lastUsed vcablkQueueAckNums) ⟨0, 0⟩
            lastUsed := vcaRbCounterAdd s.completionRing.lastUsed 1 vcablkQueueAckNums }
        acksTaken := s.acksTaken + 1
        handler := .taken ack.cookie ack.ret } :=
      flight_take inv.acks hne hack rfl rfl rfl rfl rfl
    have hpointers := inFlight_take (f := fun context => context.req.toList) hflight rfl
    unfold RequestsOk at ok ⊢
    refine Eq.trans ?_ ok
    unfold pointers inHandler endedRequests
    rw [hpointers, hat]
    dsimp only
    rw [coe_nil, add_zero]
    ac_rfl
  | clean hat hused =>
    rename_i c ret
    have hcookies : c + 1 ∈ s.handler.cookies := by
      rw [hat]
      exact List.mem_cons_self
    refine ok.frame rfl (inFlight_update p rfl (p.handler_not_flight hcookies) rfl) ?_ rfl rfl
    unfold inHandler
    rw [hat]
    rfl
  | drop hat hbad => exact absurd (p.taken_used hat) hbad
  | push hat hpush =>
    refine ok.frame rfl rfl ?_ rfl rfl
    unfold inHandler
    rw [hat]
  | ends hat =>
    rename_i c owner id ret
    unfold RequestsOk at ok ⊢
    refine Eq.trans ?_ ok
    have hin : s.inHandler = [id] := by
      unfold inHandler
      rw [hat]
      rfl
    rw [hin]
    show (s.thread.worksOn.toList : Multiset Nat) + s.pointers + 0 +
      ((s.ended ++ [_]).map EndRequest.req : Multiset Nat) = _
    rw [List.map_append, ← coe_add, add_zero]
    show (s.thread.worksOn.toList : Multiset Nat) + s.pointers +
      ((s.endedRequests : Multiset Nat) + {id}) =
      (s.thread.worksOn.toList : Multiset Nat) + s.pointers + {id} +
        (s.endedRequests : Multiset Nat)
    ac_rfl
  | remembers hat =>
    refine ok.frame rfl rfl ?_ rfl rfl
    unfold inHandler
    rw [hat]
    rfl

end

/-! ## Page mappings -/

/-- The mappings that are there are those that the contexts remember; a context that is neither
with the request thread nor on its way has none; and none was left when a request was
ended. -/
structure MappedOk (s : DiskState) : Prop where
  live : ∀ c m, s.live.count (c, m) = (s.contexts c).bvecCtxs.count m
  used : ∀ c, (s.contexts c).bvecCtxs ≠ [] → c + 1 ∈ s.thread.cookies ∨ c + 1 ∈ s.flight ∨
    ∃ ret, s.handler = .taken (c + 1) ret
  /-- A context that ends a request may already be used for another one -/
  pushed : ∀ c owner id ret, s.handler = .pushed c owner (some id) ret →
    ∀ m ∈ (s.contexts c).bvecCtxs, m.req ≠ id
  waiting : ∀ l c, s.thread = .waiting l (some c) → (s.contexts c).bvecCtxs = []
  ended : ∀ e ∈ s.ended, e.mapped = []

section

variable {s s' : DiskState} {free : List Nat}

theorem MappedOk.mapped_nil (ok : MappedOk s) {c id : Nat}
    (h : ∀ m ∈ (s.contexts c).bvecCtxs, m.req ≠ id) : s.mapped c id = [] := by
  unfold mapped
  rw [List.map_eq_nil_iff, List.filter_eq_nil_iff]
  rintro ⟨c', m⟩ hm hmatch
  obtain ⟨rfl, hreq⟩ := of_decide_eq_true hmatch
  refine h m ?_ hreq
  rw [← List.count_pos_iff, ← ok.live]
  exact List.count_pos_iff.mpr hm

theorem count_unmap {live : List (Nat × BvecContext)} {maps : List BvecContext} {c : Nat}
    (hmaps : ∀ m, live.count (c, m) = maps.count m) (c' : Nat) (m : BvecContext) :
    (live.diff (maps.map fun m => (c, m))).count (c', m) =
      if c' = c then 0 else live.count (c', m) := by
  rw [List.count_diff]
  split
  · rename_i hc
    subst hc
    have hinj : Function.Injective fun m : BvecContext => (c', m) := by
      intro a b hab
      exact (Prod.mk.inj hab).2
    rw [List.count_map_of_injective maps _ hinj m, hmaps, Nat.sub_self]
  · rename_i hc
    have hzero : (maps.map fun m => (c, m)).count (c', m) = 0 := by
      rw [List.count_eq_zero]
      intro hmem
      obtain ⟨m', -, heq⟩ := List.mem_map.mp hmem
      exact hc (Prod.mk.inj heq).1.symm
    rw [hzero, Nat.sub_zero]

theorem MappedOk.frame (ok : MappedOk s) (hlive : s'.live = s.live)
    (hcontexts : ∀ c, (s'.contexts c).bvecCtxs = (s.contexts c).bvecCtxs)
    (hused : ∀ c, c + 1 ∈ s.thread.cookies ∨ c + 1 ∈ s.flight ∨
      (∃ ret, s.handler = .taken (c + 1) ret) → c + 1 ∈ s'.thread.cookies ∨ c + 1 ∈ s'.flight ∨
        ∃ ret, s'.handler = .taken (c + 1) ret)
    (hpushed : ∀ c owner id ret, s'.handler = .pushed c owner (some id) ret →
      ∀ m ∈ (s.contexts c).bvecCtxs, m.req ≠ id)
    (hwaiting : ∀ l c, s'.thread = .waiting l (some c) → (s.contexts c).bvecCtxs = [])
    (hended : ∀ e ∈ s'.ended, e.mapped = []) : MappedOk s' := by
  constructor
  · intro c m
    rw [hlive, hcontexts]
    exact ok.live c m
  · intro c hne
    rw [hcontexts] at hne
    exact hused c (ok.used c hne)
  · intro c owner id ret hat
    rw [hcontexts]
    exact hpushed c owner id ret hat
  · intro l c hat
    rw [hcontexts]
    exact hwaiting l c hat
  · exact hended

theorem MappedOk.not_used (ok : MappedOk s) {c : Nat} (hthread : c + 1 ∉ s.thread.cookies)
    (hflight : c + 1 ∉ s.flight) (hhandler : ∀ ret, s.handler ≠ .taken (c + 1) ret) :
    (s.contexts c).bvecCtxs = [] := by
  by_contra hne
  rcases ok.used c hne with h | h | ⟨ret, h⟩
  · exact hthread h
  · exact hflight h
  · exact hhandler ret h

theorem MappedOk.thread_frame (ok : MappedOk s) (hlive : s'.live = s.live)
    (hcontexts : ∀ c, (s'.contexts c).bvecCtxs = (s.contexts c).bvecCtxs)
    (hcookies : ∀ c, c + 1 ∈ s.thread.cookies → c + 1 ∈ s'.thread.cookies ∨ c + 1 ∈ s'.flight)
    (hflight : ∀ c, c + 1 ∈ s.flight → c + 1 ∈ s'.flight) (hhandler : s'.handler = s.handler)
    (hwaiting : ∀ l c, s'.thread = .waiting l (some c) → (s.contexts c).bvecCtxs = [])
    (hended : s'.ended = s.ended) : MappedOk s' := by
  refine ok.frame hlive hcontexts (fun c hused => ?_) (by rw [hhandler]; exact ok.pushed) hwaiting
    (by rw [hended]; exact ok.ended)
  rcases hused with h | h | h
  · rcases hcookies c h with h | h
    · exact .inl h
    · exact .inr (.inl h)
  · exact .inr (.inl (hflight c h))
  · rw [hhandler]
    exact .inr (.inr h)

theorem MappedOk.map (ok : MappedOk s) (requests : RequestsOk s) {c id : Nat} {m : BvecContext}
    (hthread : s.thread.cookies = [c + 1]) (hworks : s.thread.worksOn = some id)
    (hm : m.req = id) (hlive : s'.live = (c, m) :: s.live)
    (hcontexts : s'.contexts = update s.contexts c
      { s.contexts c with bvecCtxs := (s.contexts c).bvecCtxs ++ [m] })
    (hcookies : s'.thread.cookies = [c + 1]) (hflight : s'.flight = s.flight)
    (hhandler : s'.handler = s.handler) (hended : s'.ended = s.ended) : MappedOk s' := by
  have hbvecs : ∀ c', (s'.contexts c').bvecCtxs =
      if c' = c then (s.contexts c).bvecCtxs ++ [m] else (s.contexts c').bvecCtxs := by
    intro c'
    rw [hcontexts]
    split
    · rename_i hc
      rw [hc, update_self]
    · rename_i hc
      rw [update_of_ne hc]
  constructor
  · intro c' m'
    rw [hlive, hbvecs, List.count_cons, ok.live]
    by_cases hc : c' = c
    · subst hc
      rw [if_pos rfl, List.count_append, List.count_singleton]
      simp
    · rw [if_neg hc]
      have hne : ((c, m) == (c', m')) = false := by
        rw [beq_eq_false_iff_ne]
        intro heq
        exact hc (Prod.mk.inj heq).1.symm
      simp [hne]
  · intro c' hne
    rw [hcookies, hflight, hhandler]
    by_cases hc : c' = c
    · subst hc
      exact .inl List.mem_cons_self
    · rw [hbvecs, if_neg hc] at hne
      have := ok.used c' hne
      rwa [hthread] at this
  · intro c' owner id' ret hat m' hm'
    rw [hhandler] at hat
    rw [hbvecs] at hm'
    have hother : id' ≠ id := by
      rintro rfl
      refine requests.handler_not_worksOn ?_ hworks
      unfold inHandler
      rw [hat]
      exact List.mem_cons_self
    split at hm'
    · rename_i hc
      subst hc
      rcases List.mem_append.mp hm' with hm' | hm'
      · exact ok.pushed _ _ _ _ hat m' hm'
      · rw [List.mem_singleton.mp hm', hm]
        exact hother.symm
    · exact ok.pushed _ _ _ _ hat m' hm'
  · intro l c' hat
    rw [hat] at hcookies
    cases hcookies
  · rw [hended]
    exact ok.ended

theorem MappedOk.unmap (ok : MappedOk s) {c : Nat} {context : VcablkBioContext}
    (hcontext : context.bvecCtxs = [])
    (hlive : s'.live = s.live.diff ((s.contexts c).bvecCtxs.map fun m => (c, m)))
    (hcontexts : s'.contexts = update s.contexts c context)
    (hused : ∀ c', c' ≠ c → c' + 1 ∈ s.thread.cookies ∨ c' + 1 ∈ s.flight ∨
      (∃ ret, s.handler = .taken (c' + 1) ret) → c' + 1 ∈ s'.thread.cookies ∨
        c' + 1 ∈ s'.flight ∨ ∃ ret, s'.handler = .taken (c' + 1) ret)
    (hpushed : ∀ c' owner id ret, s'.handler = .pushed c' owner (some id) ret →
      s.handler = .pushed c' owner (some id) ret)
    (hwaiting : ∀ l c', s'.thread = .waiting l (some c') → c' = c ∨ s.thread = s'.thread)
    (hended : s'.ended = s.ended) : MappedOk s' := by
  have hbvecs : ∀ c', (s'.contexts c').bvecCtxs =
      if c' = c then [] else (s.contexts c').bvecCtxs := by
    intro c'
    rw [hcontexts]
    split
    · rename_i hc
      rw [hc, update_self, hcontext]
    · rename_i hc
      rw [update_of_ne hc]
  constructor
  · intro c' m
    rw [hlive, hbvecs, count_unmap (ok.live c)]
    split
    · rfl
    · exact ok.live c' m
  · intro c' hne
    rw [hbvecs] at hne
    split at hne
    · exact absurd rfl hne
    · rename_i hc
      exact hused c' hc (ok.used c' hne)
  · intro c' owner id ret hat m hm
    rw [hbvecs] at hm
    split at hm
    · cases hm
    · exact ok.pushed _ _ _ _ (hpushed _ _ _ _ hat) m hm
  · intro l c' hat
    rw [hbvecs]
    split
    · rfl
    · rename_i hc
      rcases hwaiting l c' hat with h | h
      · exact absurd h hc
      · exact ok.waiting l c' (h.trans hat)
  · rw [hended]
    exact ok.ended

theorem ThreadStep.mapped {map : Option Nat} {stop : Bool} (inv : DiskInv s) (p : Places s free)
    (requests : RequestsOk s) (ok : MappedOk s) (h : ThreadStep s map stop s') : MappedOk s' := by
  cases h with
  | take hat _ _ _ | noContext hat _ _ =>
    refine ok.thread_frame rfl (fun _ => rfl) (fun c hc => ?_) (fun _ => id) rfl
      (fun _ _ h => by cases h) rfl
    rw [hat] at hc
    cases hc
  | getContext hat hpop =>
    rename_i l c pool
    obtain ⟨hthread, hflight, hcookies⟩ := p.pop_not_busy hpop
    have hnil : (s.contexts c).bvecCtxs = [] := by
      refine ok.not_used hthread hflight fun ret htaken => hcookies ?_
      rw [htaken]
      exact List.mem_cons_self
    refine ok.thread_frame rfl (fun c' => ?_) (fun c' hc' => ?_) (fun _ => id) rfl
      (fun l' c' hat' => ?_) rfl
    · show (update s.contexts c _ c').bvecCtxs = _
      by_cases hc : c' = c
      · rw [hc, update_self, hnil]
      · rw [update_of_ne hc]
    · rw [hat] at hc'
      cases hc'
    · dsimp only at hat'
      split at hat' <;> cases hat'
  | syncBefore hat _ | syncAfter hat _ | splitFailed hat _ _ | noMap hat _ _ =>
    refine ok.thread_frame rfl (fun _ => rfl) (fun c hc => .inl ?_) (fun _ => id) rfl
      (fun _ _ h => by cases h) rfl
    rw [hat] at hc
    exact hc
  | giveUp hat _ =>
    refine ok.thread_frame rfl (fun _ => rfl) (fun c hc => .inl ?_) (fun _ => id) rfl
      (fun _ _ h => by cases h) rfl
    rcases hat with hat | hat | hat <;> rw [hat] at hc <;> exact hc
  | segmentsDone hat _ =>
    refine ok.thread_frame rfl (fun _ => rfl) (fun c hc => .inl ?_) (fun _ => id) rfl
      (fun l' c' hat' => ?_) rfl
    · rw [hat] at hc
      dsimp only
      split <;> exact hc
    · dsimp only at hat'
      split at hat' <;> cases hat'
  | split hat hsegs hsplit hne =>
    rename_i l c bvec rest
    have hpublish : flight { startBatch s l c with
        thread := .getContext { l with previous := some c } } = {c + 1} + s.flight :=
      flight_publish inv.ring rfl rfl rfl rfl rfl rfl
    refine ok.thread_frame rfl (fun _ => rfl) (fun c' hc' => .inr ?_) (fun c' hc' => ?_) rfl
      (fun _ _ h => by cases h) rfl
    · rw [hat] at hc'
      rw [hpublish]
      exact mem_add.mpr (.inl (mem_singleton.mpr (List.mem_singleton.mp hc')))
    · rw [hpublish]
      exact mem_add.mpr (.inr hc')
  | mapNull hat hsegs hroom hfits hmap =>
    exact ok.map requests (by rw [hat]; rfl) (by rw [hat]; rfl) rfl rfl rfl rfl rfl rfl rfl
  | segment hat hsegs hroom hfits hmap hda =>
    exact ok.map requests (by rw [hat]; rfl) (by rw [hat]; rfl) rfl rfl rfl rfl rfl rfl rfl
  | finish hat hne =>
    rename_i l c
    have hpublish : flight { startBatch (setReq s c l.id) l c with thread := .idle } =
        {c + 1} + s.flight := flight_publish inv.ring rfl rfl rfl rfl rfl rfl
    refine ok.thread_frame rfl (fun c' => ?_) (fun c' hc' => .inr ?_) (fun c' hc' => ?_) rfl
      (fun _ _ h => by cases h) rfl
    · show (update s.contexts c _ c').bvecCtxs = _
      by_cases hc : c' = c
      · rw [hc, update_self]
      · rw [update_of_ne hc]
    · rw [hat] at hc'
      rw [hpublish]
      exact mem_add.mpr (.inl (mem_singleton.mpr (List.mem_singleton.mp hc')))
    · rw [hpublish]
      exact mem_add.mpr (.inr hc')
  | finishFailed hat _ =>
    rename_i l c _
    refine ok.thread_frame rfl (fun c' => ?_) (fun c' hc' => .inl ?_) (fun _ => id) rfl
      (fun _ _ h => by cases h) rfl
    · show (update s.contexts c _ c').bvecCtxs = _
      by_cases hc : c' = c
      · rw [hc, update_self]
      · rw [update_of_ne hc]
    · rw [hat] at hc'
      exact hc'
  | breakNone hat =>
    refine ok.thread_frame rfl (fun _ => rfl) (fun c hc => ?_) (fun _ => id) rfl
      (fun _ _ h => by cases h) rfl
    rw [hat] at hc
    cases hc
  | breakContext hat hpush =>
    rename_i l c pool
    refine ok.unmap rfl rfl rfl (fun c' hc' hused => ?_) (fun _ _ _ _ => id) (fun l' c' hat' => ?_)
      rfl
    · rcases hused with h | h
      · rw [hat] at h
        exact absurd (Nat.succ.inj (List.mem_singleton.mp h)) hc'
      · exact .inr h
    · cases hat'
      exact .inl rfl
  | endAborted hat hprevious =>
    rename_i l c
    refine ok.frame rfl (fun _ => rfl) (fun c' hused => ?_) ok.pushed (fun _ _ h => by cases h)
      fun e he => ?_
    · rw [hat] at hused
      exact hused
    · rcases List.mem_append.mp he with he | he
      · exact ok.ended e he
      · rw [List.mem_singleton.mp he]
        cases c with
        | none => rfl
        | some c =>
          -- the context was unmapped when the request was broken off
          refine ok.mapped_nil fun m hm => ?_
          rw [ok.waiting l c hat] at hm
          cases hm

theorem MappedOk.take (ok : MappedOk s) (hat : s.handler = .idle) {cookie : Nat} {ret : Int}
    (hhandler : s'.handler = .taken cookie ret) (hflight : s.flight = {cookie} + s'.flight)
    (hlive : s'.live = s.live) (hcontexts : s'.contexts = s.contexts)
    (hthread : s'.thread = s.thread) (hended : s'.ended = s.ended) : MappedOk s' := by
  refine ok.frame hlive (by rw [hcontexts]; exact fun _ => rfl) (fun c hused => ?_)
    (by rw [hhandler]; exact nofun) (by rw [hthread]; exact ok.waiting)
    (by rw [hended]; exact ok.ended)
  rcases hused with h | h | ⟨ret, h⟩
  · rw [hthread]
    exact .inl h
  · -- the answer that is taken, or a later one
    rw [hflight] at h
    rcases mem_add.mp h with h | h
    · rw [mem_singleton.mp h, hhandler]
      exact .inr (.inr ⟨_, rfl⟩)
    · exact .inr (.inl h)
  · rw [hat] at h
    cases h

theorem HandlerStep.mapped (inv : DiskInv s) (p : Places s free) (ok : MappedOk s)
    (h : HandlerStep s s') : MappedOk s' := by
  cases h with
  | take hat hne hack =>
    exact ok.take hat rfl (flight_take inv.acks hne hack rfl rfl rfl rfl rfl) rfl rfl rfl rfl
  | clean hat hused =>
    rename_i c ret
    refine ok.unmap rfl rfl rfl (fun c' hc' hused => ?_) nofun (fun _ _ _ => .inr rfl) rfl
    rcases hused with h | h | ⟨ret', h⟩
    · exact .inl h
    · exact .inr (.inl h)
    · rw [hat] at h
      cases h
      exact absurd rfl hc'
  | drop hat hbad => exact absurd (p.taken_used hat) hbad
  | push hat hpush =>
    rename_i c req ret pool
    have hcookies : c + 1 ∈ s.handler.cookies := by
      rw [hat]
      exact List.mem_cons_self
    have hnil : (s.contexts c).bvecCtxs = [] := by
      refine ok.not_used (fun h => (p.thread_not_flight h).2 hcookies)
        (p.handler_not_flight hcookies) fun ret' h => ?_
      rw [hat] at h
      cases h
    refine ok.frame rfl (fun _ => rfl) (fun c' hused => ?_) (fun c' owner id ret' h m hm => ?_)
      ok.waiting ok.ended
    · rcases hused with h | h | ⟨ret', h⟩
      · exact .inl h
      · exact .inr (.inl h)
      · rw [hat] at h
        cases h
    · cases h
      rw [hnil] at hm
      cases hm
  | ends hat =>
    rename_i c owner id ret
    refine ok.frame rfl (fun _ => rfl) (fun c' hused => ?_) nofun ok.waiting fun e he => ?_
    · rcases hused with h | h | ⟨ret', h⟩
      · exact .inl h
      · exact .inr (.inl h)
      · rw [hat] at h
        cases h
    · rcases List.mem_append.mp he with he | he
      · exact ok.ended e he
      · rw [List.mem_singleton.mp he]
        exact ok.mapped_nil (ok.pushed c owner id ret hat)
  | remembers hat =>
    refine ok.frame rfl (fun _ => rfl) (fun c' hused => ?_) nofun ok.waiting ok.ended
    rcases hused with h | h | ⟨ret', h⟩
    · exact .inl h
    · exact .inr (.inl h)
    · rw [hat] at h
      cases h

end

/-! ## Every reachable state -/

/-- The invariant of the frontend, with the places of the requests and of the mappings -/
structure EndsInv (s : DiskState) : Prop where
  disk : DiskInv s
  requests : RequestsOk s
  mapped : MappedOk s

section

variable {s s' : DiskState}

theorem EndsInv.frame (inv : EndsInv s) (hdisk : DiskInv s') (hthread : s'.thread = s.thread)
    (hflight : s'.flight = s.flight) (hcontexts : s'.contexts = s.contexts)
    (hhandler : s'.handler = s.handler) (hlive : s'.live = s.live) (hended : s'.ended = s.ended)
    (htaken : s'.taken = s.taken) : EndsInv s' := by
  obtain ⟨free, p⟩ := inv.disk.places
  refine ⟨hdisk, ?_, ?_⟩
  · refine inv.requests.frame (by rw [hthread]) ?_ ?_ hended htaken
    · exact inFlight_frame p hflight fun c _ => by rw [hcontexts]
    · unfold inHandler
      rw [hhandler, hcontexts]
  · refine inv.mapped.frame hlive (fun c => by rw [hcontexts]) (fun c => ?_) ?_ ?_ ?_
    · rw [hthread, hflight, hhandler]
      exact id
    · rw [hhandler]
      exact inv.mapped.pushed
    · rw [hthread]
      exact inv.mapped.waiting
    · rw [hended]
      exact inv.mapped.ended

theorem EndsInv.step {a : DiskAct} (inv : EndsInv s) (h : DiskStep s a s') : EndsInv s' := by
  obtain ⟨free, p⟩ := inv.disk.places
  have hdisk := inv.disk.step h
  cases h with
  | queueRq h => cases h <;> exact inv.frame hdisk rfl rfl rfl rfl rfl rfl rfl
  | thread h =>
    exact ⟨hdisk, h.requests inv.disk p inv.requests, h.mapped inv.disk p inv.requests inv.mapped⟩
  | handler h => exact ⟨hdisk, h.requests inv.disk p inv.requests, h.mapped inv.disk p inv.mapped⟩
  | nextRequest h =>
    have heffect := inv.disk.readEffect h
    have hflight := heffect.flight
    cases heffect with
    | copied r busy heq hok | returned b rest hunread heq =>
      subst heq
      exact inv.frame hdisk rfl hflight rfl rfl rfl rfl rfl
  | response h =>
    have hflight := h.flight inv.disk.acks
    cases h <;> exact inv.frame hdisk rfl hflight rfl rfl rfl rfl rfl

end

theorem EndsInv.init (requestElems : Nat → VcablkRequest)
    (completionElems : Nat → VcablkCompletion) :
    EndsInv (initial requestElems completionElems) where
  disk := DiskInv.init requestElems completionElems
  requests := rfl
  mapped := by
    refine ⟨fun c m => rfl, fun c hne => absurd rfl hne, fun c owner id ret hat => ?_,
      fun l c hat => ?_, fun e he => ?_⟩
    · cases hat
    · cases hat
    · cases he

theorem endsInv_of_reachable {s : DiskState} (h : diskSystem.Reachable s) : EndsInv s := by
  refine System.Reachable.invariant ?_ ?_ h
  · rintro s ⟨requestElems, completionElems, rfl⟩
    exact EndsInv.init requestElems completionElems
  · intro s a s' inv hstep
    exact inv.step (diskStep_cases hstep)

end Vcass.Vcablk
