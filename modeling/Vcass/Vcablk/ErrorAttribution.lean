import Vcass.Vcablk.Draining

/-!
# Whose Error a Request Reports

`vcablk_disk_request_done` parks the error of a part that is not the last one of its request in
`split_request_error`, one field for the whole device, and reports it with the next request that
ends.  `errors_attributed` shows what that needs to be right: a failing answer comes before the
last answer of its request, and no other request ends in between.  `errors_not_attributed` gives
two runs in which the error goes to the wrong request.
-/

namespace Vcass.Vcablk

open Vcass.Core Vcass.BlockIo Function List DiskState

/-! ## Owners of contexts -/

/-- The request whose answer the completion handler works on -/
def DiskState.handlerOwners (s : DiskState) : List Nat :=
  match s.handler with
  | .idle => []
  | .taken cookie _ => [(s.contexts (cookie - 1)).owner]
  | .cleaned c _ _ => [(s.contexts c).owner]
  | .pushed _ owner _ _ => [owner]

/-- The owners of the contexts on their way -/
def DiskState.flightOwners (s : DiskState) : Multiset Nat :=
  s.inFlight fun context => [context.owner]

/-- A context belongs to the request that it was taken for, and so does its answer. -/
structure OwnersOk (s : DiskState) : Prop where
  thread : ∀ c, c + 1 ∈ s.thread.cookies → s.thread.worksOn = some (s.contexts c).owner
  req : ∀ c id, (s.contexts c).req = some id → (s.contexts c).owner = id
  cleaned : ∀ c id ret, s.handler = .cleaned c (some id) ret → (s.contexts c).owner = id
  pushed : ∀ c owner id ret, s.handler = .pushed c owner (some id) ret → owner = id
  /-- Each published batch is on its way, with the handler, or worked off -/
  answers : (s.published.map Batch.owner : Multiset Nat) =
    s.flightOwners + (s.handlerOwners : Multiset Nat) + (s.handled.map Answer.owner : List Nat)

section

variable {s s' : DiskState} {free : List Nat} {context : VcablkBioContext} {c : Nat}

theorem handlerOwners_update (p : Places s free) (hhandler : s'.handler = s.handler)
    (hc : c + 1 ∉ s.handler.cookies)
    (hcontexts : s'.contexts = Function.update s.contexts c context) :
    s'.handlerOwners = s.handlerOwners ∧
      ∀ c' req ret, s.handler = .cleaned c' req ret → s'.contexts c' = s.contexts c' := by
  have hcleaned : ∀ c' req ret, s.handler = .cleaned c' req ret →
      s'.contexts c' = s.contexts c' := by
    intro c' req ret hh
    have hne : c' ≠ c := by
      rintro rfl
      rw [hh] at hc
      exact hc mem_cons_self
    rw [hcontexts, update_of_ne hne]
  refine ⟨?_, hcleaned⟩
  unfold handlerOwners
  rw [hhandler]
  cases hh : s.handler with
  | idle | pushed c' owner req ret => rfl
  | cleaned c' req ret =>
    dsimp only
    rw [hcleaned c' req ret hh]
  | taken cookie ret =>
    obtain ⟨c', rfl, -, -⟩ := p.of_taken hh
    have hne : c' ≠ c := by
      rintro rfl
      rw [hh] at hc
      exact hc mem_cons_self
    dsimp only
    rw [Nat.add_sub_cancel, hcontexts, update_of_ne hne]

theorem OwnersOk.thread_frame (ok : OwnersOk s) (hcontexts : s'.contexts = s.contexts)
    (hthread : ∀ c, c + 1 ∈ s'.thread.cookies → c + 1 ∈ s.thread.cookies ∧
      s'.thread.worksOn = s.thread.worksOn)
    (hhandler : s'.handler = s.handler) (hpublished : s'.published = s.published)
    (hflight : s'.flight = s.flight) (hhandled : s'.handled = s.handled) : OwnersOk s' := by
  constructor
  · intro c hc
    obtain ⟨hmem, hworks⟩ := hthread c hc
    rw [hworks, hcontexts]
    exact ok.thread c hmem
  · rw [hcontexts]
    exact ok.req
  · rw [hhandler, hcontexts]
    exact ok.cleaned
  · rw [hhandler]
    exact ok.pushed
  · have hanswers := ok.answers
    unfold flightOwners inFlight handlerOwners at hanswers ⊢
    rw [hpublished, hflight, hhandler, hcontexts, hhandled]
    exact hanswers

/-- A step of the request thread that changes the context `c`, which is not with the handler -/
theorem OwnersOk.change (p : Places s free) (ok : OwnersOk s) (hcookies : c + 1 ∉ s.handler.cookies)
    (hcontexts : s'.contexts = Function.update s.contexts c context)
    (hreq : ∀ id, context.req = some id → context.owner = id)
    (hthread : ∀ c', c' + 1 ∈ s'.thread.cookies → s'.thread.worksOn = some (s'.contexts c').owner)
    (hhandler : s'.handler = s.handler)
    (hanswers : (s'.published.map Batch.owner : Multiset Nat) =
      s'.flightOwners + (s.handlerOwners : Multiset Nat) + (s'.handled.map Answer.owner : List Nat)) :
    OwnersOk s' := by
  obtain ⟨howners, hcleaned⟩ := handlerOwners_update p hhandler hcookies hcontexts
  refine ⟨hthread, fun c' id hid => ?_, fun c' id ret hh => ?_, ?_, ?_⟩
  · by_cases hc : c' = c
    · rw [hc, hcontexts, update_self] at hid ⊢
      exact hreq id hid
    · rw [hcontexts, update_of_ne hc] at hid ⊢
      exact ok.req c' id hid
  · rw [hhandler] at hh
    rw [hcleaned c' _ _ hh]
    exact ok.cleaned c' id ret hh
  · rw [hhandler]
    exact ok.pushed
  · rw [howners]
    exact hanswers

theorem OwnersOk.update (p : Places s free) (ok : OwnersOk s) (hnot : c + 1 ∉ s.flight)
    (hcookies : c + 1 ∉ s.handler.cookies)
    (hcontexts : s'.contexts = Function.update s.contexts c context)
    (hreq : ∀ id, context.req = some id → context.owner = id)
    (hthread : ∀ c', c' + 1 ∈ s'.thread.cookies → c' = c)
    (hworks : s'.thread.worksOn = some context.owner)
    (hhandler : s'.handler = s.handler) (hpublished : s'.published = s.published)
    (hflight : s'.flight = s.flight) (hhandled : s'.handled = s.handled) : OwnersOk s' := by
  refine ok.change p hcookies hcontexts hreq (fun c' hc' => ?_) hhandler ?_
  · rw [hthread c' hc', hcontexts, update_self]
    exact hworks
  · unfold flightOwners
    rw [hpublished, hhandled, inFlight_update p hflight hnot hcontexts]
    exact ok.answers

theorem OwnersOk.publish (p : Places s free) (ok : OwnersOk s) {b : Batch}
    (hmem : c + 1 ∈ s.thread.cookies)
    (hcontexts : s'.contexts = Function.update s.contexts c context)
    (howner : context.owner = (s.contexts c).owner) (hb : s.thread.worksOn = some b.owner)
    (hreq : ∀ id, context.req = some id → context.owner = id)
    (hthread : s'.thread.cookies = []) (hhandler : s'.handler = s.handler)
    (hpublished : s'.published = s.published ++ [b]) (hflight : s'.flight = {c + 1} + s.flight)
    (hhandled : s'.handled = s.handled) : OwnersOk s' := by
  obtain ⟨hnot, hcookies⟩ := p.thread_not_flight hmem
  have hworks := ok.thread c hmem
  refine ok.change p hcookies hcontexts hreq (fun c' hc' => ?_) hhandler ?_
  · rw [hthread] at hc'
    cases hc'
  · have hinFlight : s'.flightOwners = {b.owner} + s.flightOwners := by
      refine (inFlight_publish p hflight (fun c' hc' => ?_) hnot).trans ?_
      · rw [hcontexts, update_of_ne hc']
      · rw [hcontexts, update_self, howner]
        rw [hb] at hworks
        rw [← Option.some.inj hworks]
        rfl
    rw [hpublished, hhandled, hinFlight, map_append, ← Multiset.coe_add, ok.answers]
    show _ + {b.owner} = _
    ac_rfl

theorem ThreadStep.owners {map : Option Nat} {stop : Bool} (inv : DiskInv s) (p : Places s free)
    (ok : OwnersOk s) (h : ThreadStep s map stop s') : OwnersOk s' := by
  -- the context of the request thread, and its owner
  have hmine {t : MakeRequestThread} {c id : Nat} (hat : s.thread = t) (hcookies : t.cookies = [c + 1])
      (hworks : t.worksOn = some id) : c + 1 ∈ s.thread.cookies ∧ (s.contexts c).owner = id := by
    subst hat
    have hmem : c + 1 ∈ s.thread.cookies := by
      rw [hcookies]
      exact mem_cons_self
    exact ⟨hmem, Option.some.inj ((ok.thread c hmem).symm.trans hworks)⟩
  cases h with
  | take _ _ _ _ | noContext _ _ _ | breakNone _ | endAborted _ _ =>
    refine ok.thread_frame rfl (fun c hc => ?_) rfl rfl rfl rfl
    cases hc
  | getContext hat hpop =>
    rename_i l c pool
    obtain ⟨-, hflight, hcookies⟩ := p.pop_not_busy hpop
    refine ok.update p hflight hcookies rfl nofun (fun c' hc' => ?_) ?_ rfl rfl rfl rfl
    · dsimp only at hc'
      split at hc' <;> exact Nat.succ.inj (mem_singleton.mp hc')
    · dsimp only
      split <;> rfl
  | syncBefore hat _ | syncAfter hat _ | splitFailed hat _ _ | noMap hat _ _ =>
    refine ok.thread_frame rfl (fun c hc => ?_) rfl rfl rfl rfl
    rw [hat]
    exact ⟨hc, rfl⟩
  | giveUp hat _ =>
    refine ok.thread_frame rfl (fun c hc => ?_) rfl rfl rfl rfl
    rcases hat with hat | hat | hat <;> rw [hat] <;> exact ⟨hc, rfl⟩
  | segmentsDone hat _ =>
    refine ok.thread_frame rfl (fun c hc => ?_) rfl rfl rfl rfl
    rw [hat]
    dsimp only at hc ⊢
    split at hc <;> exact ⟨hc, by split <;> rfl⟩
  | mapNull hat | segment hat =>
    obtain ⟨hmem, howner⟩ := hmine hat rfl rfl
    obtain ⟨hflight, hcookies⟩ := p.thread_not_flight hmem
    refine ok.update p hflight hcookies rfl (ok.req _) (fun c' hc' => ?_) ?_ rfl rfl rfl rfl
    · exact Nat.succ.inj (mem_singleton.mp hc')
    · exact congrArg some howner.symm
  | finishFailed hat =>
    obtain ⟨hmem, howner⟩ := hmine hat rfl rfl
    obtain ⟨hflight, hcookies⟩ := p.thread_not_flight hmem
    refine ok.update p hflight hcookies rfl (fun id hid => ?_) (fun c' hc' => ?_) ?_ rfl rfl rfl rfl
    · exact howner.trans (Option.some.inj hid)
    · exact Nat.succ.inj (mem_singleton.mp hc')
    · exact congrArg some howner.symm
  | breakContext hat =>
    obtain ⟨hmem, howner⟩ := hmine hat rfl rfl
    obtain ⟨hflight, hcookies⟩ := p.thread_not_flight hmem
    refine ok.update p hflight hcookies rfl (ok.req _) nofun ?_ rfl rfl rfl rfl
    exact congrArg some howner.symm
  | split hat hsegs hsplit hne =>
    obtain ⟨hmem, howner⟩ := hmine hat rfl rfl
    exact ok.publish p hmem (update_eq_self _ s.contexts).symm rfl (by rw [hat]; rfl)
      (ok.req _) rfl rfl rfl (flight_publish inv.ring rfl rfl rfl rfl rfl rfl) rfl
  | finish hat hne =>
    obtain ⟨hmem, howner⟩ := hmine hat rfl rfl
    refine ok.publish p hmem rfl rfl (by rw [hat]; rfl) (fun id hid => ?_) rfl rfl rfl
      (flight_publish inv.ring rfl rfl rfl rfl rfl rfl) rfl
    exact howner.trans (Option.some.inj hid)

theorem OwnersOk.handler_frame (ok : OwnersOk s) (hthread : s'.thread = s.thread)
    (howner : ∀ c, (s'.contexts c).owner = (s.contexts c).owner)
    (hreq : ∀ c id, (s'.contexts c).req = some id → (s.contexts c).req = some id)
    (hcleaned : ∀ c id ret, s'.handler = .cleaned c (some id) ret → (s.contexts c).owner = id)
    (hpushed : ∀ c owner id ret, s'.handler = .pushed c owner (some id) ret → owner = id)
    (hpublished : s'.published = s.published)
    (hanswers : s'.flightOwners + (s'.handlerOwners : Multiset Nat) +
        (s'.handled.map Answer.owner : List Nat) =
      s.flightOwners + (s.handlerOwners : Multiset Nat) + (s.handled.map Answer.owner : List Nat)) :
    OwnersOk s' := by
  constructor
  · intro c hc
    rw [hthread] at hc ⊢
    rw [howner]
    exact ok.thread c hc
  · intro c id hid
    rw [howner]
    exact ok.req c id (hreq c id hid)
  · intro c id ret hh
    rw [howner]
    exact hcleaned c id ret hh
  · exact hpushed
  · rw [hpublished, hanswers]
    exact ok.answers

theorem OwnersOk.take (ok : OwnersOk s) (hat : s.handler = .idle) {cookie : Nat} {ret : Int}
    (hhandler : s'.handler = .taken cookie ret) (hflight : s.flight = {cookie} + s'.flight)
    (hcontexts : s'.contexts = s.contexts) (hthread : s'.thread = s.thread)
    (hpublished : s'.published = s.published) (hhandled : s'.handled = s.handled) :
    OwnersOk s' := by
  refine ok.handler_frame hthread (fun c => by rw [hcontexts]) (fun c id hid => hcontexts ▸ hid)
    (by rw [hhandler]; exact nofun) (by rw [hhandler]; exact nofun) hpublished ?_
  have howners : s.flightOwners = {(s.contexts (cookie - 1)).owner} + s'.flightOwners :=
    inFlight_take hflight hcontexts
  unfold handlerOwners
  rw [howners, hat, hhandler, hhandled, hcontexts, Multiset.coe_nil, Multiset.coe_singleton]
  ac_rfl

theorem OwnersOk.clean (p : Places s free) (ok : OwnersOk s) {ret : Int}
    (hat : s.handler = .taken (c + 1) ret)
    (hhandler : s'.handler = .cleaned c (s.contexts c).req ret)
    (hcontexts : s'.contexts = Function.update s.contexts c
      { s.contexts c with bvecCtxs := [], req := none })
    (hflight : s'.flight = s.flight) (hthread : s'.thread = s.thread)
    (hpublished : s'.published = s.published) (hhandled : s'.handled = s.handled) :
    OwnersOk s' := by
  have hcookies : c + 1 ∈ s.handler.cookies := by
    rw [hat]
    exact mem_cons_self
  have howner : ∀ c', (s'.contexts c').owner = (s.contexts c').owner := by
    intro c'
    by_cases hc : c' = c
    · rw [hc, hcontexts, update_self]
    · rw [hcontexts, update_of_ne hc]
  refine ok.handler_frame hthread howner (fun c' id hid => ?_) (fun c' id ret' hh => ?_)
    (by rw [hhandler]; exact nofun) hpublished ?_
  · rw [hcontexts] at hid
    by_cases hc : c' = c
    · rw [hc, update_self] at hid
      cases hid
    · rw [update_of_ne hc] at hid
      exact hid
  · rw [hhandler, CompletionHandler.cleaned.injEq] at hh
    obtain ⟨rfl, hreq, -⟩ := hh
    exact ok.req c id hreq
  · have hsame : s'.flightOwners = s.flightOwners :=
      inFlight_update p hflight (p.handler_not_flight hcookies) hcontexts
    unfold handlerOwners
    rw [hsame, hat, hhandler, hhandled]
    dsimp only
    rw [howner, Nat.add_sub_cancel]

theorem HandlerStep.owners (inv : DiskInv s) (p : Places s free) (ok : OwnersOk s)
    (h : HandlerStep s s') : OwnersOk s' := by
  cases h with
  | take hat hne hack =>
    exact ok.take hat rfl (flight_take inv.acks hne hack rfl rfl rfl rfl rfl) rfl rfl rfl rfl
  | clean hat hused => exact ok.clean p hat rfl rfl rfl rfl rfl rfl
  | drop hat hbad => exact absurd (p.taken_used hat) hbad
  | push hat hpush =>
    rename_i c req ret pool
    refine ok.handler_frame rfl (fun _ => rfl) (fun _ _ => id) nofun (fun c' owner id ret' hh => ?_)
      rfl ?_
    · simp only [CompletionHandler.pushed.injEq] at hh
      obtain ⟨rfl, rfl, rfl, rfl⟩ := hh
      exact ok.cleaned _ id _ hat
    · unfold handlerOwners
      rw [hat]
      rfl
  | ends hat | remembers hat =>
    refine ok.handler_frame rfl (fun _ => rfl) (fun _ _ => id) nofun nofun rfl ?_
    unfold handlerOwners
    rw [hat]
    simp only [requestEnd, map_append, map_cons, map_nil, ← Multiset.coe_add,
      Multiset.coe_nil, add_zero]
    show s.flightOwners + _ = _
    ac_rfl

theorem OwnersOk.frame (ok : OwnersOk s) (hcontexts : s'.contexts = s.contexts)
    (hthread : s'.thread = s.thread) (hhandler : s'.handler = s.handler)
    (hpublished : s'.published = s.published) (hflight : s'.flight = s.flight)
    (hhandled : s'.handled = s.handled) : OwnersOk s' :=
  ok.thread_frame hcontexts (fun c hc => ⟨hthread ▸ hc, by rw [hthread]⟩) hhandler hpublished
    hflight hhandled

/-- The return codes on their way fit into an `__s8`. -/
structure RetsOk (s : DiskState) : Prop where
  acks : ∀ ack ∈ s.acks, -128 ≤ ack.ret ∧ ack.ret < 128
  taken : ∀ cookie ret, s.handler = .taken cookie ret → -128 ≤ ret ∧ ret < 128
  cleaned : ∀ c req ret, s.handler = .cleaned c req ret → -128 ≤ ret ∧ ret < 128
  pushed : ∀ c owner req ret, s.handler = .pushed c owner req ret → -128 ≤ ret ∧ ret < 128

theorem RetsOk.frame (ok : RetsOk s) (hacks : s'.acks = s.acks) (hhandler : s'.handler = s.handler) :
    RetsOk s' := by
  refine ⟨?_, ?_, ?_, ?_⟩
  · rw [hacks]
    exact ok.acks
  · rw [hhandler]
    exact ok.taken
  · rw [hhandler]
    exact ok.cleaned
  · rw [hhandler]
    exact ok.pushed

theorem toS8_bounds (ret : Int) : -128 ≤ toS8 ret ∧ toS8 ret < 128 := by
  unfold toS8
  have hlo := Int.le_bmod (x := ret) (m := 256) (by decide)
  have hhi := Int.bmod_lt (x := ret) (m := 256) (by decide)
  exact ⟨hlo, hhi⟩

theorem HandlerStep.rets (inv : DiskInv s) (ok : RetsOk s) (h : HandlerStep s s') : RetsOk s' := by
  cases h with
  | take hat hne hack =>
    obtain ⟨ack, rest, -, hget, -, hread⟩ := inv.acks.next hne
    cases hack.symm.trans hread
    refine ⟨ok.acks, fun cookie ret hh => ?_, nofun, nofun⟩
    cases hh
    exact ok.acks _ (mem_of_getElem? hget)
  | clean hat hused =>
    refine ⟨ok.acks, nofun, fun c req ret hh => ?_, nofun⟩
    simp only [CompletionHandler.cleaned.injEq] at hh
    rw [← hh.2.2]
    exact ok.taken _ _ hat
  | push hat hpush =>
    refine ⟨ok.acks, nofun, nofun, fun c owner req ret hh => ?_⟩
    simp only [CompletionHandler.pushed.injEq] at hh
    rw [← hh.2.2.2]
    exact ok.cleaned _ _ _ hat
  | drop _ _ | ends _ | remembers _ => exact ⟨ok.acks, nofun, nofun, nofun⟩

theorem ResponseStep.rets {a : DiskAct} (ok : RetsOk s) (h : ResponseStep s a s') : RetsOk s' := by
  cases h with
  | write at_idle hk hroom =>
    rename_i k cookie ret
    refine ⟨fun ack hack => ?_, ok.taken, ok.cleaned, ok.pushed⟩
    rcases mem_append.mp hack with hack | hack
    · exact ok.acks ack hack
    · rw [mem_singleton.mp hack]
      exact toS8_bounds ret
  | timeout _ _ _ | publish _ => exact ok.frame rfl rfl

end

/-! ## Parked errors -/

/-- What an answer does to the owners of the parked errors -/
def parkStep (parked : List Nat) (a : Answer) : List Nat :=
  if a.final then [] else if a.ret ≠ 0 then parked ++ [a.owner] else parked

/-- The requests whose errors are parked: those of the failing answers since a request was last
ended, as far as they were not the last of their request -/
def parkedOwners (handled : List Answer) : List Nat := handled.foldl parkStep []

theorem parkedOwners_snoc (handled : List Answer) (a : Answer) :
    parkedOwners (handled ++ [a]) = parkStep (parkedOwners handled) a := by
  unfold parkedOwners
  rw [foldl_append]
  rfl

/-- A request is reported to be fine exactly when all its answers were. -/
def ErrorsAttributed (s : DiskState) : Prop :=
  ∀ e ∈ s.ended, e.byDone = true →
    (e.status = .ok ↔ ∀ a ∈ s.handled, a.owner = e.req → a.ret = 0)

/-- The order of answers that the parked error needs: when a request is ended, only its own errors
are parked; and an error is parked before its request is ended. -/
def AnswerInOrder (handled : List Answer) : CompletionHandler → Prop
  | .pushed _ _ (some id) _ => ∀ owner ∈ parkedOwners handled, owner = id
  | .pushed _ owner none ret => ret ≠ 0 → ∀ a ∈ handled, a.owner = owner → a.final = false
  | .idle | .taken _ _ | .cleaned _ _ _ => True

instance (handled : List Answer) : (handler : CompletionHandler) →
    Decidable (AnswerInOrder handled handler)
  | .pushed _ _ (some id) _ => inferInstanceAs (Decidable (∀ owner ∈ parkedOwners handled, owner = id))
  | .pushed _ owner none ret =>
    inferInstanceAs (Decidable (ret ≠ 0 → ∀ a ∈ handled, a.owner = owner → a.final = false))
  | .idle | .taken _ _ | .cleaned _ _ _ => .isTrue trivial

/-- The answers are worked off in order. -/
def InOrder (s : DiskState) (a : DiskAct) (_ : DiskState) : Prop :=
  a = .handler → AnswerInOrder s.handled s.handler

instance (s : DiskState) (a : DiskAct) (s' : DiskState) : Decidable (InOrder s a s') :=
  inferInstanceAs (Decidable (a = .handler → AnswerInOrder s.handled s.handler))

/-- What is known of the parked errors and of the ended requests -/
structure ParkedOk (s : DiskState) : Prop where
  error : s.splitRequestError = 0 ↔ parkedOwners s.handled = []
  /-- A parked error is one of a request that was not ended yet -/
  parked : ∀ owner ∈ parkedOwners s.handled, ∃ a ∈ s.handled, a.owner = owner ∧ a.ret ≠ 0
  /-- A failing answer is parked or was reported -/
  reported : ∀ a ∈ s.handled, a.ret ≠ 0 → a.owner ∈ parkedOwners s.handled ∨
    ∃ e ∈ s.ended, e.req = a.owner
  /-- The last answer of a request ends it -/
  final : ∀ e ∈ s.ended, e.byDone = true → ∃ a ∈ s.handled, a.owner = e.req ∧ a.final = true
  attributed : ErrorsAttributed s

section

variable {s s' : DiskState}

theorem ParkedOk.frame (ok : ParkedOk s) (herror : s'.splitRequestError = s.splitRequestError)
    (hhandled : s'.handled = s.handled) (hended : s'.ended = s.ended) : ParkedOk s' := by
  refine ⟨?_, ?_, ?_, ?_, ?_⟩
  · rw [herror, hhandled]
    exact ok.error
  · rw [hhandled]
    exact ok.parked
  · rw [hhandled, hended]
    exact ok.reported
  · rw [hhandled, hended]
    exact ok.final
  · unfold ErrorsAttributed
    rw [hhandled, hended]
    exact ok.attributed

theorem ParkedOk.endAborted (ok : ParkedOk s) {e : EndRequest} (he : e.byDone = false)
    (herror : s'.splitRequestError = s.splitRequestError) (hhandled : s'.handled = s.handled)
    (hended : s'.ended = s.ended ++ [e]) : ParkedOk s' := by
  have hold : ∀ e' ∈ s'.ended, e'.byDone = true → e' ∈ s.ended := by
    intro e' he' hdone
    rw [hended] at he'
    rcases mem_append.mp he' with he' | he'
    · exact he'
    · rw [mem_singleton.mp he', he] at hdone
      cases hdone
  refine ⟨?_, ?_, ?_, ?_, ?_⟩
  · rw [herror, hhandled]
    exact ok.error
  · rw [hhandled]
    exact ok.parked
  · rw [hhandled, hended]
    intro a ha hret
    rcases ok.reported a ha hret with h | ⟨e', he', hreq⟩
    · exact .inl h
    · exact .inr ⟨e', mem_append_left _ he', hreq⟩
  · intro e' he' hdone
    rw [hhandled]
    exact ok.final e' (hold e' he' hdone) hdone
  · intro e' he' hdone
    rw [hhandled]
    exact ok.attributed e' (hold e' he' hdone) hdone

theorem endStatus_ok_iff {ret : Int} : endStatus ret = .ok ↔ ret = 0 := by
  unfold endStatus
  split
  · rename_i hne
    simp [hne]
  · rename_i heq
    simp [Classical.not_not.mp heq]

theorem answers_fine_snoc {handled : List Answer} {a : Answer} {id : Nat}
    (h : a.owner = id → a.ret = 0) :
    (∀ a' ∈ handled ++ [a], a'.owner = id → a'.ret = 0) ↔
      ∀ a' ∈ handled, a'.owner = id → a'.ret = 0 := by
  constructor
  · intro hall a' ha'
    exact hall a' (mem_append_left _ ha')
  · intro hall a' ha' howner
    rcases mem_append.mp ha' with ha' | ha'
    · exact hall a' ha' howner
    · rw [mem_singleton.mp ha'] at howner ⊢
      exact h howner

/-- **A request is ended, and only its own errors are parked.** -/
theorem ParkedOk.ends (ok : ParkedOk s) {c id : Nat} {ret : Int} (hnew : id ∉ s.endedRequests)
    (hguard : ∀ owner ∈ parkedOwners s.handled, owner = id) :
    ParkedOk (requestEnd s c id (some id) ret) := by
  have hparked : parkedOwners (s.handled ++ [⟨id, true, ret⟩]) = [] := by
    rw [parkedOwners_snoc]
    rfl
  -- the status says whether one of the answers so far has failed
  have hstatus : endStatus (if s.splitRequestError ≠ 0 then (s.splitRequestError : Int) else ret) =
      .ok ↔ ∀ a ∈ s.handled ++ [⟨id, true, ret⟩], a.owner = id → a.ret = 0 := by
    rw [endStatus_ok_iff]
    constructor
    · intro hret a ha howner
      split at hret
      · rename_i hne
        omega
      · rename_i hzero
        have hnone := ok.error.mp (Classical.not_not.mp hzero)
        rcases mem_append.mp ha with ha | ha
        · by_contra hfail
          rcases ok.reported a ha hfail with h | ⟨e, he, hreq⟩
          · rw [hnone] at h
            cases h
          · refine hnew ?_
            rw [← howner, ← hreq]
            exact mem_map_of_mem he
        · rw [mem_singleton.mp ha]
          exact hret
    · intro hall
      have hret : ret = 0 := hall ⟨id, true, ret⟩ (by simp) rfl
      have hnone : parkedOwners s.handled = [] := by
        rw [eq_nil_iff_forall_not_mem]
        intro owner howner
        obtain ⟨a, ha, rfl, hfail⟩ := ok.parked owner howner
        exact hfail (hall a (mem_append_left _ ha) (hguard _ howner))
      rw [if_neg (not_not_intro (ok.error.mpr hnone)), hret]
  refine ⟨?_, ?_, ?_, ?_, ?_⟩
  · exact iff_of_true rfl hparked
  · intro owner howner
    rw [show (requestEnd s c id (some id) ret).handled = s.handled ++ [⟨id, true, ret⟩] from rfl,
      hparked] at howner
    cases howner
  · intro a ha hfail
    refine .inr ?_
    rcases mem_append.mp ha with ha | ha
    · rcases ok.reported a ha hfail with h | ⟨e, he, hreq⟩
      · rw [hguard _ h]
        exact ⟨_, mem_append_right _ (mem_singleton_self _), rfl⟩
      · exact ⟨e, mem_append_left _ he, hreq⟩
    · rw [mem_singleton.mp ha]
      exact ⟨_, mem_append_right _ (mem_singleton_self _), rfl⟩
  · intro e he hdone
    rcases mem_append.mp he with he | he
    · obtain ⟨a, ha, howner, hfinal⟩ := ok.final e he hdone
      exact ⟨a, mem_append_left _ ha, howner, hfinal⟩
    · rw [mem_singleton.mp he]
      exact ⟨_, mem_append_right _ (mem_singleton_self _), rfl, rfl⟩
  · intro e he hdone
    rcases mem_append.mp he with he | he
    · -- the answer belongs to another request
      have hother : id ≠ e.req := fun heq => hnew (heq ▸ mem_map_of_mem he)
      exact (ok.attributed e he hdone).trans
        (answers_fine_snoc fun howner => absurd howner hother).symm
    · rw [mem_singleton.mp he]
      exact hstatus

/-- **An answer that does not end its request**, which is not ended yet if the answer failed -/
theorem ParkedOk.remembers (ok : ParkedOk s) {c owner : Nat} {ret : Int}
    (hret : -128 ≤ ret ∧ ret < 128)
    (hguard : ret ≠ 0 → ∀ a ∈ s.handled, a.owner = owner → a.final = false) :
    ParkedOk (requestEnd s c owner none ret) := by
  have hsnoc := parkedOwners_snoc s.handled ⟨owner, false, ret⟩
  have hhandled : (requestEnd s c owner none ret).handled = s.handled ++ [⟨owner, false, ret⟩] := rfl
  have hended : (requestEnd s c owner none ret).ended = s.ended := rfl
  have hfinal : ∀ e ∈ s.ended, e.byDone = true → ∃ a ∈ s.handled ++ [⟨owner, false, ret⟩],
      a.owner = e.req ∧ a.final = true := by
    intro e he hdone
    obtain ⟨a, ha, hrest⟩ := ok.final e he hdone
    exact ⟨a, mem_append_left _ ha, hrest⟩
  by_cases hzero : ret = 0
  · -- nothing is parked
    have hparked : parkedOwners (s.handled ++ [⟨owner, false, ret⟩]) = parkedOwners s.handled := by
      rw [hsnoc, hzero]
      rfl
    have herror : (requestEnd s c owner none ret).splitRequestError = s.splitRequestError := by
      simp [requestEnd, hzero]
    refine ⟨?_, ?_, ?_, hfinal, ?_⟩
    · rw [herror, hhandled, hparked]
      exact ok.error
    · rw [hhandled, hparked]
      intro o ho
      obtain ⟨a, ha, hrest⟩ := ok.parked o ho
      exact ⟨a, mem_append_left _ ha, hrest⟩
    · rw [hhandled, hparked, hended]
      intro a ha hfail
      rcases mem_append.mp ha with ha | ha
      · exact ok.reported a ha hfail
      · rw [mem_singleton.mp ha] at hfail
        exact absurd hzero hfail
    · intro e he hdone
      exact (ok.attributed e he hdone).trans (answers_fine_snoc fun _ => hzero).symm
  · have hparked : parkedOwners (s.handled ++ [⟨owner, false, ret⟩]) =
        parkedOwners s.handled ++ [owner] := by
      rw [hsnoc]
      unfold parkStep
      rw [if_neg (by simp), if_pos hzero]
    have herror : (requestEnd s c owner none ret).splitRequestError ≠ 0 := by
      simp only [requestEnd]
      rw [if_pos hzero]
      omega
    refine ⟨?_, ?_, ?_, hfinal, ?_⟩
    · rw [hhandled, hparked]
      exact iff_of_false herror (by simp)
    · rw [hhandled, hparked]
      intro o ho
      rcases mem_append.mp ho with ho | ho
      · obtain ⟨a, ha, hrest⟩ := ok.parked o ho
        exact ⟨a, mem_append_left _ ha, hrest⟩
      · rw [mem_singleton.mp ho]
        exact ⟨_, mem_append_right _ (mem_singleton_self _), rfl, hzero⟩
    · rw [hhandled, hparked, hended]
      intro a ha hfail
      rcases mem_append.mp ha with ha | ha
      · rcases ok.reported a ha hfail with h | h
        · exact .inl (mem_append_left _ h)
        · exact .inr h
      · rw [mem_singleton.mp ha]
        exact .inl (mem_append_right _ (mem_singleton_self _))
    · intro e he hdone
      -- the requests ended so far have had their last answer
      have hother : owner ≠ e.req := by
        rintro rfl
        obtain ⟨a, ha, howner, hfinal⟩ := ok.final e he hdone
        rw [hguard hzero a ha howner] at hfinal
        cases hfinal
      exact (ok.attributed e he hdone).trans
        (answers_fine_snoc fun howner => absurd howner hother).symm

end

/-! ## Runs -/

/-- The invariant of the runs in which the answers come in order -/
structure AttributionInv (s : DiskState) : Prop where
  ends : EndsInv s
  owners : OwnersOk s
  rets : RetsOk s
  parked : ParkedOk s

section

variable {s s' : DiskState}

theorem HandlerStep.parked (inv : AttributionInv s) (hguard : AnswerInOrder s.handled s.handler)
    (h : HandlerStep s s') : ParkedOk s' := by
  cases h with
  | take _ _ _ | clean _ _ | drop _ _ | push _ _ => exact inv.parked.frame rfl rfl rfl
  | ends hat =>
    rename_i c owner id ret
    rw [hat] at hguard
    obtain rfl := inv.owners.pushed c owner id ret hat
    refine inv.parked.ends (inv.ends.requests.handler_not_ended ?_) hguard
    unfold inHandler
    rw [hat]
    exact mem_cons_self
  | remembers hat =>
    rw [hat] at hguard
    exact inv.parked.remembers (inv.rets.pushed _ _ _ _ hat) hguard

theorem AttributionInv.step {a : DiskAct} (inv : AttributionInv s) (hguard : InOrder s a s')
    (h : DiskStep s a s') : AttributionInv s' := by
  obtain ⟨free, p⟩ := inv.ends.disk.places
  have hends := inv.ends.step h
  cases h with
  | queueRq h =>
    cases h <;>
      exact ⟨hends, inv.owners.frame rfl rfl rfl rfl rfl rfl, inv.rets.frame rfl rfl,
        inv.parked.frame rfl rfl rfl⟩
  | thread h =>
    have howners := h.owners inv.ends.disk p inv.owners
    cases h with
    | endAborted hat hprevious =>
      exact ⟨hends, howners, inv.rets.frame rfl rfl, inv.parked.endAborted rfl rfl rfl rfl⟩
    | _ => exact ⟨hends, howners, inv.rets.frame rfl rfl, inv.parked.frame rfl rfl rfl⟩
  | handler h =>
    exact ⟨hends, h.owners inv.ends.disk p inv.owners, h.rets inv.ends.disk inv.rets,
      h.parked inv (hguard rfl)⟩
  | nextRequest h =>
    have heffect := inv.ends.disk.readEffect h
    have hflight := heffect.flight
    cases heffect with
    | copied r busy heq hok | returned b rest hunread heq =>
      subst heq
      exact ⟨hends, inv.owners.frame rfl rfl rfl rfl hflight rfl, inv.rets.frame rfl rfl,
        inv.parked.frame rfl rfl rfl⟩
  | response h =>
    have hflight := h.flight inv.ends.disk.acks
    have hrets := h.rets inv.rets
    cases h <;>
      exact ⟨hends, inv.owners.frame rfl rfl rfl rfl hflight rfl, hrets,
        inv.parked.frame rfl rfl rfl⟩

end

theorem AttributionInv.init (requestElems : Nat → VcablkRequest)
    (completionElems : Nat → VcablkCompletion) :
    AttributionInv (initial requestElems completionElems) where
  ends := EndsInv.init requestElems completionElems
  owners := ⟨nofun, nofun, nofun, nofun, rfl⟩
  rets := ⟨nofun, nofun, nofun, nofun⟩
  parked := ⟨iff_of_true rfl rfl, nofun, nofun, nofun, nofun⟩

/-- **Errors go to their request when the answers come in order**: a request that an answer ended
was reported to be fine exactly when all its answers were, and when everything is drained
each published batch was answered once. -/
theorem errors_attributed {s : DiskState} (h : diskSystem.ReachBy InOrder s) :
    ErrorsAttributed s ∧
      (s.Drained → (s.handled.map Answer.owner).Perm (s.published.map Batch.owner)) := by
  have inv : AttributionInv s := by
    refine System.ReachBy.invariant ?_ ?_ h
    · rintro s ⟨requestElems, completionElems, rfl⟩
      exact AttributionInv.init requestElems completionElems
    · intro s a s' inv hguard hstep
      exact inv.step hguard (diskStep_cases hstep)
  have hreach : diskSystem.Reachable s := System.ReachBy.mono h fun _ _ _ _ => trivial
  refine ⟨inv.parked.attributed, fun hdrained => ?_⟩
  have hflight := (hdrained.busy_eq_zero inv.ends.disk (lost_nil_of_reachable hreach)).1
  have hanswers := inv.owners.answers
  unfold DiskState.flightOwners DiskState.inFlight DiskState.handlerOwners at hanswers
  rw [hflight, hdrained.handler, Multiset.zero_bind, Multiset.coe_nil, zero_add, zero_add] at hanswers
  exact (Multiset.coe_eq_coe.mp hanswers).symm

/-- A write of 33 pages, which takes two contexts -/
def plainWrite : BlkRequest :=
  ⟨false, true, false, false, false, false, 64, List.replicate 33 ⟨7, 0, 4096⟩⟩

/-- The write is published in two batches, and the read after it in one. -/
def writeThenRead : List DiskAct :=
  [DiskAct.queueRq plainWrite, .queueRq shortRead] ++
    List.replicate 44 (DiskAct.thread (some 4096) false) ++
    List.replicate 40 DiskAct.nextRequest

/-- The first batch of the write fails, and the write is ended before the read. -/
def failureInOrder : List DiskAct :=
  writeThenRead ++ [DiskAct.respond 0 (-5), .publishResponse, .respond 0 0, .publishResponse,
    .respond 0 0, .publishResponse] ++ List.replicate 12 DiskAct.handler

theorem errors_attributed_failureInOrder :
    ∃ s, diskSystem.ReachBy InOrder s ∧ ErrorsAttributed s ∧
      s.ended.map (fun e => (e.req, e.status)) = [(0, .ioerr), (1, .ok)] := by
  have hrun : (diskSystem.runBy InOrder clearedDisk failureInOrder).map (fun s =>
      s.ended.map (fun e => (e.req, e.status))) = some [(0, .ioerr), (1, .ok)] := by
    decide +kernel
  obtain ⟨s, hreach, hobs⟩ := System.exists_reachBy hrun ⟨_, _, rfl⟩
  exact ⟨s, hreach, (errors_attributed hreach).1, hobs⟩

/-! ## Errors that go astray -/

/-- The first batch of the write fails; the read fails as well, and its answer overtakes that of
the second batch. -/
def failureOvertaken : List DiskAct :=
  writeThenRead ++ [DiskAct.respond 0 (-5), .publishResponse, .respond 1 (-5), .publishResponse,
    .respond 0 0, .publishResponse] ++ List.replicate 12 DiskAct.handler

/-- The write is broken off at its last page, and its first batch fails; the read after it is
fine. -/
def failureOfAborted : List DiskAct :=
  List.flatten
    [[.queueRq plainWrite, .queueRq shortRead], List.replicate 36 (.thread (some 4096) false),
      List.replicate 2 (.thread none false), List.replicate 34 .nextRequest,
      [.respond 0 (-5), .publishResponse], List.replicate 4 .handler,
      List.replicate 6 (.thread (some 4096) false), List.replicate 3 .nextRequest,
      [.respond 0 0, .publishResponse], List.replicate 4 .handler]

/-- **Errors go astray**: a write one of whose batches failed is reported to be fine, and a read
whose only batch was fine is reported to have failed. -/
theorem errors_not_attributed :
    (∃ s, diskSystem.Reachable s ∧ s.Drained ∧
      s.handled = [⟨0, false, -5⟩, ⟨1, true, -5⟩, ⟨0, true, 0⟩] ∧
      s.ended.map (fun e => (e.req, e.byDone, e.status)) = [(1, true, .ioerr), (0, true, .ok)]) ∧
    ∃ s, diskSystem.Reachable s ∧ s.Drained ∧
      s.handled = [⟨0, false, -5⟩, ⟨1, true, 0⟩] ∧
      s.ended.map (fun e => (e.req, e.byDone, e.status)) =
        [(0, false, .ioerr), (1, true, .ioerr)] := by
  constructor
  · have hrun : (diskSystem.run clearedDisk failureOvertaken).map (fun s =>
        (decide s.Drained, s.handled, s.ended.map (fun e => (e.req, e.byDone, e.status)))) =
        some (true, [⟨0, false, -5⟩, ⟨1, true, -5⟩, ⟨0, true, 0⟩],
          [(1, true, .ioerr), (0, true, .ok)]) := by decide +kernel
    obtain ⟨s, hreach, hobs⟩ := System.exists_reachable hrun ⟨_, _, rfl⟩
    simp only [Prod.mk.injEq] at hobs
    exact ⟨s, hreach, of_decide_eq_true hobs.1, hobs.2.1, hobs.2.2⟩
  · have hrun : (diskSystem.run clearedDisk failureOfAborted).map (fun s =>
        (decide s.Drained, s.handled, s.ended.map (fun e => (e.req, e.byDone, e.status)))) =
        some (true, [⟨0, false, -5⟩, ⟨1, true, 0⟩],
          [(0, false, .ioerr), (1, true, .ioerr)]) := by decide +kernel
    obtain ⟨s, hreach, hobs⟩ := System.exists_reachable hrun ⟨_, _, rfl⟩
    simp only [Prod.mk.injEq] at hobs
    exact ⟨s, hreach, of_decide_eq_true hobs.1, hobs.2.1, hobs.2.2⟩

end Vcass.Vcablk
