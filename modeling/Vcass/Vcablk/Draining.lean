import Vcass.Vcablk.Ends

/-!
# Every Request Is Ended Once

- `quiet_iff_drained`: when no party can go on, nothing is left to do, so no request waits for
  ever.
- `request_ended_once`: every accepted request is ended at most once, and exactly once when
  everything is drained.
-/

namespace Vcass.Vcablk

open Vcass.Core Vcass.BlockIo Multiset DiskState

/-! ## Draining -/

/-- The request rings are empty and every answer was worked off. -/
structure DiskState.Drained (s : DiskState) : Prop where
  taken : s.reqRing.head = s.reqRing.tail
  thread : s.thread = .idle
  read : s.requestLastUsed = s.requestRing.lastAdd
  answered : s.unanswered = []
  response : s.response = .idle
  acks : s.completionRing.lastUsed = s.completionRing.lastAdd
  handler : s.handler = .idle

instance (s : DiskState) : Decidable s.Drained :=
  decidable_of_iff (s.reqRing.head = s.reqRing.tail ∧ s.thread = .idle ∧
      s.requestLastUsed = s.requestRing.lastAdd ∧ s.unanswered = [] ∧ s.response = .idle ∧
      s.completionRing.lastUsed = s.completionRing.lastAdd ∧ s.handler = .idle)
    ⟨fun ⟨h₁, h₂, h₃, h₄, h₅, h₆, h₇⟩ => ⟨h₁, h₂, h₃, h₄, h₅, h₆, h₇⟩,
      fun ⟨h₁, h₂, h₃, h₄, h₅, h₆, h₇⟩ => ⟨h₁, h₂, h₃, h₄, h₅, h₆, h₇⟩⟩

section

variable {s : DiskState}

theorem QueueOk.all_taken (ok : QueueOk s) (heq : s.reqRing.head = s.reqRing.tail) :
    s.taken = s.requests.length := by
  have hle := ok.taken_le
  have hroom := ok.room
  rw [ok.head, ok.tail] at heq
  by_contra hne
  -- fewer than a whole ring of requests are waiting
  exact slot_ne (lt_of_le_of_ne hle hne) hroom heq.symm

/-- When the backend has read and answered everything and the answers were taken, no context is
on its way. -/
theorem DiskInv.flight_eq_zero (inv : DiskInv s) (hlost : s.lost = [])
    (hread : s.requestLastUsed = s.requestRing.lastAdd) (hanswered : s.unanswered = [])
    (hresponse : s.response = .idle)
    (hacks : s.completionRing.lastUsed = s.completionRing.lastAdd) : s.flight = 0 := by
  have hunread := inv.ring.all_read inv.encoded.batches hread
  have hpending : s.pendingAcks = [] := by
    unfold pendingAcks
    rw [inv.acks.all_taken hresponse hacks, List.drop_length]
  unfold flight
  rw [hunread, hanswered, hpending, hlost]
  rfl

theorem DiskState.Drained.busy_eq_zero (h : s.Drained) (inv : DiskInv s) (hlost : s.lost = []) :
    s.flight = 0 ∧ s.busy = 0 := by
  have hflight := inv.flight_eq_zero hlost h.read h.answered h.response h.acks
  refine ⟨hflight, ?_⟩
  unfold busy
  rw [hflight, h.thread, h.handler]
  rfl

theorem nextRequestStep_none (h : nextRequestStep s = none) :
    s.requestLastUsed = s.requestRing.lastAdd := by
  unfold nextRequestStep at h
  cases hn : s.nextRequest with simp only [hn] at h
  | idle =>
    split at h
    · rename_i heq
      exact heq
    · cases h
  | reading lastAdd lastUsed cookie buff => split_ifs at h

theorem response_none (inv : DiskInv s) (hsend : sendResponse s 0 0 = none)
    (hpublish : publishResponse s = none) : s.response = .idle ∧ s.unanswered = [] := by
  have hidle : s.response = .idle := by
    cases hr : s.response with
    | idle => rfl
    | written =>
      unfold publishResponse at hpublish
      rw [hr] at hpublish
      cases hpublish
  refine ⟨hidle, ?_⟩
  cases hu : s.unanswered with
  | nil => rfl
  | cons cookie rest =>
    have hroom := inv.ack_room hidle (by rw [hu]; exact List.cons_ne_nil _ _)
    unfold sendResponse at hsend
    rw [hidle, hu] at hsend
    simp only [List.getElem?_cons_zero] at hsend
    rw [if_neg hroom] at hsend
    cases hsend

theorem handlerStep_none (inv : DiskInv s) (h : handlerStep s = none) :
    s.handler = .idle ∧ s.completionRing.lastUsed = s.completionRing.lastAdd := by
  unfold handlerStep at h
  cases hh : s.handler with rw [hh] at h
  | idle =>
    unfold takeAck at h
    dsimp only at h
    split at h
    · rename_i heq
      exact ⟨rfl, heq⟩
    · cases h
  | taken cookie ret | pushed c owner req ret => cases h
  | cleaned c req ret =>
    have hcookie : c + 1 ∈ s.handler.cookies := by
      rw [hh]
      exact List.mem_cons_self
    obtain ⟨pool, hpush⟩ := push_of_busy inv (mem_busy.mpr (.inr (.inr hcookie)))
    simp only [poolPush, hpush, Option.map_some] at h
    cases h

theorem BuildOk.building_lt (ok : BuildOk s) {l : AsyncRequest} {c : Nat}
    (hat : s.thread = .syncBefore l c ∨ s.thread = .segment l c ∨ s.thread = .syncAfter l c) :
    s.building.length < vcablkQueueRequestsNums := by
  have hfill : ∃ before, before.length ≤ 1 ∧ Filling s l c before [] := by
    unfold BuildOk at ok
    rcases hat with hat | hat | hat <;> rw [hat] at ok
    · exact ⟨[], Nat.zero_le _, ok.1⟩
    · obtain ⟨before, hbefore, hfill⟩ := ok
      exact ⟨before, hbefore.length_le, hfill⟩
    · obtain ⟨before, hbefore, hfill, -⟩ := ok
      exact ⟨before, hbefore.length_le, hfill⟩
  obtain ⟨before, hbefore, hfill⟩ := hfill
  have hmaps := hfill.length_le
  have hsmall : 1 + vcablkBioSplitSize < vcablkQueueRequestsNums := by decide
  rw [hfill.building, List.append_nil, List.length_append, encodeParts_length]
  omega

theorem DiskInv.request_room (inv : DiskInv s)
    (hread : s.requestLastUsed = s.requestRing.lastAdd)
    (hbuilding : s.building.length < vcablkQueueRequestsNums) :
    ¬ vcaRbBuffFull s.requestRingAlloc s.requestRing.lastUsed vcablkQueueRequestsNums := by
  have hle := inv.ring.used_le
  have hfits := inv.ring.window.fits
  have hparts := inv.ring.parts_eq
  rw [inv.ring.all_read inv.encoded.batches hread, List.flatMap_nil, List.append_nil] at hparts
  rw [List.length_append] at hfits
  rw [inv.ring.alloc, inv.ring.lastUsed, rbCounter_full requestsNums_pow (by omega) hfits, hparts]
  omega

theorem DiskInv.pop_of_busy_eq_zero (inv : DiskInv s) (hbusy : s.busy = 0) :
    vcablkPoolPop s.pool ≠ none := by
  intro hpop
  obtain ⟨free, p⟩ := inv.places
  have hcookies := congrArg Multiset.card p.cookies
  rw [hbusy, add_zero, coe_card, coe_card, List.length_map, p.pool.length_of_pop_none hpop]
    at hcookies
  exact absurd hcookies (by decide)

/-- The request thread does not get stuck with a request: once the other parties are done, there
is a context and a slot for it, and the batch that it waits for is unmapped. -/
theorem ThreadWait.idle (wait : ThreadWait s false) (inv : EndsInv s) (hflight : s.flight = 0)
    (hhandler : s.handler = .idle) (hread : s.requestLastUsed = s.requestRing.lastAdd) :
    s.thread = .idle ∧ s.reqRing.head = s.reqRing.tail := by
  cases wait with
  | request at_idle hempty => exact ⟨at_idle, hempty⟩
  | context hat hpop _ =>
    refine absurd hpop (inv.disk.pop_of_busy_eq_zero ?_)
    unfold busy
    rw [hflight, hat, hhandler]
    rfl
  | slot hat hfull _ =>
    exact absurd hfull (inv.disk.request_room hread (inv.disk.build.building_lt hat))
  | previous hat _ hmapped =>
    refine absurd (inv.mapped.not_used ?_ ?_ ?_) hmapped
    · rw [hat]
      exact List.not_mem_nil
    · rw [hflight]
      exact notMem_zero _
    · rw [hhandler]
      intro ret hret
      cases hret

/-- A step in which nothing new comes in, nothing fails and nobody gives up -/
def DiskAct.Regular : DiskAct → Prop
  | .queueRq _ | .respondTimeout _ => False
  | .thread map stop => stop = false ∧ map ≠ none ∧ map ≠ some 0
  | .handler | .nextRequest | .respond _ _ | .publishResponse => True

theorem DiskState.Drained.quiet (h : s.Drained) (inv : DiskInv s) {a : DiskAct}
    (ha : a.Regular) : diskStep s a = none := by
  cases a with
  | queueRq req | respondTimeout k => exact ha.elim
  | thread map stop =>
    show threadStep s map stop = none
    unfold threadStep
    rw [h.thread]
    exact if_pos h.taken
  | handler =>
    show handlerStep s = none
    unfold handlerStep
    rw [h.handler]
    exact if_pos h.acks
  | nextRequest =>
    show nextRequestStep s = none
    have hunread := inv.ring.all_read inv.encoded.batches h.read
    have hreading := inv.reading
    unfold ReadingOk at hreading
    unfold nextRequestStep
    cases hn : s.nextRequest with
    | idle => exact if_pos h.read
    | reading lastAdd lastUsed cookie buff =>
      -- a call under way works on a batch that was not yet returned
      rw [hn] at hreading
      obtain ⟨b, more, later, hbatch, -⟩ := hreading
      rw [hunread] at hbatch
      cases hbatch
  | respond k ret =>
    show sendResponse s k ret = none
    unfold sendResponse
    rw [h.response, h.answered]
    rfl
  | publishResponse =>
    show publishResponse s = none
    unfold publishResponse
    rw [h.response]

/-- **The device never gets stuck**: that no party can go on, without a stop request, a timeout
or a failure, means exactly that everything is drained. -/
theorem quiet_iff_drained (h : diskSystem.Reachable s) :
    (∀ a : DiskAct, a.Regular → diskStep s a = none) ↔ s.Drained := by
  have inv := endsInv_of_reachable h
  refine ⟨fun hquiet => ?_, fun hdrained a ha => hdrained.quiet inv.disk ha⟩
  -- first the backend and the completion handler, then the thread that waits for them
  have hread := nextRequestStep_none (hquiet .nextRequest trivial)
  obtain ⟨hresponse, hanswered⟩ := response_none inv.disk (hquiet (.respond 0 0) trivial)
    (hquiet .publishResponse trivial)
  obtain ⟨hhandler, hacks⟩ := handlerStep_none inv.disk (hquiet .handler trivial)
  have hflight := inv.disk.flight_eq_zero (lost_nil_of_reachable h) hread hanswered hresponse hacks
  have hwait := inv.disk.threadWait (hquiet (.thread (some 1) false)
    ⟨rfl, Option.some_ne_none 1, by decide⟩)
  obtain ⟨hthread, htaken⟩ := hwait.idle inv hflight hhandler hread
  exact ⟨htaken, hthread, hread, hanswered, hresponse, hacks, hhandler⟩

end

/-- A read of one page -/
def shortRead : BlkRequest := ⟨false, false, false, false, false, false, 8, [⟨3, 0, 4096⟩]⟩

/-- A flush is worked off, and a read is broken off because its page cannot be mapped. -/
def flushAndAbort : List DiskAct :=
  [DiskAct.queueRq flushRequest, .queueRq shortRead] ++
    List.replicate 11 (DiskAct.thread none false) ++
    List.replicate 4 DiskAct.nextRequest ++ [DiskAct.respond 0 0, .publishResponse] ++
    List.replicate 4 DiskAct.handler

/-- The whole run leaves the device quiet; before the backend has answered, some party can go on. -/
theorem quiet_iff_drained_flushAndAbort :
    (∃ s, diskSystem.Reachable s ∧ s.requests = [flushRequest, shortRead] ∧ s.ended.length = 2 ∧
        ∀ a : DiskAct, a.Regular → diskStep s a = none) ∧
      ∃ s, diskSystem.Reachable s ∧ s.unanswered = [1] ∧
        ¬ ∀ a : DiskAct, a.Regular → diskStep s a = none := by
  have hrun : (diskSystem.run clearedDisk flushAndAbort).map (fun s =>
      (decide s.Drained, s.requests, s.ended.length)) =
      some (true, [flushRequest, shortRead], 2) := by decide +kernel
  have hread : (diskSystem.run clearedDisk (flushAndAbort.take 17)).map (fun s =>
      (decide s.Drained, s.unanswered)) = some (false, [1]) := by decide +kernel
  obtain ⟨s, hreach, hobs⟩ := System.exists_reachable hrun ⟨_, _, rfl⟩
  obtain ⟨t, hreach', hobs'⟩ := System.exists_reachable hread ⟨_, _, rfl⟩
  obtain ⟨hdrained, hrest⟩ := Prod.mk.inj hobs
  obtain ⟨hrequests, hended⟩ := Prod.mk.inj hrest
  obtain ⟨hbusy, hunanswered⟩ := Prod.mk.inj hobs'
  refine ⟨⟨s, hreach, hrequests, hended, ?_⟩, t, hreach', hunanswered, fun hquiet => ?_⟩
  · exact (quiet_iff_drained hreach).mpr (of_decide_eq_true hdrained)
  · exact of_decide_eq_false hbusy ((quiet_iff_drained hreach').mp hquiet)

/-- **Every request is ended once**: a request that `vcablk_disk_queue_rq` accepted is passed to
`blk_mq_end_request` at most once, and never while the context that ends it has mappings for
it; when everything is drained all of them were ended, and every context is free. -/
theorem request_ended_once {s : DiskState} (h : diskSystem.Reachable s) :
    (s.ended.map EndRequest.req).Nodup ∧
      (∀ e ∈ s.ended, e.req < s.requests.length ∧ e.mapped = []) ∧
      (s.Drained →
        (s.ended.map EndRequest.req).Perm (List.range s.requests.length) ∧
          (∃ free, Represents s.pool free ∧
            free.Perm (List.range (vcablkBioCtxPoolSize + 1))) ∧
          ∀ c, ¬ vcablkPoolGetById s.pool c) := by
  have inv := endsInv_of_reachable h
  have hrequests := inv.requests
  refine ⟨hrequests.ended_nodup, fun e he => ⟨?_, inv.mapped.ended e he⟩, fun hdrained => ?_⟩
  · have hmem : e.req ∈ (List.range s.taken : Multiset Nat) := by
      rw [← show _ = _ from hrequests]
      exact Multiset.mem_add.mpr (.inr (Multiset.mem_coe.mpr (List.mem_map_of_mem he)))
    exact Nat.lt_of_lt_of_le (List.mem_range.mp (Multiset.mem_coe.mp hmem)) inv.disk.queue.taken_le
  · obtain ⟨hflight, hbusy⟩ := hdrained.busy_eq_zero inv.disk (lost_nil_of_reachable h)
    obtain ⟨free, p⟩ := inv.disk.places
    have hperm : free.Perm (List.range (vcablkBioCtxPoolSize + 1)) := by
      have hcookies := p.cookies
      rw [hbusy, add_zero, Multiset.coe_eq_coe] at hcookies
      exact (List.map_perm_map_iff Nat.succ_injective).mp hcookies
    refine ⟨?_, ⟨free, p.pool, hperm⟩, fun c hget => ?_⟩
    · unfold RequestsOk DiskState.pointers DiskState.inFlight DiskState.inHandler at hrequests
      rw [hflight, hdrained.thread, hdrained.handler,
        inv.disk.queue.all_taken hdrained.taken] at hrequests
      refine Multiset.coe_eq_coe.mp ?_
      simpa [MakeRequestThread.worksOn, DiskState.endedRequests] using hrequests
    · refine (p.pool.getById_iff hget.1).mp hget (hperm.mem_iff.mpr ?_)
      rw [List.mem_range, ← p.num]
      exact hget.1

theorem request_ended_once_flushAndAbort :
    ∃ s, diskSystem.Reachable s ∧ s.Drained ∧ s.requests = [flushRequest, shortRead] ∧
      (s.ended.map EndRequest.req).Perm [0, 1] := by
  have hrun : (diskSystem.run clearedDisk flushAndAbort).map (fun s =>
      (decide s.Drained, s.requests)) = some (true, [flushRequest, shortRead]) := by
    decide +kernel
  obtain ⟨s, hreach, hobs⟩ := System.exists_reachable hrun ⟨_, _, rfl⟩
  obtain ⟨hdrained, hrequests⟩ := Prod.mk.inj hobs
  have hdrained := of_decide_eq_true hdrained
  have hended := ((request_ended_once hreach).2.2 hdrained).1
  rw [hrequests] at hended
  exact ⟨s, hreach, hdrained, hrequests, hended⟩

end Vcass.Vcablk
