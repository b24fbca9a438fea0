import Vcass.Vcablk.Disk

/-!
# What a Step Can Do

One relation for each party lists the steps that it can take, with the condition of each and
the state it leads to.  The invariants of the development are proved from these lists.
-/

namespace Vcass.Vcablk

open Vcass.Core Vcass.BlockIo

/-! ## The block layer -/

/-- The outcomes of `vcablk_disk_queue_rq`: nothing is remembered of a passthrough request or
when the ring is full. -/
inductive QueueStep (s : DiskState) (req : BlkRequest) : DiskState → Prop where
  | refused : QueueStep s req s
  | queued (hnormal : req.passthrough = false)
      (hroom : (s.reqRing.head + 1) &&& (reqRingSize - 1) ≠ s.reqRing.tail) :
      QueueStep s req
        { s with
          reqRing :=
            { s.reqRing with
              ring := Function.update s.reqRing.ring s.reqRing.head (some s.requests.length)
              head := (s.reqRing.head + 1) &&& (reqRingSize - 1) }
          requests := s.requests ++ [req] }

theorem queueRq_cases (s : DiskState) (req : BlkRequest) :
    QueueStep s req (vcablkDiskQueueRq s req).2 := by
  unfold vcablkDiskQueueRq
  dsimp only
  split
  · exact .refused
  · rename_i hnormal
    split
    · exact .refused
    · rename_i hroom
      exact .queued (Bool.eq_false_of_not_eq_true hnormal) hroom

/-! ## The request thread -/

/-- The steps of the request thread, by the answers of the environment -/
inductive ThreadStep (s : DiskState) (map : Option Nat) (stop : Bool) : DiskState → Prop where
  | take {id : Nat} {req : BlkRequest} (at_idle : s.thread = .idle)
      (hne : s.reqRing.head ≠ s.reqRing.tail) (hring : s.reqRing.ring s.reqRing.tail = some id)
      (hreq : s.requests[id]? = some req) :
      ThreadStep s map stop
        { s with
          reqRing := { s.reqRing with tail := (s.reqRing.tail + 1) &&& (reqRingSize - 1) }
          taken := s.taken + 1
          thread := .getContext ⟨id, req, req.pos, req.segments, none⟩ }
  | getContext {l : AsyncRequest} {c : Nat} {pool : VcablkPool} (at_get : s.thread = .getContext l)
      (hpop : vcablkPoolPop s.pool = some (c, pool)) :
      ThreadStep s map stop
        { initContext s pool c l.id with
          thread := if l.req.doSync ∧ l.previous = none then .syncBefore l c else .segment l c }
  | noContext {l : AsyncRequest} (at_get : s.thread = .getContext l) (hstop : stop = true)
      (hpop : vcablkPoolPop s.pool = none) :
      ThreadStep s map stop { s with thread := .abort l none }
  | syncBefore {l : AsyncRequest} {c : Nat} (at_sync : s.thread = .syncBefore l c)
      (hroom : ¬ vcaRbBuffFull s.requestRingAlloc s.requestRing.lastUsed
        vcablkQueueRequestsNums) :
      ThreadStep s map stop { allocPart s c requestSync with thread := .segment l c }
  | syncAfter {l : AsyncRequest} {c : Nat} (at_sync : s.thread = .syncAfter l c)
      (hroom : ¬ vcaRbBuffFull s.requestRingAlloc s.requestRing.lastUsed
        vcablkQueueRequestsNums) :
      ThreadStep s map stop { allocPart s c requestSync with thread := .finish l c }
  | giveUp {l : AsyncRequest} {c : Nat}
      (hat : s.thread = .syncBefore l c ∨ s.thread = .segment l c ∨ s.thread = .syncAfter l c)
      (hstop : stop = true) :
      ThreadStep s map stop { s with thread := .abort l (some c) }
  | segmentsDone {l : AsyncRequest} {c : Nat} (at_segment : s.thread = .segment l c)
      (hnil : l.segments = []) :
      ThreadStep s map stop
        { s with thread := if l.req.doSync then .syncAfter l c else .finish l c }
  | split {l : AsyncRequest} {c : Nat} {bvec : BioVec} {rest : List BioVec}
      (at_segment : s.thread = .segment l c) (hsegs : l.segments = bvec :: rest)
      (hsplit : vcablkBioSplitSize ≤ (s.contexts c).bvecCtxs.length)
      (hne : s.requestRing.lastAdd ≠ s.requestRingAlloc) :
      ThreadStep s map stop
        { startBatch s l c with thread := .getContext { l with previous := some c } }
  | splitFailed {l : AsyncRequest} {c : Nat} (at_segment : s.thread = .segment l c)
      (hsplit : vcablkBioSplitSize ≤ (s.contexts c).bvecCtxs.length)
      (heq : s.requestRing.lastAdd = s.requestRingAlloc) :
      ThreadStep s map stop { s with thread := .abort l (some c) }
  | noMap {l : AsyncRequest} {c : Nat} (at_segment : s.thread = .segment l c)
      (hroom : ¬ vcaRbBuffFull s.requestRingAlloc s.requestRing.lastUsed
        vcablkQueueRequestsNums) (hmap : map = none) :
      ThreadStep s map stop { allocPart s c l.req.type with thread := .abort l (some c) }
  | mapNull {l : AsyncRequest} {c : Nat} {bvec : BioVec} {rest : List BioVec}
      (at_segment : s.thread = .segment l c) (hsegs : l.segments = bvec :: rest)
      (hroom : ¬ vcaRbBuffFull s.requestRingAlloc s.requestRing.lastUsed
        vcablkQueueRequestsNums)
      (hfits : (s.contexts c).bvecCtxs.length < vcablkBioSplitSize) (hmap : map = some 0) :
      ThreadStep s map stop { mapPart s l c bvec 0 with thread := .abort l (some c) }
  | segment {l : AsyncRequest} {c da : Nat} {bvec : BioVec} {rest : List BioVec}
      (at_segment : s.thread = .segment l c) (hsegs : l.segments = bvec :: rest)
      (hroom : ¬ vcaRbBuffFull s.requestRingAlloc s.requestRing.lastUsed
        vcablkQueueRequestsNums)
      (hfits : (s.contexts c).bvecCtxs.length < vcablkBioSplitSize) (hmap : map = some da)
      (hda : da ≠ 0) :
      ThreadStep s map stop { mapPart s l c bvec da with thread := .segment (l.next bvec rest) c }
  | finish {l : AsyncRequest} {c : Nat} (at_finish : s.thread = .finish l c)
      (hne : s.requestRing.lastAdd ≠ s.requestRingAlloc) :
      ThreadStep s map stop { startBatch (setReq s c l.id) l c with thread := .idle }
  | finishFailed {l : AsyncRequest} {c : Nat} (at_finish : s.thread = .finish l c)
      (heq : s.requestRing.lastAdd = s.requestRingAlloc) :
      ThreadStep s map stop { setReq s c l.id with thread := .abort l (some c) }
  | breakNone {l : AsyncRequest} (at_abort : s.thread = .abort l none) :
      ThreadStep s map stop { rewindRing s with thread := .waiting l none }
  | breakContext {l : AsyncRequest} {c : Nat} {pool : VcablkPool}
      (at_abort : s.thread = .abort l (some c)) (hpush : vcablkPoolPush s.pool c = some pool) :
      ThreadStep s map stop
        { requestClean (rewindRing s) c with pool := pool, thread := .waiting l (some c) }
  | endAborted {l : AsyncRequest} {c : Option Nat} (at_waiting : s.thread = .waiting l c)
      (hprevious : ∀ p, l.previous = some p → (s.contexts p).bvecCtxs = []) :
      ThreadStep s map stop (endAborted s l c)

variable {s s' : DiskState}

theorem segmentTurn_cases {l : AsyncRequest} {c : Nat} {map : Option Nat}
    {stop : Bool} (at_segment : s.thread = .segment l c)
    (h : segmentTurn s l c map stop = some s') : ThreadStep s map stop s' := by
  unfold segmentTurn at h
  split at h
  · rename_i hnil
    cases h
    exact .segmentsDone at_segment hnil
  · rename_i bvec rest hsegs
    split at h
    · rename_i hsplit
      unfold requestStart at h
      split at h
      · rename_i s₁ hstart
        split at hstart
        · cases hstart
        · rename_i hne
          cases hstart
          cases h
          exact .split at_segment hsegs hsplit hne
      · rename_i hstart
        split at hstart
        · rename_i heq
          cases h
          exact .splitFailed at_segment hsplit heq
        · cases hstart
    · rename_i hsplit
      obtain ⟨r, hstep, rfl⟩ := Option.map_eq_some_iff.mp h
      unfold segmentStep at hstep
      split at hstep
      · -- the ring is full
        split at hstep
        · rename_i hstop
          cases hstep
          exact .giveUp (.inr (.inl at_segment)) hstop
        · cases hstep
      · rename_i hroom
        cases map with
        | none =>
          cases hstep
          exact .noMap at_segment hroom rfl
        | some da =>
          cases hstep
          by_cases hda : da = 0
          · subst hda
            simpa using ThreadStep.mapNull at_segment hsegs hroom (Nat.lt_of_not_le hsplit) rfl
          · simpa [hda] using
              ThreadStep.segment at_segment hsegs hroom (Nat.lt_of_not_le hsplit) rfl hda

theorem syncStep_cases {s : DiskState} {c : Nat} {stop : Bool} {r : Bool × DiskState}
    (h : syncStep s c stop = some r) :
    (stop = true ∧ r = (true, s)) ∨
      (¬ vcaRbBuffFull s.requestRingAlloc s.requestRing.lastUsed vcablkQueueRequestsNums ∧
        r = (false, allocPart s c requestSync)) := by
  unfold syncStep at h
  split at h
  · split at h
    · rename_i hstop
      cases h
      exact .inl ⟨hstop, rfl⟩
    · cases h
  · rename_i hroom
    cases h
    exact .inr ⟨hroom, rfl⟩

theorem threadStep_cases {map : Option Nat} {stop : Bool}
    (h : threadStep s map stop = some s') : ThreadStep s map stop s' := by
  unfold threadStep at h
  cases ht : s.thread with
  | idle =>
    simp only [ht, takeRequest] at h
    split at h
    · cases h
    · rename_i hne
      split at h
      · cases h
      · rename_i id hring
        obtain ⟨req, hreq, rfl⟩ := Option.map_eq_some_iff.mp h
        exact .take ht hne hring hreq
  | getContext l =>
    simp only [ht, getContextStep] at h
    split at h
    · rename_i c pool hpop
      cases h
      exact .getContext ht hpop
    · rename_i hpop
      split at h
      · rename_i hstop
        cases h
        exact .noContext ht hstop hpop
      · cases h
  | syncBefore l c =>
    simp only [ht] at h
    obtain ⟨r, hstep, rfl⟩ := Option.map_eq_some_iff.mp h
    rcases syncStep_cases hstep with ⟨hstop, rfl⟩ | ⟨hroom, rfl⟩
    · exact .giveUp (.inl ht) hstop
    · exact .syncBefore ht hroom
  | segment l c =>
    simp only [ht] at h
    exact segmentTurn_cases ht h
  | syncAfter l c =>
    simp only [ht] at h
    obtain ⟨r, hstep, rfl⟩ := Option.map_eq_some_iff.mp h
    rcases syncStep_cases hstep with ⟨hstop, rfl⟩ | ⟨hroom, rfl⟩
    · exact .giveUp (.inr (.inr ht)) hstop
    · exact .syncAfter ht hroom
  | finish l c =>
    -- when no part was stored there is nothing to publish, and the request is broken off
    simp only [ht, finishRequest, requestStart] at h
    split at h
    · rename_i s₁ hstart
      split at hstart
      · cases hstart
      · rename_i hne
        cases hstart
        cases h
        exact .finish ht hne
    · rename_i hstart
      split at hstart
      · rename_i heq
        cases h
        exact .finishFailed ht heq
      · cases hstart
  | abort l c =>
    simp only [ht] at h
    obtain ⟨s₁, hbreak, rfl⟩ := Option.map_eq_some_iff.mp h
    cases c with
    | none =>
      cases hbreak
      exact .breakNone ht
    | some c =>
      obtain ⟨pool, hpush, rfl⟩ := Option.map_eq_some_iff.mp hbreak
      exact .breakContext ht hpush
  | waiting l c =>
    -- the wait is over when the batch before is unmapped, or if there was none
    simp only [ht] at h
    split at h
    · rename_i hnone
      cases h
      refine .endAborted ht fun p hp => ?_
      rw [hnone] at hp
      cases hp
    · rename_i p hsome
      split at h
      · rename_i hclean
        cases h
        refine .endAborted ht fun q hq => ?_
        rw [hsome] at hq
        cases hq
        exact hclean
      · cases h

/-! ## The completion handler -/

inductive HandlerStep (s : DiskState) : DiskState → Prop where
  | take (at_idle : s.handler = .idle)
      (hne : s.completionRing.lastUsed ≠ s.completionRing.lastAdd) {ack : VcablkCompletion}
      (hack : s.completionRing.elems
        (vcaRbCounterToIdx s.completionRing.lastUsed vcablkQueueAckNums) = ack) :
      HandlerStep s
        { s with
          completionRing :=
            { s.completionRing with
              elems := Function.update s.completionRing.elems
                (vcaRbCounterToIdx s.completionRing.lastUsed vcablkQueueAckNums) ⟨0, 0⟩
              lastUsed := vcaRbCounterAdd s.completionRing.lastUsed 1 vcablkQueueAckNums }
          acksTaken := s.acksTaken + 1
          handler := .taken ack.cookie ack.ret }
  | clean {c : Nat} {ret : Int} (at_taken : s.handler = .taken (c + 1) ret)
      (hused : vcablkPoolGetById s.pool c) :
      HandlerStep s
        { s with
          live := s.live.diff ((s.contexts c).bvecCtxs.map fun m => (c, m))
          contexts := Function.update s.contexts c
            { s.contexts c with bvecCtxs := [], req := none }
          handler := .cleaned c (s.contexts c).req ret }
  | drop {cookie : Nat} {ret : Int} (at_taken : s.handler = .taken cookie ret)
      (hbad : ¬ (cookie ≠ 0 ∧ vcablkPoolGetById s.pool (cookie - 1))) :
      HandlerStep s { s with handler := .idle }
  | push {c : Nat} {req : Option Nat} {ret : Int} {pool : VcablkPool}
      (at_cleaned : s.handler = .cleaned c req ret) (hpush : vcablkPoolPush s.pool c = some pool) :
      HandlerStep s
        { s with pool := pool, handler := .pushed c (s.contexts c).owner req ret }
  | ends {c owner id : Nat} {ret : Int} (at_pushed : s.handler = .pushed c owner (some id) ret) :
      HandlerStep s (requestEnd s c owner (some id) ret)
  | remembers {c owner : Nat} {ret : Int} (at_pushed : s.handler = .pushed c owner none ret) :
      HandlerStep s (requestEnd s c owner none ret)

theorem handlerStep_cases (h : handlerStep s = some s') : HandlerStep s s' := by
  unfold handlerStep at h
  cases hh : s.handler with
  | idle =>
    simp only [hh, takeAck] at h
    split at h
    · cases h
    · rename_i hne
      cases h
      exact .take hh hne rfl
  | taken cookie ret =>
    simp only [hh, requestDone] at h
    split at h
    · rename_i hgood
      cases h
      obtain ⟨c, rfl⟩ := Nat.exists_eq_succ_of_ne_zero hgood.1
      simpa [requestClean] using HandlerStep.clean hh hgood.2
    · rename_i hbad
      cases h
      exact .drop hh hbad
  | cleaned c req ret =>
    simp only [hh] at h
    obtain ⟨s₁, hpush, rfl⟩ := Option.map_eq_some_iff.mp h
    obtain ⟨pool, hpool, rfl⟩ := Option.map_eq_some_iff.mp hpush
    exact .push hh hpool
  | pushed c owner req ret =>
    simp only [hh] at h
    cases h
    cases req with
    | none => exact .remembers hh
    | some id => exact .ends hh

/-! ## The backend -/

/-- The steps of `vcablk_bcknd_disk_get_next_request` -/
inductive NextStep (s : DiskState) : DiskState → Prop where
  | start (at_idle : s.nextRequest = .idle) (hne : s.requestLastUsed ≠ s.requestRing.lastAdd) :
      NextStep s { s with nextRequest := .reading s.requestRing.lastAdd s.requestLastUsed 0 [] }
  | skip {lastAdd lastUsed : Nat} {buff : List VcablkRequest}
      (at_reading : s.nextRequest = .reading lastAdd lastUsed 0 buff) (hne : lastUsed ≠ lastAdd)
      (hzero : (s.requestRing.elems
        (vcaRbCounterToIdx lastUsed vcablkQueueRequestsNums)).cookie = 0) :
      NextStep s
        { s with
          nextRequest := .reading lastAdd (vcaRbCounterAdd lastUsed 1 vcablkQueueRequestsNums) 0
            buff }
  | copy {lastAdd lastUsed cookie : Nat} {buff : List VcablkRequest} {request : VcablkRequest}
      (at_reading : s.nextRequest = .reading lastAdd lastUsed cookie buff)
      (hne : lastUsed ≠ lastAdd)
      (hread : s.requestRing.elems (vcaRbCounterToIdx lastUsed vcablkQueueRequestsNums) = request)
      (hsame : cookie = 0 ∨ cookie = request.cookie) :
      NextStep s
        { s with
          nextRequest := .reading lastAdd (vcaRbCounterAdd lastUsed 1 vcablkQueueRequestsNums)
            request.cookie (buff ++ [request]) }
  | finish {lastAdd lastUsed cookie : Nat} {buff : List VcablkRequest}
      (at_reading : s.nextRequest = .reading lastAdd lastUsed cookie buff)
      (hend : lastUsed = lastAdd ∨ vcablkMaxPartsPerRequest ≤ buff.length ∨
        (cookie ≠ 0 ∧ cookie ≠ (s.requestRing.elems
          (vcaRbCounterToIdx lastUsed vcablkQueueRequestsNums)).cookie)) :
      NextStep s (returnRequest s lastUsed cookie buff)

theorem nextRequestStep_cases (h : nextRequestStep s = some s') : NextStep s s' := by
  unfold nextRequestStep at h
  cases hn : s.nextRequest with
  | idle =>
    simp only [hn] at h
    split at h
    · cases h
    · rename_i hne
      cases h
      exact .start hn hne
  | reading lastAdd lastUsed cookie buff =>
    simp only [hn] at h
    split at h
    · rename_i hloop
      split at h
      · rename_i hinvalid
        cases h
        -- the first part has no cookie and is skipped
        obtain ⟨rfl, hzero⟩ := hinvalid
        exact .skip hn hloop.1 hzero
      · rename_i hvalid
        split at h
        · rename_i hother
          cases h
          exact .finish hn (.inr (.inr hother))
        · rename_i hsame
          cases h
          refine .copy hn hloop.1 rfl ?_
          by_cases hzero : cookie = 0
          · exact .inl hzero
          · exact .inr (Classical.not_not.mp fun hne => hsame ⟨hzero, hne⟩)
    · rename_i hloop
      cases h
      refine .finish hn ?_
      by_cases heq : lastUsed = lastAdd
      · exact .inl heq
      · exact .inr (.inl (Nat.le_of_not_lt fun hlt => hloop ⟨heq, hlt⟩))

/-- The steps of `vcablk_bcknd_disk_send_response` -/
inductive ResponseStep (s : DiskState) : DiskAct → DiskState → Prop where
  | write {k cookie : Nat} {ret : Int} (at_idle : s.response = .idle)
      (hk : s.unanswered[k]? = some cookie)
      (hroom : ¬ vcaRbBuffFull s.completionRing.lastAdd s.completionRing.lastUsed
        vcablkQueueAckNums) :
      ResponseStep s (.respond k ret)
        { s with
          completionRing :=
            { s.completionRing with
              elems := Function.update s.completionRing.elems
                (vcaRbCounterToIdx s.completionRing.lastAdd vcablkQueueAckNums)
                ⟨cookie, toS8 ret⟩ }
          unanswered := s.unanswered.eraseIdx k
          acks := s.acks ++ [⟨cookie, toS8 ret⟩]
          response := .written }
  | timeout {k cookie : Nat} (at_idle : s.response = .idle)
      (hk : s.unanswered[k]? = some cookie)
      (hfull : vcaRbBuffFull s.completionRing.lastAdd s.completionRing.lastUsed
        vcablkQueueAckNums) :
      ResponseStep s (.respondTimeout k)
        { s with unanswered := s.unanswered.eraseIdx k, lost := s.lost ++ [cookie] }
  | publish (at_written : s.response = .written) :
      ResponseStep s .publishResponse
        { s with
          completionRing :=
            { s.completionRing with
              lastAdd := vcaRbCounterAdd s.completionRing.lastAdd 1 vcablkQueueAckNums }
          response := .idle }

theorem sendResponse_cases {k : Nat} {ret : Int}
    (h : sendResponse s k ret = some s') : ResponseStep s (.respond k ret) s' := by
  unfold sendResponse at h
  dsimp only at h
  split at h
  · rename_i at_idle hk
    split at h
    · cases h
    · rename_i hroom
      cases h
      exact .write at_idle hk hroom
  · cases h

theorem responseTimeout_cases {k : Nat}
    (h : responseTimeout s k = some s') : ResponseStep s (.respondTimeout k) s' := by
  unfold responseTimeout at h
  dsimp only at h
  split at h
  · rename_i at_idle hk
    split at h
    · rename_i hfull
      cases h
      exact .timeout at_idle hk hfull
    · cases h
  · cases h

theorem publishResponse_cases (h : publishResponse s = some s') :
    ResponseStep s .publishResponse s' := by
  unfold publishResponse at h
  dsimp only at h
  split at h
  · rename_i at_written
    cases h
    exact .publish at_written
  · cases h

/-! ## The system -/

inductive DiskStep (s : DiskState) : DiskAct → DiskState → Prop where
  | queueRq {req : BlkRequest} {s' : DiskState} :
      QueueStep s req s' → DiskStep s (.queueRq req) s'
  | thread {map : Option Nat} {stop : Bool} {s' : DiskState} :
      ThreadStep s map stop s' → DiskStep s (.thread map stop) s'
  | handler {s' : DiskState} : HandlerStep s s' → DiskStep s .handler s'
  | nextRequest {s' : DiskState} : NextStep s s' → DiskStep s .nextRequest s'
  | response {a : DiskAct} {s' : DiskState} : ResponseStep s a s' → DiskStep s a s'

theorem diskStep_cases {a : DiskAct} (h : diskStep s a = some s') : DiskStep s a s' := by
  cases a with
  | queueRq req =>
    cases h
    exact .queueRq (queueRq_cases s req)
  | thread map stop => exact .thread (threadStep_cases h)
  | handler => exact .handler (handlerStep_cases h)
  | nextRequest => exact .nextRequest (nextRequestStep_cases h)
  | respond k ret => exact .response (sendResponse_cases h)
  | respondTimeout k => exact .response (responseTimeout_cases h)
  | publishResponse => exact .response (publishResponse_cases h)

end Vcass.Vcablk
