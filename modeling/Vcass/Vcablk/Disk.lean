import Vcass.BlockIo.Media
import Vcass.BlockIo.Request
import Vcass.Core.System
import Vcass.Vcablk.Pool

/-!
# The Frontend of a Block Device

`vcablk_disk.c` on the card, with the part of `vcablk_bcknd_disk.c` that it shares rings with.
The parties are

- the block layer, which hands over requests (`vcablk_disk_queue_rq`);
- the request thread, which cuts a request into batches of parts and publishes each batch with
  its bio context (`vcablk_disk_async_request`), or breaks the request off;
- the completion handler, which releases the context of an answered batch and ends the request
  with the last one (`vcablk_disk_request_done`);
- the backend, which reads batches from the request ring
  (`vcablk_bcknd_disk_get_next_request`) and answers their cookies in any order
  (`vcablk_bcknd_disk_send_response`).

A step is what happens between two accesses to memory that another party writes.  A request
pointer is the number of the request among those handed over.
-/

namespace Vcass.Vcablk

open Vcass.Core Vcass.BlockIo

/-! ## Constants and ring counters -/

/-- `VCABLK_BIO_SPLIT_SIZE` -/
def vcablkBioSplitSize : Nat := 32

/-- `VCABLK_BIO_CTX_POOL_SIZE` -/
def vcablkBioCtxPoolSize : Nat := 32

/-- `VCABLK_QUEUE_REQUESTS_NUMS` -/
def vcablkQueueRequestsNums : Nat := 1024

/-- `VCABLK_QUEUE_ACK_NUMS` -/
def vcablkQueueAckNums : Nat := vcablkBioCtxPoolSize

/-- `REQ_RING_SIZE` -/
def reqRingSize : Nat := 2048

/-- `VCABLK_MAX_PARTS_PER_REQUEST`: 256 transfers and 2 syncs -/
def vcablkMaxPartsPerRequest : Nat := 256 + 2

/-- `VCA_RB_COUNTER_ADD` -/
def vcaRbCounterAdd (cnt val size : Nat) : Nat := (cnt + val) &&& ((size <<< 1) - 1)

/-- `VCA_RB_COUNTER_TO_IDX` -/
def vcaRbCounterToIdx (cnt size : Nat) : Nat := cnt &&& (size - 1)

/-- `VCA_RB_BUFF_FULL` -/
def vcaRbBuffFull (headCnt tailCnt size : Nat) : Prop :=
  headCnt ≠ tailCnt ∧ vcaRbCounterToIdx headCnt size = vcaRbCounterToIdx tailCnt size

instance (headCnt tailCnt size : Nat) : Decidable (vcaRbBuffFull headCnt tailCnt size) :=
  inferInstanceAs (Decidable (_ ∧ _))

/-! ## Data -/

/-- `struct bio_vec` -/
structure BioVec where
  bvPage : Nat
  bvOffset : Nat
  bvLen : Nat
deriving DecidableEq

/-- `struct request`, as far as the driver reads it -/
structure BlkRequest where
  passthrough : Bool
  /-- `rq_data_dir` -/
  write : Bool
  opFlush : Bool
  flagSync : Bool
  flagPreflush : Bool
  flagFua : Bool
  /-- `blk_rq_pos` -/
  pos : Nat
  segments : List BioVec
deriving DecidableEq

/-- `do_sync` -/
def BlkRequest.doSync (req : BlkRequest) : Bool :=
  req.opFlush || req.flagSync || req.flagPreflush || req.flagFua

def BlkRequest.type (req : BlkRequest) : Nat := if req.write then requestWrite else requestRead

/-- `enum dma_data_direction` -/
inductive DmaDataDirection where
  | toDevice
  | fromDevice
deriving DecidableEq

/-- `struct bvec_context`.  The last two fields are history: the request and the segment that
the mapping was made for. -/
structure BvecContext where
  dmaAddr : Nat
  size : Nat
  dir : DmaDataDirection
  req : Nat
  bvec : BioVec
deriving DecidableEq

/-- `struct vcablk_bio_context`; `bvec_ctxs_idx` is the length of `bvecCtxs`.  `owner` is
history: the request that the context was taken for. -/
structure VcablkBioContext where
  id : Nat
  req : Option Nat
  bvecCtxs : List BvecContext
  owner : Nat

/-- `struct vcablk_ring` -/
structure VcablkRing (α : Type) where
  lastAdd : Nat
  lastUsed : Nat
  elems : Nat → α

/-- `struct request_ring` -/
structure RequestRing where
  head : Nat
  tail : Nat
  ring : Nat → Option Nat

/-- `blk_status_t` -/
inductive BlkStatus where
  | ok
  | ioerr
  | resource
deriving DecidableEq

/-! ## History -/

/-- What one `vcablk_disk_request_start` published: the parts, and the context that stands
for them with its request pointer and its mappings -/
structure Batch where
  context : Nat
  owner : Nat
  req : Option Nat
  parts : List VcablkRequest
  maps : List BvecContext

/-- An answer that `vcablk_disk_request_done` has worked off -/
structure Answer where
  owner : Nat
  final : Bool
  ret : Int
deriving DecidableEq

/-- A call of `blk_mq_end_request`: by whom, with which context, and the mappings of that
context for the request that were still there -/
structure EndRequest where
  req : Nat
  status : BlkStatus
  byDone : Bool
  context : Option Nat
  mapped : List BvecContext

/-! ## Parties -/

/-- The locals of `vcablk_disk_async_request`, up to `bio_context` -/
structure AsyncRequest where
  id : Nat
  req : BlkRequest
  sector : Nat
  /-- the segments that the loop has still to do -/
  segments : List BioVec
  /-- `bio_context_previous` -/
  previous : Option Nat
deriving DecidableEq

/-- `vcablk_disk_make_request_thread`; `c` is `bio_context`. -/
inductive MakeRequestThread where
  | idle
  | getContext (l : AsyncRequest)
  | syncBefore (l : AsyncRequest) (c : Nat)
  | segment (l : AsyncRequest) (c : Nat)
  | syncAfter (l : AsyncRequest) (c : Nat)
  | finish (l : AsyncRequest) (c : Nat)
  /-- at the label `end`, with an error -/
  | abort (l : AsyncRequest) (c : Option Nat)
  /-- before it looks at the mappings of the previous context -/
  | waiting (l : AsyncRequest) (c : Option Nat)
deriving DecidableEq

/-- `vcablk_disk_request_completion_handler` -/
inductive CompletionHandler where
  | idle
  /-- the answer is taken from the ring -/
  | taken (cookie : Nat) (ret : Int)
  /-- the context is unmapped, but not yet in the pool -/
  | cleaned (c : Nat) (req : Option Nat) (ret : Int)
  /-- the context is back in the pool; it and its owner are history -/
  | pushed (c : Nat) (owner : Nat) (req : Option Nat) (ret : Int)
deriving DecidableEq

/-- `vcablk_bcknd_disk_get_next_request` -/
inductive NextRequest where
  | idle
  | reading (lastAdd lastUsed cookie : Nat) (requestBuff : List VcablkRequest)

/-- `vcablk_bcknd_disk_send_response`, under its lock -/
inductive SendResponse where
  | idle
  /-- the answer is written, `last_add` not yet published -/
  | written
deriving DecidableEq

structure DiskState where
  /-- the requests handed over -/
  requests : List BlkRequest
  reqRing : RequestRing
  requestRing : VcablkRing VcablkRequest
  requestRingAlloc : Nat
  completionRing : VcablkRing VcablkCompletion
  pool : VcablkPool
  contexts : Nat → VcablkBioContext
  splitRequestError : Nat
  thread : MakeRequestThread
  handler : CompletionHandler
  -- the backend, with the cookies that it has read and not yet answered
  requestLastUsed : Nat
  nextRequest : NextRequest
  unanswered : List Nat
  response : SendResponse
  -- history: requests taken, parts not yet published, batches published and read, answers
  -- posted, taken, worked off and lost, ended requests, mapped pages
  taken : Nat
  building : List VcablkRequest
  published : List Batch
  returned : List (List VcablkRequest)
  acks : List VcablkCompletion
  acksTaken : Nat
  handled : List Answer
  lost : List Nat
  ended : List EndRequest
  live : List (Nat × BvecContext)

/-! ## The block layer -/

/-- `vcablk_disk_queue_rq`; a passthrough request is ended at once. -/
def vcablkDiskQueueRq (s : DiskState) (req : BlkRequest) : BlkStatus × DiskState :=
  let newHead := (s.reqRing.head + 1) &&& (reqRingSize - 1)
  if req.passthrough then
    (.ok, s)
  else if newHead = s.reqRing.tail then
    (.resource, s)
  else
    (.ok,
      { s with
        reqRing :=
          { s.reqRing with
            ring := Function.update s.reqRing.ring s.reqRing.head (some s.requests.length)
            head := newHead }
        requests := s.requests ++ [req] })

/-! ## Contexts and parts -/

/-- The mappings of a context for a request that are still there -/
def DiskState.mapped (s : DiskState) (c req : Nat) : List BvecContext :=
  (s.live.filter fun m => m.1 = c ∧ m.2.req = req).map Prod.snd

/-- `vcablk_disk_request_clean` up to the push: unmap the pages of a context. -/
def requestClean (s : DiskState) (c : Nat) : DiskState :=
  { s with
    live := s.live.diff ((s.contexts c).bvecCtxs.map fun m => (c, m))
    contexts := Function.update s.contexts c { s.contexts c with bvecCtxs := [] } }

/-- The rest of `vcablk_disk_request_clean` -/
def poolPush (s : DiskState) (c : Nat) : Option DiskState :=
  (vcablkPoolPush s.pool c).map fun pool => { s with pool := pool }

/-- `vcablk_disk_get_bio_context` with an element of the pool -/
def initContext (s : DiskState) (pool : VcablkPool) (c owner : Nat) : DiskState :=
  { s with
    pool := pool
    contexts := Function.update s.contexts c ⟨c + 1, none, [], owner⟩ }

/-- `vcablk_disk_request_alloc_next`, with what is then written to the slot -/
def fillSlot (s : DiskState) (part : VcablkRequest) : DiskState :=
  let idx := vcaRbCounterToIdx s.requestRingAlloc vcablkQueueRequestsNums
  { s with
    requestRing := { s.requestRing with elems := Function.update s.requestRing.elems idx part }
    requestRingAlloc := vcaRbCounterAdd s.requestRingAlloc 1 vcablkQueueRequestsNums
    building := s.building ++ [part] }

/-- The next slot with the two fields that `vcablk_disk_request_step` always writes; the others
keep what an earlier part left there. -/
def stalePart (s : DiskState) (c type : Nat) : VcablkRequest :=
  { s.requestRing.elems (vcaRbCounterToIdx s.requestRingAlloc vcablkQueueRequestsNums) with
    requestType := type
    cookie := (s.contexts c).id }

/-- A part without a segment, or whose segment was not mapped -/
def allocPart (s : DiskState) (c type : Nat) : DiskState := fillSlot s (stalePart s c type)

/-- `vcablk_disk_request_step` without a segment: the result, and whether the step failed.
`stop` is whether waiting for a free slot is given up; `none` means that it goes on. -/
def syncStep (s : DiskState) (c : Nat) (stop : Bool) : Option (Bool × DiskState) :=
  if vcaRbBuffFull s.requestRingAlloc s.requestRing.lastUsed vcablkQueueRequestsNums then
    if stop then some (true, s) else none
  else
    some (false, allocPart s c requestSync)

/-- The mapping that `vcablk_disk_map_page` remembers -/
def mapPage (l : AsyncRequest) (bvec : BioVec) (da : Nat) : BvecContext :=
  ⟨da, bvec.bvLen, if l.req.write then .toDevice else .fromDevice, l.id, bvec⟩

/-- The part of a segment that is mapped at address `da` -/
def segmentPart (s : DiskState) (l : AsyncRequest) (c : Nat) (bvec : BioVec) (da : Nat) :
    VcablkRequest :=
  if da = 0 then
    stalePart s c l.req.type
  else
    ⟨da, l.sector, bvec.bvLen >>> sectorShift, (s.contexts c).id, l.req.type⟩

/-- A part with its mapping, which the context remembers even when the address is null -/
def mapPart (s : DiskState) (l : AsyncRequest) (c : Nat) (bvec : BioVec) (da : Nat) :
    DiskState :=
  { fillSlot s (segmentPart s l c bvec da) with
    contexts := Function.update s.contexts c
      { s.contexts c with bvecCtxs := (s.contexts c).bvecCtxs ++ [mapPage l bvec da] }
    live := (c, mapPage l bvec da) :: s.live }

/-- `vcablk_disk_request_step` for a segment; `map` is the answer of `vcablk_dma_map_page`. -/
def segmentStep (s : DiskState) (l : AsyncRequest) (c : Nat) (bvec : BioVec) (map : Option Nat)
    (stop : Bool) : Option (Bool × DiskState) :=
  if vcaRbBuffFull s.requestRingAlloc s.requestRing.lastUsed vcablkQueueRequestsNums then
    if stop then some (true, s) else none
  else if vcablkBioSplitSize ≤ (s.contexts c).bvecCtxs.length then
    some (true, allocPart s c l.req.type)
  else
    match map with
    | none => some (true, allocPart s c l.req.type)
    | some da => some (da = 0, mapPart s l c bvec da)

/-- What `vcablk_disk_request_start` publishes -/
def startBatch (s : DiskState) (l : AsyncRequest) (c : Nat) : DiskState :=
  { s with
    requestRing := { s.requestRing with lastAdd := s.requestRingAlloc }
    published := s.published ++
      [⟨c, l.id, (s.contexts c).req, s.building, (s.contexts c).bvecCtxs⟩]
    building := [] }

/-- `vcablk_disk_request_start`; `none` is `-EINVAL`. -/
def requestStart (s : DiskState) (l : AsyncRequest) (c : Nat) : Option DiskState :=
  if s.requestRing.lastAdd = s.requestRingAlloc then none else some (startBatch s l c)

/-- `vcablk_disk_request_break` rewinds the ring. -/
def rewindRing (s : DiskState) : DiskState :=
  { s with requestRingAlloc := s.requestRing.lastAdd, building := [] }

/-- `vcablk_disk_request_break` -/
def requestBreak (s : DiskState) (c : Option Nat) : Option DiskState :=
  match c with
  | none => some (rewindRing s)
  | some c => poolPush (requestClean (rewindRing s) c) c

/-! ## The request thread -/

def takeRequest (s : DiskState) : Option DiskState :=
  if s.reqRing.head = s.reqRing.tail then
    none
  else
    match s.reqRing.ring s.reqRing.tail with
    | none => none
    | some id =>
      (s.requests[id]?).map fun req =>
        { s with
          reqRing := { s.reqRing with tail := (s.reqRing.tail + 1) &&& (reqRingSize - 1) }
          taken := s.taken + 1
          thread := .getContext ⟨id, req, req.pos, req.segments, none⟩ }

/-- `vcablk_disk_get_bio_context` -/
def getContextStep (s : DiskState) (l : AsyncRequest) (stop : Bool) : Option DiskState :=
  match vcablkPoolPop s.pool with
  | some (c, pool) =>
    some
      { initContext s pool c l.id with
        thread := if l.req.doSync ∧ l.previous = none then .syncBefore l c else .segment l c }
  | none => if stop then some { s with thread := .abort l none } else none

def AsyncRequest.next (l : AsyncRequest) (bvec : BioVec) (rest : List BioVec) : AsyncRequest :=
  { l with
    segments := rest
    sector := (l.sector + bvec.bvLen >>> sectorShift) % 2 ^ 64 }

def segmentTurn (s : DiskState) (l : AsyncRequest) (c : Nat) (map : Option Nat) (stop : Bool) :
    Option DiskState :=
  match l.segments with
  | [] => some { s with thread := if l.req.doSync then .syncAfter l c else .finish l c }
  | bvec :: rest =>
    if vcablkBioSplitSize ≤ (s.contexts c).bvecCtxs.length then
      -- the context is full: publish this batch and go on with another context
      match requestStart s l c with
      | some s' => some { s' with thread := .getContext { l with previous := some c } }
      | none => some { s with thread := .abort l (some c) }
    else
      (segmentStep s l c bvec map stop).map fun r =>
        { r.2 with
          thread := if r.1 then .abort l (some c) else .segment (l.next bvec rest) c }

def setReq (s : DiskState) (c id : Nat) : DiskState :=
  { s with
    contexts := Function.update s.contexts c { s.contexts c with req := some id } }

/-- Publish the last batch, with the request pointer in its context. -/
def finishRequest (s : DiskState) (l : AsyncRequest) (c : Nat) : DiskState :=
  match requestStart (setReq s c l.id) l c with
  | some s' => { s' with thread := .idle }
  | none => { setReq s c l.id with thread := .abort l (some c) }

/-- `vcablk_disk_request_end` of a request that was broken off -/
def endAborted (s : DiskState) (l : AsyncRequest) (c : Option Nat) : DiskState :=
  { s with
    ended := s.ended ++
      [⟨l.id, .ioerr, false, c,
        match c with
        | some c => s.mapped c l.id
        | none => []⟩]
    thread := .idle }

def threadStep (s : DiskState) (map : Option Nat) (stop : Bool) : Option DiskState :=
  match s.thread with
  | .idle => takeRequest s
  | .getContext l => getContextStep s l stop
  | .syncBefore l c =>
    (syncStep s c stop).map fun r =>
      { r.2 with thread := if r.1 then .abort l (some c) else .segment l c }
  | .segment l c => segmentTurn s l c map stop
  | .syncAfter l c =>
    (syncStep s c stop).map fun r =>
      { r.2 with thread := if r.1 then .abort l (some c) else .finish l c }
  | .finish l c => some (finishRequest s l c)
  | .abort l c => (requestBreak s c).map fun s' => { s' with thread := .waiting l c }
  | .waiting l c =>
    match l.previous with
    | none => some (endAborted s l c)
    | some p => if (s.contexts p).bvecCtxs = [] then some (endAborted s l c) else none

/-! ## The completion handler -/

def takeAck (s : DiskState) : Option DiskState :=
  let ring := s.completionRing
  let idx := vcaRbCounterToIdx ring.lastUsed vcablkQueueAckNums
  if ring.lastUsed = ring.lastAdd then
    none
  else
    some
      { s with
        completionRing :=
          { ring with
            elems := Function.update ring.elems idx ⟨0, 0⟩
            lastUsed := vcaRbCounterAdd ring.lastUsed 1 vcablkQueueAckNums }
        acksTaken := s.acksTaken + 1
        handler := .taken (ring.elems idx).cookie (ring.elems idx).ret }

/-- `vcablk_disk_request_done` up to the unmapped context; a cookie that stands for no context
is reported and dropped. -/
def requestDone (s : DiskState) (cookie : Nat) (ret : Int) : DiskState :=
  if cookie ≠ 0 ∧ vcablkPoolGetById s.pool (cookie - 1) then
    let c := cookie - 1
    let s₁ := requestClean s c
    { s₁ with
      contexts := Function.update s₁.contexts c { s₁.contexts c with req := none }
      handler := .cleaned c (s.contexts c).req ret }
  else
    { s with handler := .idle }

/-- `vcablk_disk_request_end` -/
def endStatus (ret : Int) : BlkStatus := if ret ≠ 0 then .ioerr else .ok

/-- The rest of `vcablk_disk_request_done`: end the request with its last batch, remember an
error of another one. -/
def requestEnd (s : DiskState) (c owner : Nat) (req : Option Nat) (ret : Int) : DiskState :=
  match req with
  | some id =>
    let ret' := if s.splitRequestError ≠ 0 then (s.splitRequestError : Int) else ret
    { s with
      splitRequestError := 0
      ended := s.ended ++ [⟨id, endStatus ret', true, some c, s.mapped c id⟩]
      handled := s.handled ++ [⟨owner, true, ret⟩]
      handler := .idle }
  | none =>
    { s with
      splitRequestError :=
        if ret ≠ 0 then (ret % 65536).toNat else s.splitRequestError
      handled := s.handled ++ [⟨owner, false, ret⟩]
      handler := .idle }

def handlerStep (s : DiskState) : Option DiskState :=
  match s.handler with
  | .idle => takeAck s
  | .taken cookie ret => some (requestDone s cookie ret)
  | .cleaned c req ret =>
    (poolPush s c).map fun s' =>
      { s' with handler := .pushed c (s.contexts c).owner req ret }
  | .pushed c owner req ret => some (requestEnd s c owner req ret)

/-! ## The backend -/

/-- The end of `vcablk_bcknd_disk_get_next_request` -/
def returnRequest (s : DiskState) (lastUsed cookie : Nat) (requestBuff : List VcablkRequest) :
    DiskState :=
  let s₁ :=
    { s with
      requestLastUsed := lastUsed
      requestRing := { s.requestRing with lastUsed := lastUsed }
      nextRequest := .idle }
  if requestBuff = [] then
    s₁
  else
    { s₁ with
      returned := s.returned ++ [requestBuff]
      unanswered := s.unanswered ++ [cookie] }

/-- One step of `vcablk_bcknd_disk_get_next_request` -/
def nextRequestStep (s : DiskState) : Option DiskState :=
  match s.nextRequest with
  | .idle =>
    if s.requestLastUsed = s.requestRing.lastAdd then
      none
    else
      some { s with nextRequest := .reading s.requestRing.lastAdd s.requestLastUsed 0 [] }
  | .reading lastAdd lastUsed cookie requestBuff =>
    if lastUsed ≠ lastAdd ∧ requestBuff.length < vcablkMaxPartsPerRequest then
      let request :=
        s.requestRing.elems (vcaRbCounterToIdx lastUsed vcablkQueueRequestsNums)
      let next := vcaRbCounterAdd lastUsed 1 vcablkQueueRequestsNums
      if cookie = 0 ∧ request.cookie = 0 then
        -- ignore an invalid cookie
        some { s with nextRequest := .reading lastAdd next 0 requestBuff }
      else if cookie ≠ 0 ∧ cookie ≠ request.cookie then
        some (returnRequest s lastUsed cookie requestBuff)
      else
        some
          { s with
            nextRequest := .reading lastAdd next request.cookie (requestBuff ++ [request]) }
    else
      some (returnRequest s lastUsed cookie requestBuff)

/-- `vcablk_bcknd_disk_send_response` up to the written answer -/
def sendResponse (s : DiskState) (k : Nat) (ret : Int) : Option DiskState :=
  let ring := s.completionRing
  match s.response, s.unanswered[k]? with
  | .idle, some cookie =>
    if vcaRbBuffFull ring.lastAdd ring.lastUsed vcablkQueueAckNums then
      none
    else
      let ack : VcablkCompletion := ⟨cookie, toS8 ret⟩
      some
        { s with
          completionRing :=
            { ring with
              elems := Function.update ring.elems
                (vcaRbCounterToIdx ring.lastAdd vcablkQueueAckNums) ack }
          unanswered := s.unanswered.eraseIdx k
          acks := s.acks ++ [ack]
          response := .written }
  | _, _ => none

/-- `vcablk_bcknd_disk_send_response` gives up after two seconds. -/
def responseTimeout (s : DiskState) (k : Nat) : Option DiskState :=
  let ring := s.completionRing
  match s.response, s.unanswered[k]? with
  | .idle, some cookie =>
    if vcaRbBuffFull ring.lastAdd ring.lastUsed vcablkQueueAckNums then
      some
        { s with
          unanswered := s.unanswered.eraseIdx k
          lost := s.lost ++ [cookie] }
    else
      none
  | _, _ => none

/-- The rest of `vcablk_bcknd_disk_send_response` -/
def publishResponse (s : DiskState) : Option DiskState :=
  let ring := s.completionRing
  match s.response with
  | .written =>
    some
      { s with
        completionRing :=
          { ring with lastAdd := vcaRbCounterAdd ring.lastAdd 1 vcablkQueueAckNums }
        response := .idle }
  | .idle => none

/-! ## The system -/

/-- The actions, with what the environment answers -/
inductive DiskAct where
  | queueRq (req : BlkRequest)
  | thread (map : Option Nat) (stop : Bool)
  | handler
  | nextRequest
  /-- answer the `k`-th of the cookies that were read -/
  | respond (k : Nat) (ret : Int)
  | respondTimeout (k : Nat)
  | publishResponse
deriving DecidableEq

def diskStep (s : DiskState) (a : DiskAct) : Option DiskState :=
  match a with
  | .queueRq req => some (vcablkDiskQueueRq s req).2
  | .thread map stop => threadStep s map stop
  | .handler => handlerStep s
  | .nextRequest => nextRequestStep s
  | .respond k ret => sendResponse s k ret
  | .respondTimeout k => responseTimeout s k
  | .publishResponse => publishResponse s

/-- A disk that was just created; the ring memory may hold anything. -/
def DiskState.initial (requestElems : Nat → VcablkRequest)
    (completionElems : Nat → VcablkCompletion) : DiskState where
  requests := []
  reqRing := ⟨0, 0, fun _ => none⟩
  requestRing := ⟨0, 0, requestElems⟩
  requestRingAlloc := 0
  completionRing := ⟨0, 0, completionElems⟩
  pool := vcablkPoolInit vcablkBioCtxPoolSize
  contexts := fun _ => ⟨0, none, [], 0⟩
  splitRequestError := 0
  thread := .idle
  handler := .idle
  requestLastUsed := 0
  nextRequest := .idle
  unanswered := []
  response := .idle
  taken := 0
  building := []
  published := []
  returned := []
  acks := []
  acksTaken := 0
  handled := []
  lost := []
  ended := []
  live := []

/-- The frontend with its backend -/
def diskSystem : System DiskState DiskAct where
  Init s := ∃ requestElems completionElems, s = DiskState.initial requestElems completionElems
  step := diskStep

end Vcass.Vcablk
