import Vcass.BlockIo.Media
import Vcass.BlockIo.Request
import Vcass.Core.System

/-!
# The Backend of a Block Device

`vcablk_bcknd_disk.c` as three parties that take steps in any order:

- the request thread (`vcablk_bcknd_disk_request`), which cuts the parts of a request into
  page-size buffers, reads the media for a read, and starts the copy to or from the card;
- the copy engine, which finishes copies in the order they were started and calls
  `vca_bcknd_callback_dma`, which puts the buffer into the transfer ring;
- the transfer thread (`vca_bcknd_complete_transfer`), which writes the media for a write
  and posts the completion with the last buffer.

The answers of the environment to one request are fixed when it is dequeued, by part and
buffer number, so each party's step is a function.  With `dmaSync` the request thread goes
on only after its copy has been handed to the transfer ring: that is the compiled variant
`BLOCKIO_FORCE_DMA_SYNC`, and the copy by `memcpy` when there is no DMA channel.
-/

namespace Vcass.BlockIo

open Vcass.Core

/-! ## Buffers -/

/-- What `vcablk_bcknd_dma_sync`, or the submission in `vcablk_bcknd_dma_async`, reports. -/
inductive DmaResult where
  | complete
  | inProgress
  | paused
  | error
  /-- no channel: `-EBUSY` -/
  | noChannel
  /-- no descriptor, or the submission failed: `-ENOMEM` -/
  | noDescriptor
deriving DecidableEq

/-- The value returned to `vcablk_bcknd_transfer`; a status of the DMA engine is its number
in `enum dma_status`. -/
def DmaResult.ret : DmaResult → Int
  | .complete => 0
  | .inProgress => 1
  | .paused => 2
  | .error => 3
  | .noChannel => -eBusy
  | .noDescriptor => -eNoMem

/-- The environment's answers while one request is processed, by the number of the part
and of the buffer in it. -/
structure Outcomes where
  ioremap : Nat → Bool
  /-- The return value of `file_read` or `file_write` -/
  file : Nat → Nat → Int
  dma : Nat → Nat → DmaResult
  fsyncBefore : Int
  fsyncAfter : Int
  /-- The bytes that the recycled buffer holds -/
  stale : Nat → Nat → Nat → UInt8

/-- `callback_param_t`; the response cookie -1 is `none`. -/
structure CallbackParam where
  sector : Nat
  nsec : Nat
  remapped : Bool
  responseCookie : Option Nat
  isWrite : Bool
  doFlush : Bool
deriving DecidableEq

/-- One buffer of a request: the callback parameter, the card address that it is copied
from or to, where it belongs, and what the environment will answer for it. -/
structure Chunk where
  request : Nat
  part : Nat
  index : Nat
  param : CallbackParam
  cardAddr : Nat
  file : Int
  dma : DmaResult
  fsync : Int
deriving DecidableEq

/-- `transfer_parameters_t` -/
structure TransferParameters where
  chunk : Chunk
  buffer : Nat → UInt8

def Chunk.bytes (c : Chunk) : Nat := c.param.nsec <<< sectorShift

def Chunk.mediaTransfer (media : VcablkMedia) (c : Chunk) : MediaTransfer :=
  vcablkMediaTransfer media c.param.sector c.param.nsec c.param.isWrite c.file

/-- Sectors that fit into a buffer of `PAGE_SIZE` bytes -/
def bufferSectors : Nat := 8

/-- `VCABLK_TRANSFER_RING_SIZE` -/
def transferRingSize : Nat := 16

/-! ## Threads -/

/-- The locals of `vcablk_bcknd_disk_request` that stay fixed -/
structure Job where
  id : Nat
  cookie : Nat
  write : Bool
  syncAfter : Bool
  outcomes : Outcomes

/-- The cursors of the loop of `vcablk_bcknd_transfer` -/
structure Cursor where
  index : Nat
  sector : Nat
  sectorsNum : Nat
  offsetPtr : Nat

/-- Where the request thread is.  `rest` are the parts behind the current one. -/
inductive RequestThread where
  | idle
  /-- `vcablk_bcknd_disk_request` is called -/
  | request (id : Nat) (requestBuff : List VcablkRequest) (outcomes : Outcomes)
  /-- before the sync of a leading `REQUEST_SYNC` -/
  | syncBefore (job : Job) (size : Nat) (parts : List VcablkRequest)
  /-- at the head of the loop over the parts -/
  | parts (job : Job) (id : Nat) (parts : List VcablkRequest)
  /-- at the head of the loop of `vcablk_bcknd_transfer` -/
  | transfer (job : Job) (id : Nat) (rest : List VcablkRequest) (cur : Cursor)
  /-- a buffer has been popped from the pool -/
  | filling (job : Job) (id : Nat) (rest : List VcablkRequest) (cur : Cursor)
  /-- before `vcablk_bcknd_transfer_device` -/
  | device (job : Job) (id : Nat) (rest : List VcablkRequest) (cur : Cursor)
      (params : TransferParameters)
  /-- at the label `send_response` -/
  | sendResponse (id cookie : Nat) (err : Int)

/-- Where the transfer thread is with the first element of the ring. -/
inductive TransferThread where
  | waiting
  /-- the media has been written, or needs no writing -/
  | written (err : Int)
  /-- before `vcablk_bcknd_disk_send_response` -/
  | respond (err : Int)
  /-- before the buffer is pushed back to the pool -/
  | release
  /-- before `last_used` is advanced -/
  | advance

/-- What the backend did to the card, to the media and to the completion ring. -/
inductive Event where
  | dequeued (id : Nat) (requestBuff : List VcablkRequest) (outcomes : Outcomes)
  /-- the card changed its own memory -/
  | cardStore (cardBytes : Nat → UInt8)
  | ioremap (id part : Nat)
  | iounmap (id part : Nat)
  | mediaRead (params : TransferParameters) (done : MediaTransfer)
  | mediaWrite (params : TransferParameters) (done : MediaTransfer)
  | fromCard (params : TransferParameters)
  | toCard (params : TransferParameters)
  /-- a sync of the media, before or after the data of the request -/
  | mediaSync (id : Nat) (trailing : Bool) (err : Int)
  | completion (id : Nat) (ack : VcablkCompletion)

/-! ## State -/

/-- What does not change while the disk is open -/
structure BckndConfig where
  media : VcablkMedia
  dmaSync : Bool

/-- `struct vcablk_bcknd_disk` with the bytes of media and card.  `requests` (how many were
dequeued), `done` and `trace` are history. -/
structure BckndState where
  mediaBytes : Nat → UInt8
  cardBytes : Nat → UInt8
  /-- Buffers that can be popped from `transfer_buffer_pool` -/
  poolFree : Nat
  requestThread : RequestThread
  /-- Copies that are not finished, oldest first -/
  dma : List TransferParameters
  /-- The transfer ring between `last_used` and `last_add` -/
  transferRing : List TransferParameters
  transferThread : TransferThread
  requests : Nat
  done : List TransferParameters
  trace : List Event

def BckndState.emit (s : BckndState) (e : Event) : BckndState :=
  { s with trace := s.trace ++ [e] }

section

variable (s : BckndState) (e : Event)

@[simp] theorem emit_mediaBytes : (s.emit e).mediaBytes = s.mediaBytes := rfl
@[simp] theorem emit_cardBytes : (s.emit e).cardBytes = s.cardBytes := rfl
@[simp] theorem emit_poolFree : (s.emit e).poolFree = s.poolFree := rfl
@[simp] theorem emit_requestThread : (s.emit e).requestThread = s.requestThread := rfl
@[simp] theorem emit_dma : (s.emit e).dma = s.dma := rfl
@[simp] theorem emit_transferRing : (s.emit e).transferRing = s.transferRing := rfl
@[simp] theorem emit_transferThread : (s.emit e).transferThread = s.transferThread := rfl
@[simp] theorem emit_done : (s.emit e).done = s.done := rfl
@[simp] theorem emit_trace : (s.emit e).trace = s.trace ++ [e] := rfl

end

/-! ## The request thread -/

/-- The buffer that the loop of `vcablk_bcknd_transfer` cuts off next. -/
def nextChunk (job : Job) (id : Nat) (last : Bool) (cur : Cursor) : Chunk :=
  let nsec := min cur.sectorsNum bufferSectors
  let lastBuffer := decide (cur.sectorsNum - nsec = 0)
  { request := job.id
    part := id
    index := cur.index
    param :=
      { sector := cur.sector
        nsec := nsec
        remapped := lastBuffer
        responseCookie := if lastBuffer && last then some job.cookie else none
        isWrite := job.write
        doFlush := lastBuffer && last && job.syncAfter }
    cardAddr := cur.offsetPtr
    file := job.outcomes.file id cur.index
    dma := job.outcomes.dma id cur.index
    fsync := job.outcomes.fsyncAfter }

/-- The cursors behind that buffer -/
def Cursor.advance (cur : Cursor) : Cursor :=
  let nsec := min cur.sectorsNum bufferSectors
  { index := cur.index + 1
    sector := (cur.sector + nsec) % 2 ^ 64
    sectorsNum := cur.sectorsNum - nsec
    offsetPtr := cur.offsetPtr + nsec <<< sectorShift }

/-- The cursors at the first buffer of a part -/
def Cursor.start (request : VcablkRequest) : Cursor :=
  { index := 0, sector := request.sector, sectorsNum := request.sectorsNum,
    offsetPtr := request.physBuff }

/-- The start of `vcablk_bcknd_disk_request` -/
def beginRequest (id : Nat) (requestBuff : List VcablkRequest) (outcomes : Outcomes) :
    RequestThread :=
  let (err, info) := vcablkBckndDiskRequestGetInfo requestBuff
  if err ≠ 0 then
    .sendResponse id info.cookie err
  else
    let job : Job :=
      { id := id, cookie := info.cookie, write := decide (info.type = requestWrite),
        syncAfter := info.syncAfter, outcomes := outcomes }
    if info.syncBefore then .syncBefore job requestBuff.length (dataParts info requestBuff)
    else .parts job 0 (dataParts info requestBuff)

/-- A step of the request thread; it waits for a free buffer in
`vcablk_bcknd_get_transfer_param`. -/
def requestThreadStep (cfg : BckndConfig) (s : BckndState) : Option BckndState :=
  match s.requestThread with
  | .idle => none
  | .request id requestBuff outcomes =>
    some { s with requestThread := beginRequest id requestBuff outcomes }
  | .syncBefore job size parts =>
    let err := vcablkMediaSync cfg.media job.outcomes.fsyncBefore
    let s := s.emit (.mediaSync job.id false err)
    if err ≠ 0 ∨ size = 1 then
      some { s with requestThread := .sendResponse job.id job.cookie err }
    else
      some { s with requestThread := .parts job 0 parts }
  | .parts _ _ [] => some { s with requestThread := .idle }
  | .parts job id (request :: rest) =>
    if job.outcomes.ioremap id then
      some { s.emit (.ioremap job.id id) with
        requestThread := .transfer job id rest (Cursor.start request) }
    else
      some { s with requestThread := .sendResponse job.id job.cookie (-eIo) }
  | .transfer job id rest cur =>
    if cur.sectorsNum = 0 then
      some { s with requestThread := .parts job (id + 1) rest }
    else if s.poolFree = 0 then
      none
    else
      some { s with
        poolFree := s.poolFree - 1
        requestThread := .filling job id rest cur }
  | .filling job id rest cur =>
    let chunk := nextChunk job id rest.isEmpty cur
    let stale := job.outcomes.stale id cur.index
    if job.write then
      some { s with requestThread := .device job id rest cur ⟨chunk, stale⟩ }
    else
      let done := chunk.mediaTransfer cfg.media
      if done.ret ≠ 0 then
        -- the popped buffer is not given back
        some { s.emit (.iounmap job.id id) with
          requestThread := .sendResponse job.id job.cookie done.ret }
      else
        let params : TransferParameters :=
          ⟨chunk, copyBytes stale 0 done.moved fun k => s.mediaBytes (done.offset + k)⟩
        some { s.emit (.mediaRead params done) with
          requestThread := .device job id rest cur params }
  | .device job id rest cur params =>
    if params.chunk.dma.ret ≠ 0 then
      some { s.emit (.iounmap job.id id) with
        requestThread := .sendResponse job.id job.cookie params.chunk.dma.ret }
    else
      some { s with
        dma := s.dma ++ [params]
        requestThread := .transfer job id rest cur.advance }
  | .sendResponse id cookie err =>
    some { s.emit (.completion id ⟨cookie, toS8 err⟩) with requestThread := .idle }

/-! ## The copy engine -/

/-- `vca_bcknd_callback_dma` -/
def vcaBckndCallbackDma (s : BckndState) (params : TransferParameters) : BckndState :=
  let s := if params.chunk.param.remapped then
      s.emit (.iounmap params.chunk.request params.chunk.part)
    else s
  if s.transferRing.length = transferRingSize then
    s
  else
    { s with transferRing := s.transferRing ++ [params] }

/-- The oldest copy is finished. -/
def dmaStep (s : BckndState) : Option BckndState :=
  match s.dma with
  | [] => none
  | params :: rest =>
    let chunk := params.chunk
    if chunk.param.isWrite then
      let params' : TransferParameters :=
        ⟨chunk, copyBytes params.buffer 0 chunk.bytes fun k => s.cardBytes (chunk.cardAddr + k)⟩
      some (vcaBckndCallbackDma ({ s with dma := rest }.emit (.fromCard params')) params')
    else
      some (vcaBckndCallbackDma
        ({ s with
            dma := rest
            cardBytes := copyBytes s.cardBytes chunk.cardAddr chunk.bytes params.buffer }.emit
          (.toCard params)) params)

/-! ## The transfer thread -/

/-- A step of `vcablk_bcknd_disk_make_transfer_thread`, with
`vca_bcknd_complete_transfer` inlined. -/
def transferThreadStep (cfg : BckndConfig) (s : BckndState) : Option BckndState :=
  match s.transferRing with
  | [] => none
  | params :: rest =>
    let data := params.chunk.param
    match s.transferThread with
    | .waiting =>
      if data.isWrite then
        let done := params.chunk.mediaTransfer cfg.media
        some { s.emit (.mediaWrite params done) with
          mediaBytes := copyBytes s.mediaBytes done.offset done.moved params.buffer
          transferThread := .written done.ret }
      else
        some { s with transferThread := .written 0 }
    | .written err =>
      if data.responseCookie = none then
        some { s with transferThread := .release }
      else if err = 0 ∧ data.doFlush then
        let err := vcablkMediaSync cfg.media params.chunk.fsync
        some { s.emit (.mediaSync params.chunk.request true err) with transferThread := .respond err }
      else
        some { s with transferThread := .respond err }
    | .respond err =>
      some { s.emit (.completion params.chunk.request
          ⟨data.responseCookie.getD 0, toS8 err⟩) with
        transferThread := .release }
    | .release =>
      some { s with
        poolFree := s.poolFree + 1
        transferThread := .advance }
    | .advance =>
      some { s with
        transferRing := rest
        done := s.done ++ [params]
        transferThread := .waiting }

/-! ## What a step does -/

inductive RequestStep (cfg : BckndConfig) (s : BckndState) : BckndState → Prop where
  | begin {id : Nat} {requestBuff : List VcablkRequest} {outcomes : Outcomes}
      (at_request : s.requestThread = .request id requestBuff outcomes) :
      RequestStep cfg s { s with requestThread := beginRequest id requestBuff outcomes }
  | syncFailed {job : Job} {size : Nat} {todo : List VcablkRequest}
      (at_sync : s.requestThread = .syncBefore job size todo)
      (stop : vcablkMediaSync cfg.media job.outcomes.fsyncBefore ≠ 0 ∨ size = 1) :
      RequestStep cfg s
        { s.emit (.mediaSync job.id false (vcablkMediaSync cfg.media job.outcomes.fsyncBefore)) with
          requestThread := .sendResponse job.id job.cookie
            (vcablkMediaSync cfg.media job.outcomes.fsyncBefore) }
  | synced {job : Job} {size : Nat} {todo : List VcablkRequest}
      (at_sync : s.requestThread = .syncBefore job size todo)
      (ok : vcablkMediaSync cfg.media job.outcomes.fsyncBefore = 0) (more : size ≠ 1) :
      RequestStep cfg s
        { s.emit (.mediaSync job.id false (vcablkMediaSync cfg.media job.outcomes.fsyncBefore)) with
          requestThread := .parts job 0 todo }
  | finish {job : Job} {id : Nat} (at_parts : s.requestThread = .parts job id []) :
      RequestStep cfg s { s with requestThread := .idle }
  | mapped {job : Job} {id : Nat} {request : VcablkRequest} {rest : List VcablkRequest}
      (at_parts : s.requestThread = .parts job id (request :: rest))
      (ok : job.outcomes.ioremap id = true) :
      RequestStep cfg s
        { s.emit (.ioremap job.id id) with
          requestThread := .transfer job id rest (Cursor.start request) }
  | mapFailed {job : Job} {id : Nat} {request : VcablkRequest} {rest : List VcablkRequest}
      (at_parts : s.requestThread = .parts job id (request :: rest))
      (failed : job.outcomes.ioremap id = false) :
      RequestStep cfg s { s with requestThread := .sendResponse job.id job.cookie (-eIo) }
  | partDone {job : Job} {id : Nat} {rest : List VcablkRequest} {cur : Cursor}
      (at_transfer : s.requestThread = .transfer job id rest cur)
      (empty : cur.sectorsNum = 0) :
      RequestStep cfg s { s with requestThread := .parts job (id + 1) rest }
  | pop {job : Job} {id : Nat} {rest : List VcablkRequest} {cur : Cursor}
      (at_transfer : s.requestThread = .transfer job id rest cur)
      (more : cur.sectorsNum ≠ 0) (free : s.poolFree ≠ 0) :
      RequestStep cfg s
        { s with
          poolFree := s.poolFree - 1
          requestThread := .filling job id rest cur }
  | fillWrite {job : Job} {id : Nat} {rest : List VcablkRequest} {cur : Cursor}
      (at_filling : s.requestThread = .filling job id rest cur) (write : job.write = true) :
      RequestStep cfg s
        { s with
          requestThread := .device job id rest cur
            ⟨nextChunk job id rest.isEmpty cur, job.outcomes.stale id cur.index⟩ }
  | readFailed {job : Job} {id : Nat} {rest : List VcablkRequest} {cur : Cursor} {done : MediaTransfer}
      (at_filling : s.requestThread = .filling job id rest cur) (read : job.write = false)
      (done_eq : done = (nextChunk job id rest.isEmpty cur).mediaTransfer cfg.media)
      (failed : done.ret ≠ 0) :
      RequestStep cfg s
        { s.emit (.iounmap job.id id) with
          requestThread := .sendResponse job.id job.cookie done.ret }
  | fillRead {job : Job} {id : Nat} {rest : List VcablkRequest} {cur : Cursor} {done : MediaTransfer}
      {params : TransferParameters}
      (at_filling : s.requestThread = .filling job id rest cur) (read : job.write = false)
      (done_eq : done = (nextChunk job id rest.isEmpty cur).mediaTransfer cfg.media)
      (ok : done.ret = 0)
      (params_eq : params = ⟨nextChunk job id rest.isEmpty cur,
        copyBytes (job.outcomes.stale id cur.index) 0 done.moved
          fun k => s.mediaBytes (done.offset + k)⟩) :
      RequestStep cfg s
        { s.emit (.mediaRead params done) with requestThread := .device job id rest cur params }
  | submitFailed {job : Job} {id : Nat} {rest : List VcablkRequest} {cur : Cursor}
      {params : TransferParameters}
      (at_device : s.requestThread = .device job id rest cur params)
      (failed : params.chunk.dma.ret ≠ 0) :
      RequestStep cfg s
        { s.emit (.iounmap job.id id) with
          requestThread := .sendResponse job.id job.cookie params.chunk.dma.ret }
  | submit {job : Job} {id : Nat} {rest : List VcablkRequest} {cur : Cursor}
      {params : TransferParameters}
      (at_device : s.requestThread = .device job id rest cur params)
      (ok : params.chunk.dma.ret = 0) :
      RequestStep cfg s
        { s with
          dma := s.dma ++ [params]
          requestThread := .transfer job id rest cur.advance }
  | respond {id cookie : Nat} {err : Int}
      (at_response : s.requestThread = .sendResponse id cookie err) :
      RequestStep cfg s
        { s.emit (.completion id ⟨cookie, toS8 err⟩) with requestThread := .idle }

variable {s s' : BckndState} {cfg : BckndConfig}

theorem requestThreadStep_cases (h : requestThreadStep cfg s = some s') : RequestStep cfg s s' := by
  unfold requestThreadStep at h
  cases hreq : s.requestThread with
  | idle => simp [hreq] at h
  | request id requestBuff outcomes =>
    simp only [hreq, Option.some.injEq] at h
    exact h ▸ .begin hreq
  | syncBefore job size todo =>
    simp only [hreq] at h
    -- a failed sync, or nothing to do behind it
    split at h <;> rename_i hstop
    · cases h
      exact .syncFailed hreq hstop
    · simp only [not_or, not_not] at hstop
      cases h
      exact .synced hreq hstop.1 hstop.2
  | parts job id todo =>
    cases todo with
    | nil =>
      simp only [hreq, Option.some.injEq] at h
      exact h ▸ .finish hreq
    | cons request rest =>
      simp only [hreq] at h
      split at h <;> rename_i hmap
      · cases h
        exact .mapped hreq hmap
      · cases h
        exact .mapFailed hreq (Bool.not_eq_true _ ▸ hmap)
  | transfer job id rest cur =>
    simp only [hreq] at h
    split at h <;> rename_i hnum
    · cases h
      exact .partDone hreq hnum
    · split at h <;> rename_i hpool
      · cases h
      · cases h
        exact .pop hreq hnum hpool
  | filling job id rest cur =>
    simp only [hreq] at h
    split at h <;> rename_i hwrite
    · cases h
      exact .fillWrite hreq hwrite
    · have hread : job.write = false := Bool.not_eq_true _ ▸ hwrite
      split at h <;> rename_i hret
      · cases h
        exact .readFailed hreq hread rfl hret
      · cases h
        exact .fillRead hreq hread rfl (not_not.mp hret) rfl
  | device job id rest cur params =>
    simp only [hreq] at h
    split at h <;> rename_i hret
    · cases h
      exact .submitFailed hreq hret
    · cases h
      exact .submit hreq (not_not.mp hret)
  | sendResponse id cookie err =>
    simp only [hreq, Option.some.injEq] at h
    exact h ▸ .respond hreq

/-- The transitions of the transfer thread with the first ring element -/
inductive TransferStep (cfg : BckndConfig) (s : BckndState) : BckndState → Prop where
  | write {p : TransferParameters} {rest : List TransferParameters} {done : MediaTransfer}
      (ring : s.transferRing = p :: rest) (phase : s.transferThread = .waiting)
      (isWrite : p.chunk.param.isWrite = true)
      (done_eq : done = p.chunk.mediaTransfer cfg.media) :
      TransferStep cfg s
        { s.emit (.mediaWrite p done) with
          mediaBytes := copyBytes s.mediaBytes done.offset done.moved p.buffer
          transferThread := .written done.ret }
  | skip {p : TransferParameters} {rest : List TransferParameters}
      (ring : s.transferRing = p :: rest) (phase : s.transferThread = .waiting)
      (isRead : p.chunk.param.isWrite = false) :
      TransferStep cfg s { s with transferThread := .written 0 }
  | silent {p : TransferParameters} {rest : List TransferParameters} {err : Int}
      (ring : s.transferRing = p :: rest) (phase : s.transferThread = .written err)
      (cookie : p.chunk.param.responseCookie = none) :
      TransferStep cfg s { s with transferThread := .release }
  | flush {p : TransferParameters} {rest : List TransferParameters} {err : Int}
      (ring : s.transferRing = p :: rest) (phase : s.transferThread = .written err)
      (cookie : p.chunk.param.responseCookie ≠ none) (doFlush : err = 0 ∧ p.chunk.param.doFlush) :
      TransferStep cfg s
        { s.emit (.mediaSync p.chunk.request true (vcablkMediaSync cfg.media p.chunk.fsync)) with
          transferThread := .respond (vcablkMediaSync cfg.media p.chunk.fsync) }
  | noFlush {p : TransferParameters} {rest : List TransferParameters} {err : Int}
      (ring : s.transferRing = p :: rest) (phase : s.transferThread = .written err)
      (cookie : p.chunk.param.responseCookie ≠ none)
      (noFlush : ¬ (err = 0 ∧ p.chunk.param.doFlush)) :
      TransferStep cfg s { s with transferThread := .respond err }
  | respond {p : TransferParameters} {rest : List TransferParameters} {err : Int}
      (ring : s.transferRing = p :: rest) (phase : s.transferThread = .respond err) :
      TransferStep cfg s
        { s.emit (.completion p.chunk.request
            ⟨p.chunk.param.responseCookie.getD 0, toS8 err⟩) with
          transferThread := .release }
  | release {p : TransferParameters} {rest : List TransferParameters}
      (ring : s.transferRing = p :: rest) (phase : s.transferThread = .release) :
      TransferStep cfg s
        { s with
          poolFree := s.poolFree + 1
          transferThread := .advance }
  | advance {p : TransferParameters} {rest : List TransferParameters}
      (ring : s.transferRing = p :: rest) (phase : s.transferThread = .advance) :
      TransferStep cfg s
        { s with
          transferRing := rest
          done := s.done ++ [p]
          transferThread := .waiting }

theorem transferThreadStep_cases
    (h : transferThreadStep cfg s = some s') : TransferStep cfg s s' := by
  unfold transferThreadStep at h
  -- the thread waits while the ring is empty
  split at h <;> rename_i hring
  · cases h
  · dsimp only at h
    split at h <;> rename_i hphase
    · split at h <;> rename_i hwrite
      · cases h
        exact .write hring hphase hwrite rfl
      · cases h
        exact .skip hring hphase (Bool.not_eq_true _ ▸ hwrite)
    · split at h <;> rename_i hcookie
      · cases h
        exact .silent hring hphase hcookie
      · split at h <;> rename_i hflush
        · cases h
          exact .flush hring hphase hcookie hflush
        · cases h
          exact .noFlush hring hphase hcookie hflush
    · cases h
      exact .respond hring hphase
    · cases h
      exact .release hring hphase
    · cases h
      exact .advance hring hphase

/-- What finishing the oldest copy does when the ring has room: the copy itself, with the
buffer as it is afterwards, and the entry into the ring. -/
inductive DmaStep (s : BckndState) : BckndState → Prop where
  | fromCard {p p' : TransferParameters} {rest : List TransferParameters} {s' : BckndState}
      (dma : s.dma = p :: rest) (isWrite : p.chunk.param.isWrite = true)
      (copied : p' = ⟨p.chunk, copyBytes p.buffer 0 p.chunk.bytes
        fun k => s.cardBytes (p.chunk.cardAddr + k)⟩)
      (unmap : s' = { s with dma := rest }.emit (.fromCard p') ∨
        s' = ({ s with dma := rest }.emit (.fromCard p')).emit
          (.iounmap p.chunk.request p.chunk.part)) :
      DmaStep s { s' with transferRing := s.transferRing ++ [p'] }
  | toCard {p : TransferParameters} {rest : List TransferParameters} {s' : BckndState}
      (dma : s.dma = p :: rest) (isRead : p.chunk.param.isWrite = false)
      (unmap : s' = { s with
            dma := rest
            cardBytes := copyBytes s.cardBytes p.chunk.cardAddr p.chunk.bytes p.buffer }.emit
          (.toCard p) ∨
        s' = ({ s with
            dma := rest
            cardBytes := copyBytes s.cardBytes p.chunk.cardAddr p.chunk.bytes p.buffer }.emit
          (.toCard p)).emit (.iounmap p.chunk.request p.chunk.part)) :
      DmaStep s { s' with transferRing := s.transferRing ++ [p] }

theorem dmaStep_cases (hroom : s.transferRing.length ≠ transferRingSize)
    (h : dmaStep s = some s') : DmaStep s s' := by
  unfold dmaStep at h
  split at h <;> rename_i hdma
  · cases h
  · dsimp only at h
    split at h <;> rename_i hwrite
    · simp only [vcaBckndCallbackDma, Option.some.injEq] at h
      split at h
      · -- with room in the ring the callback never fails
        rw [if_neg (by exact hroom)] at h
        exact h ▸ .fromCard hdma hwrite rfl (Or.inr rfl)
      · rw [if_neg (by exact hroom)] at h
        exact h ▸ .fromCard hdma hwrite rfl (Or.inl rfl)
    · simp only [vcaBckndCallbackDma, Option.some.injEq] at h
      have hread := Bool.not_eq_true _ ▸ hwrite
      split at h
      · rw [if_neg (by exact hroom)] at h
        exact h ▸ .toCard hdma hread (Or.inr rfl)
      · rw [if_neg (by exact hroom)] at h
        exact h ▸ .toCard hdma hread (Or.inl rfl)

/-! ## The system -/

inductive BckndThread where
  | requestThread
  | dma
  | transferThread

def bckndThreadStep (cfg : BckndConfig) (s : BckndState) : BckndThread → Option BckndState
  | .requestThread => if cfg.dmaSync ∧ s.dma ≠ [] then none else requestThreadStep cfg s
  | .dma => dmaStep s
  | .transferThread => transferThreadStep cfg s

inductive BckndThread.Step (cfg : BckndConfig) (s s' : BckndState) : BckndThread → Prop where
  | requestThread (h : RequestStep cfg s s') : Step cfg s s' .requestThread
  | dma (busy : s.dma ≠ []) (h : dmaStep s = some s') : Step cfg s s' .dma
  | transferThread (h : TransferStep cfg s s') : Step cfg s s' .transferThread

theorem bckndThreadStep_cases {t : BckndThread}
    (h : bckndThreadStep cfg s t = some s') : t.Step cfg s s' := by
  cases t with simp only [bckndThreadStep] at h
  | requestThread =>
    split at h
    · cases h
    · exact .requestThread (requestThreadStep_cases h)
  | dma =>
    refine .dma (fun hnil => ?_) h
    simp [dmaStep, hnil] at h
  | transferThread => exact .transferThread (transferThreadStep_cases h)

/-- A disk with `avail` free buffers, at the start of `vcablk_bcknd_disk_request`. -/
def BckndState.called (avail : Nat) (mediaBytes cardBytes : Nat → UInt8)
    (requestBuff : List VcablkRequest) (outcomes : Outcomes) : BckndState :=
  { mediaBytes := mediaBytes
    cardBytes := cardBytes
    poolFree := avail
    requestThread := .request 0 requestBuff outcomes
    dma := []
    transferRing := []
    transferThread := .waiting
    requests := 1
    done := []
    trace := [.dequeued 0 requestBuff outcomes] }

/-- The completions that have been posted, oldest first. -/
def BckndState.completions (s : BckndState) : List VcablkCompletion :=
  s.trace.filterMap fun
    | .completion _ ack => some ack
    | _ => none

/-- No party can take a step. -/
def BckndState.Quiescent (cfg : BckndConfig) (s : BckndState) : Prop :=
  ∀ t, bckndThreadStep cfg s t = none

end Vcass.BlockIo
