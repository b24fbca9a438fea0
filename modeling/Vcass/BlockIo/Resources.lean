import Mathlib.Algebra.Order.Group.Multiset
import Vcass.BlockIo.Pipeline

/-!
# Buffers and Mappings of the Backend

`vcablk_bcknd_transfer` maps a part of a request and takes one transfer buffer for each piece of
it.  Both are given away with the work: a buffer to the transfer thread, the mapping to the
callback of the last buffer.

The ledger of a run says where they are.  The mappings always balance.  A buffer that is in the
hands of the request thread when the media read or the submission fails is given back by nobody:
`resources_balanced_iff`.
-/

namespace Vcass.BlockIo

open Vcass.Core Multiset BckndState List

/-! ## The ledger -/

/-- One use of a transfer buffer: request, part and number of the piece -/
abbrev BufferUse := Nat × Nat × Nat

def Chunk.use (c : Chunk) : BufferUse := (c.request, c.part, c.index)

inductive BufferEvent where
  /-- `vcablk_bcknd_get_transfer_param` -/
  | pop (use : BufferUse)
  /-- `vcablk_pool_push` in `vca_bcknd_complete_transfer` -/
  | push (use : BufferUse)
  /-- the loop of `vcablk_bcknd_transfer` is left with the buffer -/
  | lost (use : BufferUse)

/-- The request thread holds a buffer and its next operation, the media read or the submission of
the copy, fails. -/
def FailsWithBuffer (cfg : BckndConfig) (s : BckndState) (a : BckndAct) : Prop :=
  match a with
  | .thread .requestThread =>
    match s.requestThread with
    | .filling job id rest cur =>
      job.write = false ∧ ((nextChunk job id rest.isEmpty cur).mediaTransfer cfg.media).ret ≠ 0
    | .device _ _ _ _ params => params.chunk.dma.ret ≠ 0
    | _ => False
  | _ => False

instance (cfg : BckndConfig) (s : BckndState) (a : BckndAct) :
    Decidable (FailsWithBuffer cfg s a) := by
  unfold FailsWithBuffer
  split
  · split <;> infer_instance
  · infer_instance

def RequestThread.uses : RequestThread → List BufferUse
  | .filling job id _ cur | .device job id _ cur _ => [(job.id, id, cur.index)]
  | .idle | .request .. | .syncBefore .. | .parts .. | .transfer .. | .sendResponse .. => []

def bufferEvents (cfg : BckndConfig) (s : BckndState) (a : BckndAct) : List BufferEvent :=
  if FailsWithBuffer cfg s a then
    s.requestThread.uses.map .lost
  else
    match a with
    | .thread .requestThread =>
      match s.requestThread with
      | .transfer job id _ cur => if cur.sectorsNum = 0 then [] else [.pop (job.id, id, cur.index)]
      | _ => []
    | .thread .transferThread =>
      match s.transferThread, s.transferRing with
      | .release, params :: _ => [.push params.chunk.use]
      | _, _ => []
    | _ => []

section

variable (log : List BufferEvent)

def poppedBuffers : Multiset BufferUse :=
  (log.filterMap fun | .pop use => some use | _ => none : List BufferUse)

def pushedBuffers : Multiset BufferUse :=
  (log.filterMap fun | .push use => some use | _ => none : List BufferUse)

def lostBuffers : Multiset BufferUse :=
  (log.filterMap fun | .lost use => some use | _ => none : List BufferUse)

end

def mappedParts (trace : List Event) : Multiset (Nat × Nat) :=
  (trace.filterMap fun | .ioremap id part => some (id, part) | _ => none : List (Nat × Nat))

def unmappedParts (trace : List Event) : Multiset (Nat × Nat) :=
  (trace.filterMap fun | .iounmap id part => some (id, part) | _ => none : List (Nat × Nat))

/-! ## Where buffers and mappings are -/

/-- The mapping that the request thread has to unmap or to hand over -/
def RequestThread.maps : RequestThread → List (Nat × Nat)
  | .transfer job id _ cur => if cur.sectorsNum = 0 then [] else [(job.id, id)]
  | .filling job id _ _ | .device job id _ _ _ => [(job.id, id)]
  | .idle | .request .. | .syncBefore .. | .parts .. | .sendResponse .. => []

def Chunk.maps (c : Chunk) : List (Nat × Nat) :=
  if c.param.remapped then [(c.request, c.part)] else []

namespace BckndState

variable (s : BckndState)

/-- The elements of the ring whose buffers are not yet back in the pool -/
def unreleased : List TransferParameters :=
  match s.transferThread with
  | .advance => s.transferRing.tail
  | .waiting | .written _ | .respond _ | .release => s.transferRing

/-- The buffers outside the pool that somebody will give back -/
def uses : Multiset BufferUse :=
  (s.requestThread.uses : Multiset BufferUse) + (s.dma.map (·.chunk.use) : List BufferUse) +
    (s.unreleased.map (·.chunk.use) : List BufferUse)

/-- The mappings that somebody will unmap -/
def maps : Multiset (Nat × Nat) :=
  (s.requestThread.maps : Multiset (Nat × Nat)) +
    (s.dma.flatMap (·.chunk.maps) : List (Nat × Nat))

/-- `vcablk_bcknd_disk_request` has returned and all submitted transfers are drained. -/
def Drained : Prop := s.requestThread = .idle ∧ s.dma = [] ∧ s.transferRing = []

end BckndState

/-- What the request thread will still transfer has sectors. -/
def RequestThread.Positive : RequestThread → Prop
  | .idle | .sendResponse .. => True
  | .request _ requestBuff _ => ∀ r ∈ dataOf requestBuff, 0 < r.sectorsNum
  | .syncBefore _ _ todo | .parts _ _ todo | .transfer _ _ todo _ => ∀ r ∈ todo, 0 < r.sectorsNum
  | .filling _ _ todo cur => (∀ r ∈ todo, 0 < r.sectorsNum) ∧ cur.sectorsNum ≠ 0
  | .device job id todo cur params =>
    (∀ r ∈ todo, 0 < r.sectorsNum) ∧ cur.sectorsNum ≠ 0 ∧
      params.chunk = nextChunk job id todo.isEmpty cur

/-- **The ledger of a run agrees with the state.** -/
structure Balance (avail : Nat) (s : BckndState) (log : List BufferEvent) : Prop where
  buffers : poppedBuffers log = pushedBuffers log + lostBuffers log + s.uses
  pool : s.poolFree + s.uses.card + (lostBuffers log).card = avail
  maps : mappedParts s.trace = unmappedParts s.trace + s.maps
  positive : s.requestThread.Positive
  thread : s.transferThread = .waiting ∨ s.transferRing ≠ []

section

variable (log log' : List BufferEvent) (trace es : List Event)

private theorem coe_filterMap_append {α β : Type*} (f : α → Option β) (l l' : List α) :
    (((l ++ l').filterMap f : List β) : Multiset β) =
      (l.filterMap f : List β) + (l'.filterMap f : List β) := by
  rw [filterMap_append, coe_add]

theorem poppedBuffers_append :
    poppedBuffers (log ++ log') = poppedBuffers log + poppedBuffers log' :=
  coe_filterMap_append _ _ _

theorem pushedBuffers_append :
    pushedBuffers (log ++ log') = pushedBuffers log + pushedBuffers log' :=
  coe_filterMap_append _ _ _

theorem lostBuffers_append : lostBuffers (log ++ log') = lostBuffers log + lostBuffers log' :=
  coe_filterMap_append _ _ _

theorem mappedParts_append : mappedParts (trace ++ es) = mappedParts trace + mappedParts es :=
  coe_filterMap_append _ _ _

theorem unmappedParts_append :
    unmappedParts (trace ++ es) = unmappedParts trace + unmappedParts es :=
  coe_filterMap_append _ _ _

end

/-- What one step does to buffers and mappings, with the events `evs` -/
structure StepBalance (s s' : BckndState) (evs : List BufferEvent) : Prop where
  buffers : poppedBuffers evs + s.uses = pushedBuffers evs + lostBuffers evs + s'.uses
  pool : s'.poolFree + s'.uses.card + (lostBuffers evs).card = s.poolFree + s.uses.card
  maps : ∃ es, s'.trace = s.trace ++ es ∧ mappedParts es + s.maps = unmappedParts es + s'.maps

open StepBalance

variable {s s' : BckndState}

theorem Balance.step {avail : Nat} {log evs : List BufferEvent}
    (b : Balance avail s log) (h : StepBalance s s' evs) (positive : s'.requestThread.Positive)
    (thread : s'.transferThread = .waiting ∨ s'.transferRing ≠ []) :
    Balance avail s' (log ++ evs) where
  buffers := by
    rw [poppedBuffers_append, pushedBuffers_append, lostBuffers_append, b.buffers]
    -- what the step pops joins what is in use
    calc pushedBuffers log + lostBuffers log + s.uses + poppedBuffers evs
        = pushedBuffers log + lostBuffers log + (poppedBuffers evs + s.uses) := by ac_rfl
      _ = pushedBuffers log + lostBuffers log +
            (pushedBuffers evs + lostBuffers evs + s'.uses) := by rw [h.buffers]
      _ = _ := by ac_rfl
  pool := by
    have hpool := h.pool
    have hbalance := b.pool
    rw [lostBuffers_append, card_add]
    omega
  maps := by
    obtain ⟨es, htrace, hmaps⟩ := h.maps
    rw [htrace, mappedParts_append, unmappedParts_append, b.maps]
    calc unmappedParts s.trace + s.maps + mappedParts es
        = unmappedParts s.trace + (mappedParts es + s.maps) := by ac_rfl
      _ = unmappedParts s.trace + (unmappedParts es + s'.maps) := by rw [hmaps]
      _ = _ := by ac_rfl
  positive := positive
  thread := thread

variable {es : List Event}

theorem StepBalance.still (huses : s'.uses = s.uses)
    (hpool : s'.poolFree = s.poolFree) (htrace : s'.trace = s.trace ++ es)
    (hmaps : mappedParts es + s.maps = unmappedParts es + s'.maps) : StepBalance s s' [] where
  buffers := by
    rw [huses]
    rfl
  pool := by
    rw [huses, hpool]
    rfl
  maps := ⟨es, htrace, hmaps⟩

/-! ## The request thread -/

theorem StepBalance.ofRequest {evs : List BufferEvent}
    (hdma : s'.dma = s.dma) (hring : s'.transferRing = s.transferRing)
    (hthread : s'.transferThread = s.transferThread) (htrace : s'.trace = s.trace ++ es)
    (buffers : poppedBuffers evs + (s.requestThread.uses : Multiset BufferUse) =
      pushedBuffers evs + lostBuffers evs + (s'.requestThread.uses : Multiset BufferUse))
    (pool : s'.poolFree + s'.requestThread.uses.length + (lostBuffers evs).card =
      s.poolFree + s.requestThread.uses.length)
    (maps : mappedParts es + (s.requestThread.maps : Multiset (Nat × Nat)) =
      unmappedParts es + (s'.requestThread.maps : Multiset (Nat × Nat))) :
    StepBalance s s' evs := by
  -- the elements of the ring are those that the transfer thread will release
  have hunreleased : s'.unreleased = s.unreleased := by
    unfold unreleased
    rw [hring, hthread]
  refine ⟨?_, ?_, es, htrace, ?_⟩
  · unfold uses
    rw [hdma, hunreleased, ← add_assoc, ← add_assoc, buffers]
    ac_rfl
  · unfold uses
    rw [hdma, hunreleased]
    simp only [card_add, coe_card]
    omega
  · unfold BckndState.maps
    rw [hdma, ← add_assoc, maps, add_assoc]

theorem StepBalance.quiet (hdma : s'.dma = s.dma)
    (hring : s'.transferRing = s.transferRing) (hthread : s'.transferThread = s.transferThread)
    (htrace : s'.trace = s.trace ++ es) (hes : mappedParts es = unmappedParts es)
    (hpool : s'.poolFree = s.poolFree) (huses : s'.requestThread.uses = s.requestThread.uses)
    (hmaps : s'.requestThread.maps = s.requestThread.maps) : StepBalance s s' [] := by
  apply ofRequest hdma hring hthread htrace
  · rw [huses]
    rfl
  · rw [hpool, huses]
    rfl
  · rw [hes, hmaps]

theorem beginRequest_uses (id : Nat) (buff : List VcablkRequest) (o : Outcomes) :
    (beginRequest id buff o).uses = [] ∧ (beginRequest id buff o).maps = [] := by
  rw [beginRequest_eq]
  split
  · split
    · exact ⟨rfl, rfl⟩
    · exact ⟨rfl, rfl⟩
  · exact ⟨rfl, rfl⟩

theorem beginRequest_positive {id : Nat} {buff : List VcablkRequest} {o : Outcomes}
    (h : ∀ r ∈ dataOf buff, 0 < r.sectorsNum) : (beginRequest id buff o).Positive := by
  rw [beginRequest_eq]
  split
  · split
    · exact h
    · exact h
  · trivial

section

variable {cfg : BckndConfig} {s s' : BckndState}

theorem nextChunk_maps (job : Job) (id : Nat) (rest : List VcablkRequest) (last : Bool)
    (cur : Cursor) :
    (nextChunk job id last cur).maps ++ (RequestThread.transfer job id rest cur.advance).maps =
      [(job.id, id)] := by
  unfold Chunk.maps RequestThread.maps nextChunk Cursor.advance
  by_cases h : cur.sectorsNum - min cur.sectorsNum bufferSectors = 0
  · simp [h]
  · simp [h]

theorem StepBalance.submit {job : Job} {id : Nat} {rest : List VcablkRequest} {cur : Cursor}
    {params : TransferParameters} (hdevice : s.requestThread = .device job id rest cur params)
    (hchunk : params.chunk = nextChunk job id rest.isEmpty cur) :
    StepBalance s
      { s with dma := s.dma ++ [params], requestThread := .transfer job id rest cur.advance } [] := by
  -- the buffer keeps its name when it goes from the thread to the copy engine
  have huse : params.chunk.use = (job.id, id, cur.index) := by
    rw [hchunk]
    rfl
  have huses : { s with
      dma := s.dma ++ [params]
      requestThread := .transfer job id rest cur.advance }.uses = s.uses := by
    unfold uses
    rw [hdevice]
    show (([] : List BufferUse) : Multiset BufferUse) + _ + _ =
      (([(job.id, id, cur.index)] : List BufferUse) : Multiset BufferUse) + _ + _
    rw [map_append, ← coe_add, coe_nil, zero_add, ← huse,
      add_comm (([params.chunk.use] : List BufferUse) : Multiset BufferUse)]
    rfl
  apply still huses rfl (append_nil _).symm
  -- so does the mapping, which the last buffer of a part takes along
  have hmaps := nextChunk_maps job id rest rest.isEmpty cur
  rw [← hchunk] at hmaps
  unfold BckndState.maps
  rw [hdevice]
  show 0 + ((([(job.id, id)] : List (Nat × Nat)) : Multiset (Nat × Nat)) + _) =
    0 + (((RequestThread.transfer job id rest cur.advance).maps : Multiset (Nat × Nat)) + _)
  rw [flatMap_append, ← hmaps, ← coe_add, ← coe_add]
  show _ = 0 + (_ + (_ + (((params.chunk.maps ++ []) : List (Nat × Nat)) : Multiset (Nat × Nat))))
  rw [append_nil]
  ac_rfl

theorem bufferEvents_ok (h : ¬ FailsWithBuffer cfg s (.thread .requestThread)) :
    bufferEvents cfg s (.thread .requestThread) =
      match s.requestThread with
      | .transfer job id _ cur => if cur.sectorsNum = 0 then [] else [.pop (job.id, id, cur.index)]
      | _ => [] := by
  unfold bufferEvents
  rw [if_neg h]

theorem bufferEvents_failed (h : FailsWithBuffer cfg s (.thread .requestThread)) :
    bufferEvents cfg s (.thread .requestThread) = s.requestThread.uses.map .lost := by
  unfold bufferEvents
  rw [if_pos h]

/-- **A step of the request thread** keeps the ledger: a failure with a buffer in hand loses the
buffer and unmaps the part. -/
theorem RequestStep.balance (h : RequestStep cfg s s') (hpos : s.requestThread.Positive) :
    StepBalance s s' (bufferEvents cfg s (.thread .requestThread)) ∧ s'.requestThread.Positive := by
  have hnil := (append_nil s.trace).symm
  cases h with
  | @begin id requestBuff outcomes at_request =>
    rw [at_request] at hpos
    obtain ⟨huses, hmaps⟩ := beginRequest_uses id requestBuff outcomes
    rw [bufferEvents_ok (by simp [FailsWithBuffer, at_request]), at_request]
    refine ⟨quiet rfl rfl rfl hnil rfl rfl ?_ ?_, beginRequest_positive hpos⟩
    · rw [at_request]
      exact huses
    · rw [at_request]
      exact hmaps
  | syncFailed at_ | respond at_ =>
    rw [bufferEvents_ok (by simp [FailsWithBuffer, at_]), at_]
    refine ⟨quiet rfl rfl rfl rfl rfl rfl ?_ ?_, trivial⟩ <;> simp [at_] <;> rfl
  | synced at_sync =>
    rw [at_sync] at hpos
    rw [bufferEvents_ok (by simp [FailsWithBuffer, at_sync]), at_sync]
    refine ⟨quiet rfl rfl rfl rfl rfl rfl ?_ ?_, hpos⟩ <;> simp [at_sync] <;> rfl
  | finish at_parts | mapFailed at_parts =>
    rw [bufferEvents_ok (by simp [FailsWithBuffer, at_parts]), at_parts]
    refine ⟨quiet rfl rfl rfl hnil rfl rfl ?_ ?_, trivial⟩ <;> simp [at_parts] <;> rfl
  | @mapped job id request rest at_parts =>
    rw [at_parts] at hpos
    obtain ⟨hrequest, hrest⟩ := List.forall_mem_cons.mp hpos
    rw [bufferEvents_ok (by simp [FailsWithBuffer, at_parts]), at_parts]
    refine ⟨ofRequest rfl rfl rfl rfl ?_ ?_ ?_, hrest⟩
    · simp [at_parts]
      rfl
    · simp [at_parts]
      rfl
    · -- the part has sectors, so its mapping is handed over or unmapped later
      have hne : (Cursor.start request).sectorsNum ≠ 0 := hrequest.ne'
      simp [at_parts, RequestThread.maps, hne, mappedParts, unmappedParts]
  | partDone at_transfer empty =>
    rw [at_transfer] at hpos
    rw [bufferEvents_ok (by simp [FailsWithBuffer, at_transfer]), at_transfer]
    simp only [if_pos empty]
    refine ⟨quiet rfl rfl rfl hnil rfl rfl ?_ ?_, hpos⟩
    · rw [at_transfer]
      rfl
    · simp [at_transfer, RequestThread.maps, empty]
  | pop at_transfer more free =>
    rw [at_transfer] at hpos
    rw [bufferEvents_ok (by simp [FailsWithBuffer, at_transfer]), at_transfer]
    simp only [if_neg more]
    refine ⟨ofRequest rfl rfl rfl hnil ?_ ?_ ?_, hpos, more⟩
    · rw [at_transfer]
      rfl
    · rw [at_transfer]
      exact Nat.sub_add_cancel (Nat.pos_of_ne_zero free)
    · simp [at_transfer, RequestThread.maps, more, mappedParts, unmappedParts]
  | fillWrite at_filling write =>
    rw [at_filling] at hpos
    rw [bufferEvents_ok (by simp [FailsWithBuffer, at_filling, write]), at_filling]
    refine ⟨quiet rfl rfl rfl hnil rfl rfl ?_ ?_, hpos.1, hpos.2, rfl⟩ <;>
      rw [at_filling] <;> rfl
  | readFailed at_filling read done_eq failed =>
    subst done_eq
    rw [bufferEvents_failed (by simp [FailsWithBuffer, at_filling, read, failed]), at_filling]
    refine ⟨ofRequest rfl rfl rfl rfl ?_ ?_ ?_, trivial⟩ <;> rw [at_filling] <;> rfl
  | fillRead at_filling read done_eq ok params_eq =>
    subst done_eq params_eq
    rw [at_filling] at hpos
    rw [bufferEvents_ok (by simp [FailsWithBuffer, at_filling, ok]), at_filling]
    refine ⟨quiet rfl rfl rfl rfl rfl rfl ?_ ?_, hpos.1, hpos.2, rfl⟩ <;>
      simp [at_filling] <;> rfl
  | submitFailed at_device failed =>
    rw [bufferEvents_failed (by simp [FailsWithBuffer, at_device, failed]), at_device]
    refine ⟨ofRequest rfl rfl rfl rfl ?_ ?_ ?_, trivial⟩ <;> rw [at_device] <;> rfl
  | @submit job id rest cur params at_device ok =>
    rw [at_device] at hpos
    obtain ⟨hrest, -, hchunk⟩ := hpos
    rw [bufferEvents_ok (by simp [FailsWithBuffer, at_device, ok]), at_device]
    exact ⟨StepBalance.submit at_device hchunk, hrest⟩

end

/-! ## The copy engine and the transfer thread -/

section

variable {cfg : BckndConfig} {s s' : BckndState}

/-- What a finished copy does when the ring has room; the mapping is given up with the last buffer
of a part. -/
structure CopyFinished (s s' : BckndState) (p p' : TransferParameters)
    (rest : List TransferParameters) (es : List Event) : Prop where
  dma : s.dma = p :: rest
  chunk : p'.chunk = p.chunk
  rest_eq : s'.dma = rest
  ring : s'.transferRing = s.transferRing ++ [p']
  thread : s'.transferThread = s.transferThread
  request : s'.requestThread = s.requestThread
  pool : s'.poolFree = s.poolFree
  trace : s'.trace = s.trace ++ es
  mapped : mappedParts es = 0
  unmapped : unmappedParts es = (p.chunk.maps : Multiset (Nat × Nat))

theorem callbackDma_trace (s : BckndState) (p : TransferParameters)
    (hroom : s.transferRing.length ≠ transferRingSize) :
    (vcaBckndCallbackDma s p).trace =
        s.trace ++ (p.chunk.maps.map fun m => Event.iounmap m.1 m.2) ∧
      vcaBckndCallbackDma s p =
        { s with
          transferRing := s.transferRing ++ [p]
          trace := (vcaBckndCallbackDma s p).trace } := by
  unfold vcaBckndCallbackDma Chunk.maps
  -- only the last buffer of a part ends its mapping
  by_cases hremapped : p.chunk.param.remapped
  · simp only [if_pos hremapped]
    rw [if_neg (by exact hroom)]
    exact ⟨rfl, rfl⟩
  · simp only [if_neg hremapped]
    rw [if_neg hroom]
    exact ⟨(append_nil _).symm, rfl⟩

theorem unmapEvents (maps : List (Nat × Nat)) :
    mappedParts (maps.map fun m => Event.iounmap m.1 m.2) = 0 ∧
      unmappedParts (maps.map fun m => Event.iounmap m.1 m.2) = (maps : Multiset (Nat × Nat)) := by
  unfold mappedParts unmappedParts
  induction maps with
  | nil => exact ⟨rfl, rfl⟩
  | cons m maps ih =>
    refine ⟨ih.1, ?_⟩
    rw [List.map_cons, List.filterMap_cons, ← cons_coe, ih.2]
    rfl

theorem dmaStep_finished (hroom : s.transferRing.length ≠ transferRingSize)
    (h : dmaStep s = some s') : ∃ p p' rest es, CopyFinished s s' p p' rest es := by
  unfold dmaStep at h
  cases hdma : s.dma with simp only [hdma] at h
  | nil => cases h
  | cons p rest =>
    split at h
    · -- from the card: the buffer changes, the callback parameter does not
      cases h
      generalize hp' : (⟨p.chunk, copyBytes p.buffer 0 p.chunk.bytes
        fun k => s.cardBytes (p.chunk.cardAddr + k)⟩ : TransferParameters) = p'
      have hchunk : p'.chunk = p.chunk := by rw [← hp']
      obtain ⟨htrace, heq⟩ :=
        callbackDma_trace ({ s with dma := rest }.emit (.fromCard p')) p' hroom
      rw [heq, htrace, hchunk]
      obtain ⟨hmapped, hunmapped⟩ := unmapEvents p.chunk.maps
      exact ⟨p, p', rest, _ :: _, hdma, hchunk, rfl, rfl, rfl, rfl, rfl, append_assoc ..,
        hmapped, hunmapped⟩
    · cases h
      obtain ⟨htrace, heq⟩ := callbackDma_trace
        ({ s with
            dma := rest
            cardBytes := copyBytes s.cardBytes p.chunk.cardAddr p.chunk.bytes p.buffer }.emit
          (.toCard p)) p hroom
      rw [heq, htrace]
      obtain ⟨hmapped, hunmapped⟩ := unmapEvents p.chunk.maps
      exact ⟨p, p, rest, _ :: _, hdma, rfl, rfl, rfl, rfl, rfl, rfl, append_assoc .., hmapped,
        hunmapped⟩

theorem unreleased_append {p : TransferParameters}
    (hthread : s.transferThread = .waiting ∨ s.transferRing ≠ [])
    (hphase : s'.transferThread = s.transferThread)
    (hring : s'.transferRing = s.transferRing ++ [p]) :
    s'.unreleased = s.unreleased ++ [p] := by
  unfold unreleased
  rw [hphase, hring]
  cases hx : s.transferThread with
  | advance =>
    have hne : s.transferRing ≠ [] :=
      hthread.resolve_left (by rw [hx]; exact TransferThread.noConfusion)
    exact tail_append_of_ne_nil hne
  | waiting | written err | respond err | release => rfl

variable {rest : List TransferParameters}

/-- **A finished copy** passes its buffer to the transfer thread and unmaps its part. -/
theorem CopyFinished.balance {p p' : TransferParameters} (h : CopyFinished s s' p p' rest es)
    (hthread : s.transferThread = .waiting ∨ s.transferRing ≠ []) : StepBalance s s' [] := by
  have hunreleased := unreleased_append hthread h.thread h.ring
  have huses : s'.uses = s.uses := by
    unfold uses
    rw [h.request, h.rest_eq, hunreleased, h.dma, List.map_append, List.map_singleton,
      List.map_cons, h.chunk, ← coe_add, coe_singleton,
      ← cons_coe p.chunk.use, ← singleton_add]
    ac_rfl
  apply still huses h.pool h.trace
  unfold BckndState.maps
  rw [h.mapped, h.unmapped, h.request, h.rest_eq, h.dma, List.flatMap_cons, ← coe_add,
    zero_add]
  ac_rfl

theorem unreleased_of_ne (h : s.transferThread ≠ .advance) : s.unreleased = s.transferRing := by
  unfold unreleased
  cases hx : s.transferThread with
  | advance => exact absurd hx h
  | waiting | written err | respond err | release => rfl

theorem inWork {p : TransferParameters}
    (ring : s.transferRing = p :: rest) (hphase : s.transferThread ≠ .advance)
    (hphase' : s'.transferThread ≠ .advance) (hdma : s'.dma = s.dma)
    (hpool : s'.poolFree = s.poolFree) (hrequest : s'.requestThread = s.requestThread)
    (hring : s'.transferRing = s.transferRing) (htrace : s'.trace = s.trace ++ es)
    (hes : mappedParts es = unmappedParts es) :
    StepBalance s s' [] ∧ s'.requestThread = s.requestThread ∧
      (s'.transferThread = .waiting ∨ s'.transferRing ≠ []) := by
  refine ⟨still ?_ hpool htrace ?_, hrequest, .inr ?_⟩
  · unfold uses
    rw [unreleased_of_ne hphase, unreleased_of_ne hphase', hring, hrequest, hdma]
  · unfold BckndState.maps
    rw [hes, hrequest, hdma]
  · rw [hring, ring]
    exact cons_ne_nil p rest

/-- **A step of the transfer thread**: the buffer goes back to the pool before its slot is
released. -/
theorem TransferStep.balance (h : TransferStep cfg s s') :
    StepBalance s s' (bufferEvents cfg s (.thread .transferThread)) ∧
      s'.requestThread = s.requestThread ∧
      (s'.transferThread = .waiting ∨ s'.transferRing ≠ []) := by
  have hnil := (List.append_nil s.trace).symm
  have hevents : bufferEvents cfg s (.thread .transferThread) =
      match s.transferThread, s.transferRing with
      | .release, params :: _ => [.push params.chunk.use]
      | _, _ => [] := by
    unfold bufferEvents
    exact if_neg id
  cases h with
  | @release p rest ring phase =>
    -- the buffer goes back to the pool before its element leaves the ring
    have huses : s.uses =
        {p.chunk.use} +
          { s with poolFree := s.poolFree + 1, transferThread := .advance }.uses := by
      unfold uses unreleased
      simp only [phase, ring, List.tail_cons, List.map_cons]
      rw [← cons_coe p.chunk.use, ← singleton_add]
      ac_rfl
    have hevent : bufferEvents cfg s (.thread .transferThread) = [.push p.chunk.use] := by
      rw [hevents, phase, ring]
    rw [hevent]
    refine ⟨⟨?_, ?_, [], hnil, rfl⟩, rfl, .inr ?_⟩
    · rw [huses]
      exact zero_add _
    · rw [huses, card_add, card_singleton]
      exact Nat.add_assoc s.poolFree 1 _
    · show s.transferRing ≠ []
      rw [ring]
      exact List.cons_ne_nil p rest
  | @advance p rest ring phase =>
    -- the element that leaves has given its buffer back already
    have huses : { s with
        transferRing := rest
        done := s.done ++ [p]
        transferThread := .waiting }.uses = s.uses := by
      unfold uses unreleased
      rw [phase, ring]
      rfl
    rw [hevents, phase]
    exact ⟨still huses rfl hnil rfl, rfl, .inl rfl⟩
  | write ring phase | flush ring phase | respond ring phase =>
    rw [hevents, phase]
    exact inWork ring (by rw [phase]; exact TransferThread.noConfusion) TransferThread.noConfusion
      rfl rfl rfl rfl rfl rfl
  | skip ring phase | silent ring phase | noFlush ring phase =>
    rw [hevents, phase]
    exact inWork ring (by rw [phase]; exact TransferThread.noConfusion) TransferThread.noConfusion
      rfl rfl rfl rfl hnil rfl

end

/-! ## Every run -/

/-- A dequeued request has data parts with a positive number of sectors. -/
def PositiveAct (_ : BckndState) (a : BckndAct) : Prop :=
  match a with
  | .dequeue requestBuff _ => ∀ r ∈ dataOf requestBuff, 0 < r.sectorsNum
  | _ => True

namespace Balance

variable {cfg : BckndConfig} {avail : Nat} {s s' : BckndState} {log : List BufferEvent}

theorem ring_room (b : Balance avail s log) (havail : avail < transferRingSize) (hdma : s.dma ≠ []) :
    s.transferRing.length ≠ transferRingSize := by
  have hpool := b.pool
  unfold uses at hpool
  simp only [card_add, coe_card, length_map] at hpool
  have hpos := List.length_pos_iff.mpr hdma
  have hring : s.transferRing.length ≤ s.unreleased.length + 1 := by
    unfold unreleased
    split
    · rw [length_tail]
      omega
    all_goals exact Nat.le_succ _
  omega

/-- **Every step keeps the ledger.** -/
theorem bckndStep (b : Balance avail s log) (havail : avail < transferRingSize) {a : BckndAct}
    (hpos : PositiveAct s a) (h : bckndStep cfg s a = some s') :
    Balance avail s' (log ++ bufferEvents cfg s a) := by
  cases a with
  | dequeue requestBuff outcomes =>
    -- neither a new request nor a store of the card touches a buffer
    have hnone : bufferEvents cfg s (.dequeue requestBuff outcomes) = [] := if_neg id
    rw [hnone]
    cases hrequest : s.requestThread with simp only [BlockIo.bckndStep, hrequest] at h
    | idle =>
      cases h
      refine b.step (quiet rfl rfl rfl rfl rfl rfl ?_ ?_) hpos b.thread
      · rw [hrequest]
        rfl
      · rw [hrequest]
        rfl
    | _ => cases h
  | cardStore cardBytes =>
    have hnone : bufferEvents cfg s (.cardStore cardBytes) = [] := if_neg id
    rw [hnone]
    cases h
    exact b.step (quiet rfl rfl rfl rfl rfl rfl rfl rfl) b.positive b.thread
  | thread t =>
    cases bckndThreadStep_cases h with
    | requestThread hstep =>
      obtain ⟨hbalance, hpositive⟩ := hstep.balance b.positive
      obtain ⟨-, hring, hthread, -⟩ := requestStep_frame hstep
      refine b.step hbalance hpositive ?_
      rw [hring, hthread]
      exact b.thread
    | dma busy h =>
      have hnone : bufferEvents cfg s (.thread .dma) = [] := if_neg id
      rw [hnone]
      obtain ⟨p, p', rest, es, hfinished⟩ := dmaStep_finished (b.ring_room havail busy) h
      refine b.step (hfinished.balance b.thread) (hfinished.request ▸ b.positive) (.inr ?_)
      rw [hfinished.ring]
      exact append_ne_nil_of_right_ne_nil _ (cons_ne_nil p' [])
    | transferThread hstep =>
      obtain ⟨hbalance, hrequest, hthread⟩ := hstep.balance
      exact b.step hbalance (hrequest ▸ b.positive) hthread

end Balance

theorem lost_nil_iff (cfg : BckndConfig) (s : BckndState) (a : BckndAct) :
    ((bufferEvents cfg s a).filterMap fun | .lost use => some use | _ => none) = [] ↔
      ¬ FailsWithBuffer cfg s a := by
  unfold bufferEvents
  -- the ledger loses a buffer exactly when the request thread gives up while it holds one
  by_cases hfails : FailsWithBuffer cfg s a
  · rw [if_pos hfails]
    refine iff_of_false ?_ (not_not_intro hfails)
    unfold FailsWithBuffer at hfails
    split at hfails
    · cases hrequest : s.requestThread with rw [hrequest] at hfails
      | filling job id rest cur | device job id rest cur params => exact cons_ne_nil _ _
      | _ => exact hfails.elim
    · exact hfails.elim
  · rw [if_neg hfails]
    refine iff_of_true ?_ hfails
    split
    · split
      · split <;> rfl
      · rfl
    · split <;> rfl
    · rfl

section

variable (cfg : BckndConfig) (avail : Nat) (mediaBytes cardBytes : Nat → UInt8)
  (acts : List BckndAct)

def ledger : List BufferEvent :=
  (bckndSystem cfg avail mediaBytes cardBytes).trail (bufferEvents cfg)
    (BckndState.opened avail mediaBytes cardBytes) acts

/-- No operation of the run fails while the request thread holds a buffer. -/
def NeverFailsWithBuffer : Prop :=
  (bckndSystem cfg avail mediaBytes cardBytes).Along (fun s a => ¬ FailsWithBuffer cfg s a)
    (BckndState.opened avail mediaBytes cardBytes) acts

variable {cfg avail mediaBytes cardBytes acts}

theorem balance_of_run (havail : avail < transferRingSize)
    (hpos : (bckndSystem cfg avail mediaBytes cardBytes).Along PositiveAct
      (opened avail mediaBytes cardBytes) acts)
    (hrun : (bckndSystem cfg avail mediaBytes cardBytes).run
      (opened avail mediaBytes cardBytes) acts = some s) :
    Balance avail s (ledger cfg avail mediaBytes cardBytes acts) := by
  have hinit : Balance avail (opened avail mediaBytes cardBytes) [] :=
    { buffers := rfl
      pool := rfl
      maps := rfl
      positive := trivial
      thread := .inl rfl }
  exact System.trail_induct (fun s a s' log b hpos hstep => b.bckndStep havail hpos hstep) acts
    hinit hpos hrun

theorem lost_zero_iff (hrun : (bckndSystem cfg avail mediaBytes cardBytes).run
      (opened avail mediaBytes cardBytes) acts = some s) :
    lostBuffers (ledger cfg avail mediaBytes cardBytes acts) = 0 ↔
      NeverFailsWithBuffer cfg avail mediaBytes cardBytes acts := by
  unfold lostBuffers ledger NeverFailsWithBuffer
  rw [System.trail_filterMap, coe_eq_zero, System.trail_eq_nil_iff acts hrun]
  simp only [lost_nil_iff]

end

/-- **The resources balance exactly when no operation fails with a buffer in hand.**  When the
requests are worked off, every buffer taken from the pool was given back once, every mapped
part was unmapped once, and the pool is as full as it was, if and only if no media read and no
submission failed. -/
theorem resources_balanced_iff (cfg : BckndConfig) (avail : Fin transferRingSize)
    (mediaBytes cardBytes : Nat → UInt8) (acts : List BckndAct) (s : BckndState)
    (hpos : (bckndSystem cfg avail mediaBytes cardBytes).Along PositiveAct
      (BckndState.opened avail mediaBytes cardBytes) acts)
    (hrun : (bckndSystem cfg avail mediaBytes cardBytes).run
      (BckndState.opened avail mediaBytes cardBytes) acts = some s)
    (hdrained : s.Drained) :
    (poppedBuffers (ledger cfg avail mediaBytes cardBytes acts) =
        pushedBuffers (ledger cfg avail mediaBytes cardBytes acts) ∧
      mappedParts s.trace = unmappedParts s.trace ∧ s.poolFree = avail) ↔
      NeverFailsWithBuffer cfg avail mediaBytes cardBytes acts := by
  have b := balance_of_run avail.isLt hpos hrun
  obtain ⟨hidle, hdma, hring⟩ := hdrained
  have huses : s.uses = 0 := by
    unfold BckndState.uses BckndState.unreleased
    rw [hidle, hdma, hring]
    split <;> rfl
  have hmaps : s.maps = 0 := by
    unfold BckndState.maps
    rw [hidle, hdma]
    rfl
  -- at the end nothing is in use, so that all popped buffers are pushed or lost
  have hbuffers := b.buffers
  have hpool := b.pool
  have hparts := b.maps
  rw [huses, add_zero] at hbuffers
  rw [huses, Multiset.card_zero, Nat.add_zero] at hpool
  rw [hmaps, add_zero] at hparts
  rw [← lost_zero_iff hrun]
  constructor
  · rintro ⟨hsame, -⟩
    rw [hsame] at hbuffers
    exact (add_eq_left.mp hbuffers.symm)
  · intro hlost
    rw [hlost, add_zero] at hbuffers
    rw [hlost] at hpool
    exact ⟨hbuffers, hparts, hpool⟩

/-- A memory disk of eight sectors -/
def smallDisk : BckndConfig := ⟨{ type := .memory, sizeBytes := 4096, readOnly := false }, true⟩

def writeSector (outcomes : Outcomes) : BckndAct :=
  .dequeue [⟨0, 0, 1, 1, requestWrite⟩] outcomes

/-- The write is worked off. -/
def writeRun : List BckndAct :=
  writeSector Outcomes.success :: List.replicate 5 (BckndAct.thread .requestThread) ++
    [BckndAct.thread .dma] ++ List.replicate 5 (BckndAct.thread .transferThread) ++
    List.replicate 2 (BckndAct.thread .requestThread)

/-- What shows that a state is drained, and how full the pool is -/
def poolView (s : BckndState) : Bool × Nat × Nat × Nat :=
  (match s.requestThread with | .idle => true | _ => false, s.dma.length, s.transferRing.length,
    s.poolFree)

theorem drained_of_poolView {free : Nat} (h : poolView s = (true, 0, 0, free)) :
    s.Drained ∧ s.poolFree = free := by
  unfold poolView at h
  simp only [Prod.mk.injEq, length_eq_zero_iff] at h
  obtain ⟨hidle, hdma, hring, hfree⟩ := h
  refine ⟨⟨?_, hdma, hring⟩, hfree⟩
  cases hrequest : s.requestThread with
  | idle => rfl
  | _ =>
    rw [hrequest] at hidle
    cases hidle

theorem resources_balanced_iff_writeRun :
    ∃ s, (bckndSystem smallDisk 15 (fun _ => 0) (fun _ => 0)).run
        (BckndState.opened 15 (fun _ => 0) (fun _ => 0)) writeRun = some s ∧ s.Drained ∧
      ((poppedBuffers (ledger smallDisk 15 (fun _ => 0) (fun _ => 0) writeRun) =
          pushedBuffers (ledger smallDisk 15 (fun _ => 0) (fun _ => 0) writeRun) ∧
        mappedParts s.trace = unmappedParts s.trace ∧ s.poolFree = 15) ↔
        NeverFailsWithBuffer smallDisk 15 (fun _ => 0) (fun _ => 0) writeRun) := by
  have hview : ((bckndSystem smallDisk 15 (fun _ => 0) (fun _ => 0)).run
      (BckndState.opened 15 (fun _ => 0) (fun _ => 0)) writeRun).map poolView =
      some (true, 0, 0, 15) := by decide +kernel
  obtain ⟨s, hrun, hview⟩ := Option.map_eq_some_iff.mp hview
  obtain ⟨hdrained, -⟩ := drained_of_poolView hview
  refine ⟨s, hrun, hdrained, ?_⟩
  apply resources_balanced_iff smallDisk ⟨15, by decide⟩
  · apply System.along_of_forall
    intro a ha s
    simp only [writeRun, writeSector, List.mem_append, List.mem_cons, List.mem_replicate,
      List.not_mem_nil, or_false] at ha
    rcases ha with ((((rfl | ⟨-, rfl⟩) | rfl) | ⟨-, rfl⟩) | ⟨-, rfl⟩)
    · show ∀ r ∈ dataOf [⟨0, 0, 1, 1, requestWrite⟩], 0 < r.sectorsNum
      decide
    all_goals trivial
  · exact hrun
  · exact hdrained

/-- Fifteen writes whose submission finds no descriptor -/
def failingWrites : List BckndAct :=
  (List.replicate 15 (writeSector { Outcomes.success with dma := fun _ _ => .noDescriptor } ::
    List.replicate 6 (.thread .requestThread))).flatten

/-- **The pool is exhausted by failing requests**: all fifteen writes are answered, nothing is
under way, and no buffer came back. -/
theorem failing_writes_exhaust_pool :
    ∃ s, (bckndSystem smallDisk 15 (fun _ => 0) (fun _ => 0)).Along PositiveAct
        (BckndState.opened 15 (fun _ => 0) (fun _ => 0)) failingWrites ∧
      (bckndSystem smallDisk 15 (fun _ => 0) (fun _ => 0)).run
        (BckndState.opened 15 (fun _ => 0) (fun _ => 0)) failingWrites = some s ∧
      s.Drained ∧ s.poolFree = 0 ∧
      poppedBuffers (ledger smallDisk 15 (fun _ => 0) (fun _ => 0) failingWrites) ≠
        pushedBuffers (ledger smallDisk 15 (fun _ => 0) (fun _ => 0) failingWrites) := by
  have hview : ((bckndSystem smallDisk 15 (fun _ => 0) (fun _ => 0)).run
      (BckndState.opened 15 (fun _ => 0) (fun _ => 0)) failingWrites).map poolView =
      some (true, 0, 0, 0) := by decide +kernel
  obtain ⟨s, hrun, hview⟩ := Option.map_eq_some_iff.mp hview
  obtain ⟨hdrained, hfree⟩ := drained_of_poolView hview
  refine ⟨s, ?_, hrun, hdrained, hfree, ?_⟩
  · apply System.along_of_forall
    intro a ha s
    unfold failingWrites at ha
    obtain ⟨l, hl, ha⟩ := List.mem_flatten.mp ha
    rw [(List.mem_replicate.mp hl).2] at ha
    rcases List.mem_cons.mp ha with rfl | ha
    · show ∀ r ∈ dataOf [⟨0, 0, 1, 1, requestWrite⟩], 0 < r.sectorsNum
      decide
    · rw [(List.mem_replicate.mp ha).2]
      trivial
  · intro hsame
    have hcard := congrArg Multiset.card hsame
    -- each of the 15 requests has popped a buffer that never came back
    have hpopped : (poppedBuffers (ledger smallDisk 15 (fun _ => 0) (fun _ => 0) failingWrites)).card
        = 15 := by decide +kernel
    have hpushed : (pushedBuffers (ledger smallDisk 15 (fun _ => 0) (fun _ => 0) failingWrites)).card
        = 0 := by decide +kernel
    omega

end Vcass.BlockIo
