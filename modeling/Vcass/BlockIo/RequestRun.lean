import Vcass.BlockIo.Trace

/-!
# Running One Request

All runs of the backend from the call of `vcablk_bcknd_disk_request` on, until no party can
take a step.  Every run ends (`runMeasure_decreases`), and in each of its states the request
is in one of three stages (`Stage`):

- active: the buffers handed to the copy engine and those still to cut make up the plan
  of the request, and the posted completions are those of the buffers processed so far;
- failing: the request thread is about to send an error, and no buffer on its way carries
  the cookie;
- failed: it has sent the error.
-/

namespace Vcass.BlockIo

open Vcass.Core List BckndState RequestThread TransferThread

/-! ## Observations -/

/-- The buffers handed to the copy engine, oldest first. -/
def BckndState.sent (s : BckndState) : List Chunk :=
  (s.done ++ s.transferRing ++ s.dma).map (·.chunk)

/-- The buffers that the transfer thread has answered, or that need no answer. -/
def BckndState.answered (s : BckndState) : List Chunk :=
  s.done.map (·.chunk) ++
    match s.transferThread with
    | .release | .advance => (s.transferRing.take 1).map (·.chunk)
    | _ => []

/-- The error that `vca_bcknd_complete_transfer` answers with -/
def Chunk.finalErr (cfg : BckndConfig) (c : Chunk) : Int :=
  if c.writeErr cfg = 0 ∧ c.param.doFlush then vcablkMediaSync cfg.media c.fsync
  else c.writeErr cfg

def Chunk.ack (cfg : BckndConfig) (c : Chunk) : Option VcablkCompletion :=
  c.param.responseCookie.map fun cookie => ⟨cookie, toS8 (c.finalErr cfg)⟩

variable {cfg : BckndConfig}

theorem Chunk.ack_quiet {c : Chunk} (h : c.Quiet) : c.ack cfg = none := by
  simp only [Chunk.ack, Option.map_eq_none_iff]
  exact h

/-- Whether the request thread holds a buffer -/
def RequestThread.inHand : RequestThread → Nat
  | .filling .. => 1
  | .device .. => 1
  | _ => 0

/-- Whether the transfer thread has given back the buffer of the first ring element -/
def TransferThread.released : TransferThread → Nat
  | .advance => 1
  | _ => 0

/-- Nothing is left to cut, and the loops will end without a failure. -/
def RequestThread.Exhausted : RequestThread → Prop
  | .idle => True
  | .parts _ _ todo => todo = []
  | .transfer _ _ rest cur => rest = [] ∧ cur.sectorsNum = 0
  | _ => False

/-- The buffers in use, by whom they are held. -/
def BckndState.inUse (s : BckndState) : Nat :=
  s.poolFree + s.requestThread.inHand + s.dma.length + s.transferRing.length

theorem completions_emit (s : BckndState) (e : Event) :
    (s.emit e).completions = s.completions ++
      match e with
      | .completion _ ack => [ack]
      | _ => [] := by
  simp only [completions, emit, filterMap_append]
  cases e <;> rfl

/-! ## The transfer thread -/

/-- The error that the transfer thread remembers is that of the first ring element. -/
def TransferOk (cfg : BckndConfig) (s : BckndState) : Prop :=
  match s.transferThread with
  | .waiting => True
  | .written err => ∃ p rest, s.transferRing = p :: rest ∧ err = p.chunk.writeErr cfg
  | .respond err => ∃ p rest, s.transferRing = p :: rest ∧ err = p.chunk.finalErr cfg ∧
      ¬ p.chunk.Quiet
  | .release => s.transferRing ≠ []
  | .advance => s.transferRing ≠ []

variable {s s' : BckndState}

section

variable (ok : TransferOk cfg s)

include ok

theorem TransferOk.append
    (hthread : s'.transferThread = s.transferThread) {l : List TransferParameters}
    (hring : s'.transferRing = s.transferRing ++ l) : TransferOk cfg s' := by
  unfold TransferOk at ok ⊢
  rw [hthread, hring]
  cases hx : s.transferThread with
  | waiting => trivial
  | written err | respond err =>
    rw [hx] at ok
    obtain ⟨p, rest, hr, herr⟩ := ok
    exact ⟨p, rest ++ l, by simp [hr], herr⟩
  | release | advance =>
    rw [hx] at ok
    simp [show s.transferRing ≠ [] from ok]

theorem TransferOk.waiting_or_ne :
    s.transferThread = .waiting ∨ s.transferRing ≠ [] := by
  unfold TransferOk at ok
  cases hx : s.transferThread with
  | waiting => exact Or.inl rfl
  | written err | respond err =>
    rw [hx] at ok
    obtain ⟨p, rest, hr, -⟩ := ok
    exact Or.inr (by simp [hr])
  | release | advance =>
    rw [hx] at ok
    exact Or.inr ok

theorem TransferOk.released_le :
    s.transferThread.released ≤ s.transferRing.length := by
  rcases ok.waiting_or_ne with h | h
  · simp [h, TransferThread.released]
  · have hpos := length_pos_iff.mpr h
    cases s.transferThread <;> simp only [TransferThread.released] <;> omega

/-- What a step of the transfer thread does to the observations. -/
structure TransferEffect (cfg : BckndConfig) (s s' : BckndState) : Prop where
  ok : TransferOk cfg s'
  requestThread : s'.requestThread = s.requestThread
  dma : s'.dma = s.dma
  sent : s'.sent = s.sent
  inUse : s'.inUse + s.transferThread.released = s.inUse + s'.transferThread.released
  /-- The same completions are posted and accounted for -/
  acks : ∃ acks, s'.completions = s.completions ++ acks ∧
    s'.answered.filterMap (Chunk.ack cfg) = s.answered.filterMap (Chunk.ack cfg) ++ acks ∧
    ((∀ c ∈ s.sent, c.Quiet) → acks = [])

/-- **One step of the transfer thread.** -/
theorem transferThreadStep_effect (h : TransferStep cfg s s') :
    TransferEffect cfg s s' := by
  unfold TransferOk at ok
  cases h with
  | @write p rest done ring phase isWrite done_eq =>
    refine ⟨⟨p, rest, ring, by simp [Chunk.writeErr, isWrite, done_eq]⟩, rfl, rfl, rfl, ?_, [],
      completions_emit s _, ?_, fun _ => rfl⟩
    · rw [phase]
      rfl
    · simp [answered, emit, phase]
  | @skip p rest ring phase isRead =>
    refine ⟨⟨p, rest, ring, by simp [Chunk.writeErr, isRead]⟩, rfl, rfl, rfl, ?_, [], ?_, ?_,
      fun _ => rfl⟩
    · rw [phase]
      rfl
    · simp [completions]
    · simp [answered, phase]
  | @silent p rest err ring phase cookie =>
    refine ⟨by simp [TransferOk, ring], rfl, rfl, rfl, ?_, [], ?_, ?_, fun _ => rfl⟩
    · rw [phase]
      rfl
    · simp [completions]
    · simp [answered, phase, ring, Chunk.ack, cookie]
  | @flush p rest err ring phase cookie doFlush =>
    rw [phase] at ok
    obtain ⟨q, rest', hq, herr⟩ := ok
    obtain ⟨rfl, rfl⟩ := List.cons.inj (ring.symm.trans hq)
    refine ⟨⟨p, rest, ring, ?_, cookie⟩, rfl, rfl, rfl, ?_, [], completions_emit s _, ?_,
      fun _ => rfl⟩
    · -- the write has succeeded, so that the error is that of the sync
      rw [Chunk.finalErr, if_pos ⟨herr ▸ doFlush.1, doFlush.2⟩]
    · rw [phase]
      rfl
    · simp [answered, emit, phase]
  | @noFlush p rest err ring phase cookie noFlush =>
    rw [phase] at ok
    obtain ⟨q, rest', hq, herr⟩ := ok
    obtain ⟨rfl, rfl⟩ := List.cons.inj (ring.symm.trans hq)
    refine ⟨⟨p, rest, ring, ?_, cookie⟩, rfl, rfl, rfl, ?_, [], ?_, ?_, fun _ => rfl⟩
    · rw [Chunk.finalErr, if_neg (herr ▸ noFlush), herr]
    · rw [phase]
      rfl
    · simp [completions]
    · simp [answered, phase]
  | @respond p rest err ring phase =>
    rw [phase] at ok
    obtain ⟨q, rest', hq, herr, hloud⟩ := ok
    obtain ⟨rfl, rfl⟩ := List.cons.inj (ring.symm.trans hq)
    -- a response is sent for a buffer with a cookie only
    obtain ⟨cookie, hcookie⟩ := Option.ne_none_iff_exists'.mp hloud
    refine ⟨by simp [TransferOk, emit, ring], rfl, rfl, rfl, ?_,
      [⟨cookie, toS8 err⟩], ?_, ?_, ?_⟩
    · rw [phase]
      rfl
    · rw [hcookie]
      exact completions_emit s _
    · simp [answered, emit, phase, ring, Chunk.ack, hcookie, herr]
    · intro hquiet
      exact absurd (hquiet p.chunk (by simp [sent, ring])) hloud
  | @release p rest ring phase =>
    refine ⟨by simp [TransferOk, ring], rfl, rfl, rfl, ?_, [], ?_, ?_, fun _ => rfl⟩
    · -- the buffer is free, though its element stays in the ring for one more step
      simp only [inUse, released, phase]
      omega
    · simp [completions]
    · simp [answered, phase]
  | @advance p rest ring phase =>
    refine ⟨trivial, rfl, rfl, by simp [sent, ring], ?_, [], ?_, ?_, fun _ => rfl⟩
    · simp only [inUse, released, phase, ring, length_cons]
      omega
    · simp [completions]
    · simp [answered, phase, ring]

end

/-! ## The copy engine -/

/-- What finishing a copy does to the observations. -/
structure DmaEffect (s s' : BckndState) : Prop where
  requestThread : s'.requestThread = s.requestThread
  transferThread : s'.transferThread = s.transferThread
  ring : ∃ p, s'.transferRing = s.transferRing ++ [p]
  sent : s'.sent = s.sent
  inUse : s'.inUse = s.inUse
  completions : s'.completions = s.completions
  answered : s.transferThread = .waiting ∨ s.transferRing ≠ [] → s'.answered = s.answered

/-- **One step of the copy engine**. -/
theorem dmaStep_effect (h : DmaStep s s') : DmaEffect s s' := by
  have answered : ∀ (t : BckndState) (p : TransferParameters), t.done = s.done →
      t.transferThread = s.transferThread → t.transferRing = s.transferRing ++ [p] →
      s.transferThread = .waiting ∨ s.transferRing ≠ [] → t.answered = s.answered := by
    -- the thread that works on an element keeps the first one
    intro t p hdone hthread hring hwait
    simp only [BckndState.answered, hdone, hthread, hring]
    rcases hwait with hwait | hne
    · rw [hwait]
    · obtain ⟨q, rest, hq⟩ := exists_cons_of_ne_nil hne
      simp [hq]
  cases h with
  | @fromCard p p' rest s₁ dma isWrite copied unmap =>
    rcases unmap with rfl | rfl
    all_goals
      exact ⟨rfl, rfl, ⟨p', rfl⟩, by simp [sent, emit, dma, copied],
        by simp [inUse, emit, dma]; omega,
        by simp [completions, emit], answered _ p' rfl rfl rfl⟩
  | @toCard p rest s₁ dma isRead unmap =>
    rcases unmap with rfl | rfl
    all_goals
      exact ⟨rfl, rfl, ⟨p, rfl⟩, by simp [sent, emit, dma],
        by simp [inUse, emit, dma]; omega,
        by simp [completions, emit], answered _ p rfl rfl rfl⟩

/-! ## Stages of a request -/

section

variable (cfg) (avail : Nat) (buff : List VcablkRequest) (o : Outcomes)

/-- A leading sync was not asked for, or it succeeded. -/
def SyncPassed : Prop :=
  (vcablkBckndDiskRequestGetInfo buff).2.syncBefore = true →
    vcablkMediaSync cfg.media o.fsyncBefore = 0

/-- The request thread is inside the part number `id`, with `rest` behind it. -/
structure InPart (job : Job) (id : Nat) (rest : List VcablkRequest) : Prop where
  accepted : Accepted buff
  synced : SyncPassed cfg buff o
  job_eq : job = jobOf 0 buff o
  count : id + 1 + rest.length = (dataOf buff).length
  mapped : ∀ k ≤ id, o.ioremap k = true

/-- Where the request thread can be while nothing has failed. -/
def Position : RequestThread → Prop
  | .idle => Accepted buff ∧ SyncPassed cfg buff o ∧
      ∀ k < (dataOf buff).length, o.ioremap k = true
  | .request id requestBuff outcomes => id = 0 ∧ requestBuff = buff ∧ outcomes = o
  | .syncBefore job size todo => Accepted buff ∧
      (vcablkBckndDiskRequestGetInfo buff).2.syncBefore = true ∧ job = jobOf 0 buff o ∧
      size = buff.length ∧ todo = dataOf buff
  | .parts job id todo => Accepted buff ∧ SyncPassed cfg buff o ∧ job = jobOf 0 buff o ∧
      id + todo.length = (dataOf buff).length ∧ ∀ k < id, o.ioremap k = true
  | .transfer job id rest _ => InPart cfg buff o job id rest
  | .filling job id rest cur => InPart cfg buff o job id rest ∧ cur.sectorsNum ≠ 0
  | .device job id rest cur p => InPart cfg buff o job id rest ∧ cur.sectorsNum ≠ 0 ∧
      p.chunk = nextChunk job id rest.isEmpty cur ∧
      (job.write = false → (p.chunk.mediaTransfer cfg.media).ret = 0)
  | .sendResponse _ _ _ => False

/-- The buffers of the request, if it is accepted -/
def plan : List Chunk := if Accepted buff then requestChunks 0 buff o else []

/-- Why the request thread sends the error `err` -/
inductive Cause (err : Int) : Prop where
  | rejected (h : ¬ Accepted buff) (herr : err = -eIo)
  | sync (h : Accepted buff) (before : (vcablkBckndDiskRequestGetInfo buff).2.syncBefore = true)
      (herr : err = vcablkMediaSync cfg.media o.fsyncBefore) (hne : err ≠ 0)
  | ioremap (h : Accepted buff) (passed : SyncPassed cfg buff o) (k : Nat)
      (hk : k < (dataOf buff).length) (failed : o.ioremap k = false) (herr : err = -eIo)
  | read (h : Accepted buff) (passed : SyncPassed cfg buff o) (havail : 0 < avail) (c : Chunk)
      (hc : c ∈ plan buff o) (isRead : c.param.isWrite = false)
      (herr : err = (c.mediaTransfer cfg.media).ret) (hne : err ≠ 0)
  | dma (h : Accepted buff) (passed : SyncPassed cfg buff o) (havail : 0 < avail) (c : Chunk)
      (hc : c ∈ plan buff o) (herr : err = c.dma.ret) (hne : err ≠ 0)

/-- The cookie that the request is answered with -/
def cookieOf : Nat := (vcablkBckndDiskRequestGetInfo buff).2.cookie

/-- The first stage: nothing has failed yet. -/
structure Running (s : BckndState) : Prop where
  pos : Position cfg buff o s.requestThread
  flow : s.sent ++ s.requestThread.pending = plan buff o
  ok : ∀ c ∈ s.sent, c.dma.ret = 0 ∧
    (c.param.isWrite = false → (c.mediaTransfer cfg.media).ret = 0)
  quiet : s.requestThread.Exhausted ∨ ∀ c ∈ s.sent, c.Quiet
  acks : s.completions = s.answered.filterMap (Chunk.ack cfg)
  pool : s.inUse = avail + s.transferThread.released
  used : s.sent = [] ∨ 0 < avail

inductive Stage (s : BckndState) : Prop where
  | active (run : Running cfg avail buff o s)
  | failing (err : Int) (req : s.requestThread = .sendResponse 0 (cookieOf buff) err)
      (cause : Cause cfg avail buff o err) (quiet : ∀ c ∈ s.sent, c.Quiet)
      (acks : s.completions = []) (pool : s.inUse ≤ avail + s.transferThread.released)
  | failed (err : Int) (req : s.requestThread = .idle)
      (cause : Cause cfg avail buff o err) (quiet : ∀ c ∈ s.sent, c.Quiet)
      (acks : s.completions = [⟨cookieOf buff, toS8 err⟩])
      (pool : s.inUse ≤ avail + s.transferThread.released)

variable {cfg avail buff o}

theorem Stage.inUse_le (h : Stage cfg avail buff o s) :
    s.inUse ≤ avail + s.transferThread.released := by
  cases h with
  | active run => exact le_of_eq run.pool
  | failing _ _ _ _ _ pool => exact pool
  | failed _ _ _ _ _ pool => exact pool

theorem ring_room_of_inUse_le (hle : s.inUse ≤ avail + s.transferThread.released)
    (havail : avail < transferRingSize) (hdma : s.dma ≠ []) :
    s.transferRing.length ≠ transferRingSize := by
  have hrel : s.transferThread.released ≤ 1 := by
    cases s.transferThread <;> simp [released]
  have hlen := length_pos_iff.mpr hdma
  simp only [inUse] at hle
  omega

/-- A step that leaves the request thread and the buffers sent alone keeps the stage, when each
completion that it posts is that of a buffer. -/
theorem Stage.frame (h : Stage cfg avail buff o s)
    (hreq : s'.requestThread = s.requestThread) (hsent : s'.sent = s.sent)
    (hin : s'.inUse + s.transferThread.released = s.inUse + s'.transferThread.released)
    (hacks : ∃ acks, s'.completions = s.completions ++ acks ∧
      s'.answered.filterMap (Chunk.ack cfg) = s.answered.filterMap (Chunk.ack cfg) ++ acks ∧
      ((∀ c ∈ s.sent, c.Quiet) → acks = [])) : Stage cfg avail buff o s' := by
  -- a completion is that of a buffer that was sent
  obtain ⟨acks', hcompl, hanswered, hquiet⟩ := hacks
  cases h with
  | active run =>
    obtain ⟨pos, flow, ok, quiet, acks, pool, used⟩ := run
    refine .active ⟨?_, ?_, ?_, ?_, ?_, by omega, ?_⟩
    · rwa [hreq]
    · rwa [hreq, hsent]
    · rwa [hsent]
    · rwa [hreq, hsent]
    · rw [hcompl, hanswered, acks]
    · rwa [hsent]
  | failing err req cause quiet acks pool =>
    refine .failing err (hreq.trans req) cause (by rwa [hsent]) ?_ (by omega)
    rw [hcompl, acks, hquiet quiet, append_nil]
  | failed err req cause quiet acks pool =>
    refine .failed err (hreq.trans req) cause (by rwa [hsent]) ?_ (by omega)
    rw [hcompl, acks, hquiet quiet, append_nil]

theorem Stage.transferThread (h : Stage cfg avail buff o s)
    (e : TransferEffect cfg s s') : Stage cfg avail buff o s' :=
  h.frame e.requestThread e.sent e.inUse e.acks

theorem Stage.dma (h : Stage cfg avail buff o s)
    (hwait : s.transferThread = .waiting ∨ s.transferRing ≠ []) (e : DmaEffect s s') :
    Stage cfg avail buff o s' := by
  refine h.frame e.requestThread e.sent ?_ ⟨[], ?_, ?_, fun _ => rfl⟩
  · rw [e.inUse, e.transferThread]
  · rw [e.completions, append_nil]
  · rw [e.answered hwait, append_nil]

theorem answered_subset : ∀ c ∈ s.answered, c ∈ s.sent := by
  intro c hc
  simp only [answered, mem_append] at hc
  simp only [sent, map_append, mem_append]
  rcases hc with hc | hc
  · exact Or.inl (Or.inl hc)
  · refine Or.inl (Or.inr ?_)
    split at hc
    · exact map_subset _ (take_subset _ _) hc
    · exact map_subset _ (take_subset _ _) hc
    · cases hc

theorem completions_nil (quiet : ∀ c ∈ s.sent, c.Quiet)
    (acks : s.completions = s.answered.filterMap (Chunk.ack cfg)) : s.completions = [] := by
  rw [acks, filterMap_eq_nil_iff]
  exact fun c hc => Chunk.ack_quiet (quiet c (answered_subset c hc))

theorem sent_submit (s : BckndState) (p : TransferParameters) (r : RequestThread) :
    ({ s with dma := s.dma ++ [p], requestThread := r } : BckndState).sent =
      s.sent ++ [p.chunk] := by
  simp [sent]

theorem submit_quiet {job : Job} {id : Nat} {rest : List VcablkRequest} {cur : Cursor} :
    (transfer job id rest cur.advance).Exhausted ∨
      (nextChunk job id rest.isEmpty cur).Quiet := by
  unfold RequestThread.Exhausted Chunk.Quiet
  rw [nextChunk_cookie]
  by_cases h : cur.advance.sectorsNum = 0 ∧ rest.isEmpty = true
  · exact Or.inl ⟨isEmpty_iff.mp h.2, h.1⟩
  · exact Or.inr (if_neg h)

/-- A step of the request thread that leaves the other two parties' buffers alone and completes
nothing -/
structure PipelineKept (s s' : BckndState) : Prop where
  done : s'.done = s.done
  dma : s'.dma = s.dma
  transferRing : s'.transferRing = s.transferRing
  transferThread : s'.transferThread = s.transferThread
  completions : s'.completions = s.completions

namespace PipelineKept

theorem sent (k : PipelineKept s s') : s'.sent = s.sent := by
  unfold BckndState.sent
  rw [k.done, k.dma, k.transferRing]

theorem answered (k : PipelineKept s s') : s'.answered = s.answered := by
  unfold BckndState.answered
  rw [k.done, k.transferRing, k.transferThread]

theorem of_emit {e : Event} {r : RequestThread} (he : (s.emit e).completions = s.completions ++ []) :
    PipelineKept s { s.emit e with requestThread := r } :=
  ⟨rfl, rfl, rfl, rfl, he.trans (append_nil _)⟩

end PipelineKept

namespace Running

variable (h : Running cfg avail buff o s)

include h

theorem moves (k : PipelineKept s s')
    (pos : Position cfg buff o s'.requestThread)
    (pending : s'.requestThread.pending = s.requestThread.pending)
    (quiet : s'.requestThread.Exhausted ∨ ∀ c ∈ s.sent, c.Quiet)
    (hand : s'.poolFree + s'.requestThread.inHand = s.poolFree + s.requestThread.inHand) :
    Stage cfg avail buff o s' := by
  refine .active ⟨pos, ?_, ?_, ?_, ?_, ?_, ?_⟩
  · rw [k.sent, pending, h.flow]
  · rw [k.sent]
    exact h.ok
  · rwa [k.sent]
  · rw [k.completions, k.answered, h.acks]
  · rw [k.transferThread, ← h.pool, inUse, hand, k.dma, k.transferRing]
    rfl
  · rw [k.sent]
    exact h.used

theorem fails (k : PipelineKept s s') {err : Int}
    (cause : Cause cfg avail buff o err) (quiet : ∀ c ∈ s.sent, c.Quiet)
    (req : s'.requestThread = .sendResponse 0 (cookieOf buff) err)
    (pool : s'.poolFree = s.poolFree) : Stage cfg avail buff o s' := by
  refine .failing err req cause ?_ ?_ ?_
  · rw [k.sent]
    exact quiet
  · rw [k.completions]
    exact completions_nil quiet h.acks
  · rw [k.transferThread, ← h.pool, inUse, inUse, req, pool, k.dma,
      k.transferRing]
    simp only [inHand]
    omega

theorem avail_pos (hthread : TransferOk cfg s)
    (hhand : s.requestThread.inHand = 1) : 0 < avail := by
  have hpool := h.pool
  have hrel := hthread.released_le
  simp only [inUse, hhand] at hpool
  omega

theorem begins {id : Nat} {b : List VcablkRequest}
    {o' : Outcomes} (hat : s.requestThread = .request id b o') :
    Stage cfg avail buff o { s with requestThread := beginRequest id b o' } := by
  have pos := h.pos
  have quiet := h.quiet
  rw [hat] at pos quiet
  obtain ⟨rfl, rfl, rfl⟩ := pos
  -- nothing has been sent yet
  have hq : ∀ c ∈ s.sent, c.Quiet := quiet.resolve_left id
  have kept : PipelineKept s { s with requestThread := beginRequest 0 b o' } :=
    ⟨rfl, rfl, rfl, rfl, rfl⟩
  by_cases hacc : Accepted b
  · refine h.moves kept ?_ ?_ (Or.inr hq) ?_
    · rw [beginRequest_eq, if_pos hacc]
      split_ifs with hsync
      · exact ⟨hacc, hsync, rfl, rfl, rfl⟩
      · exact ⟨hacc, fun h => absurd h hsync, rfl, zero_add _, fun k hk => by omega⟩
    · rw [beginRequest_eq, if_pos hacc, hat]
      split_ifs <;> simp [pending, hacc, requestChunks]
    · rw [beginRequest_eq, hat]
      split_ifs <;> rfl
  · refine h.fails kept (.rejected hacc rfl) hq ?_ rfl
    show beginRequest 0 b o' = _
    rw [beginRequest_eq, if_neg hacc]
    rfl

theorem submits (hthread : TransferOk cfg s) {job : Job} {id : Nat}
    {rest : List VcablkRequest} {cur : Cursor} {params : TransferParameters}
    (hat : s.requestThread = .device job id rest cur params) (hret : params.chunk.dma.ret = 0) :
    Stage cfg avail buff o { s with
      dma := s.dma ++ [params]
      requestThread := .transfer job id rest cur.advance } := by
  have pos := h.pos
  have quiet := h.quiet
  have flow := h.flow
  have pool := h.pool
  rw [hat] at pos quiet flow
  obtain ⟨hin, hmore, hchunk, hread⟩ := pos
  have hq : ∀ c ∈ s.sent, c.Quiet := quiet.resolve_left fun h => h
  refine .active ⟨hin, ?_, ?_, ?_, h.acks, ?_, Or.inr (h.avail_pos hthread (by rw [hat]; rfl))⟩
  · rw [sent_submit, ← flow, hchunk]
    simp [pending, partChunks_cons hmore]
  · rw [sent_submit]
    -- the handed over buffer was read and copied without an error
    intro c hc
    rcases mem_append.mp hc with hc | hc
    · exact h.ok c hc
    · rw [mem_singleton.mp hc]
      refine ⟨hret, fun h => hread ?_⟩
      rw [hchunk] at h
      exact h
  · rw [sent_submit]
    refine submit_quiet.imp_right fun hnext c hc => ?_
    rcases mem_append.mp hc with hc | hc
    · exact hq c hc
    · rw [mem_singleton.mp hc, hchunk]
      exact hnext
  · simp only [inUse, hat, inHand, length_append,
      length_singleton] at pool ⊢
    omega

theorem requestThread (hthread : TransferOk cfg s)
    (hs : RequestStep cfg s s') : Stage cfg avail buff o s' := by
  have pos := h.pos
  have quiet := h.quiet
  have flow := h.flow
  cases hs with
  | begin hat => exact h.begins hat
  | @syncFailed job size todo hat stop =>
    rw [hat] at pos quiet
    obtain ⟨hacc, hbefore, rfl, rfl, rfl⟩ := pos
    -- the request has other parts, so it is the sync that failed
    have hne := stop.resolve_right (getInfo_syncBefore hbefore)
    exact h.fails (.of_emit (completions_emit s _)) (.sync hacc hbefore rfl hne)
      (quiet.resolve_left id) rfl rfl
  | @synced job size todo hat hsync more =>
    rw [hat] at pos quiet
    obtain ⟨hacc, hbefore, rfl, rfl, rfl⟩ := pos
    refine h.moves (.of_emit (completions_emit s _))
      ⟨hacc, fun _ => hsync, rfl, zero_add _, fun k hk => by omega⟩ ?_
      (Or.inr (quiet.resolve_left id)) ?_
    all_goals
      rw [hat]
      rfl
  | @finish job id hat =>
    rw [hat] at pos
    obtain ⟨hacc, hsync, -, hcount, hmapped⟩ := pos
    refine h.moves ⟨rfl, rfl, rfl, rfl, rfl⟩ ⟨hacc, hsync, fun k hk => hmapped k ?_⟩ ?_
      (Or.inl trivial) ?_
    · simp only [length_nil] at hcount
      omega
    all_goals
      rw [hat]
      rfl
  | @mapped job id request rest hat hmap =>
    rw [hat] at pos quiet
    obtain ⟨hacc, hsync, rfl, hcount, hmapped⟩ := pos
    simp only [length_cons] at hcount
    refine h.moves (.of_emit (completions_emit s _)) ⟨hacc, hsync, rfl, by omega, fun k hk => ?_⟩ ?_
      (Or.inr (quiet.resolve_left (cons_ne_nil _ _))) ?_
    · rcases lt_or_eq_of_le hk with hlt | rfl
      · exact hmapped k hlt
      · exact hmap
    all_goals
      rw [hat]
      rfl
  | @mapFailed job id request rest hat hmap =>
    rw [hat] at pos quiet
    obtain ⟨hacc, hsync, rfl, hcount, -⟩ := pos
    simp only [length_cons] at hcount
    exact h.fails ⟨rfl, rfl, rfl, rfl, rfl⟩ (.ioremap hacc hsync id (by omega) hmap rfl)
      (quiet.resolve_left (cons_ne_nil _ _)) rfl rfl
  | @partDone job id rest cur hat hempty =>
    rw [hat] at pos quiet
    refine h.moves ⟨rfl, rfl, rfl, rfl, rfl⟩ ⟨pos.accepted, pos.synced, pos.job_eq, pos.count,
      fun k hk => pos.mapped k (by omega)⟩ ?_ (quiet.imp_left fun h => h.1) ?_
    · rw [hat]
      simp only [pending, partChunks_nil hempty]
      rfl
    · rw [hat]
      rfl
  | @pop job id rest cur hat hmore hfree =>
    rw [hat] at pos quiet
    refine h.moves ⟨rfl, rfl, rfl, rfl, rfl⟩ ⟨pos, hmore⟩ ?_
      (Or.inr (quiet.resolve_left fun h => hmore h.2)) ?_
    · rw [hat]
      rfl
    · rw [hat]
      simp only [inHand]
      omega
  | @fillWrite job id rest cur hat hwrite =>
    rw [hat] at pos quiet
    refine h.moves ⟨rfl, rfl, rfl, rfl, rfl⟩ ⟨pos.1, pos.2, rfl, fun hread => ?_⟩ ?_
      (Or.inr (quiet.resolve_left fun h => h)) ?_
    · rw [hwrite] at hread
      cases hread
    all_goals
      rw [hat]
      rfl
  | @readFailed job id rest cur done hat hread hdone hret =>
    rw [hat] at pos quiet flow
    obtain ⟨hin, hmore⟩ := pos
    have hmem : nextChunk job id rest.isEmpty cur ∈ plan buff o := by
      rw [← flow]
      simp [pending, partChunks_cons hmore]
    have havail := h.avail_pos hthread (by rw [hat]; rfl)
    refine h.fails (.of_emit (completions_emit s _))
      (.read hin.accepted hin.synced havail _ hmem hread (by rw [hdone]) hret)
      (quiet.resolve_left fun h => h) ?_ rfl
    rw [hin.job_eq]
    rfl
  | @fillRead job id rest cur done params hat hread hdone hret hparams =>
    rw [hat] at pos quiet
    refine h.moves (.of_emit (completions_emit s _))
      ⟨pos.1, pos.2, by rw [hparams], fun _ => by rw [hparams, ← hdone, hret]⟩ ?_
      (Or.inr (quiet.resolve_left fun h => h)) ?_
    all_goals
      rw [hat]
      rfl
  | @submitFailed job id rest cur params hat hret =>
    rw [hat] at pos quiet flow
    obtain ⟨hin, hmore, hchunk, -⟩ := pos
    have hmem : params.chunk ∈ plan buff o := by
      rw [← flow, hchunk]
      simp [pending, partChunks_cons hmore]
    have havail := h.avail_pos hthread (by rw [hat]; rfl)
    refine h.fails (.of_emit (completions_emit s _))
      (.dma hin.accepted hin.synced havail _ hmem rfl hret) (quiet.resolve_left fun h => h) ?_ rfl
    rw [hin.job_eq]
    rfl
  | submit hat hret => exact h.submits hthread hat hret
  | @respond id cookie err hat =>
    rw [hat] at pos
    exact pos.elim

end Running

theorem Stage.requestThread (h : Stage cfg avail buff o s)
    (hthread : TransferOk cfg s) (hs : RequestStep cfg s s') : Stage cfg avail buff o s' := by
  cases h with
  | active run => exact run.requestThread hthread hs
  | failing err req cause quiet acks pool =>
    cases hs with
    | @respond id cookie err' hat =>
      rw [req] at hat
      cases hat
      refine .failed err rfl cause quiet ?_ ?_
      · have hc := completions_emit s (.completion 0 ⟨cookieOf buff, toS8 err⟩)
        rw [acks] at hc
        exact hc
      · simp only [inUse, req, inHand] at pool ⊢
        exact pool
    | _ => simp_all
  | failed err req _ _ _ _ => cases hs <;> simp_all

end

/-! ## Runs -/

/-- The runs of the three parties from the call of `vcablk_bcknd_disk_request` on. -/
def requestSystem (cfg : BckndConfig) (avail : Nat) (mediaBytes cardBytes : Nat → UInt8)
    (buff : List VcablkRequest) (o : Outcomes) : System BckndState BckndThread where
  Init s := s = BckndState.called avail mediaBytes cardBytes buff o
  step := bckndThreadStep cfg

section

variable {avail : Nat} {mediaBytes cardBytes : Nat → UInt8}
  {buff : List VcablkRequest} {o : Outcomes}

/-- **Every state of a run is in one of the stages.** -/
theorem stage_of_reachable (havail : avail < transferRingSize)
    (h : (requestSystem cfg avail mediaBytes cardBytes buff o).Reachable s) :
    TransferOk cfg s ∧ Stage cfg avail buff o s := by
  refine System.Reachable.invariant (I := fun s => TransferOk cfg s ∧ Stage cfg avail buff o s)
    ?_ ?_ h
  · rintro s rfl
    refine ⟨trivial, .active ⟨⟨rfl, rfl, rfl⟩, rfl, ?_, Or.inr ?_, rfl, rfl, Or.inl rfl⟩⟩
    · intro c hc
      cases hc
    · intro c hc
      cases hc
  · rintro s t s' ⟨ok, stage⟩ hstep
    cases bckndThreadStep_cases hstep with
    | requestThread hcases =>
      refine ⟨?_, stage.requestThread ok hcases⟩
      have hthread : s'.transferThread = s.transferThread ∧ s'.transferRing = s.transferRing := by
        cases hcases <;> exact ⟨rfl, rfl⟩
      exact ok.append hthread.1 (l := []) (by rw [hthread.2, append_nil])
    | dma busy hstep =>
      -- every element of the ring has a buffer, and there are fewer buffers than slots
      have e := dmaStep_effect (dmaStep_cases (ring_room_of_inUse_le stage.inUse_le havail busy) hstep)
      obtain ⟨p, hp⟩ := e.ring
      exact ⟨ok.append e.transferThread hp, stage.dma ok.waiting_or_ne e⟩
    | transferThread hcases =>
      have e := transferThreadStep_effect ok hcases
      exact ⟨e.ok, stage.transferThread e⟩

/-- When no party can move, the pipeline is empty and the request thread is done or waits
for a buffer. -/
theorem Quiescent.cases (h : s.Quiescent cfg) :
    s.dma = [] ∧ s.transferRing = [] ∧
      (s.requestThread = .idle ∨ (∃ job id rest cur,
        s.requestThread = .transfer job id rest cur ∧ cur.sectorsNum ≠ 0 ∧ s.poolFree = 0)) := by
  have hdma : s.dma = [] := by
    cases hd : s.dma with
    | nil => rfl
    | cons p rest =>
      -- a copy that is under way can be finished
      have hnone := h .dma
      simp only [bckndThreadStep, dmaStep, hd] at hnone
      split at hnone <;> cases hnone
  have hring : s.transferRing = [] := by
    cases hr : s.transferRing with
    | nil => rfl
    | cons p rest =>
      have hnone := h .transferThread
      simp only [bckndThreadStep, transferThreadStep, hr] at hnone
      split at hnone
      · split_ifs at hnone
      · split_ifs at hnone
      · cases hnone
      · cases hnone
      · cases hnone
  refine ⟨hdma, hring, ?_⟩
  have hnone := h .requestThread
  simp only [bckndThreadStep, hdma, ne_eq, not_true_eq_false, and_false, if_false,
    requestThreadStep] at hnone
  split at hnone
  · -- the thread can go on unless it is idle or the pool is empty
    rename_i hidle
    exact Or.inl hidle
  · cases hnone
  · split_ifs at hnone
  · cases hnone
  · split_ifs at hnone
  · rename_i job id rest cur htransfer
    split_ifs at hnone with hnum hpool
    exact Or.inr ⟨job, id, rest, cur, htransfer, hnum, hpool⟩
  · split_ifs at hnone
  · split_ifs at hnone
  · cases hnone

/-! ## Termination -/

/-- Steps that the request thread and its buffers can still take, at most -/
def RequestThread.work : RequestThread → Nat
  | .idle => 0
  | .request id requestBuff outcomes =>
    match beginRequest id requestBuff outcomes with
    | .syncBefore _ _ todo => 4 + (todo.map fun r => 10 * r.sectorsNum + 4).sum
    | .parts _ _ todo => 3 + (todo.map fun r => 10 * r.sectorsNum + 4).sum
    | _ => 2
  | .syncBefore _ _ todo => 3 + (todo.map fun r => 10 * r.sectorsNum + 4).sum
  | .parts _ _ todo => 2 + (todo.map fun r => 10 * r.sectorsNum + 4).sum
  | .transfer _ _ rest cur =>
    5 + 10 * cur.sectorsNum + (rest.map fun r => 10 * r.sectorsNum + 4).sum
  | .filling _ _ rest cur =>
    13 + 10 * cur.advance.sectorsNum + (rest.map fun r => 10 * r.sectorsNum + 4).sum
  | .device _ _ rest cur _ =>
    12 + 10 * cur.advance.sectorsNum + (rest.map fun r => 10 * r.sectorsNum + 4).sum
  | .sendResponse _ _ _ => 1

/-- How far the transfer thread is with the first ring element -/
def TransferThread.progress : TransferThread → Nat
  | .waiting => 0
  | .written _ => 1
  | .respond _ => 2
  | .release => 3
  | .advance => 4

/-- A bound on the number of steps still to come -/
def BckndState.runMeasure (s : BckndState) : Nat :=
  s.requestThread.work + 6 * s.dma.length + (5 * s.transferRing.length - s.transferThread.progress)

theorem requestStep_work (h : RequestStep cfg s s') :
    s'.requestThread.work + 6 * s'.dma.length < s.requestThread.work + 6 * s.dma.length ∧
      s'.transferRing = s.transferRing ∧ s'.transferThread = s.transferThread := by
  have hframe : s'.transferRing = s.transferRing ∧ s'.transferThread = s.transferThread := by
    cases h <;> exact ⟨rfl, rfl⟩
  refine ⟨?_, hframe⟩
  cases h with
  | begin hat =>
    simp only [hat, work, beginRequest_eq]
    split_ifs <;> simp only <;> omega
  | syncFailed hat _ | synced hat _ _ | readFailed hat _ _ _ | fillRead hat _ _ _ _
  | submitFailed hat _ | respond hat =>
    simp only [hat, work, emit_dma]
    omega
  | finish hat | mapFailed hat _ | fillWrite hat _ =>
    simp only [hat, work]
    omega
  | mapped hat _ =>
    simp only [hat, work, emit_dma, map_cons, sum_cons, Cursor.start]
    omega
  | partDone hat hempty =>
    simp only [hat, work, hempty]
    omega
  | pop hat hmore _ =>
    -- each turn takes some of the sectors
    have hlt := Cursor.advance_sectorsNum_lt hmore
    simp only [hat, work]
    omega
  | submit hat _ =>
    simp only [hat, work, length_append, length_singleton]
    omega

/-- **Every run ends.** -/
theorem runMeasure_decreases (t : BckndThread)
    (h : bckndThreadStep cfg s t = some s') : s'.runMeasure < s.runMeasure := by
  cases bckndThreadStep_cases h with
  | requestThread hstep =>
    obtain ⟨hwork, hring, hthread⟩ := requestStep_work hstep
    simp only [runMeasure, hring, hthread]
    omega
  | dma _ hstep =>
    have hdma : s'.requestThread = s.requestThread ∧ s'.transferThread = s.transferThread ∧
        s'.dma.length + 1 = s.dma.length ∧
        s'.transferRing.length ≤ s.transferRing.length + 1 := by
      unfold dmaStep vcaBckndCallbackDma at hstep
      cases hd : s.dma with
      | nil => simp [hd] at hstep
      | cons p rest =>
        simp only [hd] at hstep
        split_ifs at hstep <;> cases hstep <;> simp
    simp only [runMeasure, hdma.1, hdma.2.1]
    omega
  | transferThread hstep =>
    cases hstep with
    | write ring phase _ _ | flush ring phase _ _ | respond ring phase =>
      simp only [runMeasure, phase, ring, progress, length_cons,
        emit_requestThread, emit_dma, emit_transferRing]
      omega
    | skip ring phase _ | silent ring phase _ | noFlush ring phase _ _ | release ring phase
    | advance ring phase =>
      simp only [runMeasure, phase, ring, progress, length_cons]
      omega

end

end Vcass.BlockIo
