import Vcass.BlockIo.ErrorFidelity
import Vcass.BlockIo.Geometry

/-!
# The Pipeline over Many Requests

The open disk: the request thread dequeues one request after the other while copies and
media writes of earlier requests are still under way, and the card may change its own memory
at any time.  When every operation succeeds, the buffers that were handed over and those
still to cut are, in this order, the buffers of the dequeued requests (`Flow`).
-/

namespace Vcass.BlockIo

open Vcass.Core List RequestThread BckndState

/-! ## The open disk -/

/-- A step of the open disk: `vcablk_bcknd_disk_get_next_request` returns a request, the card
changes its memory, or one of the three parties goes on. -/
inductive BckndAct where
  | dequeue (requestBuff : List VcablkRequest) (outcomes : Outcomes)
  | cardStore (cardBytes : Nat → UInt8)
  | thread (t : BckndThread)

/-- One step; a request is dequeued only by the idle request thread. -/
def bckndStep (cfg : BckndConfig) (s : BckndState) : BckndAct → Option BckndState
  | .dequeue requestBuff outcomes =>
    match s.requestThread with
    | .idle =>
      some { s.emit (.dequeued s.requests requestBuff outcomes) with
        requestThread := .request s.requests requestBuff outcomes
        requests := s.requests + 1 }
    | _ => none
  | .cardStore cardBytes => some { s.emit (.cardStore cardBytes) with cardBytes := cardBytes }
  | .thread t => bckndThreadStep cfg s t

def BckndState.opened (avail : Nat) (mediaBytes cardBytes : Nat → UInt8) : BckndState :=
  { mediaBytes := mediaBytes
    cardBytes := cardBytes
    poolFree := avail
    requestThread := .idle
    dma := []
    transferRing := []
    transferThread := .waiting
    requests := 0
    done := []
    trace := [] }

/-- The runs of an open disk -/
def bckndSystem (cfg : BckndConfig) (avail : Nat) (mediaBytes cardBytes : Nat → UInt8) :
    System BckndState BckndAct where
  Init s := s = BckndState.opened avail mediaBytes cardBytes
  step := bckndStep cfg

/-! ## What the environment promises -/

/-- The request is a write. -/
def IsWrite (buff : List VcablkRequest) : Prop :=
  (vcablkBckndDiskRequestGetInfo buff).2.type = requestWrite

/-- An accepted request in range of the media, all of whose media, mapping and copy operations
succeed. -/
structure Succeeds (media : VcablkMedia) (id : Nat) (buff : List VcablkRequest) (o : Outcomes) :
    Prop where
  accepted : Accepted buff
  range : ∀ r ∈ dataOf buff, 512 * (r.sector + r.sectorsNum) ≤ media.sizeBytes
  writable : IsWrite buff → media.type = .file → media.readOnly = false
  file : ∀ c ∈ requestChunks id buff o, media.type = .file → (512 * c.param.nsec : Int) ≤ c.file
  synced : vcablkMediaSync media o.fsyncBefore = 0 ∧ vcablkMediaSync media o.fsyncAfter = 0
  mapped : ∀ k < (dataOf buff).length, o.ioremap k = true
  copied : ∀ c ∈ requestChunks id buff o, c.dma.ret = 0

/-- Runs in which every dequeued request succeeds -/
def AllSucceed (media : VcablkMedia) (s : BckndState) (a : BckndAct) (_ : BckndState) : Prop :=
  match a with
  | .dequeue buff o => Succeeds media s.requests buff o
  | _ => True

section

variable {media : VcablkMedia} {id : Nat} {buff : List VcablkRequest} {o : Outcomes}

theorem Succeeds.fits (h : Succeeds media id buff o) : ∀ r ∈ dataOf buff, r.Fits := by
  intro r hr
  have hrange := h.range r hr
  have hlt := media.sizeBytes_lt
  unfold VcablkRequest.Fits
  omega

theorem Succeeds.within (h : Succeeds media id buff o) :
    ∀ c ∈ requestChunks id buff o, ∃ r ∈ dataOf buff, c.Within r :=
  jobChunks_within h.fits 0

/-- **The media takes every buffer** of a succeeding request. -/
theorem Succeeds.transfers (h : Succeeds media id buff o) :
    ∀ c ∈ requestChunks id buff o, c.Transfers media := by
  intro c hc
  obtain ⟨r, hr, hin⟩ := h.within c hc
  -- the buffer lies in a part, and the part in the media
  have hinside : 512 * (c.param.sector + c.param.nsec) ≤ media.sizeBytes := by
    have hrange := h.range r hr
    have hhi := hin.hi
    omega
  -- the only refusal inside the media is a write to a read-only file
  refine ⟨hinside, fun hrefused => ?_, h.file c hc⟩
  obtain ⟨htype, hw, hro⟩ := hrefused
  rw [(jobChunks_of _ _ 0 c hc).isWrite] at hw
  rw [h.writable (by simpa [jobOf, IsWrite] using hw) htype] at hro
  cases hro

end

/-! ## The buffers of the dequeued requests -/

/-- The buffers of all requests dequeued so far, in order. -/
def planned (trace : List Event) : List Chunk :=
  trace.flatMap fun
    | .dequeued id buff o => requestChunks id buff o
    | _ => []

theorem planned_append (trace es : List Event) :
    planned (trace ++ es) = planned trace ++ planned es :=
  flatMap_append

theorem planned_quiet {es : List Event} (h : ∀ id b o, .dequeued id b o ∉ es) :
    planned es = [] := by
  rw [planned, flatMap_eq_nil_iff]
  intro e he
  cases e with
  | dequeued id b o => exact absurd he (h id b o)
  | _ => rfl

theorem mem_planned {trace : List Event} {c : Chunk} :
    c ∈ planned trace ↔ ∃ id b o, .dequeued id b o ∈ trace ∧ c ∈ requestChunks id b o := by
  rw [planned, mem_flatMap]
  constructor
  · rintro ⟨e, he, hc⟩
    cases e with
    | dequeued id b o => exact ⟨id, b, o, he, hc⟩
    | _ => cases hc
  · rintro ⟨id, b, o, he, hc⟩
    exact ⟨_, he, hc⟩

/-- The request thread works on a dequeued request. -/
def Working (trace : List Event) (job : Job) (buff : List VcablkRequest) (o : Outcomes) : Prop :=
  .dequeued job.id buff o ∈ trace ∧ job = jobOf job.id buff o

/-- The request thread is inside part `id` of a dequeued request, with `rest` behind it. -/
def WorkingIn (trace : List Event) (job : Job) (id : Nat) (rest : List VcablkRequest) : Prop :=
  ∃ buff o, Working trace job buff o ∧ id + 1 + rest.length = (dataOf buff).length

/-- Where the request thread is, when nothing fails. -/
def Current (trace : List Event) : RequestThread → Prop
  | .idle => True
  | .request id buff o => .dequeued id buff o ∈ trace
  | .syncBefore job size todo => ∃ buff o, Working trace job buff o ∧ size = buff.length ∧
      (vcablkBckndDiskRequestGetInfo buff).2.syncBefore = true ∧ todo = dataOf buff
  | .parts job id todo => ∃ buff o, Working trace job buff o ∧
      id + todo.length = (dataOf buff).length
  | .transfer job id rest _ => WorkingIn trace job id rest
  | .filling job id rest cur => WorkingIn trace job id rest ∧ cur.sectorsNum ≠ 0
  | .device job id rest cur p => WorkingIn trace job id rest ∧ cur.sectorsNum ≠ 0 ∧
      p.chunk = nextChunk job id rest.isEmpty cur
  | .sendResponse _ _ _ => False

theorem WorkingIn.mono {trace es : List Event} {job : Job} {id : Nat}
    {rest : List VcablkRequest} (h : WorkingIn trace job id rest) :
    WorkingIn (trace ++ es) job id rest := by
  obtain ⟨b, o, hw, hcount⟩ := h
  exact ⟨b, o, ⟨mem_append_left _ hw.1, hw.2⟩, hcount⟩

theorem Current.mono {trace es : List Event} {r : RequestThread} (h : Current trace r) :
    Current (trace ++ es) r := by
  cases r with
  | idle => trivial
  | request id b o => exact mem_append_left _ h
  | syncBefore job size todo | parts job id todo =>
    obtain ⟨b, o, hw, hrest⟩ := h
    exact ⟨b, o, ⟨mem_append_left _ hw.1, hw.2⟩, hrest⟩
  | transfer job id rest cur => exact WorkingIn.mono h
  | filling job id rest cur | device job id rest cur p => exact ⟨WorkingIn.mono h.1, h.2⟩
  | sendResponse id cookie err => exact h

/-! ## The flow of buffers -/

/-- Where the buffers of the dequeued requests are. -/
structure Flow (cfg : BckndConfig) (avail : Nat) (s : BckndState) : Prop where
  thread : TransferOk cfg s
  trace : TraceOk cfg s
  pool : s.inUse ≤ avail + s.transferThread.released
  flow : s.sent ++ s.requestThread.pending = planned s.trace
  order : (planned s.trace).Pairwise Chunk.Before
  ids : ∀ id b o, .dequeued id b o ∈ s.trace → id < s.requests ∧ Succeeds cfg.media id b o
  unique : ∀ id b o b' o', .dequeued id b o ∈ s.trace → .dequeued id b' o' ∈ s.trace →
    b = b' ∧ o = o'
  current : Current s.trace s.requestThread

section

variable {cfg : BckndConfig} {avail : Nat} {s s' : BckndState}

section

variable (f : Flow cfg avail s)

include f

theorem Flow.ring_room (havail : avail < transferRingSize)
    (hdma : s.dma ≠ []) : s.transferRing.length ≠ transferRingSize :=
  ring_room_of_inUse_le f.pool havail hdma

theorem Flow.transfers {c : Chunk} (hc : c ∈ planned s.trace) :
    c.Transfers cfg.media ∧ c.dma.ret = 0 := by
  obtain ⟨id, b, o, he, hc⟩ := mem_planned.mp hc
  have hok := (f.ids id b o he).2
  exact ⟨hok.transfers c hc, hok.copied c hc⟩

theorem Flow.pending_planned {c : Chunk}
    (hc : c ∈ s.requestThread.pending) : c ∈ planned s.trace := by
  rw [← f.flow]
  exact mem_append_right _ hc

theorem Flow.sent_planned {c : Chunk} (hc : c ∈ s.sent) :
    c ∈ planned s.trace := by
  rw [← f.flow]
  exact mem_append_left _ hc

theorem Flow.next_planned {job : Job} {id : Nat}
    {rest : List VcablkRequest} {cur : Cursor} (hmore : cur.sectorsNum ≠ 0)
    (hat : s.requestThread.pending =
      partChunks job id rest.isEmpty cur ++ jobChunks job (id + 1) rest) :
    nextChunk job id rest.isEmpty cur ∈ planned s.trace := by
  apply f.pending_planned
  rw [hat, partChunks_cons hmore]
  exact mem_cons_self

end

/-! ## Steps that dequeue nothing -/

/-- A step that only adds events other than a dequeue. -/
def Extends (s s' : BckndState) : Prop :=
  ∃ es, s'.trace = s.trace ++ es ∧ ∀ id b o, .dequeued id b o ∉ es

theorem requestStep_extends (h : RequestStep cfg s s') : Extends s s' := by
  cases h with
  | begin _ | finish _ | mapFailed _ _ | partDone _ _ | pop _ _ _ | fillWrite _ _ | submit _ _ =>
    exact ⟨[], by simp, by simp⟩
  | _ => exact ⟨[_], rfl, by simp⟩

theorem dmaStep_extends (h : DmaStep s s') : Extends s s' := by
  cases h with
  | fromCard _ _ _ unmap | toCard _ _ unmap =>
    rcases unmap with rfl | rfl
    · exact ⟨[_], rfl, by simp⟩
    · exact ⟨[_, _], append_assoc _ _ _, by simp⟩

theorem transferStep_extends (h : TransferStep cfg s s') : Extends s s' := by
  cases h with
  | write _ _ _ _ | flush _ _ _ _ | respond _ _ => exact ⟨[_], rfl, by simp⟩
  | _ => exact ⟨[], by simp, by simp⟩

theorem Flow.extends (f : Flow cfg avail s) (h : Extends s s') (thread : TransferOk cfg s')
    (trace : TraceOk cfg s') (pool : s'.inUse ≤ avail + s'.transferThread.released)
    (hflow : s'.sent ++ s'.requestThread.pending = s.sent ++ s.requestThread.pending)
    (hreq : s'.requests = s.requests) (hcur : Current s'.trace s'.requestThread) :
    Flow cfg avail s' := by
  obtain ⟨es, htrace, hes⟩ := h
  have hplan : planned s'.trace = planned s.trace := by
    rw [htrace, planned_append, planned_quiet hes, append_nil]
  -- no step but dequeuing records a request
  have hold : ∀ id b o, .dequeued id b o ∈ s'.trace → .dequeued id b o ∈ s.trace := by
    intro id b o he
    rw [htrace] at he
    exact (mem_append.mp he).resolve_right (hes id b o)
  refine ⟨thread, trace, pool, ?_, ?_, ?_, ?_, hcur⟩
  · rw [hflow, hplan]
    exact f.flow
  · rw [hplan]
    exact f.order
  · rw [hreq]
    exact fun id b o he => f.ids id b o (hold id b o he)
  · exact fun id b o b' o' he he' => f.unique id b o b' o' (hold id b o he) (hold id b' o' he')

/-! ## The request thread -/

section

variable (h : RequestStep cfg s s')

include h

theorem requestStep_inUse : s'.inUse ≤ s.inUse := by
  cases h with
  | @begin id b o hat =>
    -- a request that was just begun holds no buffer
    have hin : (beginRequest id b o).inHand = 0 := by
      rw [beginRequest_eq]
      split_ifs <;> rfl
    have hin' : s.requestThread.inHand = 0 := by rw [hat]; rfl
    simp only [inUse, hin, hin']
    omega
  | pop hat _ _ =>
    simp only [inUse, hat, inHand]
    omega
  | submit hat _ =>
    simp only [inUse, hat, inHand, length_append,
      length_singleton]
    omega
  | _ =>
    rename_i hat _
    simp_all [inUse, inHand]

theorem requestStep_flow (hcur : Current s.trace s.requestThread)
    (hok : ∀ id cookie err, s'.requestThread ≠ .sendResponse id cookie err) :
    s'.sent ++ s'.requestThread.pending = s.sent ++ s.requestThread.pending := by
  cases h with
  | @begin id b o hat =>
    have hpending : (beginRequest id b o).pending = s.requestThread.pending := by
      -- a refused request would be answered at once
      have hacc : Accepted b := by
        by_contra hno
        exact hok id _ _ ((beginRequest_eq id b o).trans (if_neg hno))
      rw [hat, beginRequest_eq, if_pos hacc, pending, if_pos hacc]
      split_ifs <;> rfl
    show s.sent ++ (beginRequest id b o).pending = _
    rw [hpending]
  | synced hat _ _ | finish hat | mapped hat _ | pop hat _ _ | fillWrite hat _
  | fillRead hat _ _ _ _ | respond hat =>
    rw [hat]
    rfl
  | partDone hat empty =>
    rw [hat]
    simp only [pending, partChunks_nil empty, nil_append]
    rfl
  | submit hat _ =>
    -- the buffer that is handed over is the next one of the part
    rw [hat] at hcur ⊢
    rw [sent_submit, hcur.2.2]
    simp [pending, partChunks_cons hcur.2.1]
  | _ => exact absurd rfl (hok _ _ _)

/-- **Nothing fails**: the request thread goes on with its request. -/
theorem Flow.requestStep_current (f : Flow cfg avail s) :
    Current s'.trace s'.requestThread := by
  have hcur := f.current
  cases h with
  | @begin id b o hat =>
    rw [hat] at hcur
    -- what fails is what the environment has promised not to fail
    have hacc := (f.ids id b o hcur).2.accepted
    show Current s.trace (beginRequest id b o)
    rw [beginRequest_eq, if_pos hacc]
    split_ifs with hsync
    · exact ⟨b, o, ⟨hcur, rfl⟩, rfl, hsync, rfl⟩
    · exact ⟨b, o, ⟨hcur, rfl⟩, zero_add _⟩
  | @syncFailed job size todo hat stop =>
    rw [hat] at hcur
    obtain ⟨b, o, hw, rfl, hbefore, -⟩ := hcur
    have hsync := (f.ids _ b o hw.1).2.synced.1
    rw [hw.2] at stop
    exact absurd (stop.resolve_right (getInfo_syncBefore hbefore)) (not_not.mpr hsync)
  | @synced job size todo hat ok more =>
    rw [hat] at hcur
    obtain ⟨b, o, hw, -, -, rfl⟩ := hcur
    exact ⟨b, o, ⟨mem_append_left _ hw.1, hw.2⟩, zero_add _⟩
  | finish hat => trivial
  | @mapped job id request rest hat ok =>
    rw [hat] at hcur
    obtain ⟨b, o, hw, hcount⟩ := hcur
    refine ⟨b, o, ⟨mem_append_left _ hw.1, hw.2⟩, ?_⟩
    simp only [length_cons] at hcount
    omega
  | @mapFailed job id request rest hat failed =>
    rw [hat] at hcur
    obtain ⟨b, o, hw, hcount⟩ := hcur
    simp only [length_cons] at hcount
    have hmap := (f.ids _ b o hw.1).2.mapped id (by omega)
    rw [hw.2] at failed
    exact absurd (hmap.symm.trans failed) (by simp)
  | partDone hat empty =>
    rw [hat] at hcur
    exact hcur
  | pop hat more free =>
    rw [hat] at hcur
    exact ⟨hcur, more⟩
  | fillWrite hat write =>
    rw [hat] at hcur
    exact ⟨hcur.1, hcur.2, rfl⟩
  | readFailed hat read done_eq failed =>
    rw [hat] at hcur
    have hnext := (f.transfers (f.next_planned hcur.2 (by rw [hat]; rfl))).1.admitted
    rw [done_eq] at failed
    exact absurd (mediaTransfer_ret_iff.mpr hnext) failed
  | fillRead hat read done_eq ok params_eq =>
    rw [hat] at hcur
    exact ⟨hcur.1.mono, hcur.2, by rw [params_eq]⟩
  | submitFailed hat failed =>
    rw [hat] at hcur
    have hnext := (f.transfers (f.next_planned hcur.2.1 (by rw [hat]; rfl))).2
    rw [hcur.2.2] at failed
    exact absurd hnext failed
  | submit hat ok =>
    rw [hat] at hcur
    exact hcur.1
  | respond hat =>
    rw [hat] at hcur
    exact hcur.elim

theorem Flow.requestThread (f : Flow cfg avail s) :
    Flow cfg avail s' := by
  obtain ⟨-, hring, hthread, -⟩ := requestStep_frame h
  have hcur := f.requestStep_current h
  refine f.extends (requestStep_extends h) ?_ (f.trace.requestThread h) ?_
    (requestStep_flow h f.current ?_) ?_ hcur
  · exact f.thread.append hthread (l := []) (by rw [hring, append_nil])
  · rw [hthread]
    exact le_trans (requestStep_inUse h) f.pool
  · -- `sendResponse` is entered only after an error
    intro id cookie err heq
    rw [heq] at hcur
    exact hcur
  · cases h <;> rfl

end

/-! ## The other parties -/

theorem Flow.dma (f : Flow cfg avail s) (h : DmaStep s s') (e : DmaEffect s s') :
    Flow cfg avail s' := by
  obtain ⟨p, hp⟩ := e.ring
  refine f.extends (dmaStep_extends h) (f.thread.append e.transferThread hp)
    (f.trace.dma f.thread.waiting_or_ne h) ?_ ?_ ?_ ?_
  · rw [e.inUse, e.transferThread]
    exact f.pool
  · rw [e.sent, e.requestThread]
  · cases h with
    | fromCard _ _ _ unmap | toCard _ _ unmap => rcases unmap with rfl | rfl <;> rfl
  · obtain ⟨es, htrace, -⟩ := dmaStep_extends h
    rw [htrace, e.requestThread]
    exact f.current.mono

theorem Flow.transferThread (f : Flow cfg avail s) (h : TransferStep cfg s s')
    (e : TransferEffect cfg s s') : Flow cfg avail s' := by
  refine f.extends (transferStep_extends h) e.ok (f.trace.transferThread h) ?_ ?_ ?_ ?_
  · have hin := e.inUse
    have hpool := f.pool
    omega
  · rw [e.sent, e.requestThread]
  · cases h <;> rfl
  · obtain ⟨es, htrace, -⟩ := transferStep_extends h
    rw [htrace, e.requestThread]
    exact f.current.mono

/-- An event that is none of the transfer thread's or the request thread's own does not
disturb the record of buffers. -/
theorem TraceOk.emit {e : Event} (ok : TraceOk cfg s) (hread : ∀ p r, e ≠ .mediaRead p r)
    (hwrite : ∀ p r, e ≠ .mediaWrite p r) (hsync : ∀ id err, e ≠ .mediaSync id true err)
    (hdone : s'.done = s.done) (hring : s'.transferRing = s.transferRing) (hdma : s'.dma = s.dma)
    (hthread : s'.transferThread = s.transferThread) (htrace : s'.trace = s.trace ++ [e])
    (hheld : ∀ job id rest cur p, s'.requestThread = .device job id rest cur p →
      s.requestThread = .device job id rest cur p) : TraceOk cfg s' := by
  have hwritten : s'.written = s.written := by
    simp only [BckndState.written, hdone, hring, hthread]
  have hflushed : s'.flushed = s.flushed := by
    simp only [BckndState.flushed, hdone, hring, hthread]
  refine ok.within hdone hring hdma hheld htrace [] [] (by rw [hwritten, append_nil])
    (by rw [hflushed, append_nil])
    (.quiet (forall_mem_nil _) (forall_mem_nil _) ?_) ?_
  · intro e' he
    rw [mem_singleton.mp he]
    exact ⟨hread, hwrite, hsync⟩
  · rw [hthread]
    exact ok.phase

theorem Flow.cardStore (f : Flow cfg avail s) (g : Nat → UInt8) :
    Flow cfg avail { s.emit (.cardStore g) with cardBytes := g } := by
  refine f.extends ⟨[_], rfl, by simp⟩ f.thread ?_ f.pool rfl rfl f.current.mono
  exact f.trace.emit (by simp) (by simp) (by simp) rfl rfl rfl rfl rfl fun _ _ _ _ _ h => h

theorem Flow.dequeue (f : Flow cfg avail s) {b : List VcablkRequest} {o : Outcomes}
    (hidle : s.requestThread = .idle) (hok : Succeeds cfg.media s.requests b o) :
    Flow cfg avail { s.emit (.dequeued s.requests b o) with
      requestThread := .request s.requests b o
      requests := s.requests + 1 } := by
  have hplan : planned (s.trace ++ [.dequeued s.requests b o]) =
      planned s.trace ++ requestChunks s.requests b o := by
    simp [planned]
  refine ⟨f.thread, ?_, ?_, ?_, ?_, ?_, ?_, ?_⟩
  · exact f.trace.emit (by simp) (by simp) (by simp) rfl rfl rfl rfl rfl
      fun _ _ _ _ _ h => by cases h
  · have hpool := f.pool
    simp only [inUse, hidle, RequestThread.inHand] at hpool ⊢
    exact hpool
  · have hflow := f.flow
    -- the idle thread has nothing pending
    rw [hidle] at hflow
    simp only [RequestThread.pending, append_nil] at hflow
    show s.sent ++ (if Accepted b then requestChunks s.requests b o else []) =
      planned (s.trace ++ [.dequeued s.requests b o])
    rw [hplan, ← hflow, if_pos hok.accepted]
  · show (planned (s.trace ++ [.dequeued s.requests b o])).Pairwise Chunk.Before
    rw [hplan]
    refine pairwise_append.mpr ⟨f.order, requestChunks_pairwise _ _ _, ?_⟩
    -- the buffers of earlier requests have smaller numbers
    intro c hc d hd
    obtain ⟨j, b', o', he, hc⟩ := mem_planned.mp hc
    have hlt := (f.ids j b' o' he).1
    have hcj : c.request = j := (jobChunks_of _ _ 0 c hc).request
    have hdj : d.request = s.requests := (jobChunks_of _ _ 0 d hd).request
    exact ⟨by omega, fun _ => by omega⟩
  · intro id b' o' he
    simp only [emit_trace, mem_append, mem_singleton, Event.dequeued.injEq] at he
    rcases he with he | ⟨rfl, rfl, rfl⟩
    · have hold := f.ids id b' o' he
      exact ⟨Nat.lt_succ_of_lt hold.1, hold.2⟩
    · exact ⟨Nat.lt_succ_self _, hok⟩
  · intro id b₁ o₁ b₂ o₂ h₁ h₂
    simp only [emit_trace, mem_append, mem_singleton, Event.dequeued.injEq] at h₁ h₂
    -- both are old, or both are the new one
    rcases h₁ with h₁ | ⟨rfl, rfl, rfl⟩ <;> rcases h₂ with h₂ | ⟨h, rfl, rfl⟩
    · exact f.unique id b₁ o₁ b₂ o₂ h₁ h₂
    · exact absurd (f.ids id b₁ o₁ h₁).1 (by omega)
    · exact absurd (f.ids _ b₂ o₂ h₂).1 (Nat.lt_irrefl _)
    · exact ⟨rfl, rfl⟩
  · exact mem_append_right _ (mem_singleton.mpr rfl)

theorem Flow.opened (mediaBytes cardBytes : Nat → UInt8) :
    Flow cfg avail (BckndState.opened avail mediaBytes cardBytes) where
  thread := trivial
  trace := by
    refine ⟨?_, ?_, ?_⟩
    · constructor <;> simp [BckndState.opened]
    · constructor <;> simp [BckndState.opened, BckndState.written, BckndState.flushed]
    · simp [BckndState.opened]
  pool := le_refl _
  flow := rfl
  order := List.Pairwise.nil
  ids := by simp [BckndState.opened]
  unique := by simp [BckndState.opened]
  current := trivial

end

end Vcass.BlockIo
