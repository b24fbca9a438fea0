import Vcass.BlockIo.Buffers

/-!
# What the Trace Records

For every buffer in the pipeline the trace holds what has been done with it: the read from
the media, the copy to or from the card, the write to the media and the sync.  Conversely
the trace holds nothing else.  All three parties keep this (`TraceOk`).
-/

namespace Vcass.BlockIo

open Vcass.Core List BckndState TransferParameters

/-- The buffers for which the transfer thread has finished the media write. -/
def BckndState.written (s : BckndState) : List TransferParameters :=
  s.done ++
    match s.transferThread with
    | .waiting => []
    | _ => s.transferRing.take 1

/-- The buffers for which it has also finished the sync. -/
def BckndState.flushed (s : BckndState) : List TransferParameters :=
  s.done ++
    match s.transferThread with
    | .waiting => []
    | .written _ => []
    | _ => s.transferRing.take 1

variable {s s' : BckndState}

theorem mem_written_of_flushed {p : TransferParameters} (h : p ∈ s.flushed) : p ∈ s.written := by
  simp only [flushed, written, mem_append] at h ⊢
  refine h.imp_right fun h => ?_
  cases hx : s.transferThread <;> simp_all

theorem mem_pipeline_of_written {p : TransferParameters} (h : p ∈ s.written) :
    p ∈ s.done ++ s.transferRing := by
  simp only [written, mem_append] at h ⊢
  refine h.imp_right fun h => ?_
  split at h
  · cases h
  · exact take_subset _ _ h

/-- The error of the media write in `vca_bcknd_complete_transfer` -/
def Chunk.writeErr (cfg : BckndConfig) (c : Chunk) : Int :=
  if c.param.isWrite then (c.mediaTransfer cfg.media).ret else 0

/-- The copy between card and buffer -/
def TransferParameters.copyEvent (p : TransferParameters) : Event :=
  if p.chunk.param.isWrite then .fromCard p else .toCard p

/-- What the trace records about the buffers in the pipeline up to the copy -/
structure PipelineOk (cfg : BckndConfig) (s : BckndState) : Prop where
  read : ∀ p ∈ s.done ++ s.transferRing ++ s.dma, p.chunk.param.isWrite = false →
    .mediaRead p (p.chunk.mediaTransfer cfg.media) ∈ s.trace
  held : ∀ job id rest cur p, s.requestThread = .device job id rest cur p →
    p.chunk.param.isWrite = false → .mediaRead p (p.chunk.mediaTransfer cfg.media) ∈ s.trace
  copied : ∀ p ∈ s.done ++ s.transferRing, p.copyEvent ∈ s.trace

/-- The events `es` of writing the buffers `ws` and flushing the buffers `fs`, and of no others -/
structure EventsFor (cfg : BckndConfig) (ws fs : List TransferParameters) (es : List Event) :
    Prop where
  written : ∀ p ∈ ws, p.chunk.param.isWrite = true →
    .mediaWrite p (p.chunk.mediaTransfer cfg.media) ∈ es
  flushed : ∀ p ∈ fs, ¬ p.chunk.Quiet → p.chunk.writeErr cfg = 0 → p.chunk.param.doFlush = true →
    .mediaSync p.chunk.request true (vcablkMediaSync cfg.media p.chunk.fsync) ∈ es
  onlyRead : ∀ p r, .mediaRead p r ∈ es → r = p.chunk.mediaTransfer cfg.media
  onlyWrite : ∀ p r, .mediaWrite p r ∈ es → r = p.chunk.mediaTransfer cfg.media ∧ p ∈ ws
  onlySync : ∀ id err, .mediaSync id true err ∈ es → ∃ p ∈ fs, ¬ p.chunk.Quiet ∧
    id = p.chunk.request ∧ err = vcablkMediaSync cfg.media p.chunk.fsync

/-- The trace records what has been done with each buffer, and only that. -/
structure TraceOk (cfg : BckndConfig) (s : BckndState) : Prop extends
    PipelineOk cfg s, EventsFor cfg s.written s.flushed s.trace where
  phase : ∀ err, s.transferThread = .written err → ∀ p ∈ s.transferRing.take 1,
    err = p.chunk.writeErr cfg

variable {cfg : BckndConfig} {es : List Event}

theorem EventsFor.quiet {ws fs : List TransferParameters}
    (hws : ∀ p ∈ ws, p.chunk.param.isWrite ≠ true)
    (hfs : ∀ p ∈ fs, ¬ p.chunk.Quiet → p.chunk.writeErr cfg = 0 → p.chunk.param.doFlush ≠ true)
    (hes : ∀ e ∈ es, (∀ p r, e ≠ .mediaRead p r) ∧ (∀ p r, e ≠ .mediaWrite p r) ∧
      ∀ id err, e ≠ .mediaSync id true err) : EventsFor cfg ws fs es where
  written p hp h := absurd h (hws p hp)
  flushed p hp hloud herr h := absurd h (hfs p hp hloud herr)
  onlyRead p r he := absurd rfl ((hes _ he).1 p r)
  onlyWrite p r he := absurd rfl ((hes _ he).2.1 p r)
  onlySync id err he := absurd rfl ((hes _ he).2.2 id err)

theorem EventsFor.append {ws fs ws' fs' : List TransferParameters} {es' : List Event}
    (h : EventsFor cfg ws fs es) (h' : EventsFor cfg ws' fs' es') :
    EventsFor cfg (ws ++ ws') (fs ++ fs') (es ++ es') where
  written p hp hwrite := mem_append.mpr <|
    (mem_append.mp hp).imp (h.written p · hwrite) (h'.written p · hwrite)
  flushed p hp hloud herr hflush := mem_append.mpr <|
    (mem_append.mp hp).imp (h.flushed p · hloud herr hflush) (h'.flushed p · hloud herr hflush)
  onlyRead p r he := (mem_append.mp he).elim (h.onlyRead p r) (h'.onlyRead p r)
  onlyWrite p r he := by
    rcases mem_append.mp he with he | he
    · exact (h.onlyWrite p r he).imp_right (mem_append_left _)
    · exact (h'.onlyWrite p r he).imp_right (mem_append_right _)
  onlySync id err he := by
    rcases mem_append.mp he with he | he
    · obtain ⟨p, hp, hrest⟩ := h.onlySync id err he
      exact ⟨p, mem_append_left _ hp, hrest⟩
    · obtain ⟨p, hp, hrest⟩ := h'.onlySync id err he
      exact ⟨p, mem_append_right _ hp, hrest⟩

theorem TraceOk.extend (ok : TraceOk cfg s) (htrace : s'.trace = s.trace ++ es)
    (ws fs : List TransferParameters)
    (hwritten : s'.written = s.written ++ ws) (hflushed : s'.flushed = s.flushed ++ fs)
    (pipeline : PipelineOk cfg s') (events : EventsFor cfg ws fs es)
    (phase : ∀ err, s'.transferThread = .written err → ∀ p ∈ s'.transferRing.take 1,
      err = p.chunk.writeErr cfg) : TraceOk cfg s' := by
  refine ⟨pipeline, ?_, phase⟩
  rw [hwritten, hflushed, htrace]
  exact ok.toEventsFor.append events

/-- What a step of the request thread leaves alone: the ring, and the events of the
transfer thread. -/
theorem requestStep_frame (h : RequestStep cfg s s') :
    s'.done = s.done ∧ s'.transferRing = s.transferRing ∧
      s'.transferThread = s.transferThread ∧
      ∃ es, s'.trace = s.trace ++ es ∧ ∀ e ∈ es, (∀ p r, e ≠ .mediaWrite p r) ∧
        (∀ id err, e ≠ .mediaSync id true err) ∧
        ∀ p r, e = .mediaRead p r → r = p.chunk.mediaTransfer cfg.media := by
  cases h with
  | begin _ | finish _ | mapFailed _ _ | partDone _ _ | pop _ _ _ | fillWrite _ _ | submit _ _ =>
    exact ⟨rfl, rfl, rfl, [], (append_nil _).symm, by simp⟩
  | syncFailed _ _ | synced _ _ _ | mapped _ _ | readFailed _ _ _ _ | submitFailed _ _
  | respond _ =>
    exact ⟨rfl, rfl, rfl, [_], rfl, by simp⟩
  | fillRead _ _ hdone _ hparams =>
    refine ⟨rfl, rfl, rfl, [_], rfl, ?_⟩
    intro e he
    rw [mem_singleton.mp he]
    refine ⟨by simp, by simp, fun p r heq => ?_⟩
    obtain ⟨rfl, rfl⟩ := Event.mediaRead.inj heq
    rw [hdone, hparams]

private theorem mem_of_appended {es' tr tr' : List Event} (h : tr' = tr ++ es') :
    ∀ e ∈ tr, e ∈ tr' := by
  intro e he
  rw [h]
  exact mem_append_left _ he

theorem requestStep_reads (ok : TraceOk cfg s)
    (h : RequestStep cfg s s') :
    (∀ p ∈ s'.dma, p.chunk.param.isWrite = false →
      .mediaRead p (p.chunk.mediaTransfer cfg.media) ∈ s'.trace) ∧
    ∀ job id rest cur p, s'.requestThread = .device job id rest cur p →
      p.chunk.param.isWrite = false →
      .mediaRead p (p.chunk.mediaTransfer cfg.media) ∈ s'.trace := by
  obtain ⟨-, -, -, es, htrace, -⟩ := requestStep_frame h
  have hold : ∀ e ∈ s.trace, e ∈ s'.trace := mem_of_appended htrace
  have hdma : ∀ p ∈ s.dma, p.chunk.param.isWrite = false →
      .mediaRead p (p.chunk.mediaTransfer cfg.media) ∈ s'.trace :=
    fun p hp hread => hold _ (ok.read p (mem_append_right _ hp) hread)
  -- only `fillRead` reads the media, and only `submit` adds to the DMA list
  cases h with
  | @fillWrite job id rest cur hat hwrite =>
    refine ⟨hdma, fun job' id' rest' cur' p heq hread => ?_⟩
    cases heq
    rw [show (nextChunk job id rest.isEmpty cur).param.isWrite = job.write from rfl, hwrite] at hread
    cases hread
  | fillRead hat _ hdone _ hparams =>
    refine ⟨hdma, fun job' id' rest' cur' p heq hread => ?_⟩
    cases heq
    rw [hparams, ← hdone]
    exact mem_append_right _ (mem_singleton.mpr rfl)
  | submit hat _ =>
    refine ⟨fun p hp hread => ?_, fun job' id' rest' cur' p heq => by cases heq⟩
    rcases mem_append.mp hp with hp | hp
    · exact hdma p hp hread
    · rw [mem_singleton.mp hp] at hread ⊢
      exact hold _ (ok.held _ _ _ _ _ hat hread)
  | @begin id b o hat =>
    refine ⟨hdma, fun job' id' rest' cur' p heq => ?_⟩
    rw [beginRequest_eq] at heq
    split_ifs at heq
  | _ => exact ⟨hdma, fun job' id' rest' cur' p heq => by cases heq⟩

theorem TraceOk.requestThread (ok : TraceOk cfg s)
    (h : RequestStep cfg s s') : TraceOk cfg s' := by
  obtain ⟨hdone, hring, hthread, es, htrace, hes⟩ := requestStep_frame h
  obtain ⟨hreads, hheld⟩ := requestStep_reads ok h
  have hold : ∀ e ∈ s.trace, e ∈ s'.trace := mem_of_appended htrace
  have events : EventsFor cfg [] [] es :=
    { written := forall_mem_nil _
      flushed := forall_mem_nil _
      onlyRead := fun p r he => (hes _ he).2.2 p r rfl
      onlyWrite := fun p r he => absurd rfl ((hes _ he).1 p r)
      onlySync := fun id err he => absurd rfl ((hes _ he).2.1 id err) }
  refine ok.extend htrace [] [] ?_ ?_ ⟨?_, hheld, ?_⟩ events ?_
  · simp only [BckndState.written, hdone, hring, hthread, append_nil]
  · simp only [BckndState.flushed, hdone, hring, hthread, append_nil]
  · intro p hp hread
    rw [hdone, hring] at hp
    rcases mem_append.mp hp with hp | hp
    · exact hold _ (ok.read p (mem_append_left _ hp) hread)
    · exact hreads p hp hread
  · intro p hp
    rw [hdone, hring] at hp
    exact hold _ (ok.copied p hp)
  · rw [hthread, hring]
    exact ok.phase

theorem dmaStep_frame (h : DmaStep s s') :
    ∃ p p' es, s.dma = p :: s'.dma ∧ s'.transferRing = s.transferRing ++ [p'] ∧
      p'.chunk = p.chunk ∧ (p.chunk.param.isWrite = false → p' = p) ∧
      s'.done = s.done ∧ s'.transferThread = s.transferThread ∧
      s'.requestThread = s.requestThread ∧ s'.trace = s.trace ++ p'.copyEvent :: es ∧
      ∀ e ∈ p'.copyEvent :: es, (∀ q r, e ≠ .mediaWrite q r) ∧ (∀ q r, e ≠ .mediaRead q r) ∧
        ∀ id b err, e ≠ .mediaSync id b err := by
  cases h with
  | @fromCard p p' rest s₁ dma isWrite copied unmap =>
    have hchunk : p'.chunk = p.chunk := by rw [copied]
    have hevent : p'.copyEvent = .fromCard p' := by
      rw [copyEvent, hchunk, if_pos isWrite]
    have hread : p.chunk.param.isWrite = false → p' = p := by
      intro h
      rw [isWrite] at h
      cases h
    rcases unmap with rfl | rfl
    · exact ⟨p, p', [], dma, rfl, hchunk, hread, rfl, rfl, rfl, by rw [hevent]; rfl,
        by rw [hevent]; simp⟩
    · refine ⟨p, p', [.iounmap p.chunk.request p.chunk.part], dma, rfl, hchunk, hread, rfl, rfl, rfl,
        ?_, by rw [hevent]; simp⟩
      rw [hevent]
      exact append_assoc _ _ _
  | @toCard p rest s₁ dma isRead unmap =>
    have hevent : p.copyEvent = .toCard p := by
      rw [copyEvent, isRead]
      rfl
    rcases unmap with rfl | rfl
    · exact ⟨p, p, [], dma, rfl, rfl, fun _ => rfl, rfl, rfl, rfl, by rw [hevent]; rfl,
        by rw [hevent]; simp⟩
    · refine ⟨p, p, [.iounmap p.chunk.request p.chunk.part], dma, rfl, rfl, fun _ => rfl, rfl, rfl,
        rfl, ?_, by rw [hevent]; simp⟩
      rw [hevent]
      exact append_assoc _ _ _

theorem TraceOk.dma (ok : TraceOk cfg s)
    (hwait : s.transferThread = .waiting ∨ s.transferRing ≠ []) (h : DmaStep s s') :
    TraceOk cfg s' := by
  obtain ⟨p, p', es, hdma, hring, hchunk, hsame, hdone, hthread, hreq, htrace, hes⟩ :=
    dmaStep_frame h
  have hold : ∀ e ∈ s.trace, e ∈ s'.trace := mem_of_appended htrace
  -- the transfer thread still works on the same element
  have hhead : s.transferThread ≠ .waiting → s'.transferRing.take 1 = s.transferRing.take 1 := by
    intro hne
    obtain ⟨q, rest, hq⟩ := exists_cons_of_ne_nil (hwait.resolve_left hne)
    simp [hring, hq]
  refine ok.extend htrace [] [] ?_ ?_ ⟨?_, ?_, ?_⟩ (.quiet (forall_mem_nil _) (forall_mem_nil _)
    fun e he => ⟨(hes e he).2.1, (hes e he).1, fun id err => (hes e he).2.2 id true err⟩) ?_
  · simp only [BckndState.written, hdone, hthread, append_nil]
    cases hx : s.transferThread <;> simp only [] <;> rw [hhead (by simp [hx])]
  · simp only [BckndState.flushed, hdone, hthread, append_nil]
    cases hx : s.transferThread <;> simp only [] <;> rw [hhead (by simp [hx])]
  · intro q hq hread
    rw [hdone, hring] at hq
    simp only [mem_append, mem_singleton] at hq
    rcases hq with (hq | hq | rfl) | hq
    · exact hold _ (ok.read q (by simp [hq]) hread)
    · exact hold _ (ok.read q (by simp [hq]) hread)
    · rw [hchunk] at hread
      have heq := hsame hread
      subst heq
      exact hold _ (ok.read q (by simp [hdma]) hread)
    · exact hold _ (ok.read q (by simp [hdma, hq]) hread)
  · intro job id rest cur q hq hread
    rw [hreq] at hq
    exact hold _ (ok.held job id rest cur q hq hread)
  · intro q hq
    rw [hdone, hring, ← append_assoc] at hq
    rcases mem_append.mp hq with hq | hq
    · exact hold _ (ok.copied q hq)
    · rw [mem_singleton.mp hq, htrace]
      simp
  · intro err hphase
    rw [hthread] at hphase
    rw [hhead (by simp [hphase])]
    exact ok.phase err hphase

theorem TraceOk.within (ok : TraceOk cfg s)
    (hdone : s'.done = s.done) (hring : s'.transferRing = s.transferRing) (hdma : s'.dma = s.dma)
    (hheld : ∀ job id rest cur p, s'.requestThread = .device job id rest cur p →
      s.requestThread = .device job id rest cur p)
    (htrace : s'.trace = s.trace ++ es) (ws fs : List TransferParameters)
    (hwritten : s'.written = s.written ++ ws) (hflushed : s'.flushed = s.flushed ++ fs)
    (events : EventsFor cfg ws fs es)
    (hphase : ∀ err, s'.transferThread = .written err → ∀ p ∈ s.transferRing.take 1,
      err = p.chunk.writeErr cfg) : TraceOk cfg s' := by
  have hold : ∀ e ∈ s.trace, e ∈ s'.trace := mem_of_appended htrace
  refine ok.extend htrace ws fs hwritten hflushed ⟨?_, ?_, ?_⟩ events (hring ▸ hphase)
  · rw [hdone, hring, hdma]
    exact fun p hp h => hold _ (ok.read p hp h)
  · exact fun job id rest cur p hp h =>
      hold _ (ok.held job id rest cur p (hheld job id rest cur p hp) h)
  · rw [hdone, hring]
    exact fun p hp => hold _ (ok.copied p hp)

theorem TraceOk.transferThread (ok : TraceOk cfg s)
    (h : TransferStep cfg s s') : TraceOk cfg s' := by
  have hempty : s.trace = s.trace ++ [] := (append_nil _).symm
  have hheld : ∀ job id rest cur p, s.requestThread = .device job id rest cur p →
      s.requestThread = .device job id rest cur p := fun _ _ _ _ _ h => h
  have hnone {p : TransferParameters → Prop} : ∀ q ∈ [], p q := forall_mem_nil p
  cases h with
  | @write p rest done ring phase isWrite done_eq =>
    refine ok.within rfl rfl rfl hheld rfl [p] [] ?_ ?_ ⟨?_, hnone, ?_, ?_, ?_⟩ ?_
    · simp [BckndState.written, phase, ring]
    · simp [BckndState.flushed, phase]
    · intro q hq _
      rw [mem_singleton.mp hq, ← done_eq]
      exact mem_singleton_self _
    · simp
    · intro q r hq
      obtain ⟨rfl, rfl⟩ := Event.mediaWrite.inj (mem_singleton.mp hq)
      exact ⟨done_eq, mem_singleton_self _⟩
    · simp
    · intro err herr q hq
      rw [ring] at hq
      rw [mem_singleton.mp hq, Chunk.writeErr, if_pos isWrite, ← done_eq]
      exact (TransferThread.written.inj herr).symm
  | @skip p rest ring phase isRead =>
    refine ok.within rfl rfl rfl hheld hempty [p] [] ?_ ?_
      (.quiet ?_ hnone (forall_mem_nil _)) ?_
    · simp [BckndState.written, phase, ring]
    · simp [BckndState.flushed, phase]
    · intro q hq
      rw [mem_singleton.mp hq, isRead]
      exact Bool.noConfusion
    · intro err herr q hq
      rw [ring] at hq
      rw [mem_singleton.mp hq, Chunk.writeErr, isRead]
      exact (TransferThread.written.inj herr).symm
  | @silent p rest err ring phase cookie =>
    refine ok.within rfl rfl rfl hheld hempty [] [p] ?_ ?_
      (.quiet hnone ?_ (forall_mem_nil _)) fun _ h => by cases h
    · simp [BckndState.written, phase]
    · simp [BckndState.flushed, phase, ring]
    · intro q hq hloud
      rw [mem_singleton.mp hq] at hloud
      exact absurd cookie hloud
  | @flush p rest err ring phase cookie doFlush =>
    refine ok.within rfl rfl rfl hheld rfl [] [p] ?_ ?_ ⟨hnone, ?_, ?_, ?_, ?_⟩
      fun _ h => by cases h
    · simp [BckndState.written, phase]
    · simp [BckndState.flushed, phase, ring]
    · intro q hq _ _ _
      rw [mem_singleton.mp hq]
      exact mem_singleton_self _
    · simp
    · simp
    · intro id e he
      simp only [mem_singleton, Event.mediaSync.injEq, true_and] at he
      exact ⟨p, mem_singleton_self _, cookie, he⟩
  | @noFlush p rest err ring phase cookie noFlush =>
    refine ok.within rfl rfl rfl hheld hempty [] [p] ?_ ?_
      (.quiet hnone ?_ (forall_mem_nil _)) fun _ h => by cases h
    · simp [BckndState.written, phase]
    · simp [BckndState.flushed, phase, ring]
    · intro q hq _ hzero hflush
      rw [mem_singleton.mp hq] at hzero hflush
      have herr := ok.phase err phase p (by rw [ring]; exact mem_singleton_self _)
      exact noFlush ⟨herr.trans hzero, hflush⟩
  | @respond p rest err ring phase =>
    refine ok.within rfl rfl rfl hheld rfl [] [] ?_ ?_ (.quiet hnone hnone ?_)
      fun _ h => by cases h
    · simp [BckndState.written, phase]
    · simp [BckndState.flushed, phase]
    · simp
  | @release p rest ring phase =>
    refine ok.within rfl rfl rfl hheld hempty [] [] ?_ ?_
      (.quiet hnone hnone (forall_mem_nil _)) fun _ h => by cases h
    · simp [BckndState.written, phase]
    · simp [BckndState.flushed, phase]
  | @advance p rest ring phase =>
    -- the element moves from the ring to the history
    have hsame : s.done ++ s.transferRing = (s.done ++ [p]) ++ rest := by simp [ring]
    have hwritten : s.written = s.done ++ [p] := by simp [BckndState.written, phase, ring]
    have hflushed : s.flushed = s.done ++ [p] := by simp [BckndState.flushed, phase, ring]
    have hevents := ok.toEventsFor
    rw [hwritten, hflushed] at hevents
    refine ⟨⟨?_, ok.held, ?_⟩, ?_, ?_⟩
    · intro q hq
      exact ok.read q (hsame ▸ hq)
    · intro q hq
      exact ok.copied q (hsame ▸ hq)
    · simpa [BckndState.written, BckndState.flushed] using hevents
    · intro err herr
      cases herr

end Vcass.BlockIo
