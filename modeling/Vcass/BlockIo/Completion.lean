import Vcass.BlockIo.RequestRun

/-!
# Completions

When a request is answered exactly once.  The cookie travels with the last buffer of the
last part, so a request whose data ends with a part without sectors, and a request made of
`REQUEST_SYNC` parts only, is not answered when nothing fails.  The frontend builds the
latter for a flush without data.
-/

namespace Vcass.BlockIo

open Vcass.Core List BckndState

/-! ## Exactly once -/

/-- Nothing fails. -/
def Outcomes.success : Outcomes where
  ioremap _ := true
  file _ _ := 4096
  dma _ _ := .complete
  fsyncBefore := 0
  fsyncAfter := 0
  stale _ _ _ := 0

/-- Every run from the call of `vcablk_bcknd_disk_request` on ends, and when no party can
take a step, exactly one completion has been posted, with the cookie of the request. -/
structure AnsweredOnce (cfg : BckndConfig) (avail : Nat) (mediaBytes cardBytes : Nat → UInt8)
    (buff : List VcablkRequest) (o : Outcomes) : Prop where
  ends : ∃ n, ∀ acts s, (requestSystem cfg avail mediaBytes cardBytes buff o).run
    (BckndState.called avail mediaBytes cardBytes buff o) acts = some s → acts.length ≤ n
  once : ∀ s, (requestSystem cfg avail mediaBytes cardBytes buff o).Reachable s →
    s.Quiescent cfg → ∃ ret, s.completions = [⟨requestCookie buff, ret⟩]

/-- A buffer that `vcablk_bcknd_transfer` fails to read from the media -/
def Chunk.ReadRefused (media : VcablkMedia) (c : Chunk) : Prop :=
  c.param.isWrite = false ∧ (c.mediaTransfer media).ret ≠ 0

/-- The request is refused, or a buffer is free and the data ends with a part that has
sectors, or there is a buffer to read that lies outside the media. -/
def Answerable (media : VcablkMedia) (avail : Nat) (buff : List VcablkRequest) : Prop :=
  ¬ Accepted buff ∨
    (0 < avail ∧ (EndsWithData (dataOf buff) ∨
      ∃ c ∈ requestChunks 0 buff Outcomes.success, c.ReadRefused media))

/-! ### The plan and the outcomes -/

/-- The same buffer with other answers of the environment -/
def Chunk.withOutcomes (o : Outcomes) (c : Chunk) : Chunk :=
  { c with
    file := o.file c.part c.index
    dma := o.dma c.part c.index
    fsync := o.fsyncAfter }

theorem partChunks_withOutcomes (job : Job) (o : Outcomes) (id : Nat) (last : Bool)
    (cur : Cursor) :
    partChunks { job with outcomes := o } id last cur =
      (partChunks job id last cur).map (Chunk.withOutcomes o) := by
  induction cur using Cursor.induct with
  | stop cur h => simp [h]
  | turn cur h ih =>
    rw [partChunks_cons h, partChunks_cons h, ih]
    rfl

theorem jobChunks_withOutcomes (job : Job) (o : Outcomes) (parts : List VcablkRequest) :
    ∀ id, jobChunks { job with outcomes := o } id parts =
      (jobChunks job id parts).map (Chunk.withOutcomes o) := by
  induction parts with
  | nil =>
    intro id
    rfl
  | cons request rest ih =>
    intro id
    rw [jobChunks, jobChunks, map_append, ih, partChunks_withOutcomes]

theorem requestChunks_withOutcomes (id : Nat) (buff : List VcablkRequest) (o o' : Outcomes) :
    requestChunks id buff o = (requestChunks id buff o').map (Chunk.withOutcomes o) :=
  jobChunks_withOutcomes (jobOf id buff o') o (dataOf buff) 0

theorem readRefused_withOutcomes {media : VcablkMedia} {c : Chunk} (o : Outcomes)
    (h : c.ReadRefused media) : (c.withOutcomes o).ReadRefused media := by
  obtain ⟨hread, hret⟩ := h
  refine ⟨hread, ?_⟩
  simp only [Chunk.mediaTransfer, vcablkMediaTransfer, Chunk.withOutcomes, hread] at hret ⊢
  cases htype : media.type with
  | memory => simpa only [htype] using hret
  | file =>
    simp only [htype, mediaTransferFile, Bool.false_and, Bool.false_eq_true, if_false] at hret ⊢
    split_ifs at hret ⊢ with hrange
    · exact hret
    · exact absurd rfl hret

/-! ### Answers of a finished request -/

theorem ack_cookies (cfg : BckndConfig) (l : List Chunk) :
    (l.filterMap (Chunk.ack cfg)).map (·.cookie) = l.filterMap (·.param.responseCookie) := by
  induction l with
  | nil => rfl
  | cons c l ih =>
    cases hc : c.param.responseCookie with
    | none => simpa [Chunk.ack, hc] using ih
    | some cookie => simpa [Chunk.ack, hc] using ih

section

variable {cfg : BckndConfig} {avail : Nat} {mediaBytes cardBytes : Nat → UInt8}
  {buff : List VcablkRequest} {o : Outcomes}

theorem cookieOf_eq : cookieOf buff = requestCookie buff := getInfo_cookie buff

theorem sent_eq_answered {s : BckndState} (hdma : s.dma = []) (hring : s.transferRing = []) :
    s.answered = s.sent := by
  simp only [answered, sent, hdma, hring, append_nil, take_nil,
    map_nil]
  split <;> rw [append_nil]

/-- **How a run ends**: with an error sent by the request thread, with all buffers of the
plan processed, or waiting for a buffer of an empty pool. -/
theorem quiescent_stage {s : BckndState} (havail : avail < transferRingSize)
    (hreach : (requestSystem cfg avail mediaBytes cardBytes buff o).Reachable s)
    (hquiet : s.Quiescent cfg) :
    (∃ err, Cause cfg avail buff o err ∧ s.completions = [⟨requestCookie buff, toS8 err⟩]) ∨
      (Position cfg buff o .idle ∧ s.sent = requestChunks 0 buff o ∧ s.answered = s.sent ∧
        (∀ c ∈ s.sent, c.dma.ret = 0 ∧
          (c.param.isWrite = false → (c.mediaTransfer cfg.media).ret = 0)) ∧
        (s.sent = [] ∨ 0 < avail) ∧
        s.completions = (requestChunks 0 buff o).filterMap (Chunk.ack cfg)) ∨
      (avail = 0 ∧ Accepted buff ∧ SyncPassed cfg buff o ∧ s.completions = []) := by
  obtain ⟨ok, stage⟩ := stage_of_reachable havail hreach
  obtain ⟨hdma, hring, hreq⟩ := Quiescent.cases hquiet
  cases stage with
  | failed err req cause quiet acks pool => exact Or.inl ⟨err, cause, cookieOf_eq ▸ acks⟩
  | failing err req _ _ _ _ =>
    rcases hreq with hidle | ⟨_, _, _, _, htransfer, -⟩
    · rw [req] at hidle
      cases hidle
    · rw [req] at htransfer
      cases htransfer
  | active run =>
    obtain ⟨pos, flow, okSent, quiet, acks, pool, used⟩ := run
    rcases hreq with hidle | ⟨job, id, rest, cur, htransfer, hnum, hpool⟩
    · rw [hidle] at pos flow
      have hall := sent_eq_answered hdma hring
      have hsent : s.sent = requestChunks 0 buff o := by
        simpa [RequestThread.pending, plan, pos.1] using flow
      exact Or.inr (Or.inl ⟨pos, hsent, hall, okSent, used, by rw [acks, hall, hsent]⟩)
    · -- all buffers are back, and there is none: the pool was empty from the start
      have hrel := ok.released_le
      rw [htransfer] at pos
      simp only [inUse, htransfer, RequestThread.inHand, hdma, hring, hpool,
        length_nil] at pool hrel
      have hzero : avail = 0 := by omega
      have hnil : s.sent = [] := used.resolve_right (by omega)
      refine Or.inr (Or.inr ⟨hzero, pos.accepted, pos.synced, ?_⟩)
      rw [acks, sent_eq_answered hdma hring, hnil]
      rfl

theorem runs_end : ∃ n, ∀ acts s, (requestSystem cfg avail mediaBytes cardBytes buff o).run
    (called avail mediaBytes cardBytes buff o) acts = some s → acts.length ≤ n :=
  ⟨_, fun acts s h => System.run_length_le
    (fun _ t _ hstep => runMeasure_decreases t hstep) _ s acts h⟩

theorem exists_quiescent : ∃ s, (requestSystem cfg avail mediaBytes cardBytes buff o).Reachable s ∧
    s.Quiescent cfg :=
  System.exists_stuck (fun _ t _ hstep => runMeasure_decreases t hstep)
    (System.ReachBy.init rfl)

theorem answeredOnce_of_answerable (havail : avail < transferRingSize)
    (h : Answerable cfg.media avail buff) :
    AnsweredOnce cfg avail mediaBytes cardBytes buff o := by
  refine ⟨runs_end, fun s hreach hquiet => ?_⟩
  rcases quiescent_stage havail hreach hquiet with
    ⟨err, -, hacks⟩ | ⟨pos, hsent, -, okSent, -, hacks⟩ | ⟨hzero, hacc, -⟩
  · exact ⟨_, hacks⟩
  · obtain ⟨hpos, hdata⟩ := h.resolve_left (not_not.mpr pos.1)
    have hends : EndsWithData (dataOf buff) := by
      refine hdata.resolve_right ?_
      rintro ⟨c, hc, hrefused⟩
      have hrefused' := readRefused_withOutcomes o hrefused
      have hmem : c.withOutcomes o ∈ s.sent := by
        rw [hsent, requestChunks_withOutcomes 0 buff o Outcomes.success]
        exact mem_map_of_mem hc
      exact hrefused'.2 ((okSent _ hmem).2 hrefused'.1)
    have hcookies := ack_cookies cfg (requestChunks 0 buff o)
    rw [← hacks, requestChunks, (jobChunks_carriers _ _ 0).1 hends] at hcookies
    cases hl : s.completions with
    | nil =>
      rw [hl] at hcookies
      cases hcookies
    | cons ack rest =>
      rw [hl, map_cons] at hcookies
      obtain ⟨hcookie, hrest⟩ := List.cons.inj hcookies
      rw [List.map_eq_nil_iff.mp hrest]
      refine ⟨ack.ret, ?_⟩
      rw [← cookieOf_eq, show cookieOf buff = ack.cookie from hcookie.symm]
  · rcases h with hno | ⟨hpos, -⟩
    · exact absurd hacc hno
    · omega

/-- **When a request is answered exactly once.**  For every choice of outcomes every run
posts exactly one completion, if and only if the request is answerable. -/
theorem answeredOnce_iff (cfg : BckndConfig) (avail : Fin transferRingSize)
    (mediaBytes cardBytes : Nat → UInt8) (buff : List VcablkRequest) :
    (∀ o, AnsweredOnce cfg avail mediaBytes cardBytes buff o) ↔
      Answerable cfg.media avail buff := by
  refine ⟨fun h => ?_, fun h o => answeredOnce_of_answerable avail.isLt h⟩
  by_contra hno
  simp only [Answerable, not_or, not_and, not_not, not_exists] at hno
  obtain ⟨hacc, hno⟩ := hno
  -- with all operations succeeding nothing is posted
  obtain ⟨s, hreach, hquiet⟩ :=
    @exists_quiescent cfg avail.val mediaBytes cardBytes buff Outcomes.success
  obtain ⟨ret, honce⟩ := (h Outcomes.success).once s hreach hquiet
  rcases quiescent_stage avail.isLt hreach hquiet with
    ⟨err, cause, -⟩ | ⟨pos, hsent, -, -, hused, hacks⟩ | ⟨-, -, -, hnil⟩
  · cases cause with
    | rejected h _ => exact h hacc
    | sync _ _ herr hne =>
      refine hne (herr.trans ?_)
      cases htype : cfg.media.type <;> simp [vcablkMediaSync, htype, Outcomes.success]
    | ioremap _ _ k _ failed _ => simp [Outcomes.success] at failed
    | read _ _ hpos c hc isRead herr hne =>
      rw [plan, if_pos hacc] at hc
      exact (hno hpos).2 c hc ⟨isRead, herr ▸ hne⟩
    | dma _ _ _ c hc herr hne =>
      rw [plan, if_pos hacc] at hc
      have hdma := (jobChunks_of _ _ 0 c hc).dma
      rw [herr, hdma] at hne
      exact hne rfl
  · have hquiet : ∀ c ∈ requestChunks 0 buff Outcomes.success, c.Quiet := by
      rcases hused with hnil | hpos
      · rw [← hsent, hnil]
        intro c hc
        cases hc
      · exact (jobChunks_carriers _ _ 0).2 (hno hpos).1
    rw [List.filterMap_eq_nil_iff.mpr fun c hc => Chunk.ack_quiet (hquiet c hc)] at hacks
    rw [hacks] at honce
    cases honce
  · rw [hnil] at honce
    cases honce

/-- A flush without data: the run of the two `REQUEST_SYNC` parts ends without an answer. -/
theorem flush_not_answered :
    ∃ s, (requestSystem ⟨{ type := .memory, sizeBytes := 4096, readOnly := false }, true⟩ 15
        (fun _ => 0) (fun _ => 0) [⟨0, 0, 0, 1, requestSync⟩, ⟨0, 0, 0, 1, requestSync⟩]
        Outcomes.success).Reachable s ∧
      s.Quiescent ⟨{ type := .memory, sizeBytes := 4096, readOnly := false }, true⟩ ∧
      s.completions = [] := by
  refine ⟨_, System.reachable_of_run (.init rfl)
    [.requestThread, .requestThread, .requestThread] rfl, fun t => ?_, rfl⟩
  cases t <;> rfl

end

end Vcass.BlockIo
