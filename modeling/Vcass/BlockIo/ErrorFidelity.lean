import Vcass.BlockIo.Completion

/-!
# Error Fidelity

A completion with `ret` 0 should mean that every byte of the request has been moved and that
the trailing sync has succeeded.  Three places lose errors:

- `media_transfer_file` returns 0 after a short or failed `file_read` or `file_write`;
- `vca_bcknd_complete_transfer` drops the error of a write buffer that is not the last one;
- `(__s8)ret` in `vcablk_bcknd_disk_send_response` is 0 for a multiple of 256.

`errorsReported_iff` says exactly when none of them strikes, in terms of the range check, the answers
of the file operations and of `vfs_fsync`, `ioremap` and the copy engine.
-/

namespace Vcass.BlockIo

open Vcass.Core List BckndState

/-! ## The property -/

/-- All bytes of a buffer went between the card and the sectors that the buffer names. -/
def Chunk.Moved (media : VcablkMedia) (trace : List Event) (c : Chunk) : Prop :=
  ∃ p done, p.chunk = c ∧ p.copyEvent ∈ trace ∧
    (if c.param.isWrite then Event.mediaWrite p done else .mediaRead p done) ∈ trace ∧
    done.offset = 512 * c.param.sector ∧ done.moved = 512 * c.param.nsec ∧
    512 * (c.param.sector + c.param.nsec) ≤ media.sizeBytes

/-- The request ends with a `REQUEST_SYNC`. -/
def SyncAfter (buff : List VcablkRequest) : Prop :=
  (vcablkBckndDiskRequestGetInfo buff).2.syncAfter = true

/-- In every state of every run, a completion with `ret` 0 implies that all buffers have
been moved and that the trailing sync, if requested, has succeeded. -/
def ErrorsReported (cfg : BckndConfig) (avail : Nat) (mediaBytes cardBytes : Nat → UInt8)
    (buff : List VcablkRequest) (o : Outcomes) : Prop :=
  ∀ s, (requestSystem cfg avail mediaBytes cardBytes buff o).Reachable s →
    (∃ ack ∈ s.completions, ack.cookie = requestCookie buff ∧ ack.ret = 0) →
    (∀ c ∈ requestChunks 0 buff o, c.Moved cfg.media s.trace) ∧
      (SyncAfter buff → .mediaSync 0 true 0 ∈ s.trace)

/-! ## The condition -/

/-- The checks of the transfer functions let the buffer through: the sum of offset and length, in 64
bits, is not beyond the media, and no read-only file is written. -/
def Chunk.Admitted (media : VcablkMedia) (c : Chunk) : Prop :=
  (c.param.sector <<< sectorShift % 2 ^ 64 + c.param.nsec <<< sectorShift % 2 ^ 64) % 2 ^ 64 ≤
      media.sizeBytes ∧
    ¬ (media.type = .file ∧ c.param.isWrite = true ∧ media.readOnly = true)

/-- The media takes the buffer: it lies inside the media, is not written to a read-only file, and a
file operation moves all its bytes. -/
structure Chunk.Transfers (media : VcablkMedia) (c : Chunk) : Prop where
  inside : 512 * (c.param.sector + c.param.nsec) ≤ media.sizeBytes
  allowed : ¬ (media.type = .file ∧ c.param.isWrite = true ∧ media.readOnly = true)
  full : media.type = .file → (512 * c.param.nsec : Int) ≤ c.file

/-- Nothing goes wrong that the backend would report: there is a buffer, mapping and copying
succeed, reads are let through, a last write is, and a failed trailing sync is a multiple of 256. -/
structure NothingReported (cfg : BckndConfig) (avail : Nat) (buff : List VcablkRequest)
    (o : Outcomes) : Prop where
  room : 0 < avail
  mapped : ∀ k < (dataOf buff).length, o.ioremap k = true
  copied : ∀ c ∈ requestChunks 0 buff o, c.dma.ret = 0
  read : ∀ c ∈ requestChunks 0 buff o, c.param.isWrite = false → c.Admitted cfg.media
  last : ∃ c ∈ requestChunks 0 buff o, ¬ c.Quiet ∧
    (c.param.isWrite = true → c.Admitted cfg.media)
  sync : SyncAfter buff → cfg.media.type = .file → o.fsyncAfter % 256 = 0

/-- A failed leading sync is not a multiple of 256, and when nothing is reported every
buffer is transferred and the trailing sync succeeds. -/
structure NothingLost (cfg : BckndConfig) (avail : Nat) (buff : List VcablkRequest)
    (o : Outcomes) : Prop where
  syncBefore : ¬ SyncPassed cfg buff o → o.fsyncBefore % 256 ≠ 0 ∨
    (requestChunks 0 buff o = [] ∧ ¬ SyncAfter buff)
  data : SyncPassed cfg buff o → NothingReported cfg avail buff o →
    (∀ c ∈ requestChunks 0 buff o, c.Transfers cfg.media) ∧
      (SyncAfter buff → cfg.media.type = .file → o.fsyncAfter = 0)

/-! ## What the checks and the answers amount to -/

theorem mediaTransfer_ret_iff {media : VcablkMedia} {c : Chunk} :
    (c.mediaTransfer media).ret = 0 ↔ c.Admitted media := by
  cases htype : media.type <;>
    simp only [Chunk.mediaTransfer, vcablkMediaTransfer, htype, mediaTransferMem, mediaTransferFile,
      Chunk.Admitted] <;>
    split_ifs <;> simp_all [eIo, eAcces]

theorem mediaTransfer_ret_mod {media : VcablkMedia} {c : Chunk} :
    (c.mediaTransfer media).ret % 256 = 0 ↔ c.Admitted media := by
  rw [← mediaTransfer_ret_iff]
  have hret := vcablkMediaTransfer_ret media c.param.sector c.param.nsec c.param.isWrite c.file
  unfold Chunk.mediaTransfer
  rcases hret with h | h | h <;> rw [h] <;> decide

theorem mediaSync_mod {media : VcablkMedia} {fsync : Int} :
    vcablkMediaSync media fsync % 256 = 0 ↔ (media.type = .file → fsync % 256 = 0) := by
  cases htype : media.type <;> simp [vcablkMediaSync, htype]

theorem mediaSync_eq_zero {media : VcablkMedia} {fsync : Int} :
    vcablkMediaSync media fsync = 0 ↔ (media.type = .file → fsync = 0) := by
  cases htype : media.type <;> simp [vcablkMediaSync, htype]

/-- The answer of the buffer with the cookie narrows to 0 when its write is let through and the
trailing sync has a multiple of 256. -/
theorem finalErr_mod {cfg : BckndConfig} {job : Job} {c : Chunk} (hof : c.Of job)
    (hloud : ¬ c.Quiet) :
    c.finalErr cfg % 256 = 0 ↔ (c.param.isWrite = true → c.Admitted cfg.media) ∧
      (job.syncAfter = true → cfg.media.type = .file → job.outcomes.fsyncAfter % 256 = 0) := by
  have hwrite : c.writeErr cfg % 256 = 0 ↔ (c.param.isWrite = true → c.Admitted cfg.media) := by
    cases hw : c.param.isWrite with
    | false => simp [Chunk.writeErr, hw]
    | true =>
      rw [Chunk.writeErr, if_pos hw, mediaTransfer_ret_mod]
      exact ⟨fun h _ => h, fun h => h rfl⟩
  have hzero : c.writeErr cfg = 0 ↔ c.writeErr cfg % 256 = 0 := by
    rw [hwrite]
    cases hw : c.param.isWrite <;> simp [Chunk.writeErr, hw, mediaTransfer_ret_iff]
  rw [Chunk.finalErr, hof.flush hloud, hof.fsync, ← hwrite, ← mediaSync_mod]
  -- the sync is asked for only after a write that was let through
  by_cases hok : c.writeErr cfg = 0 ∧ job.syncAfter = true
  · rw [if_pos hok]
    simp [hok]
  · rw [if_neg hok]
    refine ⟨fun hmod => ⟨hmod, fun hsync => absurd ⟨hzero.mpr hmod, hsync⟩ hok⟩, And.left⟩

theorem Chunk.Transfers.admitted {media : VcablkMedia} {c : Chunk} (h : c.Transfers media) :
    c.Admitted media := by
  have hlt := media.sizeBytes_lt
  have hinside := h.inside
  refine ⟨?_, h.allowed⟩
  rw [sectorShift, Nat.shiftLeft_eq, Nat.shiftLeft_eq, Nat.mod_eq_of_lt (by omega),
    Nat.mod_eq_of_lt (by omega), Nat.mod_eq_of_lt (by omega)]
  omega

/-! ## Errors that the request thread sends -/

theorem dmaResult_ret_mod (d : DmaResult) : d.ret % 256 = 0 → d.ret = 0 := by
  cases d <;> decide

theorem cause_zero {cfg : BckndConfig} {avail : Nat} {buff : List VcablkRequest} {o : Outcomes}
    {err : Int} (h : Cause cfg avail buff o err) (hzero : err % 256 = 0) :
    Accepted buff ∧ ¬ SyncPassed cfg buff o ∧
      err = vcablkMediaSync cfg.media o.fsyncBefore := by
  cases h with
  | sync hacc before herr hne => exact ⟨hacc, fun hp => hne (herr.trans (hp before)), herr⟩
  | rejected _ herr | ioremap _ _ _ _ _ herr =>
    subst herr
    exact absurd hzero (by decide)
  | read _ _ _ c _ _ herr hne =>
    rcases vcablkMediaTransfer_ret cfg.media c.param.sector c.param.nsec c.param.isWrite c.file
      with h | h | h
    · exact absurd (herr.trans h) hne
    · rw [herr.trans h] at hzero
      exact absurd hzero (by decide)
    · rw [herr.trans h] at hzero
      exact absurd hzero (by decide)
  | dma _ _ _ c _ herr hne =>
    rw [herr] at hzero hne
    exact absurd (dmaResult_ret_mod c.dma hzero) hne

theorem mediaSync_of_failed {cfg : BckndConfig} {buff : List VcablkRequest} {o : Outcomes}
    (h : ¬ SyncPassed cfg buff o) : vcablkMediaSync cfg.media o.fsyncBefore = o.fsyncBefore := by
  cases htype : cfg.media.type with
  | memory => exact absurd (fun _ => by simp [vcablkMediaSync, htype]) h
  | file => simp [vcablkMediaSync, htype]

theorem cause_sync {cfg : BckndConfig} {avail : Nat} {buff : List VcablkRequest} {o : Outcomes}
    {err : Int} (h : Cause cfg avail buff o err) (hacc : Accepted buff)
    (hfail : ¬ SyncPassed cfg buff o) : err = vcablkMediaSync cfg.media o.fsyncBefore := by
  cases h with
  | rejected h _ => exact absurd hacc h
  | sync _ _ herr _ => exact herr
  | ioremap _ passed | read _ passed | dma _ passed => exact absurd passed hfail

/-! ## Invariants of a run -/

section

variable {cfg : BckndConfig} {avail : Nat} {mediaBytes cardBytes : Nat → UInt8}
  {buff : List VcablkRequest} {o : Outcomes}

/-- Data is touched only after the leading sync. -/
structure Touched (cfg : BckndConfig) (buff : List VcablkRequest) (o : Outcomes)
    (s : BckndState) : Prop where
  sent : s.sent ≠ [] → SyncPassed cfg buff o
  read : ∀ p r, .mediaRead p r ∈ s.trace → SyncPassed cfg buff o

variable {s : BckndState}

theorem Stage.position (h : Stage cfg avail buff o s)
    (hne : s.requestThread ≠ .idle) (hresp : ∀ id c err, s.requestThread ≠ .sendResponse id c err) :
    Position cfg buff o s.requestThread := by
  cases h with
  | active run => exact run.pos
  | failing err req _ _ _ _ => exact absurd req (hresp _ _ _)
  | failed err req _ _ _ _ => exact absurd req hne

theorem Touched.requestThread {s s' : BckndState} (t : Touched cfg buff o s)
    (stage : Stage cfg avail buff o s) (h : RequestStep cfg s s') : Touched cfg buff o s' := by
  cases h with
  | @submit job id rest cur p hat _ =>
    have hpos := stage.position (by simp [hat]) (by simp [hat])
    rw [hat] at hpos
    exact ⟨fun _ => hpos.1.synced, t.read⟩
  | @fillRead job id rest cur done p hat _ _ _ _ =>
    have hpos := stage.position (by simp [hat]) (by simp [hat])
    rw [hat] at hpos
    exact ⟨t.sent, fun _ _ _ => hpos.1.synced⟩
  | begin _ | finish _ | mapFailed _ _ | partDone _ _ | pop _ _ _ | fillWrite _ _ =>
    exact ⟨t.sent, t.read⟩
  | _ => exact ⟨t.sent, fun p r he => t.read p r (by simpa using he)⟩

theorem Touched.of_eq {s s' : BckndState} (t : Touched cfg buff o s) (hsent : s'.sent = s.sent)
    (hread : ∀ p r, Event.mediaRead p r ∈ s'.trace → .mediaRead p r ∈ s.trace) :
    Touched cfg buff o s' :=
  ⟨fun h => t.sent (hsent ▸ h), fun p r he => t.read p r (hread p r he)⟩

structure RunInv (cfg : BckndConfig) (avail : Nat) (buff : List VcablkRequest) (o : Outcomes)
    (s : BckndState) : Prop where
  thread : TransferOk cfg s
  stage : Stage cfg avail buff o s
  trace : TraceOk cfg s
  touched : Touched cfg buff o s

theorem runInv_of_reachable (havail : avail < transferRingSize)
    (h : (requestSystem cfg avail mediaBytes cardBytes buff o).Reachable s) :
    RunInv cfg avail buff o s := by
  have key : TraceOk cfg s ∧ Touched cfg buff o s ∧
      (requestSystem cfg avail mediaBytes cardBytes buff o).Reachable s := by
    refine System.Reachable.invariant (I := fun s => TraceOk cfg s ∧ Touched cfg buff o s ∧
      (requestSystem cfg avail mediaBytes cardBytes buff o).Reachable s) ?_ ?_ h
    · rintro s rfl
      refine ⟨?_, ⟨fun h => absurd rfl h, ?_⟩, .init rfl⟩
      · refine ⟨?_, ?_, ?_⟩
        · constructor <;> simp [called]
        · constructor <;> simp [called, written, flushed]
        · simp [called]
      · simp [called]
    · rintro s t s' ⟨trace, touched, hreach⟩ hstep
      obtain ⟨ok, stage⟩ := stage_of_reachable havail hreach
      have hreach' := System.ReachBy.step hreach trivial hstep
      cases bckndThreadStep_cases hstep with
      | requestThread hcases =>
        exact ⟨trace.requestThread hcases, touched.requestThread stage hcases, hreach'⟩
      | dma busy hstep =>
        have hcases := dmaStep_cases (ring_room_of_inUse_le stage.inUse_le havail busy) hstep
        refine ⟨trace.dma ok.waiting_or_ne hcases,
          touched.of_eq (dmaStep_effect hcases).sent ?_, hreach'⟩
        obtain ⟨_, p', es, _, _, _, _, _, _, _, htrace, hes⟩ := dmaStep_frame hcases
        intro p r he
        rw [htrace] at he
        exact (mem_append.mp he).resolve_right fun hnew => (hes _ hnew).2.1 p r rfl
      | transferThread hcases =>
        refine ⟨trace.transferThread hcases,
          touched.of_eq (transferThreadStep_effect ok hcases).sent ?_, hreach'⟩
        intro p r he
        cases hcases <;> simpa using he
  obtain ⟨ok, stage⟩ := stage_of_reachable havail h
  exact ⟨ok, stage, key.1, key.2.1⟩

/-! ## Buffers and the media -/

variable {c : Chunk}

theorem Chunk.Transfers.moved (h : c.Transfers cfg.media) :
    (c.mediaTransfer cfg.media).offset = 512 * c.param.sector ∧
      (c.mediaTransfer cfg.media).moved = 512 * c.param.nsec := by
  obtain ⟨hoff, hmoved⟩ := vcablkMediaTransfer_inside (mediaTransfer_ret_iff.mpr h.admitted) h.inside
  refine ⟨hoff, hmoved.trans ?_⟩
  cases htype : cfg.media.type with
  | memory => rfl
  | file =>
    have hfull := h.full htype
    simp only
    omega

theorem Chunk.Moved.transfers (ok : TraceOk cfg s)
    (hpos : 0 < c.param.nsec) (h : c.Moved cfg.media s.trace) : c.Transfers cfg.media := by
  obtain ⟨p, done, rfl, -, hevent, hoff, hmoved, hin⟩ := h
  have hdone : done = p.chunk.mediaTransfer cfg.media := by
    split at hevent
    · exact (ok.onlyWrite p done hevent).1
    · exact ok.onlyRead p done hevent
  rw [hdone] at hmoved
  have hret : (p.chunk.mediaTransfer cfg.media).ret = 0 :=
    vcablkMediaTransfer_moved (by
      rw [show (vcablkMediaTransfer cfg.media _ _ _ _).moved = _ from hmoved]
      omega)
  refine ⟨hin, (mediaTransfer_ret_iff.mp hret).2, fun htype => ?_⟩
  have hfile := (vcablkMediaTransfer_inside hret hin).2
  rw [show (vcablkMediaTransfer cfg.media _ _ _ _).moved = _ from hmoved, htype] at hfile
  simp only at hfile
  omega

theorem mem_sent {p : TransferParameters} (hp : p ∈ s.done ++ s.transferRing) :
    p.chunk ∈ s.sent := by
  simp only [sent, map_append, mem_append]
  rcases mem_append.mp hp with hp | hp
  · exact Or.inl (Or.inl (mem_map_of_mem hp))
  · exact Or.inl (Or.inr (mem_map_of_mem hp))

theorem answered_flushed (hc : c ∈ s.answered) : ∃ p ∈ s.flushed, p.chunk = c := by
  simp only [answered, mem_append] at hc
  simp only [flushed, mem_append]
  rcases hc with hc | hc
  · obtain ⟨p, hp, rfl⟩ := mem_map.mp hc
    exact ⟨p, Or.inl hp, rfl⟩
  · split at hc
    case h_3 => cases hc
    all_goals
      rename_i hphase
      obtain ⟨p, hp, rfl⟩ := mem_map.mp hc
      exact ⟨p, Or.inr (by simpa [hphase] using hp), rfl⟩

theorem moved_of_answered (inv : RunInv cfg avail buff o s)
    (hc : c ∈ s.answered) (h : c.Transfers cfg.media) : c.Moved cfg.media s.trace := by
  obtain ⟨hoff, hmoved⟩ := h.moved
  obtain ⟨p, hp, rfl⟩ := answered_flushed hc
  have hwritten := mem_written_of_flushed hp
  have hring := mem_pipeline_of_written hwritten
  refine ⟨p, _, rfl, inv.trace.copied p hring, ?_, hoff, hmoved, h.inside⟩
  split
  · rename_i hwrite
    exact inv.trace.written p hwritten hwrite
  · rename_i hread
    exact inv.trace.read p (mem_append_left _ hring) (Bool.not_eq_true _ ▸ hread)

/-! ## When errors are reported -/

theorem answered_append (s : BckndState) : ∃ l, s.sent = s.answered ++ l := by
  have hring : s.transferRing.map (·.chunk) =
      (s.transferRing.take 1).map (·.chunk) ++ (s.transferRing.drop 1).map (·.chunk) := by
    rw [← map_append, take_append_drop]
  simp only [sent, answered, map_append]
  split
  case h_3 => exact ⟨s.transferRing.map (·.chunk) ++ s.dma.map (·.chunk), by simp⟩
  all_goals
    exact ⟨(s.transferRing.drop 1).map (·.chunk) ++ s.dma.map (·.chunk), by
      simp only [hring, append_assoc]⟩

theorem exhausted_position {r : RequestThread} (hex : r.Exhausted)
    (pos : Position cfg buff o r) :
    Accepted buff ∧ SyncPassed cfg buff o ∧ r.pending = [] ∧
      ∀ k < (dataOf buff).length, o.ioremap k = true := by
  cases r with
  | idle => exact ⟨pos.1, pos.2.1, rfl, pos.2.2⟩
  | parts job id todo =>
    obtain rfl : todo = [] := hex
    refine ⟨pos.1, pos.2.1, rfl, fun k hk => pos.2.2.2.2 k ?_⟩
    have hcount := pos.2.2.2.1
    simp only [length_nil] at hcount
    omega
  | transfer job id rest cur =>
    obtain ⟨rfl, hnum⟩ := hex
    refine ⟨pos.accepted, pos.synced, by simp [RequestThread.pending, hnum, jobChunks],
      fun k hk => pos.mapped k ?_⟩
    have hcount := pos.count
    simp only [length_nil] at hcount
    omega
  | _ => exact hex.elim

theorem answered_all (hsent : s.sent = requestChunks 0 buff o)
    (hc : c ∈ s.answered) (hloud : ¬ c.Quiet) : s.answered = requestChunks 0 buff o := by
  obtain ⟨l, hl⟩ := answered_append s
  cases l with
  | nil => rw [← hsent, hl, append_nil]
  | cons d l =>
    have hmem : c ∈ (requestChunks 0 buff o).dropLast := by
      rw [← hsent, hl, dropLast_append_cons]
      exact mem_append_left _ hc
    exact absurd (jobChunks_init_quiet _ _ 0 c hmem) hloud

theorem Chunk.ack_zero {ack : VcablkCompletion} (hack : c.ack cfg = some ack) (hzero : ack.ret = 0) :
    ¬ c.Quiet ∧ c.finalErr cfg % 256 = 0 := by
  constructor
  · intro hq
    rw [Chunk.ack_quiet hq] at hack
    cases hack
  · obtain ⟨cookie, -, rfl⟩ := Option.map_eq_some_iff.mp hack
    exact toS8_eq_zero.mp hzero

/-- Once the buffer with the cookie is answered with 0, all buffers are, and there was nothing to be
reported. -/
theorem Running.nothingReported (run : Running cfg avail buff o s) (hc : c ∈ s.answered)
    (hloud : ¬ c.Quiet) (hfinal : c.finalErr cfg % 256 = 0) :
    Accepted buff ∧ SyncPassed cfg buff o ∧ s.answered = requestChunks 0 buff o ∧
      NothingReported cfg avail buff o := by
  obtain ⟨pos, flow, ok, quiet, -, -, used⟩ := run
  have hcsent := answered_subset c hc
  -- the buffer with the cookie is on its way, so the loops are exhausted
  have hex := quiet.resolve_right fun hq => hloud (hq c hcsent)
  obtain ⟨hacc, hpassed, hpending, hmapped⟩ := exhausted_position hex pos
  have hsent : s.sent = requestChunks 0 buff o := by
    simpa [hpending, plan, hacc] using flow
  rw [hsent] at ok hcsent used
  obtain ⟨hwrite, hsync⟩ := (finalErr_mod (jobChunks_of _ _ 0 c hcsent) hloud).mp hfinal
  refine ⟨hacc, hpassed, answered_all hsent hc hloud, ?_⟩
  constructor
  case room =>
    refine used.resolve_left fun hnil => ?_
    rw [hnil] at hcsent
    cases hcsent
  case mapped => exact hmapped
  case copied => exact fun d hd => (ok d hd).1
  case read => exact fun d hd hread => mediaTransfer_ret_iff.mp ((ok d hd).2 hread)
  case last => exact ⟨c, hcsent, hloud, hwrite⟩
  case sync => exact hsync

theorem RunInv.synced (inv : RunInv cfg avail buff o s) (hc : c ∈ s.answered) (hloud : ¬ c.Quiet)
    (hmem : c ∈ requestChunks 0 buff o) (h : c.Transfers cfg.media) (hsync : SyncAfter buff)
    (hzero : cfg.media.type = .file → o.fsyncAfter = 0) : .mediaSync 0 true 0 ∈ s.trace := by
  have hof := jobChunks_of _ _ 0 c hmem
  obtain ⟨p, hp, rfl⟩ := answered_flushed hc
  have hnoErr : p.chunk.writeErr cfg = 0 := by
    rw [Chunk.writeErr, mediaTransfer_ret_iff.mpr h.admitted, ite_self]
  have hevent := inv.trace.flushed p hp hloud hnoErr ((hof.flush hloud).trans hsync)
  rw [hof.request, hof.fsync] at hevent
  rw [← mediaSync_eq_zero.mpr hzero]
  exact hevent

/-- **Nothing is lost** when the condition holds. -/
theorem errorsReported_of_nothingLost (havail : avail < transferRingSize)
    (h : Accepted buff → NothingLost cfg avail buff o) :
    ErrorsReported cfg avail mediaBytes cardBytes buff o := by
  rintro s hreach ⟨ack, hack, -, hzero⟩
  have inv := runInv_of_reachable havail hreach
  cases inv.stage with
  | failing err _ _ _ acks _ =>
    rw [acks] at hack
    cases hack
  | failed err req cause quiet acks pool =>
    rw [acks, mem_singleton] at hack
    subst hack
    -- of the errors that the request thread sends only that of the leading sync narrows to 0
    obtain ⟨hacc, hfail, herr⟩ := cause_zero cause (toS8_eq_zero.mp hzero)
    have hmod := toS8_eq_zero.mp hzero
    rw [herr, mediaSync_of_failed hfail] at hmod
    obtain ⟨hnone, hsync⟩ := ((h hacc).syncBefore hfail).resolve_left (not_not.mpr hmod)
    refine ⟨?_, fun hs => absurd hs hsync⟩
    rw [hnone]
    intro c hc
    cases hc
  | active run =>
    rw [run.acks] at hack
    obtain ⟨c, hc, hcack⟩ := mem_filterMap.mp hack
    obtain ⟨hloud, hfinal⟩ := Chunk.ack_zero hcack hzero
    obtain ⟨hacc, hpassed, hall, hnone⟩ := run.nothingReported hc hloud hfinal
    obtain ⟨htransfers, hsyncAfter⟩ := (h hacc).data hpassed hnone
    refine ⟨fun d hd => moved_of_answered inv (hall ▸ hd) (htransfers d hd), fun hsync => ?_⟩
    exact inv.synced hc hloud (hall ▸ hc) (htransfers c (hall ▸ hc)) hsync (hsyncAfter hsync)

theorem RunInv.untouched (inv : RunInv cfg avail buff o s) (hfail : ¬ SyncPassed cfg buff o) :
    (∀ c : Chunk, ¬ c.Moved cfg.media s.trace) ∧ .mediaSync 0 true 0 ∉ s.trace := by
  have hempty : ∀ p, p ∉ s.done ++ s.transferRing :=
    fun p hp => hfail (inv.touched.sent (ne_nil_of_mem (mem_sent hp)))
  constructor
  · rintro c ⟨p, done, -, -, hevent, -⟩
    split at hevent
    · exact hempty p (mem_pipeline_of_written (inv.trace.onlyWrite p done hevent).2)
    · exact hfail (inv.touched.read p done hevent)
  · intro hsync
    obtain ⟨p, hp, -⟩ := inv.trace.onlySync 0 0 hsync
    exact hempty p (mem_pipeline_of_written (mem_written_of_flushed hp))

/-- What makes the request thread give up is reported. -/
theorem Cause.reported {err : Int} (h : Cause cfg avail buff o err) (hacc : Accepted buff)
    (hpassed : SyncPassed cfg buff o) : ¬ NothingReported cfg avail buff o := by
  intro hnone
  cases h with
  | rejected h _ => exact h hacc
  | sync _ before herr hne => exact hne (herr.trans (hpassed before))
  | ioremap _ _ k hk failed _ =>
    rw [hnone.mapped k hk] at failed
    cases failed
  | read _ _ _ c hc isRead herr hne =>
    rw [plan, if_pos hacc] at hc
    exact hne (herr.trans (mediaTransfer_ret_iff.mpr (hnone.read c hc isRead)))
  | dma _ _ _ c hc herr hne =>
    rw [plan, if_pos hacc] at hc
    exact hne (herr.trans (hnone.copied c hc))

theorem NothingReported.ack (h : NothingReported cfg avail buff o) :
    ∃ c ∈ requestChunks 0 buff o, c.ack cfg = some ⟨requestCookie buff, 0⟩ := by
  obtain ⟨c, hc, hloud, hwrite⟩ := h.last
  obtain ⟨cookie, hcookie⟩ := Option.ne_none_iff_exists'.mp hloud
  have hof := jobChunks_of _ _ 0 c hc
  have hfinal := (finalErr_mod hof hloud).mpr ⟨hwrite, h.sync⟩
  have heq : cookie = requestCookie buff := (hof.cookie cookie hcookie).trans cookieOf_eq
  refine ⟨c, hc, ?_⟩
  rw [Chunk.ack, hcookie, heq, ← toS8_eq_zero.mpr hfinal]
  rfl

/-- **When errors are reported.**  A completion with `ret` 0 stands for a request that was
carried out completely, if and only if nothing is lost. -/
theorem errorsReported_iff (cfg : BckndConfig) (avail : Fin transferRingSize)
    (mediaBytes cardBytes : Nat → UInt8) (buff : List VcablkRequest) (o : Outcomes) :
    ErrorsReported cfg avail mediaBytes cardBytes buff o ↔
      (Accepted buff → NothingLost cfg avail buff o) := by
  refine ⟨fun h hacc => ?_, errorsReported_of_nothingLost avail.isLt⟩
  obtain ⟨s, hreach, hquiet⟩ := @exists_quiescent cfg avail.val mediaBytes cardBytes buff o
  have inv := runInv_of_reachable avail.isLt hreach
  have hend := quiescent_stage avail.isLt hreach hquiet
  constructor
  · intro hfail
    -- the run ended with the error of the leading sync, and nothing was touched
    rcases hend with ⟨err, cause, hacks⟩ | ⟨pos, -⟩ | ⟨-, -, hpassed, -⟩
    · by_contra hno
      simp only [not_or, not_not, not_and] at hno
      obtain ⟨hmod, hdata⟩ := hno
      have herr := (cause_sync cause hacc hfail).trans (mediaSync_of_failed hfail)
      rw [herr, toS8_eq_zero.mpr hmod] at hacks
      obtain ⟨hmoved, hsync⟩ := h s hreach ⟨_, hacks ▸ List.mem_singleton.mpr rfl, rfl, rfl⟩
      obtain ⟨hstill, hnoSync⟩ := inv.untouched hfail
      have hchunks : requestChunks 0 buff o = [] :=
        List.eq_nil_iff_forall_not_mem.mpr fun c hc => hstill c (hmoved c hc)
      exact hnoSync (hsync (hdata hchunks))
    · exact absurd pos.2.1 hfail
    · exact absurd hpassed hfail
  · intro hpassed hnone
    have hpos := hnone.room
    -- the run ended with all buffers processed
    rcases hend with ⟨err, cause, -⟩ | ⟨-, hsent, -, -, -, hacks⟩ | ⟨hzero, -⟩
    · exact absurd hnone (cause.reported hacc hpassed)
    · obtain ⟨c, hc, hack⟩ := hnone.ack
      obtain ⟨hmoved, hsync⟩ := h s hreach
        ⟨_, hacks ▸ List.mem_filterMap.mpr ⟨c, hc, hack⟩, rfl, rfl⟩
      refine ⟨fun d hd => (hmoved d hd).transfers inv.trace (jobChunks_nsec_pos _ _ 0 d hd),
        fun hs => ?_⟩
      obtain ⟨p, hp, -, -, herr⟩ := inv.trace.onlySync 0 0 (hsync hs)
      have hmem := mem_sent (mem_pipeline_of_written (mem_written_of_flushed hp))
      rw [(jobChunks_of _ _ 0 _ (hsent ▸ hmem)).fsync] at herr
      exact mediaSync_eq_zero.mp herr.symm
    · omega

/-- A write of one sector for which `file_write` returns `-ENOSPC` is answered with 0. -/
theorem lost_write_error :
    ¬ ErrorsReported ⟨{ type := .file, sizeBytes := 4096, readOnly := false }, true⟩ 15
      (fun _ => 0) (fun _ => 0) [⟨0, 0, 1, 1, requestWrite⟩]
      { Outcomes.success with file := fun _ _ => -28 } := by
  intro h
  have hreach := System.reachable_of_run (S := requestSystem
    ⟨{ type := .file, sizeBytes := 4096, readOnly := false }, true⟩ 15 (fun _ => 0) (fun _ => 0)
    [⟨0, 0, 1, 1, requestWrite⟩] { Outcomes.success with file := fun _ _ => -28 }) (.init rfl)
    [.requestThread, .requestThread, .requestThread, .requestThread, .requestThread, .dma,
      .transferThread, .transferThread, .transferThread] rfl
  obtain ⟨hmoved, -⟩ := h _ hreach ⟨⟨1, 0⟩, List.mem_singleton.mpr rfl, rfl, rfl⟩
  have inv := runInv_of_reachable (by decide) hreach
  have hfull := ((hmoved _ (List.mem_singleton.mpr rfl)).transfers inv.trace (by decide)).full rfl
  exact absurd hfull (by decide)

end

end Vcass.BlockIo
