import Vcass.BlockIo.Pipeline

/-!
# Data Fidelity and Ordering

What the open disk does with the bytes, when every operation succeeds.  Every event is good
with respect to the events before it (`Good`): a buffer is filled with what card or media
hold at that moment, media writes come in the order of requests, a sync comes behind the
writes of its request and of all earlier ones, and a completion behind all of it.  From this
history follow the guarantees of `DataFidelity`.
-/

namespace Vcass.BlockIo

open Vcass.Core List BckndState

/-! ## Memories and their history -/

def mediaWrites : Event → Option (Overwrite UInt8)
  | .mediaWrite p done => some ⟨done.offset, done.moved, p.buffer⟩
  | _ => none

def cardStep (mem : Nat → UInt8) : Event → Nat → UInt8
  | .cardStore cardBytes => cardBytes
  | .toCard p => copyBytes mem p.chunk.cardAddr p.chunk.bytes p.buffer
  | _ => mem

/-- The card's memory after the events of a trace -/
def replayCard (cardBytes : Nat → UInt8) (trace : List Event) : Nat → UInt8 :=
  trace.foldl cardStep cardBytes

@[simp]
theorem replayCard_snoc (cardBytes : Nat → UInt8) (trace : List Event) (e : Event) :
    replayCard cardBytes (trace ++ [e]) = cardStep (replayCard cardBytes trace) e := by
  simp [replayCard]

/-- All write buffers of the requests up to number `id` are on the media. -/
def WrittenUpTo (media : VcablkMedia) (trace : List Event) (id : Nat) : Prop :=
  ∀ c ∈ planned trace, c.request ≤ id → c.param.isWrite = true →
    ∃ p, p.chunk = c ∧ .mediaWrite p (c.mediaTransfer media) ∈ trace

section

variable (media : VcablkMedia) (media₀ card₀ : Nat → UInt8)

/-- When a buffer is written to the media: it comes from the card, and no write of a later
request and no sync of the same or a later one came before it. -/
structure WriteGood (pre : List Event) (p : TransferParameters) (done : MediaTransfer) :
    Prop where
  planned : p.chunk ∈ planned pre
  isWrite : p.chunk.param.isWrite = true
  done_eq : done = p.chunk.mediaTransfer media
  fromCard : .fromCard p ∈ pre
  order : ∀ q d, .mediaWrite q d ∈ pre → q.chunk.request ≤ p.chunk.request
  unsynced : ∀ id err, .mediaSync id true err ∈ pre → id < p.chunk.request

/-- When a completion is posted: the request has been dequeued, its buffers and those of all
earlier writes are where they belong, and the trailing sync is done. -/
structure CompletionGood (pre : List Event) (id : Nat) : Prop where
  dequeued : ∃ b o, .dequeued id b o ∈ pre
  written : WrittenUpTo media pre id
  copied : ∀ c ∈ planned pre, c.request = id → c.param.isWrite = false →
    ∃ p, p.chunk = c ∧ .toCard p ∈ pre
  synced : ∀ b o, .dequeued id b o ∈ pre → SyncAfter b → .mediaSync id true 0 ∈ pre

/-- What holds of an event, given the events before it. -/
def Good (pre : List Event) : Event → Prop
  | .dequeued id _ _ => ∀ i b o, .dequeued i b o ∈ pre → i < id
  | .mediaRead p done => p.chunk ∈ planned pre ∧ done = p.chunk.mediaTransfer media ∧
      ∀ k < done.moved, p.buffer k = replay mediaWrites media₀ pre (done.offset + k)
  | .toCard p => p.chunk.param.isWrite = false ∧
      .mediaRead p (p.chunk.mediaTransfer media) ∈ pre
  | .fromCard p => p.chunk ∈ planned pre ∧
      ∀ k < p.chunk.bytes, p.buffer k = replayCard card₀ pre (p.chunk.cardAddr + k)
  | .mediaWrite p done => WriteGood media pre p done
  | .mediaSync id true err => err = 0 ∧ (∃ b o, .dequeued id b o ∈ pre) ∧
      WrittenUpTo media pre id
  | .completion id _ => CompletionGood media pre id
  | _ => True

/-- The memories are what the trace says, and the trace is a history of good events. -/
structure History (s : BckndState) : Prop where
  mediaBytes : s.mediaBytes = replay mediaWrites media₀ s.trace
  cardBytes : s.cardBytes = replayCard card₀ s.trace
  chronicle : Chronicle (Good media media₀ card₀) s.trace

variable {media media₀ card₀} {s s' : BckndState}

theorem History.snoc {e : Event} (h : History media media₀ card₀ s)
    (htrace : s'.trace = s.trace ++ [e]) (good : Good media media₀ card₀ s.trace e)
    (hmedia : s'.mediaBytes = replayStep mediaWrites s.mediaBytes e)
    (hcard : s'.cardBytes = cardStep s.cardBytes e) : History media media₀ card₀ s' where
  mediaBytes := by rw [htrace, replay_snoc, hmedia, h.mediaBytes]
  cardBytes := by rw [htrace, replayCard_snoc, hcard, h.cardBytes]
  chronicle := by
    rw [htrace]
    exact h.chronicle.snoc good

theorem History.same (h : History media media₀ card₀ s) (htrace : s'.trace = s.trace)
    (hmedia : s'.mediaBytes = s.mediaBytes) (hcard : s'.cardBytes = s.cardBytes) :
    History media media₀ card₀ s' where
  mediaBytes := by rw [htrace, hmedia, h.mediaBytes]
  cardBytes := by rw [htrace, hcard, h.cardBytes]
  chronicle := by
    rw [htrace]
    exact h.chronicle

end

/-! ## Buffers before and behind the one in work -/

section

variable {cfg : BckndConfig} {avail : Nat} {s : BckndState} {p : TransferParameters}
  {rest : List TransferParameters} (f : Flow cfg avail s) (ring : s.transferRing = p :: rest)

include f ring

theorem Flow.planned_split :
    planned s.trace = s.done.map (·.chunk) ++ p.chunk ::
      ((rest ++ s.dma).map (·.chunk) ++ s.requestThread.pending) := by
  rw [← f.flow]
  simp [sent, ring]

theorem Flow.done_before {q : TransferParameters} (hq : q ∈ s.done) : q.chunk.Before p.chunk := by
  have horder := f.order
  rw [f.planned_split ring] at horder
  exact (pairwise_append.mp horder).2.2 _ (mem_map_of_mem hq) _ mem_cons_self

/-- With the buffer that carries the cookie in work, all buffers of its request and of
earlier ones are done. -/
theorem Flow.upTo_head (hloud : ¬ p.chunk.Quiet) {c : Chunk} (hc : c ∈ planned s.trace)
    (hle : c.request ≤ p.chunk.request) : ∃ q ∈ s.done ++ [p], q.chunk = c := by
  have horder := f.order
  rw [f.planned_split ring] at hc horder
  rcases mem_append.mp hc with hc | hc
  · obtain ⟨q, hq, rfl⟩ := mem_map.mp hc
    exact ⟨q, mem_append_left _ hq, rfl⟩
  · rcases mem_cons.mp hc with rfl | hc
    · exact ⟨p, mem_append_right _ (mem_singleton.mpr rfl), rfl⟩
    · -- a buffer behind the cookie is of a later request
      have hlater := (pairwise_cons.mp (pairwise_append.mp horder).2.1).1 c hc
      have hlt := hlater.2 hloud
      omega

theorem Flow.head_planned : p.chunk ∈ planned s.trace :=
  f.sent_planned (mem_sent (by simp [ring]))

theorem Flow.writtenUpTo (hloud : ¬ p.chunk.Quiet) (hphase : s.transferThread ≠ .waiting) :
    WrittenUpTo cfg.media s.trace p.chunk.request := by
  intro c hc hle hwrite
  obtain ⟨q, hq, rfl⟩ := f.upTo_head ring hloud hc hle
  refine ⟨q, rfl, f.trace.written q ?_ hwrite⟩
  simp only [written]
  simpa [ring] using hq

omit ring in
theorem Flow.writeErr {c : Chunk} (hc : c ∈ planned s.trace) : c.writeErr cfg = 0 := by
  have hret := mediaTransfer_ret_iff.mpr (f.transfers hc).1.admitted
  simp [Chunk.writeErr, hret]

end

/-! ## Every step records good events -/

section

variable {cfg : BckndConfig} {avail : Nat} {media₀ card₀ : Nat → UInt8} {s s' : BckndState}

theorem History.requestThread (h : History cfg.media media₀ card₀ s) (f : Flow cfg avail s)
    (hs : RequestStep cfg s s') : History cfg.media media₀ card₀ s' := by
  have hcur := f.current
  cases hs with
  | begin _ | finish _ | mapFailed _ _ | partDone _ _ | pop _ _ _ | fillWrite _ _ | submit _ _ =>
    exact h.same rfl rfl rfl
  | syncFailed _ _ | synced _ _ _ | mapped _ _ | readFailed _ _ _ _ | submitFailed _ _ =>
    exact h.snoc rfl trivial rfl rfl
  | @fillRead job id rest cur done p hat read done_eq ok params_eq =>
    rw [hat] at hcur
    refine h.snoc rfl ⟨?_, ?_, ?_⟩ rfl rfl
    · rw [params_eq]
      exact f.next_planned hcur.2 (by rw [hat]; rfl)
    · rw [params_eq, done_eq]
    · intro k hk
      rw [params_eq, ← h.mediaBytes]
      simp only [copyBytes, zero_le, true_and, zero_add]
      exact if_pos hk
  | respond hat =>
    rw [hat] at hcur
    exact hcur.elim

/-- A write buffer is filled with what the card holds, and a read buffer goes to the card as
it was read. -/
theorem History.dma (h : History cfg.media media₀ card₀ s) (f : Flow cfg avail s)
    (hs : DmaStep s s') : History cfg.media media₀ card₀ s' := by
  cases hs with
  | @fromCard p p' rest s₁ dma isWrite copied unmap =>
    have good : Good cfg.media media₀ card₀ s.trace (.fromCard p') := by
      refine ⟨?_, ?_⟩
      · rw [copied]
        exact f.sent_planned (by simp [sent, dma])
      · intro k hk
        rw [copied] at hk ⊢
        rw [← h.cardBytes]
        simp only [copyBytes, zero_le, true_and, zero_add]
        exact if_pos hk
    have hcopy : History cfg.media media₀ card₀ ({ s with dma := rest }.emit (.fromCard p')) :=
      h.snoc rfl good rfl rfl
    rcases unmap with rfl | rfl
    · exact hcopy.same rfl rfl rfl
    · exact hcopy.snoc (e := .iounmap p.chunk.request p.chunk.part) rfl trivial rfl rfl
  | @toCard p rest s₁ dma isRead unmap =>
    have good : Good cfg.media media₀ card₀ s.trace (.toCard p) :=
      ⟨isRead, f.trace.read p (by simp [dma]) isRead⟩
    have hcopy : History cfg.media media₀ card₀ ({ s with
        dma := rest
        cardBytes := copyBytes s.cardBytes p.chunk.cardAddr p.chunk.bytes p.buffer }.emit
        (.toCard p)) :=
      h.snoc rfl good rfl rfl
    rcases unmap with rfl | rfl
    · exact hcopy.same rfl rfl rfl
    · exact hcopy.snoc (e := .iounmap p.chunk.request p.chunk.part) rfl trivial rfl rfl

/-- **Ordering**: media writes, syncs and completions come in the order of the buffers. -/
theorem History.transferThread (h : History cfg.media media₀ card₀ s) (f : Flow cfg avail s)
    (hs : TransferStep cfg s s') : History cfg.media media₀ card₀ s' := by
  cases hs with
  | @write p rest done ring phase isWrite done_eq =>
    refine h.snoc rfl ⟨f.head_planned ring, isWrite, done_eq, ?_, ?_, ?_⟩ rfl rfl
    · have hcopied := f.trace.copied p (by simp [ring])
      rwa [TransferParameters.copyEvent, if_pos isWrite] at hcopied
    · intro q d he
      have hq := (f.trace.onlyWrite q d he).2
      simp only [written, phase, append_nil] at hq
      exact (f.done_before ring hq).1
    · intro id err he
      obtain ⟨q, hq, hloud, rfl, -⟩ := f.trace.onlySync id err he
      simp only [flushed, phase, append_nil] at hq
      exact (f.done_before ring hq).2 hloud
  | @flush p rest err ring phase cookie doFlush =>
    obtain ⟨id, b, o, he, hc⟩ := mem_planned.mp (f.head_planned ring)
    have hof := jobChunks_of _ _ 0 _ hc
    have hid : p.chunk.request = id := hof.request
    refine h.snoc rfl ⟨?_, ⟨b, o, hid ▸ he⟩, f.writtenUpTo ring cookie (by simp [phase])⟩ rfl rfl
    rw [hof.fsync]
    exact (f.ids id b o he).2.synced.2
  | @respond p rest err ring phase =>
    have hok := f.thread
    simp only [TransferOk, phase] at hok
    obtain ⟨q, rest', hq, -, hloud⟩ := hok
    obtain ⟨rfl, rfl⟩ := List.cons.inj (ring.symm.trans hq)
    obtain ⟨id, b, o, he, hc⟩ := mem_planned.mp (f.head_planned ring)
    have hof := jobChunks_of _ _ 0 _ hc
    have hid : p.chunk.request = id := hof.request
    refine h.snoc rfl ⟨⟨b, o, hid ▸ he⟩, f.writtenUpTo ring hloud (by simp [phase]), ?_, ?_⟩
      rfl rfl
    · intro c hcp hreq hread
      obtain ⟨q, hq, rfl⟩ := f.upTo_head ring hloud hcp (le_of_eq hreq)
      have hmem : q ∈ s.done ++ s.transferRing := by
        rcases mem_append.mp hq with hq | hq
        · exact mem_append_left _ hq
        · simp [ring, mem_singleton.mp hq]
      have hcopied := f.trace.copied q hmem
      rw [TransferParameters.copyEvent, hread] at hcopied
      exact ⟨q, rfl, hcopied⟩
    · intro b' o' he' hsync
      obtain ⟨rfl, rfl⟩ := f.unique _ _ _ _ _ he (hid ▸ he')
      have hflush : p.chunk.param.doFlush = true := (hof.flush hloud).trans hsync
      have hdone := f.trace.flushed p (by simp [flushed, phase, ring]) hloud
        (f.writeErr (f.head_planned ring)) hflush
      have hzero : vcablkMediaSync cfg.media (jobOf id b o).outcomes.fsyncAfter = 0 :=
        (f.ids id b o he).2.synced.2
      rwa [hof.fsync, hzero] at hdone
  | _ => exact h.same rfl rfl rfl

/-- **The invariant of a run** in which every dequeued request succeeds. -/
theorem history_of_reachBy (havail : avail < transferRingSize)
    (h : (bckndSystem cfg avail media₀ card₀).ReachBy (AllSucceed cfg.media) s) :
    Flow cfg avail s ∧ History cfg.media media₀ card₀ s := by
  refine System.ReachBy.invariant (I := fun s => Flow cfg avail s ∧
    History cfg.media media₀ card₀ s) ?_ ?_ h
  · rintro s rfl
    exact ⟨Flow.opened media₀ card₀, rfl, rfl, Chronicle.nil⟩
  · rintro s a s' ⟨f, hist⟩ hguard hstep
    cases a with
    | dequeue b o =>
      simp only [bckndSystem, bckndStep] at hstep
      split at hstep
      · rename_i hidle
        cases hstep
        refine ⟨f.dequeue hidle hguard, hist.snoc rfl ?_ rfl rfl⟩
        exact fun i b' o' he => (f.ids i b' o' he).1
      · cases hstep
    | cardStore g =>
      cases hstep
      exact ⟨f.cardStore g, hist.snoc rfl trivial rfl rfl⟩
    | thread t =>
      cases bckndThreadStep_cases hstep with
      | requestThread hcases => exact ⟨f.requestThread hcases, hist.requestThread f hcases⟩
      | dma busy hstep =>
        have hcases := dmaStep_cases (f.ring_room havail busy) hstep
        exact ⟨f.dma hcases (dmaStep_effect hcases), hist.dma f hcases⟩
      | transferThread hcases =>
        exact ⟨f.transferThread hcases (transferThreadStep_effect f.thread hcases),
          hist.transferThread f hcases⟩

end

/-! ## What the history implies -/

/-- The byte `a` of the media lies in the part. -/
def VcablkRequest.Holds (r : VcablkRequest) (a : Nat) : Prop :=
  512 * r.sector ≤ a ∧ a < 512 * (r.sector + r.sectorsNum)

/-- The media bytes of a finished write come from the card: each was in a buffer that was
filled from the card after the request was dequeued, and then written to its place. -/
def WritesFromCard (card₀ : Nat → UInt8) (trace : List Event) : Prop :=
  ∀ pre id ack post b o, trace = pre ++ .completion id ack :: post →
    .dequeued id b o ∈ trace → IsWrite b → ∀ r ∈ dataOf b, ∀ n < 512 * r.sectorsNum,
    ∃ p done before between after,
      pre = before ++ .fromCard p :: (between ++ .mediaWrite p done :: after) ∧
      .dequeued id b o ∈ before ∧ p.chunk.request = id ∧
      done.offset ≤ 512 * r.sector + n ∧ 512 * r.sector + n < done.offset + done.moved ∧
      p.buffer (512 * r.sector + n - done.offset) = replayCard card₀ before (r.physBuff + n)

/-- Only bytes in parts of dequeued writes change. -/
def OnlyWritesChange (media₀ : Nat → UInt8) (s : BckndState) : Prop :=
  ∀ a, s.mediaBytes a ≠ media₀ a →
    ∃ id b o, .dequeued id b o ∈ s.trace ∧ IsWrite b ∧ ∃ r ∈ dataOf b, r.Holds a

/-- A finished read has copied every byte of its parts to the card. -/
def ReadsToCard (trace : List Event) : Prop :=
  ∀ pre id ack post b o, trace = pre ++ .completion id ack :: post →
    .dequeued id b o ∈ trace → ¬ IsWrite b → ∀ r ∈ dataOf b, ∀ n < 512 * r.sectorsNum,
    ∃ p k, .toCard p ∈ pre ∧ p.chunk.request = id ∧ k < p.chunk.bytes ∧
      512 * p.chunk.param.sector + k = 512 * r.sector + n ∧ p.chunk.cardAddr + k = r.physBuff + n

/-- A read that was dequeued after the completion of a write copies, for every byte of the
write, what this write or a later one has written. -/
def ReadsAfterWrite (trace : List Event) : Prop :=
  ∀ pre id b o post, trace = pre ++ .dequeued id b o :: post →
    ∀ w ack, .completion w ack ∈ pre → ∀ bw ow, .dequeued w bw ow ∈ trace → IsWrite bw →
    ∀ p, .toCard p ∈ trace → p.chunk.request = id →
    ∀ k < p.chunk.bytes, ∀ r ∈ dataOf bw, r.Holds (512 * p.chunk.param.sector + k) →
    ∃ q done, .mediaWrite q done ∈ trace ∧ w ≤ q.chunk.request ∧
      done.offset ≤ 512 * p.chunk.param.sector + k ∧
      512 * p.chunk.param.sector + k < done.offset + done.moved ∧
      p.buffer k = q.buffer (512 * p.chunk.param.sector + k - done.offset)

/-- A request with a trailing sync is completed only after a sync of the media that comes
behind all media writes of this request and of all earlier ones. -/
def SyncedBefore (trace : List Event) : Prop :=
  ∀ pre id ack post b o, trace = pre ++ .completion id ack :: post →
    .dequeued id b o ∈ trace → SyncAfter b →
    ∃ before after, pre = before ++ .mediaSync id true 0 :: after ∧
      (∀ c ∈ planned trace, c.request ≤ id → c.param.isWrite = true →
        ∃ q done, q.chunk = c ∧ .mediaWrite q done ∈ before) ∧
      ∀ q done, .mediaWrite q done ∈ trace → q.chunk.request ≤ id → .mediaWrite q done ∈ before

/-- What the disk guarantees about the bytes. -/
structure DataFidelity (media₀ card₀ : Nat → UInt8) (s : BckndState) : Prop where
  mediaBytes : s.mediaBytes = replay mediaWrites media₀ s.trace
  cardBytes : s.cardBytes = replayCard card₀ s.trace
  writesFromCard : WritesFromCard card₀ s.trace
  onlyWritesChange : OnlyWritesChange media₀ s
  readsToCard : ReadsToCard s.trace
  readsAfterWrite : ReadsAfterWrite s.trace
  syncedBefore : SyncedBefore s.trace

theorem Succeeds.chunk_of_byte {media : VcablkMedia} {id : Nat} {b : List VcablkRequest}
    {o : Outcomes} (h : Succeeds media id b o) {r : VcablkRequest} (hr : r ∈ dataOf b) {a : Nat}
    (ha : r.Holds a) : ∃ c ∈ requestChunks id b o, c.Within r ∧ 512 * c.param.sector ≤ a ∧
      a < 512 * c.param.sector + 512 * c.param.nsec := by
  obtain ⟨hlo, hhi⟩ := ha
  obtain ⟨c, hc, hin, hclo, hchi⟩ := jobChunks_cover h.fits 0 r hr (a / 512) (by omega) (by omega)
  exact ⟨c, hc, hin, by omega, by omega⟩

theorem Chunk.bytes_eq (c : Chunk) : c.bytes = 512 * c.param.nsec := by
  simp only [Chunk.bytes, sectorShift, Nat.shiftLeft_eq]
  omega

theorem mediaWrites_some {e : Event} {w : Overwrite UInt8} (h : mediaWrites e = some w) :
    ∃ p done, e = .mediaWrite p done ∧ w = ⟨done.offset, done.moved, p.buffer⟩ := by
  cases e with
  | mediaWrite p done => exact ⟨p, done, rfl, (Option.some.inj h).symm⟩
  | _ => cases h

section

variable {media : VcablkMedia} {media₀ card₀ : Nat → UInt8} {trace : List Event}

/-- The value of a media byte that some write has covered is that of a write of the same or a
later request. -/
theorem replay_later (h : Chronicle (Good media media₀ card₀) trace) {a : Nat}
    {p : TransferParameters} {done : MediaTransfer} (hp : .mediaWrite p done ∈ trace)
    (hlo : done.offset ≤ a) (hhi : a < done.offset + done.moved) :
    ∃ q d, .mediaWrite q d ∈ trace ∧ p.chunk.request ≤ q.chunk.request ∧ d.offset ≤ a ∧
      a < d.offset + d.moved ∧ replay mediaWrites media₀ trace a = q.buffer (a - d.offset) := by
  rcases replay_cases mediaWrites media₀ trace a with
    ⟨hnone, -⟩ | ⟨pre, e, post, w, htrace, hw, hcov, hval, hlast⟩
  · exact absurd ⟨hlo, hhi⟩ (hnone _ hp _ rfl)
  · obtain ⟨q, d, rfl, rfl⟩ := mediaWrites_some hw
    refine ⟨q, d, ?_, ?_, hcov.1, hcov.2, hval⟩
    · rw [htrace]
      exact mem_append_right _ mem_cons_self
    · -- the given write is not behind the last one that covers the byte
      rw [htrace] at hp
      rcases mem_append.mp hp with hp | hp
      · exact (h pre _ post htrace).order p done hp
      · rcases mem_cons.mp hp with hp | hp
        · rw [(Event.mediaWrite.inj hp).1]
        · exact absurd ⟨hlo, hhi⟩ (hlast _ hp _ rfl)

theorem dequeued_before (h : Chronicle (Good media media₀ card₀) trace) {pre post : List Event}
    (htrace : trace = pre ++ post) {i j : Nat} {b b' : List VcablkRequest} {o o' : Outcomes}
    (hj : .dequeued j b o ∈ pre) (hi : .dequeued i b' o' ∈ trace) (hle : i ≤ j) :
    .dequeued i b' o' ∈ pre := by
  rw [htrace] at hi
  refine (mem_append.mp hi).resolve_right fun hi => ?_
  obtain ⟨x, y, rfl⟩ := append_of_mem hi
  have hgood : Good media media₀ card₀ (pre ++ x) (.dequeued i b' o') :=
    h _ _ y (by simp [htrace])
  have hlt := hgood j b o (mem_append_left _ hj)
  omega

end

section

variable {cfg : BckndConfig} {avail : Nat} {media₀ card₀ : Nat → UInt8} {s : BckndState}
  (f : Flow cfg avail s)

include f

theorem Flow.planned_part {pre : List Event} (hpre : ∀ e ∈ pre, e ∈ s.trace)
    {c : Chunk} (hc : c ∈ planned pre) : ∃ b o, .dequeued c.request b o ∈ pre ∧
      c ∈ requestChunks c.request b o ∧ (c.param.isWrite = true ↔ IsWrite b) ∧
      ∃ r ∈ dataOf b, c.Within r := by
  obtain ⟨id, b, o, he, hmem⟩ := mem_planned.mp hc
  have hof := jobChunks_of _ _ 0 c hmem
  have hid : c.request = id := hof.request
  subst hid
  refine ⟨b, o, he, hmem, ?_, (f.ids _ b o (hpre _ he)).2.within c hmem⟩
  rw [hof.isWrite]
  simp [jobOf, IsWrite]

theorem Flow.completion_dequeued {pre post : List Event} {id : Nat}
    {ack : VcablkCompletion} (htrace : s.trace = pre ++ .completion id ack :: post)
    (good : CompletionGood cfg.media pre id) {b : List VcablkRequest} {o : Outcomes}
    (he : .dequeued id b o ∈ s.trace) : .dequeued id b o ∈ pre := by
  obtain ⟨b', o', he'⟩ := good.dequeued
  have hmem : .dequeued id b' o' ∈ s.trace := by
    rw [htrace]
    exact mem_append_left _ he'
  obtain ⟨rfl, rfl⟩ := f.unique id b o b' o' he hmem
  exact he'

theorem Flow.media_range {c : Chunk} (hc : c ∈ planned s.trace) :
    (c.mediaTransfer cfg.media).offset = 512 * c.param.sector ∧
      (c.mediaTransfer cfg.media).moved = 512 * c.param.nsec :=
  (f.transfers hc).1.moved

theorem Flow.written_byte {pre post : List Event} {id : Nat}
    {ack : VcablkCompletion} (htrace : s.trace = pre ++ .completion id ack :: post)
    (good : CompletionGood cfg.media pre id) {b : List VcablkRequest} {o : Outcomes}
    (he : .dequeued id b o ∈ s.trace) (hwrite : IsWrite b) {r : VcablkRequest}
    (hr : r ∈ dataOf b) {a : Nat} (ha : r.Holds a) :
    ∃ p done, .mediaWrite p done ∈ pre ∧ p.chunk.request = id ∧ p.chunk.Within r ∧
      done.offset = 512 * p.chunk.param.sector ∧ done.offset ≤ a ∧ a < done.offset + done.moved ∧
      a < done.offset + p.chunk.bytes := by
  have hpre := f.completion_dequeued htrace good he
  obtain ⟨c, hc, hin, hlo, hhi⟩ := (f.ids id b o he).2.chunk_of_byte hr ha
  have hof := jobChunks_of _ _ 0 c hc
  have hisWrite : c.param.isWrite = true := by
    rw [hof.isWrite]
    simpa [jobOf, IsWrite] using hwrite
  obtain ⟨p, rfl, hev⟩ := good.written c (mem_planned.mpr ⟨id, b, o, hpre, hc⟩)
    (le_of_eq hof.request) hisWrite
  obtain ⟨hoff, hmoved⟩ := f.media_range (mem_planned.mpr ⟨id, b, o, he, hc⟩)
  refine ⟨p, _, hev, hof.request, hin, hoff, ?_, ?_, ?_⟩
  · omega
  · omega
  · rw [hoff, Chunk.bytes_eq]
    exact hhi

variable (h : History cfg.media media₀ card₀ s)

include h

theorem writesFromCard : WritesFromCard card₀ s.trace := by
  intro pre id ack post b o htrace he hwrite r hr n hn
  have hchron := h.chronicle
  have good : CompletionGood cfg.media pre id := hchron _ _ _ htrace
  obtain ⟨p, done, hev, hid, hin, hoff, hlo, hhi, hbytes⟩ := f.written_byte htrace good he hwrite hr
    (a := 512 * r.sector + n) ⟨by omega, by omega⟩
  rw [htrace] at hchron
  -- back from the media write to the copy from the card
  obtain ⟨x, after, rfl, hw⟩ := hchron.left.of_mem hev
  obtain ⟨before, between, rfl, hcard⟩ := hchron.left.left.of_mem hw.fromCard
  have hsub : ∀ e ∈ before, e ∈ s.trace := by
    intro e he'
    rw [htrace]
    simp [he']
  obtain ⟨b', o', hdeq, -⟩ := f.planned_part hsub hcard.1
  obtain ⟨rfl, rfl⟩ := f.unique id b o b' o' he (hid ▸ hsub _ hdeq)
  refine ⟨p, done, before, between, after, by simp, hid ▸ hdeq, hid, hlo, hhi, ?_⟩
  rw [hcard.2 _ (by omega), hin.card]
  congr 1
  have hsector := hin.lo
  omega

theorem onlyWritesChange : OnlyWritesChange media₀ s := by
  intro a hne
  rw [h.mediaBytes] at hne
  rcases replay_cases mediaWrites media₀ s.trace a with
    ⟨-, hval⟩ | ⟨pre, e, post, w, htrace, hw, hcov, -, -⟩
  · exact absurd hval hne
  · obtain ⟨q, d, rfl, rfl⟩ := mediaWrites_some hw
    have good : WriteGood cfg.media pre q d := h.chronicle _ _ _ htrace
    have hsub : ∀ e ∈ pre, e ∈ s.trace := by
      intro e he
      rw [htrace]
      exact mem_append_left _ he
    obtain ⟨b, o, hdeq, hmem, hwrite, r, hr, hin⟩ := f.planned_part hsub good.planned
    refine ⟨_, b, o, hsub _ hdeq, hwrite.mp good.isWrite, r, hr, ?_⟩
    obtain ⟨hoff, hmoved⟩ := f.media_range (mem_planned.mpr ⟨_, b, o, hsub _ hdeq, hmem⟩)
    rw [← good.done_eq] at hoff hmoved
    have hlo := hin.lo
    have hhi := hin.hi
    obtain ⟨h₁, h₂⟩ := hcov
    simp only at h₁ h₂
    exact ⟨by omega, by omega⟩

theorem readsToCard : ReadsToCard s.trace := by
  intro pre id ack post b o htrace he hread r hr n hn
  have good : CompletionGood cfg.media pre id := h.chronicle _ _ _ htrace
  have hpre := f.completion_dequeued htrace good he
  obtain ⟨c, hc, hin, hlo, hhi⟩ := (f.ids id b o he).2.chunk_of_byte hr
    (a := 512 * r.sector + n) ⟨by omega, by omega⟩
  have hof := jobChunks_of _ _ 0 c hc
  have hisRead : c.param.isWrite = false := by
    rw [hof.isWrite]
    simpa [jobOf, IsWrite] using hread
  obtain ⟨p, rfl, hev⟩ := good.copied c (mem_planned.mpr ⟨id, b, o, hpre, hc⟩) hof.request hisRead
  refine ⟨p, 512 * r.sector + n - 512 * p.chunk.param.sector, hev, hof.request, ?_, ?_, ?_⟩
  · rw [Chunk.bytes_eq]
    omega
  · omega
  · have hsector := hin.lo
    rw [hin.card]
    omega

theorem readsAfterWrite : ReadsAfterWrite s.trace := by
  intro pre id b o post htrace w ack hcompl bw ow hw hwrite p hp hid k hk r hr hin
  have hchron := h.chronicle
  -- the moment at which the buffer was read
  obtain ⟨x, y, hxy, hto⟩ := hchron.of_mem hp
  have hread : Event.mediaRead p (p.chunk.mediaTransfer cfg.media) ∈ s.trace := by
    rw [hxy]
    exact mem_append_left _ hto.2
  obtain ⟨x, y, hxy, hplan, -, hbuf⟩ := hchron.of_mem hread
  have hsub : ∀ e ∈ x, e ∈ s.trace := by
    intro e he
    rw [hxy]
    exact mem_append_left _ he
  obtain ⟨b', o', hdeq, hmem, -⟩ := f.planned_part hsub hplan
  rw [hid] at hdeq hmem
  -- it comes after the read was dequeued, so the completion is before it
  have hearlier : pre <+: x := by
    have h₁ : pre <+: s.trace := ⟨_, htrace.symm⟩
    have h₂ : x <+: s.trace := ⟨_, hxy.symm⟩
    refine (List.prefix_or_prefix_of_prefix h₁ h₂).resolve_right fun hx => ?_
    have hgood : Good cfg.media media₀ card₀ pre (.dequeued id b o) := hchron _ _ _ htrace
    exact lt_irrefl _ (hgood id b' o' (hx.subset hdeq))
  obtain ⟨x₁, x₂, hx⟩ := append_of_mem (hearlier.subset hcompl)
  have htrace' : s.trace = x₁ ++ .completion w ack ::
      (x₂ ++ .mediaRead p (p.chunk.mediaTransfer cfg.media) :: y) := by
    rw [hxy, hx]
    simp
  obtain ⟨q, d, hq, hqw, -, -, hlo, hhi, -⟩ :=
    f.written_byte htrace' (hchron _ _ _ htrace') hw hwrite hr hin
  rw [hxy] at hchron
  obtain ⟨q', d', hq', hle, hlo', hhi', hval⟩ := replay_later hchron.left
    (by rw [hx]; exact mem_append_left _ hq) hlo hhi
  obtain ⟨hoff, hmoved⟩ := f.media_range (mem_planned.mpr ⟨id, b', o', hsub _ hdeq, hmem⟩)
  refine ⟨q', d', hsub _ hq', hqw ▸ hle, hlo', hhi', ?_⟩
  rw [← hval, hbuf k (by rwa [hmoved, ← Chunk.bytes_eq]), hoff]

theorem syncedBefore : SyncedBefore s.trace := by
  intro pre id ack post b o htrace he hsync
  have hchron := h.chronicle
  have good : CompletionGood cfg.media pre id := hchron _ _ _ htrace
  obtain ⟨before, after, rfl⟩ :=
    append_of_mem (good.synced b o (f.completion_dequeued htrace good he) hsync)
  have htrace' : s.trace =
      before ++ .mediaSync id true 0 :: (after ++ .completion id ack :: post) := by
    rw [htrace]
    simp
  obtain ⟨-, ⟨b', o', hdeq⟩, hwritten⟩ :
    Good cfg.media media₀ card₀ before (.mediaSync id true 0) := hchron _ _ _ htrace'
  refine ⟨before, after, rfl, ?_, ?_⟩
  · intro c hc hle hwrite
    obtain ⟨i, bi, oi, hi, hmem⟩ := mem_planned.mp hc
    have hreq : c.request = i := (jobChunks_of _ _ 0 c hmem).request
    have hbefore := dequeued_before hchron htrace' hdeq hi (by omega)
    obtain ⟨q, hq, hev⟩ := hwritten c (mem_planned.mpr ⟨i, bi, oi, hbefore, hmem⟩) hle hwrite
    exact ⟨q, _, hq, hev⟩
  · -- a write behind the sync is of a later request
    intro q done hq hle
    rw [htrace'] at hq
    refine (mem_append.mp hq).resolve_right fun hq => ?_
    rcases mem_cons.mp hq with hq | hq
    · cases hq
    · obtain ⟨y₁, y₂, hy⟩ := append_of_mem hq
      have hgood : WriteGood cfg.media (before ++ .mediaSync id true 0 :: y₁) q done :=
        hchron _ (.mediaWrite q done) y₂ (by rw [htrace', hy]; simp)
      have hlt := hgood.unsynced id 0 (mem_append_right _ mem_cons_self)
      omega

end

/-- **Data fidelity**: on a disk whose pool has at most 15 buffers, in every state of every run
in which all operations of the dequeued requests succeed. -/
theorem dataFidelity (cfg : BckndConfig) (avail : Fin transferRingSize)
    (media₀ card₀ : Nat → UInt8) {s : BckndState}
    (h : (bckndSystem cfg avail media₀ card₀).ReachBy (AllSucceed cfg.media) s) :
    DataFidelity media₀ card₀ s := by
  obtain ⟨f, hist⟩ := history_of_reachBy avail.isLt h
  exact ⟨hist.mediaBytes, hist.cardBytes, writesFromCard f hist, onlyWritesChange f hist,
    readsToCard f hist, readsAfterWrite f hist, syncedBefore f hist⟩

theorem succeeds_sector (id : Nat) {buff : List VcablkRequest} (haccepted : Accepted buff)
    (hrange : ∀ r ∈ dataOf buff, 512 * (r.sector + r.sectorsNum) ≤ 4096) :
    Succeeds { type := .memory, sizeBytes := 4096, readOnly := false } id buff Outcomes.success where
  accepted := haccepted
  range := hrange
  writable _ h := by cases h
  file _ _ h := by cases h
  synced := ⟨rfl, rfl⟩
  mapped _ _ := rfl
  copied c hc := by rw [(jobChunks_of _ _ 0 c hc).dma]; rfl

/-- A sector is written from the card with a trailing sync and then read to another place of the
card; each request is run to its end. -/
def writeThenRead : List BckndAct :=
  let toTheEnd := List.replicate 7 (.thread .requestThread) ++
    .thread .dma :: List.replicate 5 (.thread .transferThread)
  .dequeue [⟨0, 0, 1, 1, requestWrite⟩, ⟨0, 1, 0, 1, requestSync⟩] .success :: toTheEnd ++
    .dequeue [⟨512, 0, 1, 2, requestRead⟩] .success :: toTheEnd

theorem dataFidelity_one_sector :
    ∃ s, DataFidelity (fun _ => 0) (fun a => if a < 512 then 7 else 0) s ∧
      s.trace.any (· matches .mediaSync 0 true 0) ∧ s.completions = [⟨1, 0⟩, ⟨2, 0⟩] ∧
      s.cardBytes 600 = 7 := by
  have hguard : ∀ a ∈ writeThenRead, ∀ s s',
      AllSucceed { type := .memory, sizeBytes := 4096, readOnly := false } s a s' := by
    intro a ha s s'
    cases a with
    | dequeue buff o =>
      simp only [writeThenRead, mem_append, mem_cons, mem_replicate, BckndAct.dequeue.injEq,
        reduceCtorEq, and_false, or_false] at ha
      rcases ha with ⟨rfl, rfl⟩ | ⟨rfl, rfl⟩
      · exact succeeds_sector _ (by decide) (by decide)
      · exact succeeds_sector _ (by decide) (by decide)
    | _ => trivial
  have hrun : ((bckndSystem ⟨{ type := .memory, sizeBytes := 4096, readOnly := false }, false⟩ 15
      (fun _ => 0) fun a => if a < 512 then 7 else 0).run
      (.opened 15 (fun _ => 0) fun a => if a < 512 then 7 else 0) writeThenRead).map (fun s =>
        (s.trace.any (· matches .mediaSync 0 true 0), s.completions, s.cardBytes 600)) =
      some (true, [⟨1, 0⟩, ⟨2, 0⟩], 7) := by decide +kernel
  obtain ⟨s, hs, hobs⟩ := Option.map_eq_some_iff.mp hrun
  obtain ⟨hsync, hrest⟩ := Prod.mk.inj hobs
  obtain ⟨hacks, hcard⟩ := Prod.mk.inj hrest
  exact ⟨s, dataFidelity _ ⟨15, by decide⟩ _ _
    (System.reachBy_of_run (.init rfl) writeThenRead hguard hs), hsync, hacks, hcard⟩

end Vcass.BlockIo
