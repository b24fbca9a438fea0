import Vcass.BlockIo.Backend

/-!
# The Buffers of a Request

The loops of `vcablk_bcknd_disk_request` and `vcablk_bcknd_transfer` cut a request into
buffers.  Here is the list of the buffers that they cut when nothing fails, and for each
place in the loops the part of the list that is still to come.

Only the last buffer of the last part carries the cookie.  When that part has no sectors
there is no such buffer, and the request is never answered: `requestChunks_carriers`.
-/

namespace Vcass.BlockIo

open Vcass.Core List Cursor

/-! ## The plan -/

/-- The buffers that the loop of `vcablk_bcknd_transfer` cuts from `cur` on; each turn
uses up at least one sector, so `sectorsNum` turns are enough. -/
def cursorChunks (job : Job) (id : Nat) (last : Bool) : Nat → Cursor → List Chunk
  | 0, _ => []
  | turns + 1, cur =>
    if cur.sectorsNum = 0 then []
    else nextChunk job id last cur :: cursorChunks job id last turns cur.advance

/-- The buffers of one part, from `cur` on. -/
def partChunks (job : Job) (id : Nat) (last : Bool) (cur : Cursor) : List Chunk :=
  cursorChunks job id last cur.sectorsNum cur

/-- The buffers of the parts, which are numbered from `id` on. -/
def jobChunks (job : Job) : Nat → List VcablkRequest → List Chunk
  | _, [] => []
  | id, request :: rest =>
    partChunks job id rest.isEmpty (Cursor.start request) ++ jobChunks job (id + 1) rest

/-- The job that `vcablk_bcknd_disk_request` makes of a request. -/
def jobOf (id : Nat) (requestBuff : List VcablkRequest) (outcomes : Outcomes) : Job :=
  let info := (vcablkBckndDiskRequestGetInfo requestBuff).2
  { id := id, cookie := info.cookie, write := decide (info.type = requestWrite),
    syncAfter := info.syncAfter, outcomes := outcomes }

/-- The parts of a request that are transferred -/
def dataOf (requestBuff : List VcablkRequest) : List VcablkRequest :=
  dataParts (vcablkBckndDiskRequestGetInfo requestBuff).2 requestBuff

/-- `vcablk_bcknd_disk_request_get_info` accepts the request. -/
def Accepted (requestBuff : List VcablkRequest) : Prop :=
  (vcablkBckndDiskRequestGetInfo requestBuff).1 = 0

instance (requestBuff : List VcablkRequest) : Decidable (Accepted requestBuff) :=
  inferInstanceAs (Decidable (_ = _))

def requestChunks (id : Nat) (requestBuff : List VcablkRequest) (outcomes : Outcomes) :
    List Chunk :=
  jobChunks (jobOf id requestBuff outcomes) 0 (dataOf requestBuff)

/-- The buffers that the request thread has still to cut. -/
def RequestThread.pending : RequestThread → List Chunk
  | .idle => []
  | .request id requestBuff outcomes =>
    if Accepted requestBuff then requestChunks id requestBuff outcomes else []
  | .syncBefore job _ todo => jobChunks job 0 todo
  | .parts job id todo => jobChunks job id todo
  | .transfer job id rest cur => partChunks job id rest.isEmpty cur ++ jobChunks job (id + 1) rest
  | .filling job id rest cur => partChunks job id rest.isEmpty cur ++ jobChunks job (id + 1) rest
  | .device job id rest cur _ =>
    partChunks job id rest.isEmpty cur ++ jobChunks job (id + 1) rest
  | .sendResponse _ _ _ => []

/-! ## One turn of the loops -/

variable {cur : Cursor}

theorem Cursor.advance_sectorsNum_lt (h : cur.sectorsNum ≠ 0) :
    cur.advance.sectorsNum < cur.sectorsNum := by
  simp only [advance, bufferSectors]
  omega

theorem cursorChunks_turns (job : Job) (id : Nat) (last : Bool) :
    ∀ m n cur, cur.sectorsNum ≤ m → cur.sectorsNum ≤ n →
      cursorChunks job id last m cur = cursorChunks job id last n cur := by
  intro m
  induction m with
  | zero =>
    intro n cur hm _
    have h0 : cur.sectorsNum = 0 := Nat.le_zero.mp hm
    cases n with
    | zero => rfl
    | succ n => simp [cursorChunks, h0]
  | succ m ih =>
    intro n cur hm hn
    by_cases h0 : cur.sectorsNum = 0
    · cases n with
      | zero => simp [cursorChunks, h0]
      | succ n => simp [cursorChunks, h0]
    · -- each turn takes at least one sector, so that the bound on the turns does not matter
      have hlt := advance_sectorsNum_lt h0
      cases n with
      | zero => exact absurd (Nat.le_zero.mp hn) h0
      | succ n =>
        simp only [cursorChunks, if_neg h0]
        rw [ih n cur.advance (by omega) (by omega)]

@[simp]
theorem partChunks_nil {job : Job} {id : Nat} {last : Bool}
    (h : cur.sectorsNum = 0) : partChunks job id last cur = [] := by
  simp [partChunks, h, cursorChunks]

/-- **One turn** of the loop cuts off `nextChunk`. -/
theorem partChunks_cons {job : Job} {id : Nat} {last : Bool} (h : cur.sectorsNum ≠ 0) :
    partChunks job id last cur =
      nextChunk job id last cur :: partChunks job id last cur.advance := by
  obtain ⟨n, hn⟩ := Nat.exists_eq_succ_of_ne_zero h
  have hlt := advance_sectorsNum_lt h
  simp only [partChunks]
  rw [hn, cursorChunks, if_neg h,
    cursorChunks_turns job id last n cur.advance.sectorsNum cur.advance (by omega) (by omega)]

/-- Induction along the loop of `vcablk_bcknd_transfer`. -/
theorem Cursor.induct {P : Cursor → Prop} (stop : ∀ cur, cur.sectorsNum = 0 → P cur)
    (turn : ∀ cur, cur.sectorsNum ≠ 0 → P cur.advance → P cur) (cur : Cursor) : P cur := by
  have key : ∀ n cur, cur.sectorsNum ≤ n → P cur := by
    intro n
    induction n with
    | zero =>
      intro cur h
      exact stop cur (Nat.le_zero.mp h)
    | succ n ih =>
      intro cur h
      by_cases h0 : cur.sectorsNum = 0
      · exact stop cur h0
      · have hlt := advance_sectorsNum_lt h0
        exact turn cur h0 (ih _ (by omega))
  exact key _ cur (Nat.le_refl _)

/-! ## What all buffers of a job share -/

/-- The fields that a buffer takes from its job and part -/
structure Chunk.Of (job : Job) (c : Chunk) : Prop where
  request : c.request = job.id
  isWrite : c.param.isWrite = job.write
  dma : c.dma = job.outcomes.dma c.part c.index
  file : c.file = job.outcomes.file c.part c.index
  fsync : c.fsync = job.outcomes.fsyncAfter
  flush : c.param.responseCookie ≠ none → c.param.doFlush = job.syncAfter
  cookie : ∀ k, c.param.responseCookie = some k → k = job.cookie

theorem nextChunk_of (job : Job) (id : Nat) (last : Bool) (cur : Cursor) :
    (nextChunk job id last cur).Of job where
  request := rfl
  isWrite := rfl
  dma := rfl
  file := rfl
  fsync := rfl
  flush := by
    simp only [nextChunk]
    split_ifs with h
    · simp only [h, Bool.true_and, implies_true]
    · intro hn
      exact absurd rfl hn
  cookie := by
    intro k
    simp only [nextChunk]
    split_ifs
    · intro h
      exact (Option.some.inj h).symm
    · intro h
      exact absurd h (by simp)

theorem partChunks_of (job : Job) (id : Nat) (last : Bool) (cur : Cursor) :
    ∀ c ∈ partChunks job id last cur, c.Of job := by
  induction cur using induct with
  | stop cur h => simp [partChunks_nil h]
  | turn cur h ih =>
    rw [partChunks_cons h]
    intro c hc
    rcases mem_cons.mp hc with rfl | hc
    · exact nextChunk_of job id last cur
    · exact ih c hc

theorem jobChunks_of (job : Job) (parts : List VcablkRequest) :
    ∀ id, ∀ c ∈ jobChunks job id parts, c.Of job := by
  induction parts with
  | nil =>
    intro id c hc
    cases hc
  | cons request rest ih =>
    intro id c hc
    rw [jobChunks] at hc
    rcases mem_append.mp hc with hc | hc
    · exact partChunks_of _ _ _ _ c hc
    · exact ih _ c hc

/-! ## The buffer that carries the cookie -/

/-- A buffer that will not be answered -/
def Chunk.Quiet (c : Chunk) : Prop := c.param.responseCookie = none

theorem nextChunk_cookie (job : Job) (id : Nat) (last : Bool) (cur : Cursor) :
    (nextChunk job id last cur).param.responseCookie =
      if cur.advance.sectorsNum = 0 ∧ last = true then some job.cookie else none := by
  by_cases h : cur.advance.sectorsNum = 0 ∧ last = true
  · rw [if_pos h]
    simp only [advance] at h
    simp [nextChunk, h]
  · rw [if_neg h]
    simp only [advance] at h
    simp [nextChunk, h]

theorem partChunks_carriers (job : Job) (id : Nat) (last : Bool) (cur : Cursor) :
    (partChunks job id last cur).filterMap (·.param.responseCookie) =
      if last = true ∧ cur.sectorsNum ≠ 0 then [job.cookie] else [] := by
  induction cur using induct with
  | stop cur h => simp [h]
  | turn cur h ih =>
    rw [partChunks_cons h, filterMap_cons, ih, nextChunk_cookie]
    by_cases hl : last = true
    · by_cases h0 : cur.advance.sectorsNum = 0
      · simp [hl, h0, h]
      · simp [hl, h0, h]
    · simp [hl]

/-- The last part has sectors. -/
def EndsWithData (parts : List VcablkRequest) : Prop :=
  ∃ request ∈ parts.getLast?, request.sectorsNum ≠ 0

theorem endsWithData_cons {request next : VcablkRequest} {rest : List VcablkRequest} :
    EndsWithData (request :: next :: rest) ↔ EndsWithData (next :: rest) := by
  simp [EndsWithData, List.getLast?_cons]

/-- **Who answers**: the cookie is on one buffer when the last part has sectors, and on
none otherwise. -/
theorem jobChunks_carriers (job : Job) (parts : List VcablkRequest) :
    ∀ id, (EndsWithData parts →
        (jobChunks job id parts).filterMap (·.param.responseCookie) = [job.cookie]) ∧
      (¬ EndsWithData parts → ∀ c ∈ jobChunks job id parts, c.Quiet) := by
  induction parts with
  | nil =>
    intro id
    refine ⟨fun h => ?_, fun _ c hc => by cases hc⟩
    obtain ⟨request, hmem, -⟩ := h
    simp at hmem
  | cons request rest ih =>
    intro id
    have hpart := partChunks_carriers job id rest.isEmpty (start request)
    cases rest with
    | nil =>
      -- the last part
      simp only [jobChunks, append_nil]
      simp only [isEmpty_nil, true_and] at hpart
      constructor
      · rintro ⟨last, hmem, hne⟩
        simp only [List.getLast?_singleton, Option.mem_def, Option.some.injEq] at hmem
        subst hmem
        rw [isEmpty_nil, hpart, if_pos (show (start request).sectorsNum ≠ 0 from hne)]
      · intro hno c hc
        have h0 : request.sectorsNum = 0 := by
          by_contra hne
          exact hno ⟨request, by simp, hne⟩
        rw [partChunks_nil (show (start request).sectorsNum = 0 from h0)] at hc
        cases hc
    | cons next rest =>
      rw [endsWithData_cons, jobChunks, filterMap_append, hpart]
      refine ⟨fun h => by simpa using (ih (id + 1)).1 h, fun h c hc => ?_⟩
      rcases mem_append.mp hc with hc | hc
      · simp only [isEmpty_cons, Bool.false_eq_true, false_and, if_false,
          filterMap_eq_nil_iff] at hpart
        exact hpart c hc
      · exact (ih (id + 1)).2 h c hc

theorem partChunks_init_quiet (job : Job) (id : Nat) (last : Bool) (cur : Cursor) :
    ∀ c ∈ (partChunks job id last cur).dropLast, c.Quiet := by
  induction cur using induct with
  | stop cur h => simp [h]
  | turn cur h ih =>
    by_cases h0 : cur.advance.sectorsNum = 0
    · simp [partChunks_cons h, h0]
    · have hne : partChunks job id last cur.advance ≠ [] := by
        rw [partChunks_cons h0]
        exact cons_ne_nil _ _
      intro c hc
      rw [partChunks_cons h, dropLast_cons_of_ne_nil hne] at hc
      rcases mem_cons.mp hc with rfl | hc
      · simp [Chunk.Quiet, nextChunk_cookie, h0]
      · exact ih c hc

theorem jobChunks_init_quiet (job : Job) (parts : List VcablkRequest) :
    ∀ id, ∀ c ∈ (jobChunks job id parts).dropLast, c.Quiet := by
  induction parts with
  | nil =>
    intro id c hc
    cases hc
  | cons request rest ih =>
    intro id c hc
    cases rest with
    | nil =>
      simp only [jobChunks, append_nil] at hc
      exact partChunks_init_quiet _ _ _ _ c hc
    | cons next rest =>
      have hpart := partChunks_carriers job id false (start request)
      simp only [Bool.false_eq_true, false_and, if_false, filterMap_eq_nil_iff] at hpart
      rw [jobChunks, dropLast_append] at hc
      split at hc
      · exact hpart c (dropLast_subset _ hc)
      · rcases mem_append.mp hc with hc | hc
        · exact hpart c hc
        · exact ih (id + 1) c hc

theorem jobChunks_nsec_pos (job : Job) (parts : List VcablkRequest) :
    ∀ id, ∀ c ∈ jobChunks job id parts, 0 < c.param.nsec := by
  have hpart : ∀ (id : Nat) (last : Bool) (cur : Cursor),
      ∀ c ∈ partChunks job id last cur, 0 < c.param.nsec := by
    intro id last cur
    induction cur using induct with
    | stop cur h => simp [h]
    | turn cur h ih =>
      intro c hc
      rw [partChunks_cons h] at hc
      rcases mem_cons.mp hc with rfl | hc
      · simp only [nextChunk, bufferSectors]
        omega
      · exact ih c hc
  induction parts with
  | nil =>
    intro id c hc
    cases hc
  | cons request rest ih =>
    intro id c hc
    rcases mem_append.mp hc with hc | hc
    · exact hpart _ _ _ c hc
    · exact ih _ c hc

/-- What `beginRequest` does, in terms of `jobOf` and `dataOf`. -/
theorem beginRequest_eq (id : Nat) (requestBuff : List VcablkRequest) (outcomes : Outcomes) :
    beginRequest id requestBuff outcomes =
      if Accepted requestBuff then
        if (vcablkBckndDiskRequestGetInfo requestBuff).2.syncBefore then
          .syncBefore (jobOf id requestBuff outcomes) requestBuff.length (dataOf requestBuff)
        else .parts (jobOf id requestBuff outcomes) 0 (dataOf requestBuff)
      else
        .sendResponse id (vcablkBckndDiskRequestGetInfo requestBuff).2.cookie (-eIo) := by
  simp only [beginRequest, Accepted, jobOf, dataOf]
  rcases getInfo_err requestBuff with h | h
  · simp [h]
  · simp [h, eIo]

end Vcass.BlockIo
