import Vcass.BlockIo.Buffers

/-!
# Which Bytes a Buffer Stands For

The buffers of a part cover its sectors without a gap, each next to the card addresses of
the same bytes; and along the whole stream of buffers that the backend cuts, requests come
in order, with the buffer that carries the cookie behind all others of its request.
-/

namespace Vcass.BlockIo

open Vcass.Core List Cursor

/-! ## Buffers of a part -/

/-- The sectors of a buffer lie in the part `request`, at the matching card address. -/
structure Chunk.Within (request : VcablkRequest) (c : Chunk) : Prop where
  lo : request.sector ≤ c.param.sector
  hi : c.param.sector + c.param.nsec ≤ request.sector + request.sectorsNum
  card : c.cardAddr = request.physBuff + 512 * (c.param.sector - request.sector)
  small : c.param.nsec ≤ 8

/-- A part that does not reach past the 64-bit byte addresses -/
def VcablkRequest.Fits (request : VcablkRequest) : Prop :=
  512 * (request.sector + request.sectorsNum) ≤ 2 ^ 64

/-- The cursors are at a place inside the part. -/
structure Cursor.At (request : VcablkRequest) (cur : Cursor) : Prop where
  lo : request.sector ≤ cur.sector
  stop : cur.sector + cur.sectorsNum = request.sector + request.sectorsNum
  card : cur.offsetPtr = request.physBuff + 512 * (cur.sector - request.sector)

theorem Cursor.at_start (request : VcablkRequest) : (start request).At request where
  lo := Nat.le_refl _
  stop := rfl
  card := by simp [start]

theorem Cursor.At.advance {request : VcablkRequest} {cur : Cursor} (fits : request.Fits)
    (h : cur.At request) : cur.advance.At request := by
  have hlo := h.lo
  have hstop := h.stop
  have hcard := h.card
  unfold VcablkRequest.Fits at fits
  have hmod : (cur.sector + min cur.sectorsNum bufferSectors) % 2 ^ 64 =
      cur.sector + min cur.sectorsNum bufferSectors := by
    apply Nat.mod_eq_of_lt
    omega
  refine ⟨?_, ?_, ?_⟩
  · simp only [Cursor.advance, hmod]
    omega
  · simp only [Cursor.advance, hmod]
    omega
  · simp only [Cursor.advance, hmod, hcard, sectorShift, Nat.shiftLeft_eq]
    omega

variable {job : Job}

theorem nextChunk_within {id : Nat} {last : Bool} {request : VcablkRequest}
    {cur : Cursor} (h : cur.At request) : (nextChunk job id last cur).Within request := by
  have hstop := h.stop
  refine ⟨h.lo, ?_, h.card, ?_⟩
  · simp only [nextChunk]
    omega
  · simp only [nextChunk, bufferSectors]
    omega

theorem partChunks_within {id : Nat} {last : Bool} {request : VcablkRequest}
    (fits : request.Fits) (cur : Cursor) (h : cur.At request) :
    ∀ c ∈ partChunks job id last cur, c.Within request := by
  induction cur using induct with
  | stop cur h0 => simp [h0]
  | turn cur hne ih =>
    intro c hc
    rw [partChunks_cons hne] at hc
    rcases mem_cons.mp hc with rfl | hc
    · exact nextChunk_within h
    · exact ih (h.advance fits) c hc

theorem partChunks_cover {id : Nat} {last : Bool} {request : VcablkRequest}
    (fits : request.Fits) (cur : Cursor) (h : cur.At request) {x : Nat} (hlo : cur.sector ≤ x)
    (hhi : x < request.sector + request.sectorsNum) :
    ∃ c ∈ partChunks job id last cur, c.param.sector ≤ x ∧ x < c.param.sector + c.param.nsec := by
  induction cur using induct with
  | stop cur h0 =>
    have hstop := h.stop
    omega
  | turn cur hne ih =>
    rw [partChunks_cons hne]
    by_cases hx : x < cur.sector + min cur.sectorsNum bufferSectors
    · exact ⟨_, mem_cons_self, hlo, hx⟩
    · have hadv := h.advance fits
      have hsector : cur.advance.sector = cur.sector + min cur.sectorsNum bufferSectors := by
        have hstop := h.stop
        simp only [advance]
        apply Nat.mod_eq_of_lt
        unfold VcablkRequest.Fits at fits
        omega
      obtain ⟨c, hc, hin⟩ := ih hadv (by omega)
      exact ⟨c, mem_cons_of_mem _ hc, hin⟩

theorem jobChunks_within {parts : List VcablkRequest}
    (fits : ∀ r ∈ parts, r.Fits) :
    ∀ id, ∀ c ∈ jobChunks job id parts, ∃ r ∈ parts, c.Within r := by
  induction parts with
  | nil =>
    intro id c hc
    cases hc
  | cons request rest ih =>
    intro id c hc
    rcases mem_append.mp hc with hc | hc
    · exact ⟨request, mem_cons_self,
        partChunks_within (fits _ mem_cons_self) _ (at_start request) c hc⟩
    · obtain ⟨r, hr, hin⟩ := ih (fun r hr => fits r (mem_cons_of_mem _ hr)) _ c hc
      exact ⟨r, mem_cons_of_mem _ hr, hin⟩

theorem jobChunks_cover {parts : List VcablkRequest}
    (fits : ∀ r ∈ parts, r.Fits) :
    ∀ id, ∀ r ∈ parts, ∀ x, r.sector ≤ x → x < r.sector + r.sectorsNum →
      ∃ c ∈ jobChunks job id parts, c.Within r ∧ c.param.sector ≤ x ∧
        x < c.param.sector + c.param.nsec := by
  induction parts with
  | nil =>
    intro id r hr
    cases hr
  | cons request rest ih =>
    intro id r hr x hlo hhi
    rcases mem_cons.mp hr with rfl | hr
    · have hfit := fits r mem_cons_self
      obtain ⟨c, hc, hin⟩ := @partChunks_cover job id rest.isEmpty r hfit _ (at_start r) x
        hlo hhi
      exact ⟨c, mem_append_left _ hc, partChunks_within hfit _ (at_start r) c hc, hin⟩
    · obtain ⟨c, hc, hin⟩ := ih (fun r hr => fits r (mem_cons_of_mem _ hr)) (id + 1) r hr x
        hlo hhi
      exact ⟨c, mem_append_right _ hc, hin⟩

/-! ## The order of buffers -/

/-- `c` may be processed before `d`: its request is not a later one, and the buffer with
the cookie comes behind all buffers of its request. -/
def Chunk.Before (c d : Chunk) : Prop :=
  c.request ≤ d.request ∧ (¬ c.Quiet → c.request < d.request)

theorem pairwise_before {j : Nat} (l : List Chunk) (hj : ∀ c ∈ l, c.request = j)
    (hquiet : ∀ c ∈ l.dropLast, c.Quiet) : l.Pairwise Chunk.Before := by
  induction l with
  | nil => exact List.Pairwise.nil
  | cons c l ih =>
    cases l with
    | nil => exact pairwise_singleton _ _
    | cons d l =>
      have hc : c.Quiet := hquiet c (by simp)
      refine List.Pairwise.cons ?_ (ih (fun e he => hj e (mem_cons_of_mem _ he)) ?_)
      · intro e he
        rw [Chunk.Before, hj c mem_cons_self, hj e (mem_cons_of_mem _ he)]
        exact ⟨Nat.le_refl _, fun h => absurd hc h⟩
      · intro e he
        exact hquiet e (by simp [he])

theorem requestChunks_pairwise (j : Nat) (buff : List VcablkRequest) (o : Outcomes) :
    (requestChunks j buff o).Pairwise Chunk.Before :=
  pairwise_before _ (fun c hc => (jobChunks_of _ _ 0 c hc).request) (jobChunks_init_quiet _ _ 0)

end Vcass.BlockIo
