import Vcass.Vcablk.Invariant

/-!
# What the Backend Makes of a Request

`RequestEncoded` says, in the backend's terms, that the batches of a request are right: each is
accepted by `vcablk_bcknd_disk_request_get_info`, and together they list the segments of the
request.  `request_encoded` shows it for every request that `vcablk_disk_async_request` has
worked through without a failure.
-/

namespace Vcass.Vcablk

open Vcass.Core Vcass.BlockIo List DiskState

/-! ## In the backend's terms -/

def Batch.dataParts (b : Batch) : List VcablkRequest :=
  b.parts.filter fun part => part.requestType ≠ requestSync

/-- The backend accepts the batch as one of the request. -/
structure BatchAccepted (req : BlkRequest) (b : Batch) : Prop where
  accepted : (vcablkBckndDiskRequestGetInfo b.parts).1 = 0
  type : b.dataParts ≠ [] → (vcablkBckndDiskRequestGetInfo b.parts).2.type = req.type
  data_le : b.dataParts.length ≤ vcablkBioSplitSize
  parts_le : b.parts.length ≤ vcablkBioSplitSize + 2

/-- The address, the first sector and the number of sectors of each mapped segment, when the
segments follow each other from `sector` on -/
def listing : Nat → List BvecContext → List (Nat × Nat × Nat)
  | _, [] => []
  | sector, m :: maps =>
    (m.dmaAddr, sector, m.bvec.bvLen >>> sectorShift) ::
      listing ((sector + m.bvec.bvLen >>> sectorShift) % 2 ^ 64) maps

/-- The batches `bs` stand for the request `req` with number `id`. -/
structure RequestEncoded (id : Nat) (req : BlkRequest) (bs : List Batch) : Prop where
  batches : ∀ b ∈ bs, BatchAccepted req b
  /-- Each segment is mapped once, in order -/
  segments : (mapsOf bs).map BvecContext.bvec = req.segments
  /-- The data parts list the mapped segments from the position of the request on -/
  data : (bs.flatMap Batch.dataParts).map (fun part =>
    (part.physBuff, part.sector, part.sectorsNum)) = listing req.pos (mapsOf bs)
  /-- A `REQUEST_SYNC` comes first of all or last of all -/
  sync : ∀ i j b part, bs[i]? = some b → b.parts[j]? = some part →
    part.requestType = requestSync →
    (i = 0 ∧ j = 0) ∨ (i + 1 = bs.length ∧ j + 1 = b.parts.length)
  /-- Only the last batch has the request pointer -/
  pointer : ∀ i b, bs[i]? = some b → b.req = if i + 1 = bs.length then some id else none

/-! ## One batch -/

theorem type_ne_sync (req : BlkRequest) : req.type ≠ requestSync := by
  unfold BlkRequest.type
  split <;> decide

theorem type_valid (req : BlkRequest) : req.type = requestRead ∨ req.type = requestWrite := by
  unfold BlkRequest.type
  split
  · exact .inr rfl
  · exact .inl rfl

section

variable {req : BlkRequest} {first last : Prop} {sector : Nat} {b : Batch}

theorem BatchEncodes.dataParts_eq (h : BatchEncodes req first last sector b) :
    b.dataParts = encodeParts (b.context + 1) req.type sector b.maps := by
  obtain ⟨before, after, hbefore, hafter, hparts⟩ := h.parts
  have hsync : ∀ {wanted parts}, SyncParts (b.context + 1) wanted parts →
      parts.filter (fun part => part.requestType ≠ requestSync) = [] := by
    intro wanted parts hsync
    rw [filter_eq_nil_iff]
    intro part hpart
    simp [(hsync.mem hpart).2.1]
  have hdata : ∀ part ∈ encodeParts (b.context + 1) req.type sector b.maps,
      decide (part.requestType ≠ requestSync) = true := by
    intro part hpart
    rw [(encodeParts_mem hpart).2]
    exact decide_eq_true (type_ne_sync req)
  unfold Batch.dataParts
  rw [hparts, filter_append, filter_append, hsync hbefore, hsync hafter,
    filter_eq_self.mpr hdata, append_nil, nil_append]

/-- Where a `REQUEST_SYNC` can stand -/
theorem BatchEncodes.sync_position (h : BatchEncodes req first last sector b) {j : Nat}
    {part : VcablkRequest} (hpart : b.parts[j]? = some part)
    (htype : part.requestType = requestSync) :
    (first ∧ j = 0) ∨ (last ∧ j + 1 = b.parts.length) := by
  obtain ⟨before, after, hbefore, hafter, hparts⟩ := h.parts
  rw [hparts] at hpart ⊢
  have hbefore_le := hbefore.length_le
  have hafter_le := hafter.length_le
  have hj := (List.getElem?_eq_some_iff.mp hpart).1
  rw [length_append, length_append] at hj
  rcases lt_or_ge j before.length with hlt | hge
  · -- in front
    rw [append_assoc, List.getElem?_append_left hlt] at hpart
    exact .inl ⟨(hbefore.mem (mem_of_getElem? hpart)).1.1, by omega⟩
  · rcases lt_or_ge j (before ++ encodeParts (b.context + 1) req.type sector b.maps).length
      with hlt | hge'
    · -- among the data parts
      rw [List.getElem?_append_left hlt, List.getElem?_append_right hge] at hpart
      have hdata := (encodeParts_mem (mem_of_getElem? hpart)).2
      exact absurd (hdata.symm.trans htype) (type_ne_sync req)
    · rw [List.getElem?_append_right hge'] at hpart
      rw [length_append] at hge'
      refine .inr ⟨(hafter.mem (mem_of_getElem? hpart)).1.1, ?_⟩
      rw [length_append, length_append]
      omega

variable {after : List VcablkRequest} {wanted : Prop}

/-- The consistency loop passes over data parts that continue each other, with at most a
`REQUEST_SYNC` behind them. -/
theorem checkParts_encodeParts (size : Nat) {cookie type : Nat} (htype : type ≠ requestSync)
    (hafter : SyncParts cookie wanted after) (maps : List BvecContext) :
    ∀ id sector sum, id + maps.length + after.length = size →
      (checkParts size cookie type id sector sum
        (encodeParts cookie type sector maps ++ after)).1 = 0 := by
  induction maps with
  | nil =>
    intro id sector sum hsize
    rcases hafter with ⟨-, part, rfl, hsync, hcookie⟩ | ⟨-, rfl⟩
    · have hlast : part.requestType = requestSync ∧ (id = 0 ∨ id + 1 = size) :=
        ⟨hsync, .inr (by simpa using hsize)⟩
      simp only [encodeParts, nil_append, checkParts]
      rw [if_neg (by rw [hcookie]; simp), if_pos hlast]
    · rfl
  | cons m maps ih =>
    intro id sector sum hsize
    simp only [encodeParts, cons_append, checkParts]
    rw [if_neg (by simp), if_neg (fun h => htype h.1), if_neg (by simp), if_neg (by simp)]
    exact ih _ _ _ (by rw [length_cons] at hsize; omega)

/-- What decides whether the backend accepts parts that are more than a single `REQUEST_SYNC` -/
theorem getInfo_of_checkParts (first : VcablkRequest) (rest : List VcablkRequest)
    (hsingle : ¬ (first.requestType = requestSync ∧ (first :: rest).length = 1))
    (htype : (leadingPart first rest).requestType = requestRead ∨
      (leadingPart first rest).requestType = requestWrite ∨
      (leadingPart first rest).requestType = requestSync)
    (hcheck : (checkParts (first :: rest).length first.cookie (leadingPart first rest).requestType
      0 (leadingPart first rest).sector 0 (first :: rest)).1 = 0) :
    (vcablkBckndDiskRequestGetInfo (first :: rest)).1 = 0 ∧
      (vcablkBckndDiskRequestGetInfo (first :: rest)).2.type =
        (leadingPart first rest).requestType := by
  unfold vcablkBckndDiskRequestGetInfo
  dsimp only
  rw [if_neg hsingle, if_pos htype]
  exact ⟨hcheck, rfl⟩

variable {cookie : Nat}

theorem getInfo_data (req : BlkRequest)
    (hafter : SyncParts cookie wanted after) (sector : Nat) (m : BvecContext)
    (maps : List BvecContext) :
    (vcablkBckndDiskRequestGetInfo
        (encodeParts cookie req.type sector (m :: maps) ++ after)).1 = 0 ∧
      (vcablkBckndDiskRequestGetInfo
        (encodeParts cookie req.type sector (m :: maps) ++ after)).2.type = req.type := by
  have hne := type_ne_sync req
  have hcheck := checkParts_encodeParts ((m :: maps).length + after.length) hne hafter
    (m :: maps) 0 sector 0 (by omega)
  simp only [encodeParts, cons_append] at hcheck ⊢
  have hlead : ∀ part : VcablkRequest, part.requestType = req.type → ∀ rest,
      leadingPart part rest = part := by
    intro part hpart rest
    unfold leadingPart
    rw [if_neg (hpart ▸ hne)]
  have hinfo := getInfo_of_checkParts
    ⟨m.dmaAddr, sector, m.size >>> sectorShift, cookie, req.type⟩
    (encodeParts cookie req.type ((sector + m.size >>> sectorShift) % 2 ^ 64) maps ++ after)
    (fun h => hne h.1)
  rw [hlead _ rfl] at hinfo
  refine hinfo ?_ ?_
  · rcases type_valid req with h | h
    · exact .inl h
    · exact .inr (.inl h)
  · rw [length_cons, length_append, encodeParts_length]
    rw [length_cons, add_right_comm] at hcheck
    exact hcheck

/-- A batch that begins with a `REQUEST_SYNC` in front of data parts -/
theorem getInfo_sync_data
    {part : VcablkRequest} (req : BlkRequest) (htype : part.requestType = requestSync)
    (hcookie : part.cookie = cookie) (hafter : SyncParts cookie wanted after) (sector : Nat)
    (m : BvecContext) (maps : List BvecContext) :
    (vcablkBckndDiskRequestGetInfo
        (part :: (encodeParts cookie req.type sector (m :: maps) ++ after))).1 = 0 ∧
      (vcablkBckndDiskRequestGetInfo
        (part :: (encodeParts cookie req.type sector (m :: maps) ++ after))).2.type =
        req.type := by
  have hne := type_ne_sync req
  have hcheck := checkParts_encodeParts (1 + (m :: maps).length + after.length) hne hafter
    (m :: maps) 1 sector 0 rfl
  have hlead : leadingPart part (encodeParts cookie req.type sector (m :: maps) ++ after) =
      ⟨m.dmaAddr, sector, m.size >>> sectorShift, cookie, req.type⟩ := by
    unfold leadingPart
    rw [if_pos htype]
    rfl
  have hinfo := getInfo_of_checkParts part
    (encodeParts cookie req.type sector (m :: maps) ++ after)
    (by
      rintro ⟨-, hlen⟩
      simp [encodeParts] at hlen)
  rw [hlead] at hinfo
  refine hinfo ?_ ?_
  · rcases type_valid req with h | h
    · exact .inl h
    · exact .inr (.inl h)
  · -- the loop skips the first part
    unfold checkParts
    rw [if_neg (by simp), if_pos ⟨htype, .inl rfl⟩, length_cons, length_append,
      encodeParts_length, hcookie]
    rw [add_assoc, add_comm] at hcheck
    exact hcheck

/-- Parts that are all `REQUEST_SYNC`: one or two of them -/
theorem getInfo_sync {w₁ w₂ : Prop} {before after : List VcablkRequest}
    (hbefore : SyncParts cookie w₁ before) (hafter : SyncParts cookie w₂ after)
    (hne : before ++ after ≠ []) : (vcablkBckndDiskRequestGetInfo (before ++ after)).1 = 0 := by
  have hsingle : ∀ part : VcablkRequest, part.requestType = requestSync →
      (vcablkBckndDiskRequestGetInfo [part]).1 = 0 := by
    intro part htype
    unfold vcablkBckndDiskRequestGetInfo
    dsimp only
    rw [if_pos ⟨htype, rfl⟩]
  rcases hbefore with ⟨-, p, rfl, hp, hpc⟩ | ⟨-, rfl⟩
  · rcases hafter with ⟨-, q, rfl, hq, hqc⟩ | ⟨-, rfl⟩
    · have hlead : leadingPart p [q] = q := by
        unfold leadingPart
        rw [if_pos hp]
        rfl
      refine (getInfo_of_checkParts p [q] ?_ ?_ ?_).1
      · rintro ⟨-, hlen⟩
        cases hlen
      · rw [hlead]
        exact .inr (.inr hq)
      · simp [checkParts, hp, hq, hpc, hqc]
    · exact hsingle p hp
  · rcases hafter with ⟨-, q, rfl, hq, hqc⟩ | ⟨-, rfl⟩
    · exact hsingle q hq
    · exact absurd rfl hne

/-- **The backend accepts each batch.** -/
theorem BatchEncodes.batchAccepted (h : BatchEncodes req first last sector b) :
    BatchAccepted req b := by
  have hdata := h.dataParts_eq
  have hinfo : (vcablkBckndDiskRequestGetInfo b.parts).1 = 0 ∧
      (b.maps ≠ [] → (vcablkBckndDiskRequestGetInfo b.parts).2.type = req.type) := by
    obtain ⟨before, after, hbefore, hafter, hparts⟩ := h.parts
    have hne := h.nonempty
    rw [hparts] at hne ⊢
    cases hmaps : b.maps with
    | nil =>
      rw [hmaps, encodeParts, append_nil] at hne
      rw [encodeParts, append_nil]
      exact ⟨getInfo_sync hbefore hafter hne, fun hmaps => absurd rfl hmaps⟩
    | cons m maps =>
      rcases hbefore with ⟨-, part, rfl, htype, hcookie⟩ | ⟨-, rfl⟩
      · obtain ⟨herr, hout⟩ := getInfo_sync_data req htype hcookie hafter sector m maps
        exact ⟨herr, fun _ => hout⟩
      · obtain ⟨herr, hout⟩ := getInfo_data req hafter sector m maps
        exact ⟨herr, fun _ => hout⟩
  refine ⟨hinfo.1, fun hne => hinfo.2 ?_, ?_, h.batchOk.length_le⟩
  · rintro hmaps
    rw [hdata, hmaps] at hne
    exact hne rfl
  · rw [hdata, encodeParts_length]
    exact h.length_le

end

/-! ## All batches of a request -/

theorem listing_append {maps : List BvecContext} (hsizes : ∀ m ∈ maps, m.size = m.bvec.bvLen)
    (sector : Nat) (maps' : List BvecContext) :
    listing sector (maps ++ maps') =
      listing sector maps ++ listing (sectorAfter sector maps) maps' := by
  induction maps generalizing sector with
  | nil => rfl
  | cons m maps ih =>
    simp only [cons_append, listing, sectorAfter]
    rw [hsizes m mem_cons_self, ih fun m' hm' => hsizes m' (mem_cons_of_mem _ hm')]

theorem encodeParts_listing {cookie type : Nat} {maps : List BvecContext}
    (hsizes : ∀ m ∈ maps, m.size = m.bvec.bvLen) (sector : Nat) :
    (encodeParts cookie type sector maps).map (fun part =>
      (part.physBuff, part.sector, part.sectorsNum)) = listing sector maps := by
  induction maps generalizing sector with
  | nil => rfl
  | cons m maps ih =>
    simp only [encodeParts, map_cons, listing]
    rw [hsizes m mem_cons_self, ih fun m' hm' => hsizes m' (mem_cons_of_mem _ hm')]

variable {req : BlkRequest} {bs : List Batch}

/-- The batches `bs`, followed by one more, list their mappings. -/
theorem data_snoc {first last : Prop} {b : Batch}
    (hsizes : ∀ m ∈ mapsOf bs, m.size = m.bvec.bvLen)
    (hdata : (bs.flatMap Batch.dataParts).map (fun part =>
      (part.physBuff, part.sector, part.sectorsNum)) = listing req.pos (mapsOf bs))
    (hb : BatchEncodes req first last (sectorAfter req.pos (mapsOf bs)) b) :
    ((bs ++ [b]).flatMap Batch.dataParts).map (fun part =>
      (part.physBuff, part.sector, part.sectorsNum)) = listing req.pos (mapsOf (bs ++ [b])) := by
  rw [flatMap_append, map_append, hdata, flatMap_singleton, hb.dataParts_eq,
    encodeParts_listing hb.sizes, mapsOf_append, listing_append hsizes]

section

variable (h : Partial req bs)

include h

theorem Partial.sizes : ∀ m ∈ mapsOf bs, m.size = m.bvec.bvLen := by
  induction h with
  | nil => exact fun m hm => absurd hm not_mem_nil
  | snoc hbs hb hreq hfull ih =>
    intro m hm
    rw [mapsOf_append, mem_append] at hm
    rcases hm with hm | hm
    · exact ih m hm
    · exact hb.sizes m hm

theorem Partial.batchAccepted : ∀ b ∈ bs, BatchAccepted req b := by
  induction h with
  | nil => exact fun b hb => absurd hb not_mem_nil
  | snoc hbs hb hreq hfull ih =>
    intro b' hb'
    rcases mem_append.mp hb' with hb' | hb'
    · exact ih b' hb'
    · rw [mem_singleton.mp hb']
      exact hb.batchAccepted

theorem Partial.data :
    (bs.flatMap Batch.dataParts).map (fun part =>
      (part.physBuff, part.sector, part.sectorsNum)) = listing req.pos (mapsOf bs) := by
  induction h with
  | nil => rfl
  | snoc hbs hb hreq hfull ih => exact data_snoc hbs.sizes ih hb

/-- In the batches before the last one a `REQUEST_SYNC` comes first of all. -/
theorem Partial.sync_position {i j : Nat}
    {b : Batch} {part : VcablkRequest} (hb : bs[i]? = some b) (hpart : b.parts[j]? = some part)
    (htype : part.requestType = requestSync) : i = 0 ∧ j = 0 := by
  induction h with
  | nil => cases hb
  | @snoc bs b' hbs henc hreq hfull ih =>
    rcases lt_or_ge i bs.length with hlt | hge
    · rw [List.getElem?_append_left hlt] at hb
      exact ih hb
    · rw [List.getElem?_append_right hge, List.getElem?_singleton] at hb
      split at hb
      · rename_i hi
        cases hb
        rcases henc.sync_position hpart htype with ⟨hfirst, hj⟩ | ⟨hlast, -⟩
        · have hlen := congrArg List.length hfirst
          rw [length_nil] at hlen
          exact ⟨by omega, hj⟩
        · exact hlast.elim
      · cases hb

theorem Partial.pointer : ∀ b ∈ bs, b.req = none := by
  induction h with
  | nil => exact fun b hb => absurd hb not_mem_nil
  | snoc hbs hb hreq hfull ih =>
    intro b' hb'
    rcases mem_append.mp hb' with hb' | hb'
    · exact ih b' hb'
    · rw [mem_singleton.mp hb']
      exact hreq

end

/-- **A complete request is encoded as the backend expects it.** -/
theorem Complete.requestEncoded {id : Nat} (h : Complete id req bs) : RequestEncoded id req bs := by
  have hsegments := h.segments
  obtain ⟨front, b, rfl, hfront, hb, hpointer⟩ := h.last
  have hlen : (front ++ [b]).length = front.length + 1 := by rw [length_append]; rfl
  refine ⟨fun b' hb' => ?_, hsegments, data_snoc hfront.sizes hfront.data hb,
    fun i j b' part hb' hpart htype => ?_, fun i b' hb' => ?_⟩
  · rcases mem_append.mp hb' with hb' | hb'
    · exact hfront.batchAccepted b' hb'
    · rw [mem_singleton.mp hb']
      exact hb.batchAccepted
  · rcases lt_or_ge i front.length with hlt | hge
    · rw [List.getElem?_append_left hlt] at hb'
      exact .inl (hfront.sync_position hb' hpart htype)
    · have hi := (List.getElem?_eq_some_iff.mp hb').1
      obtain rfl : i = front.length := by omega
      rw [List.getElem?_concat_length] at hb'
      cases hb'
      rcases hb.sync_position hpart htype with ⟨hfirst, hj⟩ | ⟨-, hj⟩
      · exact .inl ⟨by rw [hfirst]; rfl, hj⟩
      · exact .inr ⟨hlen.symm, hj⟩
  · rcases lt_or_ge i front.length with hlt | hge
    · rw [List.getElem?_append_left hlt] at hb'
      rw [if_neg (by omega)]
      exact hfront.pointer b' (mem_of_getElem? hb')
    · have hi := (List.getElem?_eq_some_iff.mp hb').1
      obtain rfl : i = front.length := by omega
      rw [List.getElem?_concat_length] at hb'
      cases hb'
      rw [if_pos hlen.symm]
      exact hpointer

/-! ## Runs without a failure -/

/-- Neither a context nor a slot is given up, and every page is mapped. -/
def NoFailure : DiskState → DiskAct → DiskState → Prop
  | _, .thread map stop, _ => stop = false ∧ map ≠ none ∧ map ≠ some 0
  | _, _, _ => True

instance (s : DiskState) (a : DiskAct) (s' : DiskState) : Decidable (NoFailure s a s') :=
  match a with
  | .thread map stop => inferInstanceAs (Decidable (stop = false ∧ map ≠ none ∧ map ≠ some 0))
  | .queueRq _ | .handler | .nextRequest | .respond _ _ | .respondTimeout _ | .publishResponse =>
    .isTrue trivial

/-- The context is full, so that the next segment makes a detour. -/
def DiskState.detour (s : DiskState) (c : Nat) : Nat :=
  if vcablkBioSplitSize ≤ (s.contexts c).bvecCtxs.length then 3 else 0

/-- A bound on the steps that the request thread has still to do for its request -/
def DiskState.stepsLeft (s : DiskState) : Nat :=
  match s.thread with
  | .idle => 0
  | .getContext l => 4 * l.segments.length + 7
  | .syncBefore l c => 4 * l.segments.length + 6 + s.detour c
  | .segment l c => 4 * l.segments.length + 5 + s.detour c
  | .syncAfter _ _ => 4
  | .finish _ _ => 3
  | .abort _ _ => 2
  | .waiting _ _ => 1

theorem ThreadStep.stepsLeft_lt {s s' : DiskState} {map : Option Nat} {stop : Bool}
    (h : ThreadStep s map stop s') (hbusy : s.thread ≠ .idle) : s'.stepsLeft < s.stepsLeft := by
  unfold stepsLeft
  cases h with
  | take at_idle _ _ _ => exact absurd at_idle hbusy
  | getContext hat hpop =>
    -- the new context is empty
    rw [hat]
    split_ifs <;> simp [detour, initContext, vcablkBioSplitSize]
  | noContext hat _ _ | splitFailed hat _ _ | noMap hat _ _ | mapNull hat _ _ _ _
  | syncAfter hat _ | finish hat _ | finishFailed hat _ | breakNone hat | breakContext hat _ =>
    rw [hat]
    dsimp only
    omega
  | endAborted hat _ =>
    rw [hat]
    exact Nat.zero_lt_one
  | syncBefore hat hroom =>
    rename_i l c
    rw [hat]
    show 4 * l.segments.length + 5 + s.detour c < 4 * l.segments.length + 6 + s.detour c
    omega
  | giveUp hat _ =>
    rcases hat with hat | hat | hat <;> rw [hat] <;> dsimp only <;> omega
  | segmentsDone hat hnil =>
    rw [hat]
    split_ifs <;> dsimp only <;> omega
  | split hat _ hsplit _ =>
    simp [hat, detour, hsplit]
  | segment hat hsegs hroom hfits hmap hda =>
    rename_i l c da bvec rest
    have hbound : ∀ s₁ : DiskState, s₁.detour c ≤ 3 := by
      intro s₁
      unfold detour
      split <;> omega
    have hlen : l.segments.length = rest.length + 1 := by rw [hsegs]; rfl
    rw [hat]
    refine Nat.lt_of_le_of_lt (Nat.add_le_add_left (hbound _) _) ?_
    show 4 * rest.length + 5 + 3 < 4 * l.segments.length + 5 + s.detour c
    omega

/-- The request thread takes `n` steps, with what mapping and stopping give it. -/
def threadRun (inputs : Nat → Option Nat × Bool) : Nat → DiskState → Option DiskState
  | 0, s => some s
  | n + 1, s =>
    (threadStep s (inputs 0).1 (inputs 0).2).bind (threadRun (fun i => inputs (i + 1)) n)

/-- **The request thread comes to an end with each request**, unless it waits for another party;
from a reachable state the wait is one of `ThreadWait`. -/
theorem thread_ends (s : DiskState) (inputs : Nat → Option Nat × Bool) :
    ∃ n ≤ s.stepsLeft, ∃ t, threadRun inputs n s = some t ∧
      (t.thread = .idle ∨
        threadStep t (inputs n).1 (inputs n).2 = none ∧
          (diskSystem.Reachable s → ThreadWait t (inputs n).2)) := by
  -- every step of a busy thread lowers `stepsLeft`
  induction hm : s.stepsLeft using Nat.strong_induction_on generalizing s inputs with
  | _ m ih =>
    subst hm
    by_cases hidle : s.thread = .idle
    · exact ⟨0, Nat.zero_le _, s, rfl, .inl hidle⟩
    cases hstep : threadStep s (inputs 0).1 (inputs 0).2 with
    | none =>
      exact ⟨0, Nat.zero_le _, s, rfl,
        .inr ⟨hstep, fun hreach => (diskInv_of_reachable hreach).threadWait hstep⟩⟩
    | some s' =>
      have hlt := (threadStep_cases hstep).stepsLeft_lt hidle
      obtain ⟨n, hle, t, hrun, hend⟩ := ih _ hlt s' (fun i => inputs (i + 1)) rfl
      refine ⟨n + 1, by omega, t, by simp [threadRun, hstep, hrun], ?_⟩
      refine hend.imp_right (And.imp_right fun hwait hreach => hwait ?_)
      exact .step (a := .thread (inputs 0).1 (inputs 0).2) hreach trivial hstep

/-- The requests that were worked through are complete; only a request with nothing to do is
broken off. -/
structure AllEncoded (s : DiskState) : Prop where
  done : ∀ id req, s.requests[id]? = some req → id < s.taken → s.thread.worksOn ≠ some id →
    (req.segments ≠ [] ∨ req.doSync = true) → Complete id req (s.batchesOf id)
  aborts : ∀ l c, s.thread = .abort l c ∨ s.thread = .waiting l c →
    l.req.segments = [] ∧ l.req.doSync = false

section

variable {s s' : DiskState}

theorem AllEncoded.frame (ok : AllEncoded s) (hrequests : s'.requests = s.requests)
    (htaken : s'.taken = s.taken) (hpublished : s'.published = s.published)
    (hworks : s'.thread.worksOn = s.thread.worksOn)
    (haborts : ∀ l c, s'.thread = .abort l c ∨ s'.thread = .waiting l c →
      l.req.segments = [] ∧ l.req.doSync = false) : AllEncoded s' := by
  refine ⟨?_, haborts⟩
  have hbatches := batchesOf_congr hpublished
  rw [hrequests, htaken, hworks, hbatches]
  exact ok.done

theorem AllEncoded.others (ok : AllEncoded s) (hrequests : s'.requests = s.requests)
    (htaken : s'.taken = s.taken) (hpublished : s'.published = s.published)
    (hthread : s'.thread = s.thread) : AllEncoded s' :=
  ok.frame hrequests htaken hpublished (by rw [hthread]) (by rw [hthread]; exact ok.aborts)

theorem AllEncoded.queueRq (queue : QueueOk s) (ok : AllEncoded s)
    (h : QueueStep s req s') : AllEncoded s' := by
  cases h with
  | refused => exact ok
  | queued hnormal hroom =>
    refine ⟨fun id req' hreq hlt => ok.done id req' ?_ hlt, ok.aborts⟩
    rw [← hreq, List.getElem?_append_left (lt_of_lt_of_le hlt queue.taken_le)]

theorem RingOk.building_nil (ok : RingOk s) (heq : s.requestRing.lastAdd = s.requestRingAlloc) :
    s.building = [] := by
  have hfits := ok.window.fits
  have hle := ok.used_le
  have hpos : 0 < vcablkQueueRequestsNums := by decide
  rw [length_append] at hfits
  rw [ok.lastAdd, ok.alloc, counter_eq_iff (Nat.le_add_right _ _) (by omega)] at heq
  exact eq_nil_of_length_eq_zero (by omega)

theorem Filling.nothing_to_do {l : AsyncRequest} {c : Nat} {before after : List VcablkRequest}
    (h : Filling s l c before after) (hafter : SyncParts (c + 1) (l.req.doSync = true) after)
    (hnil : l.segments = []) (hbuilding : s.building = []) :
    l.req.segments = [] ∧ l.req.doSync = false := by
  have hparts := h.building
  rw [hbuilding] at hparts
  obtain ⟨hfront, rfl⟩ := append_eq_nil_iff.mp hparts.symm
  obtain ⟨-, hdata⟩ := append_eq_nil_iff.mp hfront
  have hmaps : (s.contexts c).bvecCtxs = [] := by
    have hlen := congrArg List.length hdata
    rw [encodeParts_length, length_nil] at hlen
    exact eq_nil_of_length_eq_zero hlen
  constructor
  · -- an earlier batch would have left a segment for this one
    have hsegments := h.progress.segments
    rcases h.progress.more with hprevious | hmore | hmore
    · rw [h.progress.previous.mp hprevious, hmaps, hnil] at hsegments
      exact hsegments.symm
    · exact absurd hmaps hmore
    · exact absurd hnil hmore
  · rcases hafter with ⟨-, part, hpart, -⟩ | ⟨hsync, -⟩
    · cases hpart
    · exact Bool.eq_false_of_not_eq_true hsync

/-- **Without a failure the request thread completes every request.** -/
theorem ThreadStep.allEncoded {map : Option Nat} {stop : Bool} (inv : DiskInv s)
    (ok : AllEncoded s) (hguard : stop = false ∧ map ≠ none ∧ map ≠ some 0)
    (h : ThreadStep s map stop s') : AllEncoded s' := by
  obtain ⟨hstop, hmapped, hnotnull⟩ := hguard
  have build := inv.build
  unfold BuildOk at build
  cases h with
  | take at_idle hne hring hreq =>
    obtain ⟨rfl, -⟩ := inv.queue.next hne hring
    refine ⟨fun id req hreq' hlt hworks => ok.done id req hreq' ?_ ?_, fun l c hat => ?_⟩
    · -- the request just taken is being worked on
      have hne : s.taken ≠ id := fun heq => hworks (congrArg some heq)
      dsimp only at hlt
      omega
    · rw [at_idle]
      exact nofun
    · rcases hat with hat | hat <;> cases hat
  | getContext at_get hpop =>
    refine ok.frame rfl rfl rfl ?_ fun l c hat => ?_
    · rw [at_get]
      dsimp only
      split <;> rfl
    · dsimp only at hat
      split at hat <;> rcases hat with hat | hat <;> cases hat
  | noContext _ hstop' _ | giveUp _ hstop' =>
    rw [hstop] at hstop'
    cases hstop'
  | syncBefore at_sync _ | syncAfter at_sync _ | segment at_sync _ _ _ _ _ =>
    refine ok.frame rfl rfl rfl (by rw [at_sync]; rfl) fun l c hat => ?_
    rcases hat with hat | hat <;> cases hat
  | segmentsDone at_segment hnil =>
    refine ok.frame rfl rfl rfl ?_ fun l c hat => ?_
    · rw [at_segment]
      dsimp only
      split <;> rfl
    · dsimp only at hat
      split at hat <;> rcases hat with hat | hat <;> cases hat
  | split at_segment hsegs hsplit hne =>
    rename_i l c bvec rest
    refine ⟨fun id req hreq hlt hworks => ?_, fun l c hat => ?_⟩
    · have hid : l.id ≠ id := fun heq => hworks (congrArg some heq)
      rw [batchesOf_append (s := s) rfl id, if_neg hid, append_nil]
      refine ok.done id req hreq hlt ?_
      rw [at_segment]
      exact hworks
    · rcases hat with hat | hat <;> cases hat
  | splitFailed at_segment hsplit heq =>
    -- a full context was filled with parts
    rw [at_segment] at build
    obtain ⟨before, -, hfill⟩ := build
    have hlen := congrArg List.length hfill.building
    rw [inv.ring.building_nil heq, length_append, length_append, encodeParts_length]
      at hlen
    have hpos : 0 < vcablkBioSplitSize := by decide
    rw [length_nil] at hlen
    omega
  | noMap _ _ hmap => exact absurd hmap hmapped
  | mapNull _ _ _ _ hmap => exact absurd hmap hnotnull
  | finish at_finish hne =>
    rename_i l c
    rw [at_finish] at build
    obtain ⟨before, after, hbefore, hafter, hfill, hnil⟩ := build
    have hpublished : (startBatch (setReq s c l.id) l c).published = s.published ++
        [⟨c, l.id, some l.id, s.building, (s.contexts c).bvecCtxs⟩] := by
      simp [startBatch, setReq]
    refine ⟨fun id req hreq hlt hworks hwork => ?_, fun l c hat => ?_⟩
    · by_cases hid : l.id = id
      · subst hid
        obtain rfl : l.req = req := by
          have := hfill.progress.request.symm.trans hreq
          exact Option.some.inj this
        exact hfill.complete inv.ring hbefore hafter hnil hne hpublished
      · show Complete id req ((startBatch (setReq s c l.id) l c).batchesOf id)
        rw [batchesOf_append hpublished id, if_neg hid, append_nil]
        refine ok.done id req hreq hlt ?_ hwork
        rw [at_finish]
        exact fun heq => hid (Option.some.inj heq)
    · rcases hat with hat | hat <;> cases hat
  | finishFailed at_finish heq =>
    rw [at_finish] at build
    obtain ⟨before, after, hbefore, hafter, hfill, hnil⟩ := build
    refine ok.frame rfl rfl rfl (by rw [at_finish]; rfl) fun l' c' hat => ?_
    rcases hat with hat | hat
    · cases hat
      exact hfill.nothing_to_do hafter hnil (inv.ring.building_nil heq)
    · cases hat
  | breakNone at_abort | breakContext at_abort _ =>
    refine ok.frame rfl rfl rfl (by rw [at_abort]; rfl) fun l' c' hat => ?_
    rcases hat with hat | hat
    · cases hat
    · cases hat
      exact ok.aborts _ _ (.inl at_abort)
  | endAborted at_waiting hprevious =>
    rename_i l c
    rw [at_waiting] at build
    refine ⟨fun id req hreq hlt hworks hwork => ?_, fun l c hat => ?_⟩
    · by_cases hid : l.id = id
      · subst hid
        obtain rfl : l.req = req := Option.some.inj (build.2.request.symm.trans hreq)
        obtain ⟨hsegments, hsync⟩ := ok.aborts l c (.inr at_waiting)
        rcases hwork with hwork | hwork
        · exact absurd hsegments hwork
        · rw [hsync] at hwork
          cases hwork
      · refine ok.done id req hreq hlt ?_ hwork
        rw [at_waiting]
        exact fun heq => hid (Option.some.inj heq)
    · rcases hat with hat | hat <;> cases hat

theorem DiskStep.allEncoded {a : DiskAct} (inv : DiskInv s) (ok : AllEncoded s)
    (hguard : NoFailure s a s') (h : DiskStep s a s') : AllEncoded s' := by
  cases h with
  | queueRq h => exact ok.queueRq inv.queue h
  | thread h => exact h.allEncoded inv ok hguard
  | handler h => cases h <;> exact ok.others rfl rfl rfl rfl
  | nextRequest h =>
    cases inv.readEffect h with
    | copied r busy heq hok =>
      subst heq
      exact ok.others rfl rfl rfl rfl
    | returned b rest hunread heq =>
      subst heq
      exact ok.others rfl rfl rfl rfl
  | response h => cases h <;> exact ok.others rfl rfl rfl rfl

end

theorem EncodedOk.batchAccepted {s : DiskState} (queue : QueueOk s) (ok : EncodedOk s) {b : Batch}
    (hb : b ∈ s.published) :
    ∃ req, s.requests[b.owner]? = some req ∧ BatchAccepted req b := by
  have hlt := lt_of_lt_of_le (ok.owner_lt b hb) queue.taken_le
  have hreq : s.requests[b.owner]? = some s.requests[b.owner] := List.getElem?_eq_getElem hlt
  have hmem : b ∈ s.batchesOf b.owner := mem_filter.mpr ⟨hb, by simp⟩
  refine ⟨_, hreq, ?_⟩
  rcases ok.requests _ _ hreq with h | h
  · exact h.batchAccepted b hmem
  · exact h.requestEncoded.batches b hmem

/-- **Encoding agreement**: the backend accepts every published batch, and in a run without a
failure the batches of every request that `vcablk_disk_async_request` has worked through
list its segments, as long as it has a segment or the sync flag. -/
theorem request_encoded {s : DiskState} (h : diskSystem.ReachBy NoFailure s) :
    (∀ b ∈ s.published, ∃ req, s.requests[b.owner]? = some req ∧ BatchAccepted req b) ∧
      ∀ id req, s.requests[id]? = some req → id < s.taken → s.thread.worksOn ≠ some id →
        (req.segments ≠ [] ∨ req.doSync = true) → RequestEncoded id req (s.batchesOf id) := by
  have hboth : DiskInv s ∧ AllEncoded s := by
    refine System.ReachBy.invariant (I := fun s => DiskInv s ∧ AllEncoded s) ?_ ?_ h
    · rintro s ⟨requestElems, completionElems, rfl⟩
      refine ⟨DiskInv.init requestElems completionElems, fun id req hreq => ?_, fun l c hat => ?_⟩
      · cases hreq
      · rcases hat with hat | hat <;> cases hat
    · rintro s a s' ⟨inv, ok⟩ hguard hstep
      have hcases := diskStep_cases hstep
      exact ⟨inv.step hcases, hcases.allEncoded inv ok hguard⟩
  obtain ⟨inv, ok⟩ := hboth
  exact ⟨fun b hb => inv.encoded.batchAccepted inv.queue hb,
    fun id req hreq hlt hworks hwork => (ok.done id req hreq hlt hworks hwork).requestEncoded⟩

/-- A synchronous write of 33 pages: one more than a context takes -/
def longWrite : BlkRequest :=
  ⟨false, true, false, false, false, true, 64, List.replicate 33 ⟨7, 0, 4096⟩⟩

theorem request_encoded_longWrite :
    ∃ s, diskSystem.ReachBy NoFailure s ∧
      (s.batchesOf 0).map (fun b => b.parts.length) = [33, 2] ∧
      RequestEncoded 0 longWrite (s.batchesOf 0) := by
  have hrun : (diskSystem.runBy NoFailure (DiskState.initial (fun _ => ⟨0, 0, 0, 0, 0⟩)
      (fun _ => ⟨0, 0⟩)) (.queueRq longWrite :: List.replicate 41 (.thread (some 4096) false))).map
        (fun s => ((s.batchesOf 0).map (fun b => b.parts.length), s.requests[0]?, s.taken,
          s.thread)) =
      some ([33, 2], some longWrite, 1, .idle) := by decide +kernel
  obtain ⟨s, hreach, hobs⟩ := System.exists_reachBy hrun ⟨_, _, rfl⟩
  simp only [Prod.mk.injEq] at hobs
  obtain ⟨hlengths, hreq, htaken, hthread⟩ := hobs
  refine ⟨s, hreach, hlengths, (request_encoded hreach).2 0 longWrite hreq ?_ ?_ (.inr rfl)⟩
  · rw [htaken]
    exact Nat.zero_lt_one
  · rw [hthread]
    exact nofun

end Vcass.Vcablk
