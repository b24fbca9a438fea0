import Vcass.Vcablk.Contexts

/-!
# How a Request Is Cut into Batches

`Partial` and `Complete` say what the batches published for a request are: runs of data parts
that continue each other's sectors, 32 in each batch but the last, with a `REQUEST_SYNC` in front
of the first and behind the last when the request wants it.  `BuildOk` is the invariant of
`vcablk_disk_async_request` between its steps.
-/

namespace Vcass.Vcablk

open Vcass.Core Vcass.BlockIo List DiskState

/-! ## Requests on their way to the request thread -/

/-- The ring of `vcablk_disk_queue_rq`: the requests are taken in the order they came. -/
structure QueueOk (s : DiskState) : Prop where
  head : s.reqRing.head = s.requests.length % reqRingSize
  tail : s.reqRing.tail = s.taken % reqRingSize
  taken_le : s.taken ≤ s.requests.length
  room : s.requests.length < s.taken + reqRingSize
  window : Window reqRingSize s.reqRing.ring ((List.range s.requests.length).map some) s.taken

namespace QueueOk

variable {s s' : DiskState}

theorem mask (a : Nat) : (a % reqRingSize + 1) &&& (reqRingSize - 1) = (a + 1) % reqRingSize := by
  rw [show reqRingSize = 2 ^ 11 from rfl, Nat.and_two_pow_sub_one_eq_mod, Nat.mod_add_mod]

theorem frame (ok : QueueOk s) (hring : s'.reqRing = s.reqRing)
    (hrequests : s'.requests = s.requests) (htaken : s'.taken = s.taken) : QueueOk s' := by
  constructor <;> simp only [hring, hrequests, htaken]
  exacts [ok.head, ok.tail, ok.taken_le, ok.room, ok.window]

theorem queueRq (ok : QueueOk s) {req : BlkRequest} (h : QueueStep s req s') : QueueOk s' := by
  cases h with
  | refused => exact ok
  | queued hnormal hnew =>
    have hlt := ok.room
    have hle := ok.taken_le
    -- the new head does not run into the tail
    have hroom : s.requests.length + 1 < s.taken + reqRingSize := by
      refine lt_of_le_of_ne hlt fun heq => hnew ?_
      rw [ok.head, ok.tail, mask, heq, Nat.add_mod_right]
    have hlen : ((List.range s.requests.length).map some).length = s.requests.length := by
      simp
    have hwindow := ok.window.push (by rw [hlen]; exact hlt) (some s.requests.length)
    constructor
    · dsimp only
      rw [ok.head, mask, length_append]
      rfl
    · exact ok.tail
    · simp only [length_append, length_singleton]
      omega
    · simpa using hroom
    · dsimp only
      rw [length_append, length_singleton, range_succ, map_append, ok.head]
      rw [hlen] at hwindow
      exact hwindow

/-- The oldest request stands at the tail. -/
theorem pending (ok : QueueOk s) (hne : s.reqRing.head ≠ s.reqRing.tail) :
    s.taken < s.requests.length ∧ s.reqRing.ring s.reqRing.tail = some s.taken := by
  have hlt : s.taken < s.requests.length := by
    refine lt_of_le_of_ne ok.taken_le fun heq => hne ?_
    rw [ok.head, ok.tail, heq]
  rw [ok.tail]
  exact ⟨hlt, ok.window.read (le_refl _) (by simp [hlt])⟩

theorem next (ok : QueueOk s) {id : Nat} (hne : s.reqRing.head ≠ s.reqRing.tail)
    (hring : s.reqRing.ring s.reqRing.tail = some id) :
    id = s.taken ∧ s.taken < s.requests.length := by
  obtain ⟨hlt, htail⟩ := ok.pending hne
  exact ⟨(Option.some.inj (htail.symm.trans hring)).symm, hlt⟩

theorem take (ok : QueueOk s) (hlt : s.taken < s.requests.length)
    (hring : s'.reqRing = { s.reqRing with tail := (s.reqRing.tail + 1) &&& (reqRingSize - 1) })
    (hrequests : s'.requests = s.requests) (htaken : s'.taken = s.taken + 1) : QueueOk s' := by
  have hroom := ok.room
  constructor
  · rw [hring, hrequests]
    exact ok.head
  · rw [hring, htaken, ok.tail]
    exact mask s.taken
  · rw [hrequests, htaken]
    exact hlt
  · rw [hrequests, htaken]
    omega
  · rw [hring, hrequests, htaken]
    exact ok.window.advance (Nat.le_succ _)

end QueueOk

/-! ## The parts of a batch -/

/-- The data parts for a list of mappings, from `sector` on -/
def encodeParts (cookie type : Nat) : Nat → List BvecContext → List VcablkRequest
  | _, [] => []
  | sector, m :: maps =>
    ⟨m.dmaAddr, sector, m.size >>> sectorShift, cookie, type⟩ ::
      encodeParts cookie type ((sector + m.size >>> sectorShift) % 2 ^ 64) maps

def sectorAfter : Nat → List BvecContext → Nat
  | sector, [] => sector
  | sector, m :: maps => sectorAfter ((sector + m.size >>> sectorShift) % 2 ^ 64) maps

theorem sectorAfter_append (sector : Nat) (maps maps' : List BvecContext) :
    sectorAfter sector (maps ++ maps') = sectorAfter (sectorAfter sector maps) maps' := by
  induction maps generalizing sector with
  | nil => rfl
  | cons m maps ih => exact ih _

theorem encodeParts_append (cookie type sector : Nat) (maps maps' : List BvecContext) :
    encodeParts cookie type sector (maps ++ maps') =
      encodeParts cookie type sector maps ++
        encodeParts cookie type (sectorAfter sector maps) maps' := by
  induction maps generalizing sector with
  | nil => rfl
  | cons m maps ih =>
    simp only [cons_append, encodeParts, sectorAfter]
    rw [ih]

theorem encodeParts_length (cookie type sector : Nat) (maps : List BvecContext) :
    (encodeParts cookie type sector maps).length = maps.length := by
  induction maps generalizing sector with
  | nil => rfl
  | cons m maps ih =>
    simp only [encodeParts, length_cons]
    rw [ih]

theorem encodeParts_mem {cookie type sector : Nat} {maps : List BvecContext}
    {part : VcablkRequest} (h : part ∈ encodeParts cookie type sector maps) :
    part.cookie = cookie ∧ part.requestType = type := by
  induction maps generalizing sector with
  | nil => cases h
  | cons m maps ih =>
    rcases mem_cons.mp h with rfl | h
    · exact ⟨rfl, rfl⟩
    · exact ih h

/-- One `REQUEST_SYNC` with the cookie, or nothing -/
def SyncParts (cookie : Nat) (wanted : Prop) (parts : List VcablkRequest) : Prop :=
  (wanted ∧ ∃ part, parts = [part] ∧ part.requestType = requestSync ∧ part.cookie = cookie) ∨
    (¬ wanted ∧ parts = [])

theorem SyncParts.length_le {cookie : Nat} {wanted : Prop} {parts : List VcablkRequest}
    (h : SyncParts cookie wanted parts) : parts.length ≤ 1 := by
  rcases h with ⟨-, part, rfl, -⟩ | ⟨-, rfl⟩
  · exact Nat.le_refl _
  · exact Nat.zero_le _

theorem SyncParts.mem {cookie : Nat} {wanted : Prop} {parts : List VcablkRequest}
    (h : SyncParts cookie wanted parts) {part : VcablkRequest} (hpart : part ∈ parts) :
    wanted ∧ part.requestType = requestSync ∧ part.cookie = cookie := by
  rcases h with ⟨hwanted, p, rfl, htype, hcookie⟩ | ⟨-, rfl⟩
  · cases mem_singleton.mp hpart
    exact ⟨hwanted, htype, hcookie⟩
  · cases hpart

/-- One batch of a request: `first` and `last` say where a `REQUEST_SYNC` may stand. -/
structure BatchEncodes (req : BlkRequest) (first last : Prop) (sector : Nat) (b : Batch) :
    Prop where
  parts : ∃ before after, SyncParts (b.context + 1) (first ∧ req.doSync = true) before ∧
    SyncParts (b.context + 1) (last ∧ req.doSync = true) after ∧
    b.parts = before ++ encodeParts (b.context + 1) req.type sector b.maps ++ after
  sizes : ∀ m ∈ b.maps, m.size = m.bvec.bvLen
  length_le : b.maps.length ≤ vcablkBioSplitSize
  nonempty : b.parts ≠ []

theorem BatchEncodes.batchOk {req : BlkRequest} {first last : Prop} {sector : Nat} {b : Batch}
    (h : BatchEncodes req first last sector b) : BatchOk b := by
  obtain ⟨before, after, hbefore, hafter, hparts⟩ := h.parts
  refine ⟨h.nonempty, fun part hpart => ?_, ?_⟩
  · rw [hparts, mem_append, mem_append] at hpart
    rcases hpart with (hpart | hpart) | hpart
    · exact (hbefore.mem hpart).2.2
    · exact (encodeParts_mem hpart).1
    · exact (hafter.mem hpart).2.2
  · have h₁ := hbefore.length_le
    have h₂ := hafter.length_le
    have h₃ := h.length_le
    rw [hparts, length_append, length_append, encodeParts_length]
    omega

/-! ## The batches of a request -/

def mapsOf (bs : List Batch) : List BvecContext := bs.flatMap Batch.maps

/-- The batches published for a request that is not complete -/
inductive Partial (req : BlkRequest) : List Batch → Prop where
  | nil : Partial req []
  | snoc {bs : List Batch} {b : Batch} (hbs : Partial req bs)
      (hb : BatchEncodes req (bs = []) False (sectorAfter req.pos (mapsOf bs)) b)
      (hreq : b.req = none) (hfull : b.maps.length = vcablkBioSplitSize) :
      Partial req (bs ++ [b])

/-- The batches published for a complete request: the last one has the request pointer. -/
structure Complete (id : Nat) (req : BlkRequest) (bs : List Batch) : Prop where
  last : ∃ front b, bs = front ++ [b] ∧ Partial req front ∧
    BatchEncodes req (front = []) True (sectorAfter req.pos (mapsOf front)) b ∧ b.req = some id
  segments : (mapsOf bs).map BvecContext.bvec = req.segments

def DiskState.batchesOf (s : DiskState) (id : Nat) : List Batch :=
  s.published.filter fun b => b.owner = id

theorem batchesOf_congr {s s' : DiskState} (hpublished : s'.published = s.published) :
    s'.batchesOf = s.batchesOf := by
  unfold batchesOf
  rw [hpublished]

theorem batchesOf_append {s s' : DiskState} {b : Batch}
    (hpublished : s'.published = s.published ++ [b]) (id : Nat) :
    s'.batchesOf id = s.batchesOf id ++ if b.owner = id then [b] else [] := by
  unfold batchesOf
  rw [hpublished, filter_append, filter_singleton]
  simp

structure EncodedOk (s : DiskState) : Prop where
  owner_lt : ∀ b ∈ s.published, b.owner < s.taken
  batches : ∀ b ∈ s.published, BatchOk b
  requests : ∀ id req, s.requests[id]? = some req →
    Partial req (s.batchesOf id) ∨ Complete id req (s.batchesOf id)

/-! ## The request thread -/

/-- The request thread works on `l`, with the mappings `maps` in its context. -/
structure Progress (s : DiskState) (l : AsyncRequest) (maps : List BvecContext) : Prop where
  taken : l.id + 1 = s.taken
  request : s.requests[l.id]? = some l.req
  batches : Partial l.req (s.batchesOf l.id)
  previous : l.previous = none ↔ s.batchesOf l.id = []
  segments : (mapsOf (s.batchesOf l.id) ++ maps).map BvecContext.bvec ++ l.segments =
    l.req.segments
  sector : l.sector = sectorAfter l.req.pos (mapsOf (s.batchesOf l.id) ++ maps)
  sizes : ∀ m ∈ maps, m.size = m.bvec.bvLen
  /-- A batch is published early only when there is more to do -/
  more : l.previous = none ∨ maps ≠ [] ∨ l.segments ≠ []

/-- The request thread fills the batch of context `c`. -/
structure Filling (s : DiskState) (l : AsyncRequest) (c : Nat)
    (before after : List VcablkRequest) : Prop where
  progress : Progress s l (s.contexts c).bvecCtxs
  id : (s.contexts c).id = c + 1
  req : (s.contexts c).req = none
  length_le : (s.contexts c).bvecCtxs.length ≤ vcablkBioSplitSize
  building : s.building = before ++ encodeParts (c + 1) l.req.type
    (sectorAfter l.req.pos (mapsOf (s.batchesOf l.id))) (s.contexts c).bvecCtxs ++ after

/-- The request thread gives up on `l`. -/
structure Breaking (s : DiskState) (l : AsyncRequest) : Prop where
  taken : l.id + 1 = s.taken
  request : s.requests[l.id]? = some l.req
  batches : Partial l.req (s.batchesOf l.id)

/-- **The invariant of `vcablk_disk_async_request`** -/
def BuildOk (s : DiskState) : Prop :=
  match s.thread with
  | .idle => s.building = []
  | .getContext l => s.building = [] ∧ Progress s l []
  | .syncBefore l c =>
    Filling s l c [] [] ∧ (s.contexts c).bvecCtxs = [] ∧ s.batchesOf l.id = [] ∧
      l.req.doSync = true
  | .segment l c =>
    ∃ before, SyncParts (c + 1) (s.batchesOf l.id = [] ∧ l.req.doSync = true) before ∧
      Filling s l c before []
  | .syncAfter l c =>
    ∃ before, SyncParts (c + 1) (s.batchesOf l.id = [] ∧ l.req.doSync = true) before ∧
      Filling s l c before [] ∧ l.segments = [] ∧ l.req.doSync = true
  | .finish l c =>
    ∃ before after, SyncParts (c + 1) (s.batchesOf l.id = [] ∧ l.req.doSync = true) before ∧
      SyncParts (c + 1) (l.req.doSync = true) after ∧ Filling s l c before after ∧
      l.segments = []
  | .abort l _ => Breaking s l
  | .waiting l _ => s.building = [] ∧ Breaking s l

/-! ## Frames -/

section

variable {s s' : DiskState} {l : AsyncRequest} {c : Nat}

theorem Progress.breaking {maps : List BvecContext} (h : Progress s l maps) : Breaking s l :=
  ⟨h.taken, h.request, h.batches⟩

theorem Progress.frame {maps : List BvecContext} (h : Progress s l maps)
    (htaken : s'.taken = s.taken)
    (hrequests : ∀ (id : Nat) req, s.requests[id]? = some req → s'.requests[id]? = some req)
    (hpublished : s'.published = s.published) : Progress s' l maps := by
  have hbatches := batchesOf_congr hpublished
  refine ⟨htaken ▸ h.taken, hrequests _ _ h.request, ?_, ?_, ?_, ?_, h.sizes, h.more⟩ <;>
    rw [hbatches]
  exacts [h.batches, h.previous, h.segments, h.sector]

theorem Breaking.frame (h : Breaking s l) (htaken : s'.taken = s.taken)
    (hrequests : ∀ (id : Nat) req, s.requests[id]? = some req → s'.requests[id]? = some req)
    (hpublished : s'.published = s.published) : Breaking s' l := by
  have hbatches := batchesOf_congr hpublished
  exact ⟨htaken ▸ h.taken, hrequests _ _ h.request, hbatches ▸ h.batches⟩

theorem Filling.frame {before after : List VcablkRequest} (h : Filling s l c before after)
    (htaken : s'.taken = s.taken)
    (hrequests : ∀ (id : Nat) req, s.requests[id]? = some req → s'.requests[id]? = some req)
    (hpublished : s'.published = s.published) (hbuilding : s'.building = s.building)
    (hcontext : s'.contexts c = s.contexts c) : Filling s' l c before after := by
  have hbatches := batchesOf_congr hpublished
  constructor
  · rw [hcontext]
    exact h.progress.frame htaken hrequests hpublished
  · rw [hcontext]
    exact h.id
  · rw [hcontext]
    exact h.req
  · rw [hcontext]
    exact h.length_le
  · rw [hbuilding, hcontext, hbatches]
    exact h.building

theorem BuildOk.frame (ok : BuildOk s) (hthread : s'.thread = s.thread)
    (htaken : s'.taken = s.taken)
    (hrequests : ∀ (id : Nat) req, s.requests[id]? = some req → s'.requests[id]? = some req)
    (hpublished : s'.published = s.published) (hbuilding : s'.building = s.building)
    (hcontexts : ∀ c, c + 1 ∈ s.thread.cookies → s'.contexts c = s.contexts c) : BuildOk s' := by
  have hbatches := batchesOf_congr hpublished
  unfold BuildOk at ok ⊢
  rw [hthread]
  -- at each place the claim is about the request in work and the context that the thread holds
  cases ht : s.thread with rw [ht] at ok hcontexts
  | idle => exact hbuilding.trans ok
  | getContext l => exact ⟨hbuilding.trans ok.1, ok.2.frame htaken hrequests hpublished⟩
  | syncBefore l c =>
    have hc := hcontexts c mem_cons_self
    obtain ⟨hfill, hnil, hfirst, hsync⟩ := ok
    exact ⟨hfill.frame htaken hrequests hpublished hbuilding hc, by rw [hc]; exact hnil,
      by rw [hbatches]; exact hfirst, hsync⟩
  | segment l c =>
    have hc := hcontexts c mem_cons_self
    obtain ⟨before, hbefore, hfill⟩ := ok
    exact ⟨before, by rw [hbatches]; exact hbefore,
      hfill.frame htaken hrequests hpublished hbuilding hc⟩
  | syncAfter l c =>
    have hc := hcontexts c mem_cons_self
    obtain ⟨before, hbefore, hfill, hrest⟩ := ok
    exact ⟨before, by rw [hbatches]; exact hbefore,
      hfill.frame htaken hrequests hpublished hbuilding hc, hrest⟩
  | finish l c =>
    have hc := hcontexts c mem_cons_self
    obtain ⟨before, after, hbefore, hafter, hfill, hnil⟩ := ok
    exact ⟨before, after, by rw [hbatches]; exact hbefore, hafter,
      hfill.frame htaken hrequests hpublished hbuilding hc, hnil⟩
  | abort l c => exact ok.frame htaken hrequests hpublished
  | waiting l c => exact ⟨hbuilding.trans ok.1, ok.2.frame htaken hrequests hpublished⟩

theorem EncodedOk.frame (ok : EncodedOk s) (htaken : s.taken ≤ s'.taken)
    (hrequests : s'.requests = s.requests) (hpublished : s'.published = s.published) :
    EncodedOk s' := by
  have hbatches := batchesOf_congr hpublished
  constructor
  · rw [hpublished]
    exact fun b hb => lt_of_lt_of_le (ok.owner_lt b hb) htaken
  · rw [hpublished]
    exact ok.batches
  · rw [hrequests, hbatches]
    exact ok.requests

end

/-! ## Steps of the request thread -/

section

variable {s s' : DiskState} {l : AsyncRequest} {c : Nat}

theorem EncodedOk.batchesOf_taken (ok : EncodedOk s) : s.batchesOf s.taken = [] := by
  unfold batchesOf
  rw [filter_eq_nil_iff]
  intro b hb howner
  have hlt := ok.owner_lt b hb
  rw [of_decide_eq_true howner] at hlt
  exact lt_irrefl _ hlt

theorem Progress.take (enc : EncodedOk s) {req : BlkRequest}
    (hreq : s.requests[s.taken]? = some req) (htaken : s'.taken = s.taken + 1)
    (hrequests : s'.requests = s.requests) (hpublished : s'.published = s.published) :
    Progress s' ⟨s.taken, req, req.pos, req.segments, none⟩ [] := by
  have hnil : s'.batchesOf s.taken = [] := by
    unfold batchesOf
    rw [hpublished]
    exact enc.batchesOf_taken
  refine ⟨htaken.symm, ?_, ?_, ?_, ?_, ?_, fun m hm => absurd hm not_mem_nil, .inl rfl⟩
  · rw [hrequests]
    exact hreq
  · rw [hnil]
    exact Partial.nil
  · rw [hnil]
    exact iff_of_true rfl rfl
  · rw [hnil]
    rfl
  · rw [hnil]
    rfl

theorem Filling.fresh (h : Progress s l []) (hbuilding : s.building = [])
    (hcontext : s.contexts c = ⟨c + 1, none, [], l.id⟩) : Filling s l c [] [] := by
  constructor <;> rw [hcontext]
  · exact h
  · exact Nat.zero_le _
  · exact hbuilding

variable {before : List VcablkRequest}

/-- A `REQUEST_SYNC` behind the data parts -/
theorem Filling.sync {part : VcablkRequest}
    (h : Filling s l c before []) (htaken : s'.taken = s.taken)
    (hrequests : s'.requests = s.requests) (hpublished : s'.published = s.published)
    (hbuilding : s'.building = s.building ++ [part])
    (hcontext : s'.contexts c = s.contexts c) : Filling s' l c before [part] := by
  have hbatches := batchesOf_congr hpublished
  constructor <;> rw [hcontext]
  · exact h.progress.frame htaken (fun _ _ hreq => hrequests ▸ hreq) hpublished
  · exact h.id
  · exact h.req
  · exact h.length_le
  · rw [hbuilding, h.building, hbatches, append_nil]

/-- Without data parts it does not matter on which side the `REQUEST_SYNC` stands. -/
theorem Filling.sync_first {part : VcablkRequest} (h : Filling s l c [] [part])
    (hnil : (s.contexts c).bvecCtxs = []) : Filling s l c [part] [] := by
  obtain ⟨hprogress, hid, hreq, hle, hbuilding⟩ := h
  refine ⟨hprogress, hid, hreq, hle, ?_⟩
  rw [hbuilding, hnil]
  rfl

theorem Filling.segment {bvec : BioVec} {rest : List BioVec}
    {da : Nat} (h : Filling s l c before []) (hsegs : l.segments = bvec :: rest)
    (hfits : (s.contexts c).bvecCtxs.length < vcablkBioSplitSize) (htaken : s'.taken = s.taken)
    (hrequests : s'.requests = s.requests) (hpublished : s'.published = s.published)
    (hbuilding : s'.building =
      s.building ++ [⟨da, l.sector, bvec.bvLen >>> sectorShift, (s.contexts c).id, l.req.type⟩])
    (hcontext : s'.contexts c =
      { s.contexts c with bvecCtxs := (s.contexts c).bvecCtxs ++ [mapPage l bvec da] }) :
    Filling s' (l.next bvec rest) c before [] := by
  have hbatches := batchesOf_congr hpublished
  have hprogress := h.progress
  have hsector := hprogress.sector
  rw [sectorAfter_append] at hsector
  refine ⟨⟨?_, ?_, ?_, ?_, ?_, ?_, ?_, ?_⟩, ?_, ?_, ?_, ?_⟩
  · rw [htaken]
    exact hprogress.taken
  · rw [hrequests]
    exact hprogress.request
  · rw [hbatches]
    exact hprogress.batches
  · rw [hbatches]
    exact hprogress.previous
  · -- the segment moves from what is left to what is mapped
    have hsegments := hprogress.segments
    rw [hsegs] at hsegments
    rw [hbatches, hcontext]
    simp only [AsyncRequest.next, mapPage, map_append, append_assoc] at hsegments ⊢
    exact hsegments
  · rw [hbatches, hcontext, ← append_assoc, sectorAfter_append]
    show _ = sectorAfter (sectorAfter l.req.pos
      (mapsOf (s.batchesOf l.id) ++ (s.contexts c).bvecCtxs)) [mapPage l bvec da]
    rw [← hprogress.sector]
    rfl
  · intro m hm
    rw [hcontext] at hm
    rcases mem_append.mp hm with hm | hm
    · exact hprogress.sizes m hm
    · rw [mem_singleton.mp hm]
      rfl
  · rw [hcontext]
    exact .inr (.inl (append_ne_nil_of_right_ne_nil _ (cons_ne_nil _ _)))
  · rw [hcontext]
    exact h.id
  · rw [hcontext]
    exact h.req
  · rw [hcontext, length_append]
    exact hfits
  · -- the new part continues the sectors of the parts before it
    rw [hbuilding, h.building, hbatches, hcontext, h.id, hsector]
    dsimp only
    rw [encodeParts_append]
    simp only [append_assoc, append_nil]
    rfl

theorem Filling.encodes {before after : List VcablkRequest} (h : Filling s l c before after)
    (last : Prop) (req : Option Nat)
    (hbefore : SyncParts (c + 1) (s.batchesOf l.id = [] ∧ l.req.doSync = true) before)
    (hafter : SyncParts (c + 1) (last ∧ l.req.doSync = true) after) (hne : s.building ≠ []) :
    BatchEncodes l.req (s.batchesOf l.id = []) last
      (sectorAfter l.req.pos (mapsOf (s.batchesOf l.id)))
      ⟨c, l.id, req, s.building, (s.contexts c).bvecCtxs⟩ where
  parts := ⟨before, after, hbefore, hafter, h.building⟩
  sizes := h.progress.sizes
  length_le := h.length_le
  nonempty := hne

/-- What was filled makes a difference between `last_add` and `request_ring_alloc`. -/
theorem RingOk.building_ne_nil (ok : RingOk s) (hne : s.requestRing.lastAdd ≠ s.requestRingAlloc) :
    s.building ≠ [] := by
  intro hnil
  refine hne ?_
  rw [ok.lastAdd, ok.alloc, hnil]
  rfl

theorem mapsOf_append (bs : List Batch) (b : Batch) :
    mapsOf (bs ++ [b]) = mapsOf bs ++ b.maps := by
  unfold mapsOf
  rw [flatMap_append, flatMap_singleton]

theorem Progress.split (ring : RingOk s)
    (h : Filling s l c before []) (hsegs : l.segments ≠ [])
    (hbefore : SyncParts (c + 1) (s.batchesOf l.id = [] ∧ l.req.doSync = true) before)
    (hsplit : vcablkBioSplitSize ≤ (s.contexts c).bvecCtxs.length)
    (hne : s.requestRing.lastAdd ≠ s.requestRingAlloc) (htaken : s'.taken = s.taken)
    (hrequests : s'.requests = s.requests)
    (hpublished : s'.published = s.published ++
      [⟨c, l.id, (s.contexts c).req, s.building, (s.contexts c).bvecCtxs⟩]) :
    Progress s' { l with previous := some c } [] := by
  have hprogress := h.progress
  have hbatches := batchesOf_append hpublished l.id
  rw [if_pos rfl] at hbatches
  have hencodes := h.encodes False (s.contexts c).req hbefore
    (.inr ⟨fun hf => hf.1, rfl⟩) (ring.building_ne_nil hne)
  -- a batch is split only when it is full
  have hfull := le_antisymm h.length_le hsplit
  refine ⟨htaken ▸ hprogress.taken, hrequests ▸ hprogress.request, ?_, ?_, ?_, ?_,
    fun m hm => absurd hm not_mem_nil, .inr (.inr hsegs)⟩
  · rw [hbatches]
    exact Partial.snoc hprogress.batches hencodes h.req hfull
  · rw [hbatches]
    simp
  · rw [hbatches, mapsOf_append, append_nil]
    exact hprogress.segments
  · rw [hbatches, mapsOf_append, append_nil]
    exact hprogress.sector

theorem Filling.complete {before after : List VcablkRequest} (ring : RingOk s)
    (h : Filling s l c before after)
    (hbefore : SyncParts (c + 1) (s.batchesOf l.id = [] ∧ l.req.doSync = true) before)
    (hafter : SyncParts (c + 1) (l.req.doSync = true) after) (hnil : l.segments = [])
    (hne : s.requestRing.lastAdd ≠ s.requestRingAlloc)
    (hpublished : s'.published = s.published ++
      [⟨c, l.id, some l.id, s.building, (s.contexts c).bvecCtxs⟩]) :
    Complete l.id l.req (s'.batchesOf l.id) := by
  have hbatches := batchesOf_append hpublished l.id
  rw [if_pos rfl] at hbatches
  -- the last batch has no condition on its trailing `REQUEST_SYNC` but the one of the request
  have hlast : SyncParts (c + 1) (True ∧ l.req.doSync = true) after := by
    rw [true_and]
    exact hafter
  constructor
  · exact ⟨s.batchesOf l.id, _, hbatches, h.progress.batches,
      h.encodes _ _ hbefore hlast (ring.building_ne_nil hne), rfl⟩
  · rw [hbatches, mapsOf_append]
    simpa [hnil] using h.progress.segments

theorem EncodedOk.publish (ok : EncodedOk s) {b : Batch} {req : BlkRequest}
    (hpublished : s'.published = s.published ++ [b]) (hb : BatchOk b)
    (howner : b.owner < s.taken) (htaken : s'.taken = s.taken)
    (hrequests : s'.requests = s.requests) (hreq : s.requests[b.owner]? = some req)
    (hown : Partial req (s'.batchesOf b.owner) ∨ Complete b.owner req (s'.batchesOf b.owner)) :
    EncodedOk s' := by
  constructor
  · rw [hpublished, htaken]
    intro b' hb'
    rcases mem_append.mp hb' with hb' | hb'
    · exact ok.owner_lt b' hb'
    · rw [mem_singleton.mp hb']
      exact howner
  · rw [hpublished]
    intro b' hb'
    rcases mem_append.mp hb' with hb' | hb'
    · exact ok.batches b' hb'
    · rw [mem_singleton.mp hb']
      exact hb
  · rw [hrequests]
    intro id req' hreq'
    -- only the batches of the owner get one more
    by_cases hid : b.owner = id
    · subst hid
      rw [hreq] at hreq'
      cases hreq'
      exact hown
    · rw [batchesOf_append hpublished id, if_neg hid, append_nil]
      exact ok.requests id req' hreq'

end

end Vcass.Vcablk
