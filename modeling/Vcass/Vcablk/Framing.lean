import Mathlib.Algebra.Order.Group.Multiset
import Vcass.Core.Ring
import Vcass.Vcablk.Steps

/-!
# Framing of Batches

The frontend publishes batches of parts, the backend reads parts and cuts them where the cookie
changes.  The two agree because a cookie is in one place only: its context is free, or in the
hands of the request thread, or stands for a batch that is not yet read, not yet answered, or
whose answer is on its way.
-/

namespace Vcass.Vcablk

open Vcass.Core Vcass.BlockIo List DiskState SendResponse Batch

/-! ## Ring counters -/

section

variable {num k : Nat} (hnum : num = 2 ^ k)

include hnum

theorem rbCounter_add (a val : Nat) :
    vcaRbCounterAdd (a % (2 * num)) val num = (a + val) % (2 * num) := by
  subst hnum
  unfold vcaRbCounterAdd
  rw [Nat.shiftLeft_eq, pow_one, ← pow_succ, Nat.and_two_pow_sub_one_eq_mod, pow_succ, mul_comm,
    Nat.mod_add_mod]

theorem rbCounter_idx (a : Nat) : vcaRbCounterToIdx (a % (2 * num)) num = a % num := by
  subst hnum
  unfold vcaRbCounterToIdx
  rw [Nat.and_two_pow_sub_one_eq_mod, counter_mod_slot]

theorem rbCounter_full {a b : Nat} (hle : b ≤ a) (hfits : a ≤ b + num) :
    vcaRbBuffFull (a % (2 * num)) (b % (2 * num)) num ↔ a = b + num := by
  unfold vcaRbBuffFull
  rw [rbCounter_idx hnum, rbCounter_idx hnum]
  exact counter_full_iff (hnum ▸ Nat.two_pow_pos k) hle hfits

end

theorem requestsNums_pow : vcablkQueueRequestsNums = 2 ^ 10 := rfl

theorem ackNums_pow : vcablkQueueAckNums = 2 ^ 5 := rfl

/-! ## The request ring -/

def DiskState.publishedParts (s : DiskState) : List VcablkRequest :=
  s.published.flatMap Batch.parts

/-- The batches that the backend has not yet read -/
def DiskState.unread (s : DiskState) : List Batch := s.published.drop s.returned.length

variable {rest : List Batch}

theorem DiskState.mem_published {s : DiskState} {b : Batch}
    (h : s.unread = b :: rest) : b ∈ s.published := by
  have hmem : b ∈ s.unread := by
    rw [h]
    exact mem_cons_self
  exact mem_of_mem_drop hmem

theorem publishedParts_congr {s s' : DiskState} (hpublished : s'.published = s.published) :
    s'.publishedParts = s.publishedParts := by
  unfold publishedParts
  rw [hpublished]

/-- The counters and the slots of the request ring -/
structure RingOk (s : DiskState) : Prop where
  lastAdd : s.requestRing.lastAdd = s.publishedParts.length % (2 * vcablkQueueRequestsNums)
  alloc : s.requestRingAlloc =
    (s.publishedParts.length + s.building.length) % (2 * vcablkQueueRequestsNums)
  lastUsed : s.requestRing.lastUsed = s.returned.flatten.length % (2 * vcablkQueueRequestsNums)
  requestLastUsed : s.requestLastUsed = s.requestRing.lastUsed
  /-- What was read is what was published first -/
  returned : s.returned <+: s.published.map Batch.parts
  window : Window vcablkQueueRequestsNums s.requestRing.elems (s.publishedParts ++ s.building)
    s.returned.flatten.length

namespace RingOk

variable {s s' : DiskState} (ok : RingOk s)

include ok

theorem returned_le : s.returned.length ≤ s.published.length := by
  simpa using ok.returned.length_le

theorem parts_eq : s.publishedParts = s.returned.flatten ++ s.unread.flatMap parts := by
  have htake : s.returned = (s.published.take s.returned.length).map parts := by
    rw [map_take]
    exact prefix_iff_eq_take.mp ok.returned
  unfold publishedParts unread
  conv_lhs => rw [← take_append_drop s.returned.length s.published]
  rw [flatMap_append, flatMap_def (l := s.published.take _), ← htake]

theorem used_le : s.returned.flatten.length ≤ s.publishedParts.length := by
  rw [ok.parts_eq, length_append]
  exact Nat.le_add_right _ _

theorem frame (hring : s'.requestRing = s.requestRing)
    (halloc : s'.requestRingAlloc = s.requestRingAlloc)
    (hused : s'.requestLastUsed = s.requestLastUsed) (hbuilding : s'.building = s.building)
    (hpublished : s'.published = s.published) (hreturned : s'.returned = s.returned) :
    RingOk s' := by
  have hparts := publishedParts_congr hpublished
  constructor <;> simp only [hring, halloc, hused, hbuilding, hpublished, hreturned, hparts]
  exacts [ok.lastAdd, ok.alloc, ok.lastUsed, ok.requestLastUsed, ok.returned, ok.window]

theorem fill
    (hroom : ¬ vcaRbBuffFull s.requestRingAlloc s.requestRing.lastUsed vcablkQueueRequestsNums)
    {part : VcablkRequest}
    (hring : s'.requestRing = { s.requestRing with
      elems := Function.update s.requestRing.elems
        (vcaRbCounterToIdx s.requestRingAlloc vcablkQueueRequestsNums) part })
    (halloc : s'.requestRingAlloc = vcaRbCounterAdd s.requestRingAlloc 1 vcablkQueueRequestsNums)
    (hused : s'.requestLastUsed = s.requestLastUsed)
    (hbuilding : s'.building = s.building ++ [part]) (hpublished : s'.published = s.published)
    (hreturned : s'.returned = s.returned) : RingOk s' := by
  have hparts := publishedParts_congr hpublished
  have hle := ok.used_le
  have hfits := ok.window.fits
  rw [length_append] at hfits
  rw [ok.alloc, ok.lastUsed, rbCounter_full requestsNums_pow (by omega) hfits] at hroom
  constructor
  · rw [hring, hparts]
    exact ok.lastAdd
  · rw [halloc, hparts, hbuilding, ok.alloc, rbCounter_add requestsNums_pow, length_append]
    rfl
  · rw [hring, hreturned]
    exact ok.lastUsed
  · rw [hused, hring]
    exact ok.requestLastUsed
  · rw [hreturned, hpublished]
    exact ok.returned
  · rw [hring, hparts, hbuilding, hreturned, ok.alloc, rbCounter_idx requestsNums_pow,
      ← append_assoc, ← length_append]
    exact ok.window.push (by rw [length_append]; omega) part

theorem start {b : Batch} (hb : b.parts = s.building)
    (hring : s'.requestRing = { s.requestRing with lastAdd := s.requestRingAlloc })
    (halloc : s'.requestRingAlloc = s.requestRingAlloc)
    (hused : s'.requestLastUsed = s.requestLastUsed) (hbuilding : s'.building = [])
    (hpublished : s'.published = s.published ++ [b]) (hreturned : s'.returned = s.returned) :
    RingOk s' := by
  have hparts : s'.publishedParts = s.publishedParts ++ s.building := by
    unfold publishedParts
    rw [hpublished, flatMap_append, flatMap_singleton, hb]
  constructor
  · rw [hring, hparts, length_append]
    exact ok.alloc
  · rw [halloc, hparts, hbuilding, length_append]
    exact ok.alloc
  · rw [hring, hreturned]
    exact ok.lastUsed
  · rw [hused, hring]
    exact ok.requestLastUsed
  · rw [hreturned, hpublished, map_append]
    exact ok.returned.trans (prefix_append _ _)
  · rw [hring, hparts, hbuilding, hreturned, append_nil]
    exact ok.window

theorem rewind (hring : s'.requestRing = s.requestRing)
    (halloc : s'.requestRingAlloc = s.requestRing.lastAdd)
    (hused : s'.requestLastUsed = s.requestLastUsed) (hbuilding : s'.building = [])
    (hpublished : s'.published = s.published) (hreturned : s'.returned = s.returned) :
    RingOk s' := by
  have hparts := publishedParts_congr hpublished
  constructor
  · rw [hring, hparts]
    exact ok.lastAdd
  · rw [halloc, hparts, hbuilding]
    exact ok.lastAdd
  · rw [hring, hreturned]
    exact ok.lastUsed
  · rw [hused, hring]
    exact ok.requestLastUsed
  · rw [hreturned, hpublished]
    exact ok.returned
  · rw [hring, hparts, hbuilding, hreturned, append_nil]
    exact ok.window.left

end RingOk

/-! ## Reading a batch -/

/-- A batch as the backend expects it: the parts of one context, and not too many -/
structure BatchOk (b : Batch) : Prop where
  nonempty : b.parts ≠ []
  cookie : ∀ part ∈ b.parts, part.cookie = b.context + 1
  length_le : b.parts.length ≤ vcablkBioSplitSize + 2

/-- The backend has copied the first parts of the next batch; `more` are further batches that
were published when it looked. -/
def ReadingOk (s : DiskState) : Prop :=
  match s.nextRequest with
  | .idle => True
  | .reading lastAdd lastUsed cookie buff =>
    ∃ b more later, s.unread = b :: (more ++ later) ∧
      lastAdd = (s.returned.flatten.length + ((b :: more).flatMap Batch.parts).length) %
        (2 * vcablkQueueRequestsNums) ∧
      lastUsed = (s.returned.flatten.length + buff.length) % (2 * vcablkQueueRequestsNums) ∧
      buff <+: b.parts ∧ cookie = if buff = [] then 0 else b.context + 1

variable {s s' : DiskState}

theorem ReadingOk.frame (ok : ReadingOk s)
    (hnext : s'.nextRequest = s.nextRequest) (hreturned : s'.returned = s.returned)
    {later : List Batch} (hunread : s'.unread = s.unread ++ later) : ReadingOk s' := by
  unfold ReadingOk at ok ⊢
  rw [hnext, hreturned, hunread]
  cases hn : s.nextRequest with
  | idle => trivial
  | reading lastAdd lastUsed cookie buff =>
    rw [hn] at ok
    obtain ⟨b, more, later', hbatches, hadd, hused, hbuff, hcookie⟩ := ok
    refine ⟨b, more, later' ++ later, ?_, hadd, hused, hbuff, hcookie⟩
    rw [hbatches, cons_append, append_assoc]

section

variable {s : DiskState}

theorem RingOk.read_unread (ok : RingOk s) {b : Batch} (hunread : s.unread = b :: rest) {k : Nat}
    {part : VcablkRequest} (hpart : (b.parts ++ rest.flatMap Batch.parts)[k]? = some part) :
    s.requestRing.elems (vcaRbCounterToIdx
      ((s.returned.flatten.length + k) % (2 * vcablkQueueRequestsNums))
      vcablkQueueRequestsNums) = part := by
  rw [rbCounter_idx requestsNums_pow]
  refine ok.window.read (Nat.le_add_right _ _) ?_
  have hlt := (List.getElem?_eq_some_iff.mp hpart).1
  rw [ok.parts_eq, hunread, append_assoc, List.getElem?_append_right (Nat.le_add_right _ _),
    Nat.add_sub_cancel_left, flatMap_cons, List.getElem?_append_left hlt, hpart]

theorem ReadingOk.start (ring : RingOk s) (hne : s.requestLastUsed ≠ s.requestRing.lastAdd) :
    ReadingOk { s with
      nextRequest := .reading s.requestRing.lastAdd s.requestLastUsed 0 [] } := by
  have hparts := ring.parts_eq
  show ∃ b more later, s.unread = b :: (more ++ later) ∧ _
  cases hunread : s.unread with
  | nil =>
    -- then everything published was read
    refine absurd ?_ hne
    rw [hunread, flatMap_nil, append_nil] at hparts
    rw [ring.requestLastUsed, ring.lastUsed, ring.lastAdd, hparts]
  | cons b rest =>
    refine ⟨b, rest, [], by rw [append_nil], ?_, ?_, nil_prefix, rfl⟩
    · rw [ring.lastAdd, hparts, hunread, length_append]
    · rw [ring.requestLastUsed, ring.lastUsed]
      rfl

/-- The state of `vcablk_bcknd_disk_get_next_request` after some parts: either the batch at hand
goes on, or it ends here, because there is nothing more or another cookie follows. -/
theorem ReadingOk.next_or_end {lastAdd lastUsed cookie : Nat} {buff : List VcablkRequest}
    (ring : RingOk s) (ok : ReadingOk s) (batches : ∀ b ∈ s.published, BatchOk b)
    (hdistinct : (s.unread.map context).Nodup)
    (at_reading : s.nextRequest = .reading lastAdd lastUsed cookie buff) :
    ∃ b more later, s.unread = b :: (more ++ later) ∧
      lastAdd = (s.returned.flatten.length + ((b :: more).flatMap parts).length) %
        (2 * vcablkQueueRequestsNums) ∧
      lastUsed = (s.returned.flatten.length + buff.length) % (2 * vcablkQueueRequestsNums) ∧
      buff <+: b.parts ∧
      ((lastUsed ≠ lastAdd ∧ ∃ part, b.parts[buff.length]? = some part ∧
          s.requestRing.elems (vcaRbCounterToIdx lastUsed vcablkQueueRequestsNums) = part ∧
          part.cookie = b.context + 1 ∧ (cookie = 0 ∨ cookie = part.cookie)) ∨
        (buff = b.parts ∧ cookie = b.context + 1 ∧ (lastUsed = lastAdd ∨
          cookie ≠ (s.requestRing.elems
            (vcaRbCounterToIdx lastUsed vcablkQueueRequestsNums)).cookie))) := by
  unfold ReadingOk at ok
  rw [at_reading] at ok
  obtain ⟨b, more, later, hunread, rfl, rfl, hbuff, hcookie⟩ := ok
  have hmem : ∀ b' ∈ s.unread, BatchOk b' := fun b' h => batches b' (mem_of_mem_drop h)
  have hb := hmem b (by rw [hunread]; exact mem_cons_self)
  -- the parts at hand fit into the ring
  have hfits := ring.window.fits
  rw [length_append, ring.parts_eq, hunread, length_append] at hfits
  have hsum : ((b :: (more ++ later)).flatMap parts).length =
      ((b :: more).flatMap parts).length + (later.flatMap parts).length := by
    simp [length_append, Nat.add_assoc]
  have hcons : ((b :: more).flatMap parts).length =
      b.parts.length + (more.flatMap parts).length := by simp
  have hpos : 0 < vcablkQueueRequestsNums := by decide
  have hle := hbuff.length_le
  refine ⟨b, more, later, hunread, rfl, rfl, hbuff, ?_⟩
  -- either a part of `b` is left, or the loop stands behind its last one
  rcases Nat.lt_or_eq_of_le hle with hlt | heq
  · refine .inl ⟨?_, b.parts[buff.length], List.getElem?_eq_getElem hlt, ?_, ?_, ?_⟩
    · rw [Ne, counter_eq_iff (by omega) (by omega)]
      omega
    · refine ring.read_unread hunread ?_
      rw [List.getElem?_append_left hlt, List.getElem?_eq_getElem hlt]
    · exact hb.cookie _ (getElem_mem hlt)
    · by_cases hnil : buff = []
      · exact .inl (by rw [hcookie, if_pos hnil])
      · refine .inr ?_
        rw [hcookie, if_neg hnil, hb.cookie _ (getElem_mem hlt)]
  · have hall : buff = b.parts := hbuff.eq_of_length heq
    have hnil : buff ≠ [] := hall ▸ hb.nonempty
    rw [if_neg hnil] at hcookie
    refine .inr ⟨hall, hcookie, ?_⟩
    cases more with
    | nil =>
      refine .inl ?_
      rw [heq]
      simp
    | cons b' more =>
      -- the next batch has another cookie
      have hb' := hmem b' (by rw [hunread]; simp)
      obtain ⟨part, hpart⟩ : ∃ part, b'.parts[0]? = some part :=
        ⟨_, List.getElem?_eq_getElem (length_pos_iff.mpr hb'.nonempty)⟩
      have hnext : (b.parts ++ ((b' :: more) ++ later).flatMap parts)[b.parts.length]? =
          some part := by
        rw [List.getElem?_append_right (Nat.le_refl _), Nat.sub_self, cons_append, flatMap_cons,
          List.getElem?_append_left (List.getElem?_eq_some_iff.mp hpart).1, hpart]
      refine .inr ?_
      rw [heq, ring.read_unread hunread hnext, hb'.cookie part (mem_of_getElem? hpart), hcookie]
      rw [hunread] at hdistinct
      simp only [map_cons, map_append, cons_append, nodup_cons,
        mem_cons, not_or] at hdistinct
      have := hdistinct.1.1
      omega

/-- The backend has read the batch `b`. -/
theorem RingOk.finish (ok : RingOk s) {b : Batch}
    (hunread : s.unread = b :: rest) {s' : DiskState} {lastUsed : Nat}
    (hused : lastUsed = (s.returned.flatten.length + b.parts.length) %
      (2 * vcablkQueueRequestsNums))
    (hring : s'.requestRing = { s.requestRing with lastUsed := lastUsed })
    (halloc : s'.requestRingAlloc = s.requestRingAlloc)
    (hlast : s'.requestLastUsed = lastUsed) (hbuilding : s'.building = s.building)
    (hpublished : s'.published = s.published) (hreturned : s'.returned = s.returned ++ [b.parts]) :
    RingOk s' := by
  have hparts := publishedParts_congr hpublished
  have hflatten : s'.returned.flatten.length = s.returned.flatten.length + b.parts.length := by
    rw [hreturned, flatten_append, length_append]
    simp
  have hb : s.published[s.returned.length]? = some b := by
    have := congrArg (·[0]?) hunread
    simpa [unread] using this
  constructor
  · rw [hring, hparts]
    exact ok.lastAdd
  · rw [halloc, hparts, hbuilding]
    exact ok.alloc
  · rw [hring, hflatten]
    exact hused
  · rw [hlast, hring]
  · rw [hreturned, hpublished]
    exact prefix_snoc ok.returned (by rw [List.getElem?_map, hb]; rfl)
  · rw [hring, hparts, hbuilding, hflatten]
    exact ok.window.advance (Nat.le_add_right _ _)

/-- What a step of `vcablk_bcknd_disk_get_next_request` amounts to -/
inductive ReadEffect (s s' : DiskState) : Prop where
  | copied (r : NextRequest) (busy : r ≠ .idle) (heq : s' = { s with nextRequest := r })
      (ok : ReadingOk s')
  | returned (b : Batch) (rest : List Batch) (hunread : s.unread = b :: rest)
      (heq : s' =
        { s with
          requestLastUsed := (s.returned.flatten.length + b.parts.length) %
            (2 * vcablkQueueRequestsNums)
          requestRing :=
            { s.requestRing with
              lastUsed := (s.returned.flatten.length + b.parts.length) %
                (2 * vcablkQueueRequestsNums) }
          nextRequest := .idle
          returned := s.returned ++ [b.parts]
          unanswered := s.unanswered ++ [b.context + 1] })

/-- **The backend reads batch by batch.** -/
theorem NextStep.effect {s' : DiskState} (ring : RingOk s) (ok : ReadingOk s)
    (batches : ∀ b ∈ s.published, BatchOk b) (hdistinct : (s.unread.map context).Nodup)
    (h : NextStep s s') : ReadEffect s s' := by
  cases h with
  | start at_idle hne => exact .copied _ (by simp) rfl (ReadingOk.start ring hne)
  | skip at_reading hne hzero =>
    -- no part has the cookie 0
    obtain ⟨b, more, later, -, -, -, -, h | h⟩ :=
      ReadingOk.next_or_end ring ok batches hdistinct at_reading
    · obtain ⟨-, part, -, hread, hcookie, -⟩ := h
      rw [hread, hcookie] at hzero
      cases hzero
    · cases h.2.1
  | copy at_reading hne hread hsame =>
    rename_i lastAdd lastUsed cookie buff request
    obtain ⟨b, more, later, hunread, hadd, hused, hbuff, h | h⟩ :=
      ReadingOk.next_or_end ring ok batches hdistinct at_reading
    · obtain ⟨-, part, hpart, hread', hcookie, -⟩ := h
      obtain rfl : request = part := hread.symm.trans hread'
      refine .copied _ (by simp) rfl
        ⟨b, more, later, hunread, hadd, ?_, prefix_snoc hbuff hpart, ?_⟩
      · rw [hused, rbCounter_add requestsNums_pow, length_append]
        rfl
      · rw [if_neg (by simp), hcookie]
    · -- the batch is complete, so the backend does not go on
      obtain ⟨-, hcookie, h | h⟩ := h
      · exact absurd h hne
      · rw [hread] at h
        rcases hsame with hzero | hsame
        · rw [hzero] at hcookie
          cases hcookie
        · exact absurd hsame h
  | finish at_reading hend =>
    rename_i lastAdd lastUsed cookie buff
    obtain ⟨b, more, later, hunread, hadd, hused, hbuff, h | h⟩ :=
      ReadingOk.next_or_end ring ok batches hdistinct at_reading
    · -- the batch goes on, so the backend does not return
      obtain ⟨hne, part, hpart, hread, hcookie, hsame⟩ := h
      have hb := batches b (mem_published hunread)
      rcases hend with heq | hlong | ⟨hvalid, hother⟩
      · exact absurd heq hne
      · have hlt := (List.getElem?_eq_some_iff.mp hpart).1
        have := hb.length_le
        simp only [vcablkMaxPartsPerRequest, vcablkBioSplitSize] at hlong this
        omega
      · rw [hread] at hother
        rcases hsame with hzero | hsame
        · exact absurd hzero hvalid
        · exact absurd hsame hother
    · obtain ⟨rfl, rfl, -⟩ := h
      have hb := batches b (mem_published hunread)
      refine .returned b _ hunread ?_
      unfold returnRequest
      rw [if_neg hb.nonempty, hused]

end

/-! ## The completion ring -/

/-- Answers written and not yet published -/
def SendResponse.pending : SendResponse → Nat
  | .idle => 0
  | .written => 1

/-- The counters and the slots of the completion ring -/
structure AckRingOk (s : DiskState) : Prop where
  taken_le : s.acksTaken + s.response.pending ≤ s.acks.length
  lastAdd : s.completionRing.lastAdd =
    (s.acks.length - s.response.pending) % (2 * vcablkQueueAckNums)
  lastUsed : s.completionRing.lastUsed = s.acksTaken % (2 * vcablkQueueAckNums)
  window : Window vcablkQueueAckNums s.completionRing.elems s.acks s.acksTaken

/-- The answers that the frontend has not yet taken -/
def DiskState.pendingAcks (s : DiskState) : List VcablkCompletion := s.acks.drop s.acksTaken

theorem AckRingOk.frame (ok : AckRingOk s)
    (hring : s'.completionRing = s.completionRing) (hresponse : s'.response = s.response)
    (hacks : s'.acks = s.acks) (htaken : s'.acksTaken = s.acksTaken) : AckRingOk s' := by
  constructor <;> simp only [hring, hresponse, hacks, htaken]
  exacts [ok.taken_le, ok.lastAdd, ok.lastUsed, ok.window]

theorem AckRingOk.response {a : DiskAct} (ok : AckRingOk s)
    (h : ResponseStep s a s') : AckRingOk s' := by
  cases h with
  | write at_idle hk hroom =>
    rename_i k cookie ret
    have hle := ok.taken_le
    have hadd := ok.lastAdd
    have hfits := ok.window.fits
    simp only [at_idle, pending, Nat.sub_zero, Nat.add_zero] at hle hadd
    rw [hadd, ok.lastUsed, rbCounter_full ackNums_pow hle hfits] at hroom
    constructor
    · simp only [pending, length_append, length_singleton]
      omega
    · simp only [pending, length_append, length_singleton,
        Nat.add_sub_cancel]
      exact hadd
    · exact ok.lastUsed
    · dsimp only
      rw [hadd, rbCounter_idx ackNums_pow]
      exact ok.window.push (by omega) _
  | timeout at_idle hk hfull => exact ok.frame rfl rfl rfl rfl
  | publish at_written =>
    have hle := ok.taken_le
    have hadd := ok.lastAdd
    simp only [at_written, pending] at hle hadd
    constructor
    · simp only [pending]
      omega
    · simp only [pending, Nat.sub_zero]
      rw [hadd, rbCounter_add ackNums_pow]
      congr 1
      omega
    · exact ok.lastUsed
    · exact ok.window

theorem AckRingOk.next {s : DiskState} (ok : AckRingOk s)
    (hne : s.completionRing.lastUsed ≠ s.completionRing.lastAdd) :
    ∃ ack rest, s.pendingAcks = ack :: rest ∧ s.acks[s.acksTaken]? = some ack ∧
      s.acksTaken + s.response.pending < s.acks.length ∧
      s.completionRing.elems
        (vcaRbCounterToIdx s.completionRing.lastUsed vcablkQueueAckNums) = ack := by
  have hlt : s.acksTaken + s.response.pending < s.acks.length := by
    refine Nat.lt_of_le_of_ne ok.taken_le fun heq => hne ?_
    rw [ok.lastUsed, ok.lastAdd, ← heq, Nat.add_sub_cancel]
  have hget : s.acksTaken < s.acks.length := by omega
  refine ⟨_, _, drop_eq_getElem_cons hget, List.getElem?_eq_getElem hget, hlt, ?_⟩
  rw [ok.lastUsed, rbCounter_idx ackNums_pow]
  exact ok.window.read (Nat.le_refl _) (List.getElem?_eq_getElem hget)

theorem AckRingOk.take (ok : AckRingOk s)
    (hlt : s.acksTaken + s.response.pending < s.acks.length)
    (hring : s'.completionRing =
      { s.completionRing with
        elems := Function.update s.completionRing.elems
          (vcaRbCounterToIdx s.completionRing.lastUsed vcablkQueueAckNums) ⟨0, 0⟩
        lastUsed := vcaRbCounterAdd s.completionRing.lastUsed 1 vcablkQueueAckNums })
    (hresponse : s'.response = s.response) (hacks : s'.acks = s.acks)
    (htaken : s'.acksTaken = s.acksTaken + 1) : AckRingOk s' := by
  have hfits := ok.window.fits
  constructor
  · rw [htaken, hresponse, hacks]
    omega
  · rw [hring, hacks, hresponse]
    exact ok.lastAdd
  · rw [hring, htaken, ok.lastUsed, rbCounter_add ackNums_pow]
  · rw [hring, hacks, htaken, ok.lastUsed, rbCounter_idx ackNums_pow]
    refine (ok.window.advance (Nat.le_succ _)).update fun i hle hi => ?_
    exact (slot_ne (Nat.lt_of_succ_le hle) (by omega)).symm

end Vcass.Vcablk
