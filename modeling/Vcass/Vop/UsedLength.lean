import Vcass.Vop.TransferCallback

/-!
# The Length That Is Posted for a Receive Chain

`vop_kvec_used` tells the peer how many bytes of its receive chain were written: `bytes_written`
of the item.  `transfer_write` adds to it up before the steps that can still fail, and clears it
again on one of the failing exits only.  So a packet that could not be mapped, or whose DMA could
not be submitted, is posted with the length of a whole frame.

As long as the callback finishes its own item (`SweepsOwn`), the posted lengths are truthful exactly
when `transfer_write` fails for receive chains that it refuses, and for nothing else:
`used_length_truthful_iff`.
-/

namespace Vcass.Vop

open Vcass.Core Function BuffersDmaRing BufferDmaItem List

/-! ## The length of an item -/

/-- Nothing has been written for the item. -/
def BufferDmaItem.Clean (item : BufferDmaItem) : Prop :=
  item.jiffies = 0 ∧ item.bytesWritten = 0

/-- The item holds the length of a frame that fits into its receive chain. -/
def BufferDmaItem.Sent (item : BufferDmaItem) : Prop :=
  ∃ header size, item.kvecTo = some [header, size] ∧
    item.dataSize + sendAlignOverheadSize ≤ size ∧ item.bytesWritten = header + item.dataSize

/-- `bytes_written` after a failed `transfer_write` -/
def BufferDmaItem.failedLength (item : BufferDmaItem) : Nat :=
  match item.kvecTo with
  | some [header, size] =>
    if size < item.dataSize + sendAlignOverheadSize then 0 else header + item.dataSize
  | _ => 0

/-- Two items agree on what the posted length depends on. -/
structure BufferDmaItem.SameLength (item' item : BufferDmaItem) : Prop where
  dataSize : item'.dataSize = item.dataSize
  jiffies : item'.jiffies = item.jiffies
  kvecTo : item'.kvecTo = item.kvecTo
  headTo : item'.headTo = item.headTo
  bytesWritten : item'.bytesWritten = item.bytesWritten

namespace BufferDmaItem

variable {item item' : BufferDmaItem}

theorem SameLength.refl (item : BufferDmaItem) : item.SameLength item := ⟨rfl, rfl, rfl, rfl, rfl⟩

theorem SameLength.clean (h : item'.SameLength item) (hclean : item.Clean) : item'.Clean :=
  ⟨h.jiffies.trans hclean.1, h.bytesWritten.trans hclean.2⟩

theorem SameLength.sent (h : item'.SameLength item) (hsent : item.Sent) : item'.Sent := by
  obtain ⟨header, size, hkvec, hfits, hbytes⟩ := hsent
  refine ⟨header, size, h.kvecTo.trans hkvec, ?_, ?_⟩
  · rw [h.dataSize]
    exact hfits
  · rw [h.bytesWritten, h.dataSize]
    exact hbytes

theorem SameLength.failedLength_eq (h : item'.SameLength item) :
    item'.failedLength = item.failedLength := by
  unfold failedLength
  rw [h.kvecTo, h.dataSize]

theorem clean_reset (item : BufferDmaItem) : item.reset.Clean := ⟨rfl, rfl⟩

theorem Sent.failedLength_eq (h : item.Sent) : item.failedLength = item.bytesWritten := by
  obtain ⟨header, size, hkvec, hfits, hbytes⟩ := h
  rw [failedLength, hkvec, hbytes]
  exact if_neg (not_lt.mpr hfits)

theorem failedLength_eq_zero_iff (item : BufferDmaItem) :
    item.failedLength = 0 ↔ ∀ header size, item.kvecTo = some [header, size] →
      size < item.dataSize + sendAlignOverheadSize ∨ header + item.dataSize = 0 := by
  unfold failedLength
  split
  case h_1 header size hkvec =>
    constructor
    · intro hzero header' size' hkvec'
      cases hkvec.symm.trans hkvec'
      split at hzero
      · exact .inl ‹_›
      · exact .inr hzero
    · intro hrefused
      rcases hrefused header size hkvec with hlt | hempty
      · exact if_pos hlt
      · rw [hempty, ite_self]
  case h_2 hother =>
    refine iff_of_true rfl ?_
    intro header size hkvec
    exact absurd hkvec (hother header size)

end BufferDmaItem

variable {item : BufferDmaItem}

/-- What `transfer_write` leaves in an item up to the submission -/
theorem prepareWrite_length (ioremap : Bool) (jiffies : Nat) (hclean : item.Clean) :
    ((prepareWrite ioremap jiffies item).2 = true → (prepareWrite ioremap jiffies item).1.Sent) ∧
      ((prepareWrite ioremap jiffies item).2 = false →
        (prepareWrite ioremap jiffies item).1.bytesWritten =
          (prepareWrite ioremap jiffies item).1.failedLength) ∧
      (prepareWrite ioremap jiffies item).1.kvecTo = item.kvecTo ∧
      (prepareWrite ioremap jiffies item).1.headTo = item.headTo := by
  have hzero := hclean.2
  unfold prepareWrite
  split
  case h_1 header size hkvec =>
    dsimp only
    split
    case isTrue hlt =>
      -- the chain is refused, and the length is cleared
      refine ⟨Bool.noConfusion, fun _ => ?_, rfl, rfl⟩
      simp [failedLength, hkvec, hlt]
    case isFalse hfits =>
      split
      case isTrue =>
        refine ⟨fun _ => ⟨header, size, hkvec, not_lt.mp hfits, ?_⟩, Bool.noConfusion, rfl, rfl⟩
        simp only [hzero, zero_add]
      case isFalse =>
        -- the mapping fails, and the length stays
        refine ⟨Bool.noConfusion, fun _ => ?_, rfl, rfl⟩
        simp only [failedLength, hkvec, if_neg hfits, hzero, zero_add]
  case h_2 hother =>
    refine ⟨Bool.noConfusion, fun _ => ?_, rfl, rfl⟩
    rw [hzero, failedLength]
    split
    · exact absurd ‹_› (hother _ _)
    · rfl

/-! ## The items of the ring -/

namespace BuffersDmaRing

/-- The item was taken and not picked for writing yet. -/
def Waits (s : BuffersDmaRing) (id : Nat) : Prop :=
  ∃ use, s.picked ≤ use ∧ use < s.taken ∧ id = ringIndex use

/-- Nothing has been done for the item since it was free. -/
def Untouched (s : BuffersDmaRing) (id : Nat) : Prop :=
  (s.items id).statusReady = true ∨ s.Waits id ∨ s.writer = .start id

/-- The item is about to be submitted, or was submitted and is not finished. -/
def Sending (s : BuffersDmaRing) (id : Nat) : Prop :=
  s.writer = .armed id ∨ ∃ use, (id, use) ∈ s.unfinished

end BuffersDmaRing

/-- The length of an item is what its phase says. -/
structure LengthOk (s : BuffersDmaRing) (id : Nat) : Prop where
  clean : s.Untouched id → (s.items id).Clean
  sent : s.Sending id → (s.items id).Sent
  failed : s.writer = .failed id → (s.items id).bytesWritten = (s.items id).failedLength
  head : (s.items id).kvecTo ≠ none → (s.items id).headTo ≠ none

section

variable {s s' : BuffersDmaRing} {writeInThread : Bool} {id : Nat}

theorem waits_mem (h : s.Waits id) : ∃ use, (id, use) ∈ s.waiting := by
  obtain ⟨use, hle, hlt, rfl⟩ := h
  refine ⟨use, List.mem_map.mpr ⟨use, ?_, rfl⟩⟩
  rw [mem_range'_1]
  omega

theorem ItemsOk.waits_alone (ok : ItemsOk s) (h : s.Waits id) :
    s.writer.item ≠ some id ∧ ∀ use, (id, use) ∉ s.unfinished := by
  obtain ⟨use, hmem⟩ := waits_mem h
  have hdisjoint : ∀ x ∈ s.unfinished ++ s.writing, x.1 ≠ id := by
    intro x hx heq
    have hnodup := ok.nodup
    rw [held, map_append] at hnodup
    refine (List.nodup_append.mp hnodup).2.2 x.1 (mem_map_of_mem hx) id ?_ heq
    exact List.mem_map.mpr ⟨_, hmem, rfl⟩
  constructor
  · intro hwriter
    refine hdisjoint (id, (s.items id).use) (mem_append_right _ ?_) rfl
    simp [writing, hwriter]
  · intro use' hmem'
    exact hdisjoint _ (mem_append_left _ hmem') rfl

theorem ItemsOk.writing_alone (ok : ItemsOk s) (h : s.writer.item = some id) :
    (s.items id).statusReady = false ∧ ¬ s.Waits id ∧ ∀ use, (id, use) ∉ s.unfinished := by
  refine ⟨(ok.inUse _ (writing_subset h)).busy, ?_, ?_⟩
  · intro hwaits
    exact (ok.waits_alone hwaits).1 h
  · intro use hmem
    exact ok.writing_ne h _ hmem rfl

theorem untouched_of (hready : (s'.items id).statusReady = (s.items id).statusReady)
    (hpicked : s.picked ≤ s'.picked) (htaken : s'.taken = s.taken)
    (hstart : s'.writer = .start id → s.Untouched id) (h : s'.Untouched id) : s.Untouched id := by
  rcases h with hfree | ⟨use, hle, hlt, huse⟩ | hwriter
  · exact .inl (hready.symm.trans hfree)
  · exact .inr (.inl ⟨use, le_trans hpicked hle, htaken ▸ hlt, huse⟩)
  · exact hstart hwriter

theorem LengthOk.same (h : LengthOk s id) (hitem : (s'.items id).SameLength (s.items id))
    (huntouched : s'.Untouched id → s.Untouched id) (hsending : s'.Sending id → s.Sending id)
    (hfailed : s'.writer = .failed id → s.writer = .failed id) : LengthOk s' id where
  clean hu := hitem.clean (h.clean (huntouched hu))
  sent hs := hitem.sent (h.sent (hsending hs))
  failed hf := by
    rw [hitem.bytesWritten, hitem.failedLength_eq]
    exact h.failed (hfailed hf)
  head hk := by
    rw [hitem.kvecTo] at hk
    rw [hitem.headTo]
    exact h.head hk

theorem sameLength_update (h : item.SameLength (s.items id)) (i : Nat) :
    (update s.items id item i).SameLength (s.items i) := by
  by_cases hi : i = id
  · subst hi
    rw [update_self]
    exact h
  · rw [update_of_ne hi]
    exact .refl _

theorem sameLength_of_ne {i : Nat} (hi : i ≠ id) :
    (update s.items id item i).SameLength (s.items i) := by
  rw [update_of_ne hi]
  exact .refl _

theorem CountersOk.holding_waits (cnt : CountersOk writeInThread s) (held : s.reader = .holding id) :
    s.Waits id := by
  obtain ⟨hpos, hid⟩ := cnt.holding id held
  refine ⟨s.taken - 1, ?_, by omega, hid⟩
  have hone : s.reader.held = 1 := by
    rw [held]
    rfl
  cases writeInThread with
  | true =>
    have hle := (cnt.thread rfl).2.1
    omega
  | false =>
    have heq := (cnt.direct rfl).1
    omega

theorem LengthOk.read (h : LengthOk s id) (ok : ItemsOk s) (hwaits : s.Waits id) {d : Descriptors}
    (hitem : s'.items id = transferRead writeInThread d (s.items id))
    (hun : s'.unfinished = s.unfinished) (harmed : s'.writer ≠ .armed id)
    (hfailed : s'.writer ≠ .failed id) : LengthOk s' id where
  clean _ := by
    have hclean := h.clean (.inr (.inl hwaits))
    rw [hitem]
    exact hclean
  sent := by
    rintro (hwriter | ⟨use, hmem⟩)
    · exact absurd hwriter harmed
    · rw [hun] at hmem
      exact absurd hmem ((ok.waits_alone hwaits).2 use)
  failed hwriter := absurd hwriter hfailed
  head _ := by
    rw [hitem]
    exact Option.some_ne_none _

theorem lengths_finish (hlen : ∀ i, LengthOk s i)
    (hitems : s'.items = update s.items id (s.items id).reset)
    (hpicked : s'.picked = s.picked) (htaken : s'.taken = s.taken)
    (hstart : ∀ i, s'.writer = .start i → s.writer = .start i)
    (harmed : ∀ i, s'.writer = .armed i → i ≠ id ∧ s.writer = .armed i)
    (hfailed : ∀ i, s'.writer = .failed i → i ≠ id ∧ s.writer = .failed i)
    (hun : ∀ i use, (i, use) ∈ s'.unfinished → i ≠ id ∧ (i, use) ∈ s.unfinished) (i : Nat) :
    LengthOk s' i := by
  by_cases hi : i = id
  · subst hi
    have hitem : s'.items i = (s.items i).reset := by rw [hitems, update_self]
    refine ⟨?_, ?_, ?_, ?_⟩
    · intro _
      rw [hitem]
      exact clean_reset _
    · rintro (hwriter | ⟨use, hmem⟩)
      · exact absurd rfl (harmed i hwriter).1
      · exact absurd rfl (hun i use hmem).1
    · intro hwriter
      exact absurd rfl (hfailed i hwriter).1
    · intro hk
      rw [hitem] at hk
      exact absurd rfl hk
  · have hitem : s'.items i = s.items i := by rw [hitems, update_of_ne hi]
    refine (hlen i).same ?_ (untouched_of ?_ (le_of_eq hpicked.symm) htaken ?_) ?_ ?_
    · rw [hitem]
      exact .refl _
    · rw [hitem]
    · intro hwriter
      exact .inr (.inr (hstart i hwriter))
    · rintro (hwriter | ⟨use, hmem⟩)
      · exact .inl (harmed i hwriter).2
      · exact .inr ⟨use, (hun i use hmem).2⟩
    · intro hwriter
      exact (hfailed i hwriter).2

/-- `transfer_write` goes on with an item, or gives it up. -/
theorem LengthOk.written (ok : ItemsOk s) (hwriter : s.writer.item = some id)
    (hitem : s'.items id = item) (hstart : s'.writer ≠ .start id)
    (hready : item.statusReady = (s.items id).statusReady)
    (hpicked : s'.picked = s.picked) (htaken : s'.taken = s.taken)
    (hun : s'.unfinished = s.unfinished) (hsent : s'.writer = .armed id → item.Sent)
    (hfailed : s'.writer = .failed id → item.bytesWritten = item.failedLength)
    (hhead : item.kvecTo ≠ none → item.headTo ≠ none) : LengthOk s' id := by
  obtain ⟨hbusy, hwaits, hunfinished⟩ := ok.writing_alone hwriter
  subst hitem
  refine ⟨?_, ?_, hfailed, hhead⟩
  · rintro (hfree | hwaits' | hwriter')
    · rw [hready, hbusy] at hfree
      cases hfree
    · rw [BuffersDmaRing.Waits, hpicked, htaken] at hwaits'
      exact absurd hwaits' hwaits
    · exact absurd hwriter' hstart
  · rintro (hwriter' | ⟨use, hmem⟩)
    · exact hsent hwriter'
    · rw [hun] at hmem
      exact absurd hmem (hunfinished use)

end

section

variable {s s' : BuffersDmaRing} {a : RingAct} {writeInThread : Bool}

theorem ready_of_ne {id i : Nat} (hi : i ≠ id) :
    (update s.items id item i).statusReady = (s.items i).statusReady := by
  rw [update_of_ne hi]

theorem LengthOk.passed {i : Nat} (h : LengthOk s i)
    (hitem : (s'.items i).SameLength (s.items i))
    (hready : (s'.items i).statusReady = (s.items i).statusReady)
    (hpicked : s'.picked = s.picked) (htaken : s'.taken = s.taken)
    (hwriter : s'.writer = s.writer)
    (hun : ∀ use, (i, use) ∈ s'.unfinished → (i, use) ∈ s.unfinished) : LengthOk s' i := by
  refine h.same hitem (untouched_of hready (le_of_eq hpicked.symm) htaken ?_) ?_ ?_
  · intro hstart
    exact .inr (.inr (hwriter.symm.trans hstart))
  · rintro (harmed | ⟨use, hmem⟩)
    · exact .inl (hwriter.symm.trans harmed)
    · exact .inr ⟨use, hun use hmem⟩
  · intro hfailed
    exact hwriter.symm.trans hfailed

theorem RingStep.length_getRead {i : Nat} (h : RingStep writeInThread s .getRead s')
    (inv : RingInv writeInThread s) (hlen : LengthOk s i) : LengthOk s' i := by
  cases h with
  | getRead idle ready =>
    refine hlen.same (sameLength_update (by exact ⟨rfl, rfl, rfl, rfl, rfl⟩) i) ?_ (fun h => h)
      fun h => h
    have hindex : ringIndex s.indicatorRcv = ringIndex s.taken := by
      rw [inv.counters.received, ringIndex_counter]
    by_cases hi : i = ringIndex s.indicatorRcv
    · intro _
      rw [hi]
      exact .inl ready
    · rintro (hfree | ⟨use, hle, hlt, huse⟩ | hwriter)
      · exact .inl ((ready_of_ne hi).symm.trans hfree)
      · refine .inr (.inl ⟨use, hle, ?_, huse⟩)
        -- the use that was just taken is that of the other item
        have hne : use ≠ s.taken := by
          rintro rfl
          exact hi (huse.trans hindex.symm)
        have hlt' : use < s.taken + 1 := hlt
        omega
      · exact .inr (.inr hwriter)

theorem RingStep.length_transfer {i : Nat} {d : Descriptors}
    (h : RingStep writeInThread s (.transfer d) s') (inv : RingInv writeInThread s)
    (hlen : LengthOk s i) : LengthOk s' i := by
  have ok := inv.items
  cases h with
  | @handOver id _ put held thread id_eq =>
    have hwaits := inv.counters.holding_waits held
    have hwriter := (ok.waits_alone hwaits).1
    by_cases hi : i = id
    · subst hi
      refine hlen.read ok hwaits (update_self ..) rfl ?_ ?_
      · intro harmed
        exact hwriter (by rw [show s.writer = _ from harmed]; rfl)
      · intro hfailed
        exact hwriter (by rw [show s.writer = _ from hfailed]; rfl)
    · exact hlen.passed (sameLength_of_ne hi) (ready_of_ne hi) rfl rfl rfl fun _ h => h
  | @writeSelf id _ held direct =>
    have hwaits := inv.counters.holding_waits held
    by_cases hi : i = id
    · subst hi
      exact hlen.read ok hwaits (update_self ..) rfl Writer.noConfusion
        Writer.noConfusion
    · refine hlen.same (sameLength_of_ne hi)
        (untouched_of (ready_of_ne hi) (Nat.le_succ _) rfl ?_) ?_ Writer.noConfusion
      · rintro ⟨⟩
        exact absurd rfl hi
      · rintro (hwriter | hmem)
        · cases hwriter
        · exact .inr hmem

theorem RingStep.length_pick {i : Nat} (h : RingStep writeInThread s .pick s')
    (inv : RingInv writeInThread s) (hlen : LengthOk s i) : LengthOk s' i := by
  cases h with
  | skip thread idle more ready =>
    exact hlen.same (.refl _) (untouched_of rfl (Nat.le_succ _) rfl fun h => .inr (.inr h))
      (fun h => h) fun h => h
  | pick thread idle more busy =>
    refine hlen.same (.refl _) (untouched_of rfl (Nat.le_succ _) rfl ?_) ?_ Writer.noConfusion
    · rintro ⟨⟩
      obtain ⟨hindex, hlt⟩ := inv.counters.next thread idle more
      exact .inr (.inl ⟨s.picked, le_refl _, hlt, hindex⟩)
    · rintro (hwriter | hmem)
      · cases hwriter
      · exact .inr hmem

theorem RingStep.length_write {i jiffies : Nat} {ioremap : Bool}
    (h : RingStep writeInThread s (.write ioremap jiffies) s') (ok : ItemsOk s)
    (hlen : LengthOk s i) : LengthOk s' i := by
  cases h with
  | @write id _ _ okay item at_start prepared =>
    have hwriter : s.writer.item = some id := by
      rw [at_start]
      rfl
    by_cases hi : i = id
    · subst hi
      have hkeeps := prepareWrite_keeps ioremap jiffies (s.items i)
      have hitem := prepareWrite_length ioremap jiffies (hlen.clean (.inr (.inr at_start)))
      rw [prepared] at hkeeps hitem
      obtain ⟨hsent, hfailed, hkvec, hhead⟩ := hitem
      refine .written ok hwriter (update_self ..) ?_ hkeeps.1 rfl rfl rfl ?_ ?_ ?_
      · cases okay <;> exact Writer.noConfusion
      · intro harmed
        cases okay <;> cases harmed
        exact hsent rfl
      · intro hfailed'
        cases okay <;> cases hfailed'
        exact hfailed rfl
      · rw [hkvec, hhead]
        exact hlen.head
    · refine hlen.same (sameLength_of_ne hi)
        (untouched_of (ready_of_ne hi) (le_refl _) rfl ?_) ?_ ?_
      · cases okay <;> exact Writer.noConfusion
      · rintro (harmed | hmem)
        · cases okay <;> cases harmed
          exact absurd rfl hi
        · exact .inr hmem
      · intro hfailed'
        cases okay <;> cases hfailed'
        exact absurd rfl hi

theorem RingStep.length_submit {i : Nat} {submitted : Bool}
    (h : RingStep writeInThread s (.submit submitted) s') (ok : ItemsOk s)
    (hlen : LengthOk s i) : LengthOk s' i := by
  cases h with
  | @submit id at_armed free =>
    refine hlen.same ?_ (untouched_of ?_ ?_ (writeReturns_counts ..).2 ?_) ?_ ?_
    · rw [writeReturns_items]
      exact sameLength_update (by exact ⟨rfl, rfl, rfl, rfl, rfl⟩) i
    · rw [writeReturns_items]
      exact (update_keeps id _ (by rfl) (by rfl) i).1
    · rw [(writeReturns_counts ..).1]
      exact le_refl _
    · rw [writeReturns_writer]
      exact Writer.noConfusion
    · rintro (harmed | ⟨use, hmem⟩)
      · rw [writeReturns_writer] at harmed
        cases harmed
      · have hmem' : (i, use) ∈ s.unfinished ∨ (i, use) = (id, (s.items id).use) := by
          rw [writeReturns_unfinished] at hmem
          simpa [unfinished, setItem, or_assoc] using hmem
        rcases hmem' with hmem' | heq
        · exact .inr ⟨use, hmem'⟩
        · cases heq
          exact .inl at_armed
    · rw [writeReturns_writer]
      exact Writer.noConfusion
  | @submitFailed id at_armed =>
    have hwriter : s.writer.item = some id := by
      rw [at_armed]
      rfl
    by_cases hi : i = id
    · subst hi
      -- the frame was to be sent: its length is not cleared
      have hsent := hlen.sent (.inl at_armed)
      exact .written ok hwriter (update_self ..) Writer.noConfusion rfl rfl rfl rfl
        Writer.noConfusion (fun _ => hsent.failedLength_eq.symm) hlen.head
    · refine hlen.same (sameLength_of_ne hi)
        (untouched_of (ready_of_ne hi) (le_refl _) rfl Writer.noConfusion) ?_ ?_
      · rintro (harmed | hmem)
        · cases harmed
        · exact .inr hmem
      · rintro ⟨⟩
        exact absurd rfl hi

theorem RingStep.length_finishFailed (h : RingStep writeInThread s .finishFailed s')
    (ok : ItemsOk s) (hlen : ∀ id, LengthOk s id) (i : Nat) : LengthOk s' i := by
  cases h with
  | @finishFailed id s₁ at_failed done =>
    obtain ⟨hwriter, d⟩ := ok.failed at_failed done
    obtain ⟨hpicked, htaken⟩ := writeReturns_counts writeInThread s₁
    have hidle : ∀ w, (writeReturns writeInThread s₁).writer = w → w = .idle := by
      rintro w rfl
      exact writeReturns_writer ..
    refine lengths_finish hlen ((writeReturns_items ..).trans d.items) (hpicked.trans d.picked)
      (htaken.trans d.taken) (fun _ h => nomatch hidle _ h) (fun _ h => nomatch hidle _ h)
      (fun _ h => nomatch hidle _ h) ?_ i
    · rw [writeReturns_unfinished, d.unfinished]
      intro i use hmem
      exact ⟨ok.writing_ne hwriter _ hmem, hmem⟩

theorem RingStep.length_callback {i : Nat} (h : RingStep writeInThread s .callback s')
    (ok : ItemsOk s) (guard : SweepsOwn s .callback s') (hlen : LengthOk s i) : LengthOk s' i := by
  cases h with
  | @callback tx rest none completed enabled =>
    have hne := guard tx (by simp [completed])
    refine hlen.passed (sameLength_update (by exact ⟨rfl, rfl, rfl, rfl, rfl⟩) i)
      (update_keeps tx.id _ (by rfl) (by rfl) i).1 rfl rfl rfl ?_
    intro use hmem
    simpa [unfinished, none, completed, hne, setItem] using hmem
  | @noCallback tx rest none completed disabled =>
    exact absurd disabled (ok.enabled completed)

theorem RingStep.length_turn (h : RingStep writeInThread s .turn s')
    (inv : RingInv writeInThread s) (guard : SweepsOwn s .turn s') (hlen : ∀ id, LengthOk s id)
    (i : Nat) : LengthOk s' i := by
  have ok := inv.items
  cases h with
  | @turnDone c s₁ running more started done =>
    obtain ⟨hown, d⟩ := ok.turn guard running more started done
    rw [hown]
    have hother : ∀ {w : Writer} {i : Nat}, w.item = some i → s₁.writer = w →
        i ≠ c.id ∧ s.writer = w := by
      rintro w i hw rfl
      refine ⟨?_, d.writer.symm⟩
      exact (ok.writing_ne (d.writer ▸ hw) _ (running_mem running more)).symm
    refine lengths_finish hlen (by exact d.items) ?_ ?_ ?_ ?_ ?_ ?_ i
    · exact d.picked
    · exact d.taken
    · exact fun i hi => (hother (w := .start i) rfl hi).2
    · exact fun i hi => hother rfl hi
    · exact fun i hi => hother rfl hi
    -- the sweep is at its end, and the item of the callback is no longer in the queue
    intro i use h
    rw [d.unfinished_turned (inv.finishes.callback c running).end_eq] at h
    obtain ⟨tx, htx, heq⟩ := List.mem_map.mp h
    cases heq
    exact ⟨ok.running_ne running more tx htx, tx_unfinished htx⟩
  | @turnSkip c running more idle =>
    exact (hlen i).passed (.refl _) rfl rfl rfl rfl fun _ h => unfinished_advance running more h

/-- **One step** keeps the lengths, when the callback meets no other started item. -/
theorem RingStep.length (h : RingStep writeInThread s a s') (inv : RingInv writeInThread s)
    (guard : SweepsOwn s a s') (hlen : ∀ id, LengthOk s id) (i : Nat) : LengthOk s' i := by
  cases a with
  | getRead => exact h.length_getRead inv (hlen i)
  | transfer d => exact h.length_transfer inv (hlen i)
  | pick => exact h.length_pick inv (hlen i)
  | write ioremap jiffies => exact h.length_write inv.items (hlen i)
  | submit submitted => exact h.length_submit inv.items (hlen i)
  | finishFailed => exact h.length_finishFailed inv.items hlen i
  | complete =>
    cases h with
    | complete dma =>
      refine (hlen i).passed (.refl _) rfl rfl rfl rfl ?_
      intro use hmem
      simpa [unfinished, dma] using hmem
  | callback => exact h.length_callback inv.items guard (hlen i)
  | turn => exact h.length_turn inv guard hlen i
  | «return» =>
    cases h with
    | «return» running last =>
      refine (hlen i).passed (.refl _) rfl rfl rfl rfl ?_
      intro use hmem
      simpa [unfinished, running, last] using hmem

end

/-! ## What is posted -/

section

variable {s s' : BuffersDmaRing} {a : RingAct} {writeInThread : Bool} {id : Nat}

/-- `transfer_done` posts the head of the item's receive chain with `bytes_written`. -/
theorem transferDone_used {byCallback : Bool} {head : Nat}
    (hbusy : (s.items id).statusReady = false) (hhead : (s.items id).headTo = some head)
    (h : transferDone s id byCallback = some s') :
    s'.used = s.used ++ [(head, (s.items id).bytesWritten)] := by
  have hpost : (postItem s (s.items id)).used = s.used ++ [(head, (s.items id).bytesWritten)] := by
    simp only [postItem, hhead]
    split
    · rfl
    · split <;> rfl
  have hreset : ∀ s₁ : BuffersDmaRing, (bufferDmaRingItemReset s₁ id).used = s₁.used := by
    intro s₁
    unfold bufferDmaRingItemReset
    cases (s₁.items id).tx <;> rfl
  simp only [transferDone, hbusy] at h
  cases hk : (s.items id).kvecTo with
  | none => simp [hk] at h
  | some kvecs =>
    simp only [hk, Option.some.injEq] at h
    rw [← h]
    exact (hreset _).trans hpost

theorem transferDone_kvecTo {byCallback : Bool} (h : transferDone s id byCallback = some s') :
    (s.items id).kvecTo ≠ none := by
  intro hk
  simp [transferDone, hk] at h

theorem writeReturns_used : (writeReturns writeInThread s).used = s.used := by
  unfold writeReturns
  split <;> rfl

/-- What a step posts is the truth: nothing was written after a failed `transfer_write`, and the
whole frame when the callback finishes an item, whose DMA has completed.  No other step posts
anything. -/
def PostsTruth (s : BuffersDmaRing) (a : RingAct) (s' : BuffersDmaRing) : Prop :=
  match a with
  | .finishFailed => ∀ id, s.writer = .failed id →
      ∃ head, (s.items id).headTo = some head ∧ s'.used = s.used ++ [(head, 0)]
  | .turn => ∀ c, s.callback = some c →
      ((s.items c.indDmaNext).jiffies = 0 ∧ s'.used = s.used) ∨
      ∃ head header size, (s.items c.indDmaNext).headTo = some head ∧
        (s.items c.indDmaNext).kvecTo = some [header, size] ∧
        (s.items c.indDmaNext).use ∈ s.completedUses ∧
        s'.used = s.used ++ [(head, header + (s.items c.indDmaNext).dataSize)]
  | _ => s'.used = s.used

/-- `transfer_write` has failed for a receive chain that it refuses: one that is not made of two
descriptors, or one that is too small for the packet; or else the frame is empty. -/
def FailsRefused (s : BuffersDmaRing) : RingAct → Prop
  | .finishFailed => ∀ id header size, s.writer = .failed id →
      (s.items id).kvecTo = some [header, size] →
        size < (s.items id).dataSize + sendAlignOverheadSize ∨ header + (s.items id).dataSize = 0
  | _ => True

/-- **One step** posts the truth, unless it finishes a packet that could not be mapped or
submitted. -/
theorem postsTruth_iff (h : RingStep writeInThread s a s') (inv : RingInv writeInThread s)
    (guard : SweepsOwn s a s') (hlen : ∀ id, LengthOk s id) :
    PostsTruth s a s' ↔ FailsRefused s a := by
  have ok := inv.items
  cases h with
  | @finishFailed id s₁ at_failed done =>
    obtain ⟨hwriter, -⟩ := ok.failed at_failed done
    obtain ⟨head, hhead⟩ := Option.ne_none_iff_exists'.mp
      ((hlen id).head (transferDone_kvecTo done))
    have hused := transferDone_used (ok.writing_alone hwriter).1 hhead done
    rw [(hlen id).failed at_failed] at hused
    have hzero : PostsTruth s .finishFailed (writeReturns writeInThread s₁) ↔
        (s.items id).failedLength = 0 := by
      simp only [PostsTruth, writeReturns_used, hused, at_failed, Writer.failed.injEq, forall_eq',
        hhead, Option.some.injEq, exists_eq_left', append_cancel_left_eq, List.cons.injEq,
        Prod.mk.injEq, true_and, and_true]
    rw [hzero, failedLength_eq_zero_iff]
    simp only [FailsRefused, at_failed, Writer.failed.injEq]
    constructor
    · rintro hrefused _ header size rfl
      exact hrefused header size
    · intro hrefused header size
      exact hrefused id header size rfl
  | @turnDone c s₁ running more started done =>
    refine iff_of_true ?_ trivial
    rintro c' hc'
    cases running.symm.trans hc'
    obtain ⟨hown, -⟩ := ok.turn guard running more started done
    have hmem := running_mem running more
    have hinUse := ok.inUse _ (unfinished_subset hmem)
    obtain ⟨header, size, hkvec, -, hbytes⟩ := (hlen c.id).sent (.inr ⟨c.use, hmem⟩)
    obtain ⟨head, hhead⟩ := Option.ne_none_iff_exists'.mp
      ((hlen c.id).head (by rw [hkvec]; exact Option.some_ne_none _))
    rw [hown] at done ⊢
    have hself : (s.setItem c.id { s.items c.id with jiffies := 0 }).items c.id =
        { s.items c.id with jiffies := 0 } := update_self ..
    have hhead' : ((s.setItem c.id { s.items c.id with jiffies := 0 }).items c.id).headTo =
        some head := by
      rw [hself]
      exact hhead
    have hused := transferDone_used (by rw [hself]; exact hinUse.busy) hhead' done
    rw [hself] at hused
    refine .inr ⟨head, header, size, hhead, hkvec, ?_, ?_⟩
    · rw [hinUse.use_eq]
      exact (inv.finishes.callback c running).completed
    · rw [← hbytes]
      exact hused
  | turnSkip running more idle =>
    refine iff_of_true ?_ trivial
    rintro c' hc'
    cases running.symm.trans hc'
    exact .inl ⟨idle, rfl⟩
  | submit at_armed free => exact iff_of_true writeReturns_used trivial
  | _ => exact iff_of_true rfl trivial

end

/-! ## Runs -/

/-- What holds in every state while the callback meets no other started item -/
structure LengthInv (writeInThread : Bool) (s : BuffersDmaRing) : Prop where
  ring : RingInv writeInThread s
  lengths : ∀ id, LengthOk s id

theorem LengthInv.init (writeInThread : Bool) : LengthInv writeInThread init where
  ring := RingInv.init writeInThread
  lengths id := by
    refine ⟨fun _ => ⟨rfl, rfl⟩, ?_, Writer.noConfusion, fun h => absurd rfl h⟩
    rintro (harmed | ⟨use, hmem⟩)
    · cases harmed
    · cases hmem

/-- **The posted lengths are truthful** along a run exactly when `transfer_write` never fails but for
receive chains that it refuses. -/
theorem used_length_truthful_iff (writeInThread : Bool) (acts : List RingAct) {t : BuffersDmaRing}
    (hsweeps : (ringSystem writeInThread).Along ((ringSystem writeInThread).Allows SweepsOwn)
      BuffersDmaRing.init acts)
    (hrun : (ringSystem writeInThread).run BuffersDmaRing.init acts = some t) :
    (ringSystem writeInThread).Along ((ringSystem writeInThread).Allows PostsTruth)
        BuffersDmaRing.init acts ↔
      (ringSystem writeInThread).Along FailsRefused BuffersDmaRing.init acts := by
  refine System.along_congr (I := LengthInv writeInThread) ?_ ?_ acts (LengthInv.init writeInThread)
    hsweeps hrun
  · intro s a s' inv hguard hstep
    rw [System.allows_iff hstep]
    exact postsTruth_iff (ringStep_cases hstep) inv.ring (hguard s' hstep) inv.lengths
  · intro s a s' inv hguard _ hstep
    have h := ringStep_cases hstep
    exact ⟨inv.ring.step (hguard s' hstep) h, h.length inv.ring (hguard s' hstep) inv.lengths⟩

/-- A refused packet and then one that is sent -/
theorem used_length_truthful_iff_sent :
    ∃ t, (ringSystem false).run BuffersDmaRing.init (refuseSample ++ sendSample 1) = some t ∧
      t.used = [(0, 0), (0, 12 + 1000)] ∧
      (ringSystem false).Along ((ringSystem false).Allows PostsTruth) BuffersDmaRing.init
        (refuseSample ++ sendSample 1) := by
  have hobs : ((ringSystem false).runBy SweepsOwn BuffersDmaRing.init
      (refuseSample ++ sendSample 1)).map (·.used) = some [(0, 0), (0, 12 + 1000)] := by
    decide +kernel
  obtain ⟨t, hrunBy, hused⟩ := Option.map_eq_some_iff.mp hobs
  obtain ⟨hsweeps, hrun⟩ := System.along_of_runBy _ hrunBy
  refine ⟨t, hrun, hused, (used_length_truthful_iff false _ hsweeps hrun).mpr ?_⟩
  have hnever : ∀ a ∈ sendSample 1, a ≠ .finishFailed := by decide
  -- the only write that fails is the refused one
  refine ⟨trivial, fun s₁ h₁ => ⟨trivial, fun s₂ h₂ => ⟨trivial, fun s₃ h₃ => ⟨?_, fun s₄ _ => ?_⟩⟩⟩⟩
  · cases h₁
    cases h₂
    cases h₃
    rintro id header size hwriter hkvec
    cases hwriter
    cases hkvec
    exact .inl (by decide)
  · refine System.along_of_forall _ (fun a ha s => ?_) s₄
    cases a with
    | finishFailed => exact absurd rfl (hnever _ ha)
    | _ => trivial

/-- A packet whose receive buffer cannot be mapped is posted as a frame of 1012 bytes, although no
DMA was ever submitted; so is one whose submission fails. -/
theorem unwritten_frame_posted :
    ((ringSystem false).run BuffersDmaRing.init
      [.getRead, .transfer Descriptors.sample, .write false 1, .finishFailed]).map
        (fun t => (t.used, t.submitted)) = some ([(0, 12 + 1000)], 0) ∧
    ((ringSystem false).run BuffersDmaRing.init
      [.getRead, .transfer Descriptors.sample, .write true 1, .submit false, .finishFailed]).map
        (fun t => (t.used, t.submitted)) = some ([(0, 12 + 1000)], 0) ∧
    ¬ (ringSystem false).Along ((ringSystem false).Allows PostsTruth) BuffersDmaRing.init
      [.getRead, .transfer Descriptors.sample, .write false 1, .finishFailed] := by
  refine ⟨by decide +kernel, by decide +kernel, ?_⟩
  intro halong
  obtain ⟨head, -, hused⟩ := (((halong.2 _ rfl).2 _ rfl).2 _ rfl).1 _ rfl 0 rfl
  cases hused

end Vcass.Vop
