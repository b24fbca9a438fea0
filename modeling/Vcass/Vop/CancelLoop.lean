import Vcass.Vop.CancelWindow

/-!
# The Marking Loop of a Cancellation

`vop_kvec_check_cancel` marks the slots after the request as long as they have the head of the request
and lie in the window that it has read.  It holds the mutex of the ring, and nothing counts the turns.

The loop walks round the ring and does not change heads, so that it ends within one round if some slot
fails the test, and never otherwise (`markLoop_ends_iff`).  The window test does not fail when the
window wraps or when it is the whole ring (`cancelWindow_of_not_lt`); then the heads have to end the
loop.  They do when the head of the request is not 0: the slots of other chains have other heads, and
the slots without an unfetched chain have the head 0 (`HeadsCleared`).  For a chain with the head 0 the
slots that were cleared look like slots of the chain (`marking_never_ends`).
-/

namespace Vcass.Vop

open Vcass.Core Function CancelRing

/-! ## Slots without an unfetched chain -/

/-- The slot belongs to a chain that was put and not fetched. -/
def CancelRing.Unfetched (num : Nat) (s : CancelRing) (j : Nat) : Prop :=
  ∃ i, s.passed ≤ i ∧ i < 2 * s.heads.length ∧ i % num = j

/-- The slots without an unfetched chain have the head 0. -/
def HeadsCleared (num : Nat) (s : CancelRing) : Prop :=
  ∀ j, ¬ s.Unfetched num j → (s.buf j).head = 0

/-- The fetcher moves on: the slots it has passed have lost their heads, and the others are as they
were. -/
structure Passes (num : Nat) (s s' : CancelRing) : Prop where
  le : s.passed ≤ s'.passed
  heads : s'.heads = s.heads
  requested : s'.requested = s.requested
  clear : ∀ i, s.passed ≤ i → i < s'.passed → (s'.buf (i % num)).head = 0
  keep : ∀ j, (∀ i, s.passed ≤ i → i < s'.passed → i % num ≠ j) → s'.buf j = s.buf j
  apart : ∀ i, s'.passed ≤ i → i < 2 * s.heads.length → ∀ i', s.passed ≤ i' → i' < s'.passed →
    i' % num ≠ i % num

namespace WindowOk

variable {num : Nat} {s : CancelRing}

theorem passes_skip (hw : WindowOk num s.window) (hne : s.lastCnt ≠ s.cnt)
    (hmark : (s.buf (kvecCounterToIdx s.lastCnt num)).cancelled = true) :
    Passes num s (s.skip num) := by
  obtain ⟨-, -, hfits⟩ := hw.bounds
  rw [hw.skip_eq hne hmark]
  refine ⟨Nat.le_succ _, rfl, rfl, ?_, ?_, ?_⟩
  · intro i hi hlt
    have heq : i = s.passed := Nat.le_antisymm (Nat.lt_succ_iff.mp hlt) hi
    subst heq
    simp only [setSlot, update_self]
  · intro j hj
    have hjne : j ≠ s.passed % num :=
      fun heq => hj s.passed (Nat.le_refl _) (Nat.lt_succ_self _) heq.symm
    exact update_of_ne hjne ..
  · intro i hi hlt i' hi' hlt'
    have heq : i' = s.passed := Nat.le_antisymm (Nat.lt_succ_iff.mp hlt') hi'
    have hlt'' : s.passed < i := hi
    subst heq
    exact slot_ne hlt'' (by omega)

theorem passes_fetch (hw : WindowOk num s.window) (hnum : EvenSize num)
    (hne : s.passed < 2 * s.published) : Passes num s (s.fetch num) := by
  rw [fetch_eq hnum hw hne]
  obtain ⟨-, hpublished, hfits⟩ := hw.bounds
  have htakes : takes s = 2 - s.passed % 2 := rfl
  refine ⟨Nat.le_add_right _ _, rfl, rfl, ?_, ?_, ?_⟩
  · simp only
    intro i hi hlt
    by_cases hfirst : i % num = s.passed % num
    · rw [hfirst]
      simp only [update_self]
      unfold cleared
      simp only
      split
      · by_cases hsecond : s.passed % num = (s.passed + 1) % num
        · rw [hsecond, update_self]
        · rw [update_of_ne hsecond, update_self]
      · rw [update_self]
    · -- the second slot belongs to the chain only if the fetcher has not skipped the first
      have heven : s.passed % 2 = 0 := by
        by_contra hodd
        have heq : i = s.passed := by omega
        exact hfirst (by rw [heq])
      have heq : i = s.passed + 1 := by
        have hine : i ≠ s.passed := fun heq => hfirst (by rw [heq])
        omega
      subst heq
      simp only [update_of_ne hfirst]
      simp only [cleared, if_pos heven, update_self]
  · simp only
    intro j hj
    have hfirst : j ≠ s.passed % num :=
      fun heq => hj s.passed (Nat.le_refl _) (by omega) heq.symm
    have hsecond : s.passed % 2 = 0 → j ≠ (s.passed + 1) % num :=
      fun heven heq => hj (s.passed + 1) (by omega) (by omega) heq.symm
    simp only [update_of_ne hfirst]
    exact cleared_of_ne hfirst hsecond
  · simp only
    intro i hi hlt i' hi' hlt'
    exact slot_ne (by omega) (by omega)

end WindowOk

namespace HeadsCleared

variable {num : Nat} {s s' : CancelRing} (h : HeadsCleared num s)

include h

theorem of_same (hpassed : s'.passed = s.passed)
    (hheads : s'.heads = s.heads) (hhead : ∀ j, (s'.buf j).head = (s.buf j).head) :
    HeadsCleared num s' := by
  intro j hfree
  rw [hhead]
  apply h
  unfold CancelRing.Unfetched at hfree ⊢
  rw [hpassed, hheads] at hfree
  exact hfree

theorem put (hw : WindowOk num s.window) (hnum : EvenSize num) (head : Nat) :
    HeadsCleared num (s.put num head) := by
  obtain ⟨hidx, hnext⟩ := hw.put_idx hnum
  have hpassed : s.passed ≤ 2 * s.heads.length :=
    Nat.le_trans hw.passed_le (Nat.mul_le_mul_left 2 hw.published_le)
  have hlen : (s.put num head).heads.length = s.heads.length + 1 := by simp [CancelRing.put]
  intro j hfree
  -- the new slots are not free any more
  have hne : j ≠ kvecCounterToIdx s.putCnt num := by
    rintro rfl
    exact hfree ⟨2 * s.heads.length, hpassed, by omega, hidx.symm⟩
  have hne' : j ≠ kvecCounterToIdx s.putCnt num + 1 := by
    rintro rfl
    exact hfree ⟨2 * s.heads.length + 1, Nat.le_succ_of_le hpassed, by omega, hnext.symm⟩
  rw [put_buf_of_ne hne hne']
  apply h
  rintro ⟨i, hi, hlt, hij⟩
  exact hfree ⟨i, hi, by omega, hij⟩

theorem passes (hp : Passes num s s') : HeadsCleared num s' := by
  intro j hfree
  by_cases htaken : ∃ i, s.passed ≤ i ∧ i < s'.passed ∧ i % num = j
  · obtain ⟨i, hi, hlt, rfl⟩ := htaken
    exact hp.clear i hi hlt
  · rw [hp.keep j (fun i hi hlt hij => htaken ⟨i, hi, hlt, hij⟩)]
    apply h
    rintro ⟨i, hi, hlt, hij⟩
    by_cases hnext : s'.passed ≤ i
    · exact hfree ⟨i, hnext, by rw [hp.heads]; exact hlt, hij⟩
    · exact htaken ⟨i, hi, Nat.lt_of_not_le hnext, hij⟩

/-- **Every step keeps the free slots cleared.** -/
theorem step {a : CancelAct} (hq : QueueInv num s) (hnum : EvenSize num)
    (hstep : cancelStep num s a = some s') : HeadsCleared num s' := by
  cases cancelStep_cases hstep with
  | put head => exact h.put hq.window hnum head
  | skip _ more marked => exact h.passes (hq.window.passes_skip more marked)
  | fetch phase => exact h.passes (hq.window.passes_fetch hnum (hq.nonempty phase))
  | @clear i ok item => exact h.of_same rfl rfl fun j => (cleared_slot s item.slot j).2
  | mark =>
    refine h.of_same rfl rfl fun j => ?_
    simp only
    rw [mark_frame]
  | publish | consume | look | move | ask | waited => exact h

end HeadsCleared

variable {num : Nat}

theorem headsCleared_of_reachBy (hnum : EvenSize num) {s : CancelRing}
    (h : (cancelSystem num).ReachBy (QueueOk num) s) : QueueInv num s ∧ HeadsCleared num s := by
  apply System.ReachBy.invariant ?_ ?_ h
  · rintro s rfl
    exact ⟨queueInv_initial num, fun _ _ => rfl⟩
  · rintro s a s' ⟨hq, hc⟩ hguard hstep
    exact ⟨hq.step hnum hguard hstep, hc.step hq hnum hstep⟩

/-! ## The loop -/

def CancelRing.LoopTest (buf : Nat → CancelSlot) (head idxStart idxEnd idx : Nat) : Prop :=
  (buf idx).head = head ∧ cancelWindow idxStart idxEnd idx

/-- **The window test never fails when the window wraps or is the whole ring.** -/
theorem cancelWindow_of_not_lt {idxStart idxEnd : Nat} (h : ¬ idxStart < idxEnd) (idx : Nat) :
    cancelWindow idxStart idxEnd idx := by
  unfold cancelWindow
  omega

theorem loopTest_mark (buf : Nat → CancelSlot) (head idxStart idxEnd marked idx : Nat) :
    CancelRing.LoopTest (update buf marked { buf marked with cancelled := true }) head
      idxStart idxEnd idx ↔ CancelRing.LoopTest buf head idxStart idxEnd idx := by
  unfold CancelRing.LoopTest
  by_cases hidx : idx = marked
  · subst hidx
    rw [update_self]
  · rw [update_of_ne hidx]

section

variable {num head idxStart idxEnd : Nat} {buf : Nat → CancelSlot} {idx : Nat}

theorem markLoop_stop (fuel : Nat) (hfail : ¬ CancelRing.LoopTest buf head idxStart idxEnd idx) :
    markLoop num head idxStart idxEnd fuel buf idx = (buf, true) := by
  have hcond : ¬ ((buf idx).head = head ∧ cancelWindow idxStart idxEnd idx) := hfail
  cases fuel <;> rw [markLoop, if_neg hcond]

theorem markLoop_zero (htest : CancelRing.LoopTest buf head idxStart idxEnd idx) :
    markLoop num head idxStart idxEnd 0 buf idx = (buf, false) := by
  have hcond : (buf idx).head = head ∧ cancelWindow idxStart idxEnd idx := htest
  rw [markLoop, if_pos hcond]

theorem markLoop_succ (fuel : Nat) (htest : CancelRing.LoopTest buf head idxStart idxEnd idx) :
    markLoop num head idxStart idxEnd (fuel + 1) buf idx =
      markLoop num head idxStart idxEnd fuel
        (update buf idx { buf idx with cancelled := true })
        (kvecCounterToIdx (idx + 1) num) := by
  have hcond : (buf idx).head = head ∧ cancelWindow idxStart idxEnd idx := htest
  rw [markLoop, if_pos hcond]

theorem markLoop_ends {fuel n : Nat} (hidx : idx < num) (hn : n ≤ fuel)
    (hfail : ¬ CancelRing.LoopTest buf head idxStart idxEnd ((idx + n) % num)) :
    (markLoop num head idxStart idxEnd fuel buf idx).2 = true := by
  induction fuel generalizing buf idx n with
  | zero =>
    obtain rfl : n = 0 := Nat.le_zero.mp hn
    rw [add_zero, Nat.mod_eq_of_lt hidx] at hfail
    rw [markLoop_stop 0 hfail]
  | succ fuel ih =>
    by_cases htest : CancelRing.LoopTest buf head idxStart idxEnd idx
    · rw [markLoop_succ fuel htest]
      cases n with
      | zero =>
        rw [add_zero, Nat.mod_eq_of_lt hidx] at hfail
        exact absurd htest hfail
      | succ n =>
        refine ih (n := n) (Nat.mod_lt _ (Nat.zero_lt_of_lt hidx)) (Nat.le_of_succ_le_succ hn) ?_
        -- marking a slot changes neither heads nor the window, so the test fails at the same place
        rw [loopTest_mark, kvecCounterToIdx, Nat.mod_add_mod, add_assoc, add_comm 1 n]
        exact hfail
    · rw [markLoop_stop _ htest]

theorem markLoop_endless (fuel : Nat) (hidx : idx < num)
    (htest : ∀ j < num, CancelRing.LoopTest buf head idxStart idxEnd j) :
    (markLoop num head idxStart idxEnd fuel buf idx).2 = false := by
  induction fuel generalizing buf idx with
  | zero => rw [markLoop_zero (htest idx hidx)]
  | succ fuel ih =>
    rw [markLoop_succ fuel (htest idx hidx)]
    refine ih (Nat.mod_lt _ (Nat.zero_lt_of_lt hidx)) ?_
    intro j hj
    exact (loopTest_mark buf head idxStart idxEnd idx j).mpr (htest j hj)

/-- **The loop ends within a round exactly if some slot fails its test.** -/
theorem markLoop_ends_iff (hidx : idx < num) :
    (markLoop num head idxStart idxEnd num buf idx).2 = true ↔
      ∃ j < num, ¬ CancelRing.LoopTest buf head idxStart idxEnd j := by
  constructor
  · intro hends
    by_contra hall
    have htest : ∀ j < num, CancelRing.LoopTest buf head idxStart idxEnd j := by
      intro j hj
      by_contra hfail
      exact hall ⟨j, hj, hfail⟩
    rw [markLoop_endless num hidx htest] at hends
    cases hends
  · rintro ⟨j, hj, hfail⟩
    obtain ⟨n, hn, hslot⟩ := slot_of_walk (Nat.zero_lt_of_lt hidx) idx hj
    rw [← hslot] at hfail
    exact markLoop_ends hidx (le_of_lt hn) hfail

end

/-! ## Main results -/

namespace CancelRing

variable (num : Nat) (s : CancelRing) (request idxStart idxEnd : Nat)

/-- The loop for a request, with a bound on its turns; whether it has ended -/
def loopEnded (turns : Nat) : Bool :=
  (markLoop num (s.buf request).head idxStart idxEnd turns
    (Function.update s.buf request { s.buf request with cancelled := true })
    (kvecCounterToIdx (request + 1) num)).2

/-- Something that ends the loop: the head of the request is not 0 and the ring has room for two
chains, or some slot has another head than the request, or the window does not wrap and some slot
is outside it. -/
def LoopStops : Prop :=
  (2 < num ∧ (s.buf request).head ≠ 0) ∨ (∃ j < num, (s.buf j).head ≠ (s.buf request).head) ∨
    (idxStart < idxEnd ∧ (0 < idxStart ∨ idxEnd + 1 < num))

end CancelRing

/-- The loop for a request ends within `num` turns exactly if some slot fails its test. -/
theorem loopEnded_iff (hnum : 0 < num) (s : CancelRing) (request idxStart idxEnd : Nat) :
    s.loopEnded num request idxStart idxEnd num = true ↔
      ∃ j < num, ¬ CancelRing.LoopTest s.buf (s.buf request).head idxStart idxEnd j := by
  have hidx : kvecCounterToIdx (request + 1) num < num := Nat.mod_lt _ hnum
  unfold loopEnded
  rw [markLoop_ends_iff hidx]
  simp only [loopTest_mark]

theorem loopEnded_never (hnum : 0 < num) (s : CancelRing)
    (request idxStart idxEnd : Nat)
    (htest : ∀ j < num, CancelRing.LoopTest s.buf (s.buf request).head idxStart idxEnd j)
    (turns : Nat) : s.loopEnded num request idxStart idxEnd turns = false := by
  refine markLoop_endless turns (Nat.mod_lt _ hnum) ?_
  intro j hj
  exact (loopTest_mark ..).mpr (htest j hj)

/-- In a ring with room for two chains, some slot has another head than a chain whose head is
not 0. -/
theorem other_head {s : CancelRing} (hnum : 2 < num) (hw : WindowOk num s.window)
    (hc : HeadsCleared num s) {head : Nat} (hhead : head ≠ 0) :
    ∃ j < num, (s.buf j).head ≠ head := by
  have hpos : 0 < num := by omega
  by_contra hall
  have hsame : ∀ j < num, (s.buf j).head = head := by
    intro j hj
    by_contra hne
    exact hall ⟨j, hj, hne⟩
  have hunfetched : ∀ j < num, s.Unfetched num j := by
    intro j hj
    by_contra hfree
    exact hhead ((hsame j hj).symm.trans (hc j hfree))
  -- the slot behind the fetcher's chain is unfetched, and so belongs to another chain
  obtain ⟨i, hi, hlt, hij⟩ := hunfetched ((s.passed + 2) % num) (Nat.mod_lt _ hpos)
  have hfar : s.passed + 2 ≤ i := by
    by_contra hnear
    exact slot_ne (Nat.lt_of_not_le hnear) (by omega) hij
  apply hw.head_injective (Nat.le_refl s.passed) (j := i) (by omega) hlt
  rw [hsame _ (Nat.mod_lt _ hpos), hsame _ (Nat.mod_lt _ hpos)]

/-- A slot that ends the loop, of which `LoopStops` says what it can be. -/
theorem loopStops_of_fails {s : CancelRing} {request idxStart idxEnd j : Nat} (hj : j < num)
    (hfails : ¬ CancelRing.LoopTest s.buf (s.buf request).head idxStart idxEnd j) :
    s.LoopStops num request idxStart idxEnd := by
  by_cases hhead : (s.buf j).head = (s.buf request).head
  · have hwindow : ¬ cancelWindow idxStart idxEnd j := fun hin => hfails ⟨hhead, hin⟩
    have hlt : idxStart < idxEnd := by
      by_contra hwraps
      exact hwindow (cancelWindow_of_not_lt hwraps j)
    unfold CancelRing.cancelWindow at hwindow
    exact .inr (.inr ⟨hlt, by omega⟩)
  · exact .inr (.inl ⟨j, hj, hhead⟩)

theorem CancelRing.LoopStops.fails {s : CancelRing} (hnum : EvenSize num)
    (h : (cancelSystem num).ReachBy (QueueOk num) s) {request idxStart idxEnd : Nat}
    (hstops : s.LoopStops num request idxStart idxEnd) :
    ∃ j < num, ¬ CancelRing.LoopTest s.buf (s.buf request).head idxStart idxEnd j := by
  obtain ⟨hq, hc⟩ := headsCleared_of_reachBy hnum h
  rcases hstops with ⟨htwo, hhead⟩ | ⟨j, hj, hother⟩ | ⟨hlt, hout⟩
  · obtain ⟨j, hj, hother⟩ := other_head htwo hq.window hc hhead
    exact ⟨j, hj, fun htest => hother htest.1⟩
  · exact ⟨j, hj, fun htest => hother htest.1⟩
  · have houtside : ∃ j < num, ¬ cancelWindow idxStart idxEnd j := by
      unfold CancelRing.cancelWindow
      rcases hout with hstart | hend
      · exact ⟨0, hnum.pos, by omega⟩
      · exact ⟨idxEnd + 1, hend, by omega⟩
    obtain ⟨j, hj, hwindow⟩ := houtside
    exact ⟨j, hj, fun htest => hwindow htest.2⟩

/-- **The marking loop ends after at most `num` turns**, for every request and whatever window was
read, exactly when one of the three conditions ends it; otherwise it never ends. -/
theorem marking_ends_iff {num : Nat} (hnum : EvenSize num) {s : CancelRing}
    (h : (cancelSystem num).ReachBy (QueueOk num) s) (request idxStart idxEnd : Nat) :
    (s.loopEnded num request idxStart idxEnd num = true ↔
        s.LoopStops num request idxStart idxEnd) ∧
      (¬ s.LoopStops num request idxStart idxEnd →
        ∀ turns, s.loopEnded num request idxStart idxEnd turns = false) := by
  refine ⟨?_, fun hgoes => ?_⟩
  · rw [loopEnded_iff hnum.pos]
    exact ⟨fun ⟨_, hj, hfails⟩ => loopStops_of_fails hj hfails, fun hstops => hstops.fails hnum h⟩
  · refine loopEnded_never hnum.pos s request idxStart idxEnd fun j hj => ?_
    by_contra hfails
    exact hgoes (loopStops_of_fails hj hfails)

def wholeGet : List CancelAct := [.get, .get, .get, .get]

/-- Three chains are put and fetched.  Then a chain with the given head is put into the last two slots,
and `vop_kvec_check_cancel` has read a request for it. -/
def lastSlots (head : Nat) : List CancelAct :=
  [CancelAct.put 5, .put 6, .put 7, .publish] ++ wholeGet ++ wholeGet ++ wholeGet ++
    [CancelAct.put head, .publish, .request 6, .cancel, .cancel, .cancel]

def CancelRing.seen (s : CancelRing) : CancelPhase × List Nat :=
  (s.canceller, (List.range 8).map fun j => (s.buf j).head)

/-- The window wraps, and the head of the request is not 0. -/
theorem marking_ends_wrapped :
    ∃ s, (cancelSystem 8).ReachBy (QueueOk 8) s ∧ s.canceller = .lock 6 (some 3) 6 0 ∧
      s.loopEnded 8 6 6 0 8 = true := by
  have hobs : ((cancelSystem 8).runBy (QueueOk 8) .initial (lastSlots 8)).map CancelRing.seen =
      some (.lock 6 (some 3) 6 0, [0, 0, 0, 0, 0, 0, 8, 8]) := by
    decide +kernel
  obtain ⟨s, hreach, hseen⟩ := System.exists_reachBy hobs rfl
  obtain ⟨hlock, hheads⟩ := Prod.mk.inj hseen
  simp only [List.range_succ_eq_map, List.range_zero, List.map_cons, List.map_nil, List.cons.injEq]
    at hheads
  refine ⟨s, hreach, hlock, (marking_ends_iff ⟨by decide, by decide⟩ hreach 6 6 0).1.mpr ?_⟩
  have hsix : (s.buf 6).head = 8 := by simp_all
  refine .inl ⟨by decide, ?_⟩
  rw [hsix]
  decide

/-- **A loop that never ends**: the window wraps, the chain to be cancelled has the head 0, and so
have the slots of the chains that were fetched. -/
theorem marking_never_ends :
    ∃ s, (cancelSystem 8).ReachBy (QueueOk 8) s ∧ s.canceller = .lock 6 (some 3) 6 0 ∧
      ∀ turns, s.loopEnded 8 6 6 0 turns = false := by
  have hobs : ((cancelSystem 8).runBy (QueueOk 8) .initial (lastSlots 0)).map CancelRing.seen =
      some (.lock 6 (some 3) 6 0, List.replicate 8 0) := by
    decide +kernel
  obtain ⟨s, hreach, hseen⟩ := System.exists_reachBy hobs rfl
  obtain ⟨hlock, hheads⟩ := Prod.mk.inj hseen
  have hzero : ∀ j < 8, (s.buf j).head = 0 := by
    intro j hj
    have hmem : (s.buf j).head ∈ (List.range 8).map fun j => (s.buf j).head :=
      List.mem_map.mpr ⟨j, List.mem_range.mpr hj, rfl⟩
    rw [hheads] at hmem
    exact List.eq_of_mem_replicate hmem
  refine ⟨s, hreach, hlock, ?_⟩
  apply loopEnded_never (by decide)
  intro j hj
  refine ⟨?_, cancelWindow_of_not_lt (by decide) j⟩
  rw [hzero j hj, hzero 6 (by decide)]

end Vcass.Vop
