import Mathlib.Data.UInt
import Vcass.PlxDma.Completion

/-!
# What the Ring Guarantees

`RingCorrect` collects what clients and the engine may rely on in every state: descriptors stay in
place until they are cleaned up, failed calls leave no trace, and transactions are reported in order,
each once, and completely when the ring is drained.

The two conversions to `int` are the limits of it.  A length whose number of descriptors is `0` as an
`int` gets past the check for room in a full ring, and flags whose low half is zero publish the last
descriptor without its transaction.
-/

namespace Vcass.PlxDma

open Vcass.Core Transaction List System

/-! ## A drained ring has reported everything -/

namespace ChanInv

variable {s : ChanState}

theorem done_lt_executed (h : ChanInv s) {t : Transaction}
    (ht : t ∈ s.submitted.take s.reported.length) : t.last < s.executed.length :=
  lt_of_lt_of_le (h.txs.done_lt t ht) h.ring.cleaned_le

theorem all_reported (h : ChanInv s) (hp : s.preparer = .idle) (hdrained : s.head = s.lastTail) :
    s.reported.length = s.submitted.length := by
  have hring := h.ring_of hp
  have htxs := h.txs_of hp
  have hreleased := hring.released_le
  have hcleaned := hring.cleaned_le_passed
  have hpassed := hring.passed_le
  have hpos := RingInv.size_pos
  simp only [RingView.passed, ChanState.ringAt, Preparer.unpassed] at *
  -- no descriptor is outstanding
  have hlap : s.released ≤ s.published.length ∧
      s.published.length < s.released + plxDmaDescRxSize := by omega
  have hempty : s.published.length = s.released := by
    apply slot_injective hlap (by omega)
    exact hring.head.symm.trans (hdrained.trans hring.lastTail)
  have hnone : (s.txsAt .idle).pending = [] := by
    apply List.eq_nil_iff_forall_not_mem.mpr
    intro t ht
    have hlow := (htxs.marks.range t.mark (mem_map_of_mem ht)).1
    have hhigh := htxs.pending_lt t ht
    simp only [ChanState.txsAt, mark, Preparer.ending] at hlow hhigh
    omega
  have hlen : s.submitted.length ≤ s.reported.length := List.drop_eq_nil_iff.mp hnone
  exact le_antisymm htxs.reported_le hlen

theorem hardware_run (n : Nat) {s : ChanState} (h : ChanInv s)
    (hn : s.published.length = s.executed.length + n) :
    ∃ t, chanSystem.run s (List.replicate n .hardware) = some t ∧ ChanInv t ∧
      t.executed.length = t.published.length ∧ t.preparer = s.preparer ∧ t.cleaner = s.cleaner ∧
      t.submitted = s.submitted := by
  induction n generalizing s with
  | zero => exact ⟨s, rfl, h, hn.symm, rfl, rfl, rfl⟩
  | succ n ih =>
    have hring := h.ring
    -- what is published and not executed lies in the window in which the valid bits are set
    have hvalid : (s.descRing s.hwNext).valid = true := by
      have hreleased := hring.released_le
      have hcleaned := hring.cleaned_le
      have hroom := hring.room
      have hpos := RingInv.size_pos
      have hhw : s.hwNext = s.executed.length % plxDmaDescRxSize := hring.hwNext
      have hbit := hring.bits s.executed.length
      simp only [ChanState.ringAt] at *
      rw [hhw, hbit (by omega) (by omega)]
      exact decide_eq_true ⟨le_refl _, by omega⟩
    have hstep : hardwareStep s = some
        { s with
          descRing :=
            Function.update s.descRing s.hwNext { s.descRing s.hwNext with valid := false }
          hwNext := plxDmaRingInc s.hwNext
          executed := s.executed ++ [s.descRing s.hwNext] } := by
      simp only [hardwareStep, if_pos hvalid]
    obtain ⟨t, hrun, ht, hexecuted, hpreparer, hcleaner, hsubmitted⟩ :=
      ih (h.hardwareFinishes hstep) (by simp only [length_append, length_singleton]; omega)
    refine ⟨t, ?_, ht, hexecuted, hpreparer, hcleaner, hsubmitted⟩
    rw [replicate_succ, run_cons]
    show (hardwareStep s).bind _ = _
    rw [hstep]
    exact hrun

/-- A cleanup that finds everything finished walks up to `head`. -/
theorem cleanup_run (n : Nat) {s : ChanState} (h : ChanInv s) (hp : s.preparer = .idle)
    (hexecuted : s.executed.length = s.published.length)
    (hn : s.published.length = s.cleaned + n) {again : Bool} {lastTail : Nat}
    (hc : s.cleaner = .scanning .irqThread again lastTail s.head) :
    ∃ t, chanSystem.run s (List.replicate (n + 1) .cleaner) = some t ∧ ChanInv t ∧
      t.preparer = .idle ∧ t.head = t.lastTail ∧ t.submitted = s.submitted := by
  have hring := h.ring_of hp
  have hhead : s.head = s.published.length % plxDmaDescRxSize := hring.head
  have htail : lastTail = s.cleaned % plxDmaDescRxSize := by
    have hclean := h.clean
    rw [hc] at hclean
    exact hclean.1
  induction n generalizing s again lastTail with
  | zero =>
    have heq : lastTail = s.head := by rw [htail, hhead, hn, add_zero]
    have hstep : cleanupStep s = some (cleanupEnd s .irqThread lastTail) := by
      simp only [cleanupStep, hc, if_pos heq]
    refine ⟨cleanupEnd s .irqThread lastTail, ?_, h.cleanupEnds hc, hp, heq.symm, rfl⟩
    show (cleanupStep s).bind _ = _
    rw [hstep]
    rfl
  | succ n ih =>
    have hbound := h.bound_of hp
    simp only [Preparer.needs] at hbound
    have hne : lastTail ≠ s.head := by
      rw [htail, hhead]
      exact slot_ne (by omega) (by omega)
    have hinvalid : (s.descRing lastTail).valid = false := by
      have hbit := hring.bits s.cleaned
      have hreleased := hring.released_le
      have hroom := hring.room
      have hpos := RingInv.size_pos
      simp only [ChanState.ringAt] at *
      rw [htail, hbit hreleased (by omega)]
      exact decide_eq_false (by omega)
    have hstep : cleanupStep s = some (cleanupPass s .irqThread lastTail s.head) := by
      simp only [cleanupStep, hc, if_neg hne, hinvalid, Bool.false_eq_true, if_false]
    have hpass := h.passes hc hne hinvalid
    -- what the pass leaves alone
    have hframe : ∀ tail, (completeTx s tail).preparer = s.preparer ∧
        (completeTx s tail).head = s.head ∧ (completeTx s tail).published = s.published ∧
        (completeTx s tail).executed = s.executed ∧
        (completeTx s tail).submitted = s.submitted := by
      intro tail
      simp only [completeTx]
      split_ifs <;> simp
    obtain ⟨hpre, hhd, hpub, hexe, hsub⟩ := hframe lastTail
    have hpass_pre : (cleanupPass s .irqThread lastTail s.head).preparer = .idle := hpre.trans hp
    have hpass_cleaner : (cleanupPass s .irqThread lastTail s.head).cleaner =
        .scanning .irqThread false (plxDmaRingInc lastTail)
          (cleanupPass s .irqThread lastTail s.head).head := by
      simp only [cleanupPass, hhd]
    obtain ⟨t, hrun, ht, hidle, hdrained, hsubmitted⟩ := ih hpass hpass_pre
      (by simp only [cleanupPass, hpub, hexe, hexecuted])
      (by simp only [cleanupPass, hpub, hn]; omega)
      hpass_cleaner
      (hpass.ring_of hpass_pre)
      (by simp only [cleanupPass, hhd, hpub, hhead])
      (by simp only [cleanupPass, htail, plxDmaRingInc_mod])
    refine ⟨t, ?_, ht, hidle, hdrained, hsubmitted.trans hsub⟩
    rw [replicate_succ, run_cons]
    show (cleanupStep s).bind _ = _
    rw [hstep]
    exact hrun

end ChanInv

/-! ## The guarantees -/

structure RingCorrect (s : ChanState) : Prop where
  lastTail : s.lastTail = s.released % plxDmaDescRxSize
  head : s.head = (s.published.length - s.preparer.unpassed) % plxDmaDescRxSize
  /-- one slot always stays free -/
  outstanding : s.published.length ≤ s.released + (plxDmaDescRxSize - 1)
  /-- nothing from `last_tail` on is overwritten, but for the valid bits that the engine clears -/
  kept : ∀ i (h : i < s.published.length), s.released ≤ i →
    s.descRing (i % plxDmaDescRxSize) =
      { s.published[i] with valid := decide (s.executed.length ≤ i) }
  executed : s.executed <+: s.published
  /-- a call that fails leaves `head` and the ring as they were -/
  failures : ∀ f ∈ s.failures, f.headAfter = f.headBefore ∧ Cleared f.ringBefore f.ringAfter
  reported : s.reported <+: s.submitted.map Transaction.cookie
  completed : s.completedCookie = s.reported.getLast?.getD dmaMinCookie
  called : s.called = (s.submitted.take s.reported.length).filterMap Transaction.callback
  /-- a transaction is reported after the engine has finished its last descriptor -/
  finished : ∀ t ∈ s.submitted.take s.reported.length, t.last < s.executed.length
  drained : s.preparer = .idle → s.head = s.lastTail →
    s.reported = s.submitted.map Transaction.cookie ∧
      s.called = s.submitted.filterMap Transaction.callback
  /-- when no call is in progress, the engine and one cleanup drain the ring -/
  drains : s.preparer = .idle → s.cleaner = .idle →
    ∃ k n t, chanSystem.run s
        (List.replicate k .hardware ++ .cleanup :: List.replicate n .cleaner) = some t ∧
      t.head = t.lastTail ∧ t.submitted = s.submitted ∧
      t.reported = s.submitted.map Transaction.cookie ∧
      t.called = s.submitted.filterMap Transaction.callback
  /-- a cookie in `tx_array` is that of a transaction not reported, on its own last slot -/
  cookies : ∀ j < plxDmaDescRxSize, (s.txArray j).cookie ≠ 0 →
    ∃ t ∈ s.submitted.drop s.reported.length,
      t.last % plxDmaDescRxSize = j ∧ (s.txArray j).cookie = t.cookie
  /-- the `BUG_ON` of `plx_dma_cleanup` is not hit -/
  bug : s.bug = false

namespace ChanInv

variable {s : ChanState}

theorem drained (h : ChanInv s) (hp : s.preparer = .idle) (hdrained : s.head = s.lastTail) :
    s.reported = s.submitted.map cookie ∧
      s.called = s.submitted.filterMap callback := by
  have hlen := h.all_reported hp hdrained
  have hdone : (s.txsAt s.preparer).done = s.submitted := by
    show s.submitted.take s.reported.length = s.submitted
    rw [hlen, take_length]
  constructor
  · exact h.txs.reported.trans (by rw [hdone])
  · exact h.txs.called.trans (by rw [hdone])

theorem drains (h : ChanInv s) (hp : s.preparer = .idle) (hc : s.cleaner = .idle) :
    ∃ k n t, chanSystem.run s
        (List.replicate k .hardware ++ .cleanup :: List.replicate n .cleaner) = some t ∧
      t.head = t.lastTail ∧ t.submitted = s.submitted ∧
      t.reported = s.submitted.map cookie ∧
      t.called = s.submitted.filterMap callback := by
  have hexecuted : s.executed.length ≤ s.published.length := h.ring.executed_le
  obtain ⟨u, hrun, hu, huexecuted, hupreparer, hucleaner, husubmitted⟩ :=
    h.hardware_run (s.published.length - s.executed.length) (by omega)
  -- the cleanup caches the `head` of this state
  rw [hp] at hupreparer
  rw [hc] at hucleaner
  have hstart : cleanupStart u .irqThread =
      some { u with cleaner := .scanning .irqThread false u.lastTail u.head } := by
    rw [cleanupStart, hucleaner]
  have hcleaned : u.cleaned ≤ u.published.length := (hu.bound_of hupreparer).1
  obtain ⟨t, hrun', ht, hidle, hdrained, htsubmitted⟩ :=
    (hu.cleanupStarts hstart).cleanup_run (u.published.length - u.cleaned) hupreparer huexecuted
      (by show u.published.length = u.cleaned + _; omega) rfl
  have hsubmitted : t.submitted = s.submitted := htsubmitted.trans husubmitted
  obtain ⟨hreported, hcalled⟩ := ht.drained hidle hdrained
  refine ⟨s.published.length - s.executed.length, u.published.length - u.cleaned + 1, t, ?_,
    hdrained, hsubmitted, hsubmitted ▸ hreported, hsubmitted ▸ hcalled⟩
  rw [run_append, hrun]
  show (cleanupStart u .irqThread).bind _ = _
  rw [hstart]
  exact hrun'

theorem ringCorrect (h : ChanInv s) : RingCorrect s where
  lastTail := h.ring.lastTail
  head := h.ring.head
  outstanding := Nat.le_trans (Nat.le_add_right _ _) h.ring.room
  kept i hlt hle := h.ring.kept hle hlt
  executed := h.ring.executed
  failures := h.failures
  reported := by
    have hreported := h.txs.reported
    simp only [TxView.done, ChanState.txsAt, map_take] at hreported
    rw [hreported]
    exact List.take_prefix _ _
  completed := h.txs.completed
  called := h.txs.called
  finished _ := h.done_lt_executed
  drained := h.drained
  drains := h.drains
  cookies j hj hcookie := by
    have hmark : (TxDescriptor.mark ∘ s.txArray) j ≠ (0, none) := by
      intro hmark
      exact hcookie (congrArg Prod.fst hmark)
    obtain ⟨m, hm, hslot, heq⟩ := h.txs.marks.exists_mark hj hmark
    obtain ⟨t, ht, rfl⟩ := List.mem_map.mp hm
    exact ⟨t, ht, hslot, congrArg Prod.fst heq⟩
  bug := h.bug

end ChanInv

/-- **The ring is correct**, in every run whose clients ask for transfers that an `int` can count,
with flags that an `int` can hold. -/
theorem ringCorrect_of_fitsInt {s : ChanState} (h : chanSystem.ReachBy FitsInt s) : RingCorrect s :=
  (chanInv_of_reachBy h).ringCorrect

/-- A transfer of 300 MiB: three descriptors, a cleanup between submission and completion, and one
that reports it -/
def threeDescriptors : List ChanAct :=
  [ChanAct.prep 0x1000 0x2000 0x12c00000 1] ++ List.replicate 7 ChanAct.preparer ++
    [ChanAct.txSubmit (some 7)] ++
    [ChanAct.hardware, .preparer, .cleanup, .preparer, .cleaner, .cleaner, .cleaner, .hardware,
      .hardware, .cleanup, .cleaner, .cleaner, .cleaner]

theorem ringCorrect_of_fitsInt_threeDescriptors :
    ∃ s, chanSystem.ReachBy FitsInt s ∧ RingCorrect s ∧
      s.published.length = 3 ∧ s.reported = [2] ∧ s.called = [7] := by
  have hobs : (chanSystem.runBy FitsInt chanInit threeDescriptors).map
      (fun s => (s.published.length, s.reported, s.called)) = some (3, [2], [7]) := by
    decide +kernel
  obtain ⟨s, hreach, hobs⟩ := System.exists_reachBy hobs rfl
  simp only [Prod.mk.injEq] at hobs
  exact ⟨s, hreach, ringCorrect_of_fitsInt hreach, hobs⟩

/-! ## Where the conversions to `int` go wrong -/

section

variable {s s' : ChanState}

theorem reach_preparer (h : chanSystem.ReachBy FitsInt s) (hstep : preparerStep s = some s') :
    chanSystem.ReachBy FitsInt s' := by
  have hguard : FitsInt s .preparer s' := trivial
  exact h.step hguard hstep

theorem reach_txSubmit (h : chanSystem.ReachBy FitsInt s) {callback : Option Nat}
    (hstep : plxDmaTxSubmitUnlock s callback = some s') : chanSystem.ReachBy FitsInt s' := by
  have hguard : FitsInt s (.txSubmit callback) s' := trivial
  exact h.step hguard hstep

theorem programs_reach (n : Nat) {s : ChanState} {m : Memcpy}
    (h : chanSystem.ReachBy FitsInt s) (hp : s.preparer = .programming m) (hn : m.numDesc = n + 1) :
    ∃ t m', chanSystem.ReachBy FitsInt t ∧ t.preparer = .programming m' ∧ m'.numDesc = 0 ∧
      t.published.length = s.published.length + n ∧ t.released = s.released := by
  induction n generalizing s m with
  | zero =>
    have hlast : m.numDesc = 1 := by omega
    have hprog : preparerStep s = some (progDesc s m) := by
      simp only [preparerStep, hp, if_neg (show m.numDesc ≠ 0 by omega)]
    rw [(chanInv_of_reachBy h).progDesc_last hp hlast] at hprog
    exact ⟨_, m.next, reach_preparer h hprog, rfl, by simp [Memcpy.next, hlast], rfl, rfl⟩
  | succ n ih =>
    have hne : m.numDesc ≠ 0 := by omega
    have hprog : preparerStep s = some (progDesc s m) := by
      simp only [preparerStep, hp, if_neg hne]
    rw [(chanInv_of_reachBy h).progDesc_more hp hne (by omega)] at hprog
    -- a descriptor before the last one is valid at once, and `head` passes it
    have hadvance := reach_preparer (reach_preparer h hprog) rfl
    have hnext : m.next.numDesc = n + 1 := by
      simp only [Memcpy.next, hn]
      omega
    obtain ⟨t, m', ht, htp, htn, htpub, htrel⟩ := ih hadvance rfl hnext
    refine ⟨t, m', ht, htp, htn, ?_, htrel⟩
    rw [htpub, length_append, length_singleton]
    omega

theorem submits_reach {idx : Nat} (h : chanSystem.ReachBy FitsInt s)
    (hp : s.preparer = .prepared idx) :
    ∃ t, chanSystem.ReachBy FitsInt t ∧ t.preparer = .idle ∧
      t.published.length = s.published.length + 1 ∧ t.released = s.released := by
  have hflags := ((chanInv_of_reachBy h).prep_of hp).2
  obtain ⟨u, hsubmit⟩ : ∃ u, plxDmaTxSubmitUnlock s none = some u := by
    simp only [plxDmaTxSubmitUnlock, hp]
    exact ⟨_, rfl⟩
  have hu := reach_txSubmit h hsubmit
  simp only [plxDmaTxSubmitUnlock, hp, Option.some.injEq] at hsubmit
  have hpublish : preparerStep u = some (validDesc u idx) := by
    have huflags : (u.txArray idx).flags ≠ 0 := by
      rw [← hsubmit]
      simpa using hflags
    have hup : u.preparer = .submitted idx := by rw [← hsubmit]
    simp only [preparerStep, hup, if_pos huflags]
  refine ⟨_, reach_preparer (reach_preparer hu hpublish) rfl, rfl, ?_, ?_⟩
  · simp [validDesc, ← hsubmit]
  · simp [validDesc, ← hsubmit]

theorem full_reach : ∃ t, chanSystem.ReachBy FitsInt t ∧ t.preparer = .idle ∧
    t.published.length = plxDmaDescRxSize - 1 ∧ t.released = 0 := by
  -- one request for all descriptors but one
  have hinit : (chanSystem.runBy FitsInt chanInit
      [.prep 0 0 (2047 * maxXferSize) 1, .preparer]).map
        (fun s => (s.preparer, s.published.length, s.released)) =
      some (.programming ⟨0, 0, 2047 * maxXferSize, 1, 2047⟩, 0, 0) := by
    decide +kernel
  obtain ⟨s, hs, hobs⟩ := exists_reachBy hinit rfl
  simp only [Prod.mk.injEq] at hobs
  obtain ⟨hp, hpub, hrel⟩ := hobs
  obtain ⟨t, m, ht, htp, htn, htpub, htrel⟩ := programs_reach 2046 hs hp rfl
  have hreturn : preparerStep t = some (prepReturn t m 0) := by
    simp only [preparerStep, htp, if_pos htn]
  obtain ⟨u, hu, hup, hupub, hurel⟩ := submits_reach (reach_preparer ht hreturn) rfl
  refine ⟨u, hu, hup, ?_, hurel.trans (htrel.trans hrel)⟩
  rw [hupub]
  show t.published.length + 1 = _
  rw [htpub, hpub]
  rfl

end

/-- A transfer of `2 ^ 32` full descriptors: as an `int`, none -/
def overlong : List ChanAct :=
  [.prep 0 0 (maxXferSize * 2 ^ 32) 1, .preparer, .txSubmit none, .preparer]

/-- A transfer with flags that are zero as an `int`, until the ring is drained -/
def lowFlagsZero : List ChanAct :=
  [.prep 0 0 16 (2 ^ 32), .preparer, .preparer, .preparer, .preparer, .txSubmit none, .preparer,
    .hardware, .cleanup, .cleaner, .cleaner]

theorem overlong_run {s : ChanState} (h : ChanInv s) (hp : s.preparer = .idle)
    (hfull : s.published.length = s.released + (plxDmaDescRxSize - 1)) :
    ∃ t, chanSystem.run s overlong = some t ∧ t.published.length = s.published.length + 1 ∧
      t.released = s.released := by
  have hcount : plxDmaRingCount s.head s.lastTail = 0 := by
    rw [h.count hp rfl, hfull]
    simp [plxDmaDescRxSize]
  have hnum : numDesc (maxXferSize * 2 ^ 32) = 0 := by decide +kernel
  simp only [overlong, run_cons, run_nil, chanSystem, chanStep, plxDmaPrepMemcpyLock,
    hp, Option.bind_some, hnum]
  -- there is no descriptor to program and none free, and `0` is no error
  simp [preparerStep, hcount, progWithSpace, prepReturn, allocateTx, plxDmaTxSubmitUnlock,
    validDesc]

theorem ring_broken :
    (∃ s t, chanSystem.ReachBy FitsInt s ∧ chanSystem.run s overlong = some t ∧
      t.published.length = t.released + plxDmaDescRxSize ∧ ¬ RingCorrect t) ∧
    (∃ t, chanSystem.run chanInit lowFlagsZero = some t ∧
      t.preparer = .idle ∧ t.head = t.lastTail ∧ t.submitted.length = 1 ∧ t.reported = [] ∧
      ¬ RingCorrect t) := by
  constructor
  · -- one descriptor too many: the submission publishes a whole ring of descriptors
    obtain ⟨s, hs, hp, hpub, hrel⟩ := full_reach
    obtain ⟨t, hrun, htpub, htrel⟩ :=
      overlong_run (chanInv_of_reachBy hs) hp (by rw [hpub, hrel, Nat.zero_add])
    have hover : t.published.length = t.released + plxDmaDescRxSize := by
      rw [htpub, htrel, hpub, hrel]
      rfl
    refine ⟨s, t, hs, hrun, hover, ?_⟩
    intro hcorrect
    have hle := hcorrect.outstanding
    rw [hover] at hle
    simp [plxDmaDescRxSize] at hle
  · -- with flags 0 the last descriptor is valid, and the transaction is put behind it
    have hobs : (chanSystem.run chanInit lowFlagsZero).map
        (fun s => (s.preparer, s.head, s.lastTail, s.submitted.length, s.reported)) =
        some (.idle, 1, 1, 1, []) := by
      decide +kernel
    obtain ⟨t, hrun, hobs⟩ := Option.map_eq_some_iff.mp hobs
    simp only [Prod.mk.injEq] at hobs
    obtain ⟨hp, hhead, htail, hlen, hreported⟩ := hobs
    refine ⟨t, hrun, hp, hhead.trans htail.symm, hlen, hreported, ?_⟩
    intro hcorrect
    have hdrained := (hcorrect.drained hp (hhead.trans htail.symm)).1
    have hlens := congrArg List.length hdrained
    rw [hreported, List.length_map, hlen] at hlens
    cases hlens

end Vcass.PlxDma
