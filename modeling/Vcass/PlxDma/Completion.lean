import Vcass.PlxDma.Descriptor

/-!
# Completion in Submission Order

Every step of every party keeps the invariant of the ring and of `tx_array`, as long as clients ask
for transfers whose descriptors an `int` can count, with flags that are not lost in the conversion
to `int`.  The results, for every interleaving:

- no descriptor between `last_tail` and `head` is overwritten, and a call that fails leaves the
  ring alone;
- transactions are reported in the order of their submission, each once, after the engine has
  finished all their descriptors, and all of them when the ring is drained.
-/

namespace Vcass.PlxDma

open Vcass.Core Function ChanState Preparer List

/-! ## The invariant of the channel -/

/-- The ring is as it was, but for descriptors that the engine has finished. -/
def Cleared (before after : Nat → PlxDmaDesc) : Prop :=
  ∀ i, after i = before i ∨ after i = { before i with valid := false }

theorem Cleared.refl (ring : Nat → PlxDmaDesc) : Cleared ring ring := fun _ => Or.inl rfl

theorem Cleared.clear {before after : Nat → PlxDmaDesc} (h : Cleared before after) (j : Nat) :
    Cleared before (update after j { after j with valid := false }) := by
  intro i
  by_cases hi : i = j
  · rw [hi, update_self]
    apply Or.inr
    rcases h j with hj | hj <;> rw [hj]
  · rw [update_of_ne hi]
    exact h i

/-- A submission that has set its cookie and not yet published its last descriptor -/
def Preparer.ending : Preparer → Nat
  | .submitted _ => 1
  | .idle | .counting _ | .cleaning _ | .recounting _ | .programming _ | .advancing _ | .prepared _
  | .published _ => 0

namespace ChanState

variable (s : ChanState)

def ringAt (p : Preparer) : RingView :=
  ⟨s.head, s.lastTail, s.hwNext, s.descRing, s.published, s.executed, s.cleaned, s.released,
    p.unpassed, p.needs⟩

def txsAt (p : Preparer) : TxView :=
  ⟨TxDescriptor.mark ∘ s.txArray, s.completedCookie, s.submitted, s.reported, s.called, s.cleaned,
    s.published.length + p.ending⟩

/-- The number of descriptors that `head` has passed -/
def passed : Nat := (s.ringAt s.preparer).passed

end ChanState

/-- The descriptor that the loop programs next, in a request that it can count -/
def Memcpy.desc (m : Memcpy) : PlxDmaDesc :=
  plxDmaMemcpyDesc m.src m.dst (min m.len maxXferSize)
    (if m.numDesc = 1 then m.flags.toUInt32 else 0) (decide (m.numDesc ≠ 1))

/-- What is left of the request after it -/
def Memcpy.next (m : Memcpy) : Memcpy :=
  ⟨m.src + min m.len maxXferSize, m.dst + min m.len maxXferSize, m.len - min m.len maxXferSize,
    m.flags, m.numDesc - 1⟩

def PrepOk (s : ChanState) : Preparer → Prop
  | .idle | .published _ => True
  | .counting m | .cleaning m | .recounting m =>
    0 < m.numDesc ∧ m.flags.toUInt32 ≠ 0 ∧ s.callHead = s.head ∧ Cleared s.callRing s.descRing
  | .programming m => 0 ≤ m.numDesc ∧ m.flags.toUInt32 ≠ 0
  | .advancing m => 0 < m.numDesc ∧ m.flags.toUInt32 ≠ 0
  | .prepared idx | .submitted idx => idx = s.head ∧ (s.txArray idx).flags ≠ 0

/-- What a cleanup knows: its tail, and a head that was right when it was read -/
def CleanOk (s : ChanState) : Cleaner → Prop
  | .idle => s.cleaned = s.released
  | .scanning _ _ lastTail cachedHead =>
    lastTail = s.cleaned % plxDmaDescRxSize ∧
      ∃ head, s.cleaned ≤ head ∧ head ≤ s.passed ∧ cachedHead = head % plxDmaDescRxSize

structure ChanInv (s : ChanState) : Prop where
  ring : RingInv (s.ringAt s.preparer)
  txs : TxInv (s.txsAt s.preparer)
  prep : PrepOk s s.preparer
  clean : CleanOk s s.cleaner
  failures : ∀ f ∈ s.failures, f.headAfter = f.headBefore ∧ Cleared f.ringBefore f.ringAfter
  bug : s.bug = false

theorem CleanOk.mono {s s' : ChanState} {c : Cleaner} (h : CleanOk s c)
    (hcleaned : s'.cleaned = s.cleaned) (hreleased : s'.released = s.released)
    (hpassed : s.passed ≤ s'.passed) : CleanOk s' c := by
  cases c with
  | idle => rwa [CleanOk, hcleaned, hreleased]
  | scanning caller again lastTail cachedHead =>
    obtain ⟨htail, head, hle, hhead, hcached⟩ := h
    rw [CleanOk, hcleaned]
    exact ⟨htail, head, hle, le_trans hhead hpassed, hcached⟩

namespace ChanInv

variable {s : ChanState} {p : Preparer} (h : ChanInv s)

include h

section

variable (hp : s.preparer = p)

include hp

theorem ring_of : RingInv (s.ringAt p) := hp ▸ h.ring

theorem txs_of : TxInv (s.txsAt p) := hp ▸ h.txs

theorem prep_of : PrepOk s p := hp ▸ h.prep

omit h in
theorem passed_of : s.passed = s.published.length - p.unpassed := by
  rw [passed, hp]
  rfl

end

variable {s' : ChanState}

theorem clean_of (hcleaner : s'.cleaner = s.cleaner)
    (hcleaned : s'.cleaned = s.cleaned) (hreleased : s'.released = s.released)
    (hpassed : s.passed ≤ s'.passed) : CleanOk s' s'.cleaner := by
  rw [hcleaner]
  exact h.clean.mono hcleaned hreleased hpassed

theorem bound_of (hp : s.preparer = p) :
    s.cleaned ≤ s.published.length ∧ s.published.length + p.needs < s.cleaned + plxDmaDescRxSize := by
  have hring := h.ring_of hp
  have hroom := hring.room
  have hreleased := hring.released_le
  have hcleaned := hring.cleaned_le
  have hexecuted := hring.executed_le
  have hpos := RingInv.size_pos
  simp only [ringAt] at *
  omega

/-! ## The steps of the preparer -/

theorem move {p' : Preparer} (hp : s.preparer = p)
    (hunpassed : p'.unpassed = p.unpassed) (hending : p'.ending = p.ending)
    (hroom : s.published.length + p'.needs ≤ s.released + (plxDmaDescRxSize - 1))
    (hok : PrepOk s p') : ChanInv { s with preparer := p' } where
  ring := by
    have hring := (h.ring_of hp).replan hroom
    simp only [ringAt, ← hunpassed] at hring
    exact hring
  txs := by
    have htxs := h.txs_of hp
    simp only [txsAt, ← hending] at htxs
    exact htxs
  prep := hok
  clean := by
    refine h.clean_of rfl rfl rfl (le_of_eq ?_)
    rw [passed_of hp, ← hunpassed]
    rfl
  failures := h.failures
  bug := h.bug

variable {m : Memcpy}

theorem prepCall (hp : s.preparer = .idle) (hnum : 0 < m.numDesc)
    (hflags : m.flags.toUInt32 ≠ 0) :
    ChanInv { s with preparer := .counting m, callHead := s.head, callRing := s.descRing } := by
  have hring := h.ring_of hp
  have htxs := h.txs_of hp
  exact
    { ring := hring
      txs := htxs
      prep := ⟨hnum, hflags, rfl, Cleared.refl _⟩
      clean := h.clean_of rfl rfl rfl (le_of_eq (passed_of hp))
      failures := h.failures
      bug := h.bug }

theorem count (hp : s.preparer = p) (hunpassed : p.unpassed = 0) :
    plxDmaRingCount s.head s.lastTail =
      (s.released : Int) + (plxDmaDescRxSize - 1) - s.published.length := by
  have hring := h.ring_of hp
  have hhead := hring.head
  have htail := hring.lastTail
  have hpassed := hring.passed_le
  have hle := le_trans hring.released_le hring.cleaned_le_passed
  simp only [RingView.passed, ringAt, hunpassed] at *
  rw [hhead, htail]
  exact plxDmaRingCount_mod hle hpassed

theorem startProgramming (hp : s.preparer = p)
    (hunpassed : p.unpassed = 0) (hending : p.ending = 0) (hnum : 0 < m.numDesc)
    (hflags : m.flags.toUInt32 ≠ 0) (hspace : ¬ plxDmaRingCount s.head s.lastTail < m.numDesc) :
    ChanInv (progWithSpace s m (plxDmaRingCount s.head s.lastTail)) := by
  have hcount := h.count hp hunpassed
  rw [progWithSpace, if_neg (by omega)]
  refine h.move hp ?_ ?_ ?_ ?_
  · exact hunpassed.symm
  · exact hending.symm
  · simp only [needs]
    simp only [plxDmaDescRxSize] at *
    omega
  · exact ⟨Int.le_of_lt hnum, hflags⟩

theorem prepFails (hp : s.preparer = .recounting m) : ChanInv (progWithSpace s m (-eNoMem)) := by
  have hret : progWithSpace s m (-eNoMem) =
      { s with
        preparer := .idle
        failures := s.failures ++ [⟨s.callHead, s.head, s.callRing, s.descRing⟩] } := rfl
  obtain ⟨-, -, hhead, hcleared⟩ := h.prep_of hp
  have hring := h.ring_of hp
  have htxs := h.txs_of hp
  rw [hret]
  exact
    { ring := hring
      txs := htxs
      prep := trivial
      clean := h.clean_of rfl rfl rfl (le_of_eq (passed_of hp))
      failures := by
        intro f hf
        rcases List.mem_append.mp hf with hf | hf
        · exact h.failures f hf
        · rw [List.mem_singleton.mp hf]
          exact ⟨hhead.symm, hcleared⟩
      bug := h.bug }

section

variable (hp : s.preparer = .programming m)

include hp

/-- All descriptors are programmed: the client gets the element of `tx_array` at `head`. -/
theorem prepReturns : ChanInv (prepReturn s m 0) := by
  obtain ⟨-, hflags⟩ := h.prep_of hp
  have hflags' : m.flags ≠ 0 := by
    intro hzero
    rw [hzero] at hflags
    exact hflags rfl
  have hroom := (h.ring_of hp).room
  have hneeds : s.published.length + 1 ≤ s.released + (plxDmaDescRxSize - 1) := by
    simp only [ringAt, needs] at hroom
    omega
  rw [prepReturn, if_pos (Int.le_refl 0), allocateTx]
  simp only [if_pos hflags']
  exact
    { ring := by
        have hring := (h.ring_of hp).replan hneeds
        exact hring
      txs := by
        -- the flags are no part of what a cleanup reads of the element
        have hmark : TxDescriptor.mark ∘
            update s.txArray s.head { s.txArray s.head with flags := m.flags.toUInt32 } =
              TxDescriptor.mark ∘ s.txArray := by
          rw [comp_update]
          exact update_eq_self _ _
        have htxs := h.txs_of hp
        simp only [txsAt, ← hmark] at htxs
        exact htxs
      prep := by
        refine ⟨rfl, ?_⟩
        simp only [update_self]
        exact hflags
      clean := h.clean_of rfl rfl rfl (le_of_eq (passed_of hp))
      failures := h.failures
      bug := h.bug }

theorem numDesc_pred
    (hne : m.numDesc ≠ 0) : Int.bmod (m.numDesc - 1) (2 ^ 32) = m.numDesc - 1 ∧ 0 < m.numDesc := by
  obtain ⟨hnonneg, -⟩ := h.prep_of hp
  obtain ⟨hcleaned, hroom⟩ := h.bound_of hp
  have hbound : m.numDesc < 2 ^ 31 := by
    simp only [needs, plxDmaDescRxSize] at hroom
    omega
  refine ⟨?_, by omega⟩
  apply Int.bmod_eq_of_le
  · omega
  · omega

theorem progDesc_more (hne : m.numDesc ≠ 0) (hmore : m.numDesc ≠ 1) :
    progDesc s m =
      { s with
        descRing := update s.descRing s.head m.desc
        published := s.published ++ [m.desc]
        preparer := .advancing m.next } := by
  obtain ⟨hpred, hpos⟩ := h.numDesc_pred hp hne
  have hleft : m.numDesc - 1 ≠ 0 := by omega
  simp only [progDesc, hpred]
  simp [hleft, hmore, Memcpy.desc, Memcpy.next]

/-- The last descriptor is left invalid, and `head` stays. -/
theorem progDesc_last (hlast : m.numDesc = 1) :
    progDesc s m =
      { s with
        descRing := update s.descRing s.head m.desc
        preparer := .programming m.next } := by
  obtain ⟨-, hflags⟩ := h.prep_of hp
  simp [progDesc, hlast, hflags, Memcpy.desc, Memcpy.next]

theorem progDescs (hne : m.numDesc ≠ 0) : ChanInv (progDesc s m) := by
  obtain ⟨hpred, hpos⟩ := h.numDesc_pred hp hne
  obtain ⟨-, hflags⟩ := h.prep_of hp
  have hring := h.ring_of hp
  have htxs := h.txs_of hp
  by_cases hlast : m.numDesc = 1
  · -- the last descriptor is written invalid; the submission makes it valid
    have hinvalid : m.desc.valid = false := by simp [Memcpy.desc, plxDmaMemcpyDesc, hlast]
    have hneeds : s.published.length + 1 ≤ s.released + (plxDmaDescRxSize - 1) := by
      have hroom := hring.room
      simp only [ringAt, needs] at hroom
      omega
    have hnext : m.next.numDesc = 0 := by simp [Memcpy.next, hlast]
    have hwritten := (hring.writeInvalid rfl hinvalid).replan hneeds
    rw [h.progDesc_last hp hlast]
    exact
      { ring := by
          simp only [ringAt, needs, hnext]
          exact hwritten
        txs := htxs
        prep := ⟨Int.le_of_eq hnext.symm, hflags⟩
        clean := h.clean_of rfl rfl rfl (le_of_eq (passed_of hp))
        failures := h.failures
        bug := h.bug }
  · have hvalid : m.desc.valid = true := by simp [Memcpy.desc, plxDmaMemcpyDesc, hlast]
    have hneeds : max 1 m.next.numDesc.toNat + 1 ≤ (s.ringAt (.programming m)).needs := by
      simp only [ringAt, needs, Memcpy.next]
      omega
    have hwritten := hring.writeValid rfl hvalid hneeds
    -- the descriptor is not the end of a transaction yet
    have hmono := htxs.mono (show s.published.length ≤ (s.published ++ [m.desc]).length by simp)
    have hnext : 0 < m.next.numDesc := by
      simp only [Memcpy.next]
      omega
    rw [h.progDesc_more hp hne hlast]
    exact
      { ring := hwritten
        txs := hmono
        prep := ⟨hnext, hflags⟩
        clean := by
          refine h.clean_of rfl rfl rfl (le_of_eq ?_)
          rw [passed_of hp]
          simp [passed, RingView.passed, ringAt, unpassed]
        failures := h.failures
        bug := h.bug }

end

/-- `head` passes a descriptor that was programmed. -/
theorem advances (hp : s.preparer = .advancing m) :
    ChanInv { s with head := plxDmaRingInc s.head, preparer := .programming m } := by
  obtain ⟨hpos, hflags⟩ := h.prep_of hp
  have hring := (h.ring_of hp).advance rfl
  have htxs := h.txs_of hp
  exact
    { ring := hring
      txs := htxs
      prep := ⟨Int.le_of_lt hpos, hflags⟩
      clean := by
        refine h.clean_of rfl rfl rfl ?_
        rw [passed_of hp]
        simp [passed, RingView.passed, ringAt, unpassed]
      failures := h.failures
      bug := h.bug }

/-! ## Submission -/

theorem submits {idx : Nat} (hp : s.preparer = .prepared idx)
    (callback : Option Nat) (hstep : plxDmaTxSubmitUnlock s callback = some s') :
    ChanInv s' := by
  obtain ⟨hidx, hflags⟩ := h.prep_of hp
  have hring := h.ring_of hp
  have htxs := h.txs_of hp
  obtain ⟨hle, hlt⟩ := h.bound_of hp
  -- the element of `tx_array` is the one at `head`, and it is blank
  have hhead : idx = s.published.length % plxDmaDescRxSize := by
    rw [hidx]
    exact hring.head
  have hblank : (s.txArray idx).mark = (0, none) := by
    rw [hhead]
    exact htxs.blank hle (by simp only [needs] at hlt; exact Nat.lt_of_succ_lt hlt)
  have hcallback : callback.or (s.txArray idx).callback = callback := by
    rw [show (s.txArray idx).callback = none from congrArg Prod.snd hblank]
    exact Option.or_none
  simp only [plxDmaTxSubmitUnlock, hp, if_pos hflags, hcallback, Option.some.injEq] at hstep
  subst hstep
  have hsubmit := htxs.submit (t := ⟨nextCookie s.cookie, callback, s.published.length⟩) rfl hle
    (by simp only [needs] at hlt; exact Nat.lt_of_succ_lt hlt)
    (dmaMinCookie_le_nextCookie _)
  exact
    { ring := hring
      txs := by
        simp only [txsAt, comp_update]
        rw [hhead]
        exact hsubmit
      prep := by
        refine ⟨hidx, ?_⟩
        simp only [update_self]
        exact hflags
      clean := h.clean_of rfl rfl rfl (le_of_eq (passed_of hp))
      failures := h.failures
      bug := h.bug }

theorem publishes {idx : Nat} (hp : s.preparer = .submitted idx) : ChanInv (validDesc s idx) := by
  have hring := h.ring_of hp
  have htxs := h.txs_of hp
  have hwritten := hring.writeValid rfl
    (d := { s.descRing s.head with valid := true }) rfl (le_refl _)
  exact
    { ring := hwritten
      txs := by
        simp only [txsAt, validDesc, ending, length_append,
          length_singleton] at htxs ⊢
        exact htxs
      prep := trivial
      clean := by
        refine h.clean_of rfl rfl rfl (le_of_eq ?_)
        rw [passed_of hp]
        simp [passed, RingView.passed, ringAt, unpassed, validDesc]
      failures := h.failures
      bug := h.bug }

/-- `head` passes the last descriptor, and `prep_lock` is released. -/
theorem unlocks {idx : Nat} (hp : s.preparer = .published idx) :
    ChanInv
      { s with
        head := plxDmaRingInc s.head
        txArray := update s.txArray idx { s.txArray idx with flags := 0 }
        preparer := .idle } := by
  have hring := (h.ring_of hp).advance rfl
  have htxs := h.txs_of hp
  exact
    { ring := hring
      txs := by
        -- the flags are reset, which no cleanup reads
        have hmark : TxDescriptor.mark ∘
            update s.txArray idx { s.txArray idx with flags := 0 } =
              TxDescriptor.mark ∘ s.txArray := by
          rw [comp_update]
          exact update_eq_self _ _
        simp only [txsAt, ← hmark] at htxs
        exact htxs
      prep := trivial
      clean := by
        refine h.clean_of rfl rfl rfl ?_
        rw [passed_of hp]
        simp [passed, RingView.passed, ringAt, unpassed]
      failures := h.failures
      bug := h.bug }

/-! ## The engine -/

theorem hardwareFinishes (hstep : hardwareStep s = some s') : ChanInv s' := by
  simp only [hardwareStep] at hstep
  split at hstep
  case isFalse => cases hstep
  case isTrue hvalid =>
    cases hstep
    have hring := h.ring.hardware hvalid
    exact
      { ring := hring
        txs := h.txs
        prep := by
          have hprep := h.prep
          show PrepOk _ s.preparer
          cases hp : s.preparer with
          | idle | published idx => trivial
          | counting m | cleaning m | recounting m =>
            -- the ring at the call is compared up to what the engine finishes
            rw [hp] at hprep
            obtain ⟨hnum, hflags, hhead, hcleared⟩ := hprep
            exact ⟨hnum, hflags, hhead, hcleared.clear s.hwNext⟩
          | programming m | advancing m | prepared idx | submitted idx =>
            rw [hp] at hprep
            exact hprep
        clean := h.clean_of rfl rfl rfl (le_refl _)
        failures := h.failures
        bug := h.bug }

/-! ## Cleaning up -/

variable {caller : Caller}

theorem cleanupStarts (hstep : cleanupStart s caller = some s') : ChanInv s' := by
  rw [cleanupStart] at hstep
  split at hstep
  case h_2 => cases hstep
  case h_1 hidle =>
    cases hstep
    have hclean := h.clean
    rw [hidle] at hclean
    have hcleaned : s.cleaned = s.released := hclean
    refine ⟨h.ring, h.txs, h.prep, ⟨?_, s.passed, ?_, ?_, ?_⟩, h.failures, h.bug⟩
    · rw [hcleaned]
      exact h.ring.lastTail
    · exact h.ring.cleaned_le_passed
    · exact le_refl _
    · exact h.ring.head

variable {lastTail cachedHead : Nat} {again : Bool}

theorem rereads (hc : s.cleaner = .scanning caller again lastTail cachedHead) :
    ChanInv { s with cleaner := .scanning caller true lastTail cachedHead } := by
  have hclean := h.clean
  rw [hc] at hclean
  exact ⟨h.ring, h.txs, h.prep, hclean, h.failures, h.bug⟩

theorem passes
    (hc : s.cleaner = .scanning caller again lastTail cachedHead) (hne : lastTail ≠ cachedHead)
    (hinvalid : (s.descRing lastTail).valid = false) :
    ChanInv (cleanupPass s caller lastTail cachedHead) := by
  have hclean := h.clean
  rw [hc] at hclean
  obtain ⟨rfl, head, hle, hhead, rfl⟩ := hclean
  have hlt : s.cleaned < head := by
    apply lt_of_le_of_ne hle
    intro heq
    exact hne (by rw [heq])
  have hring := h.ring.pass (lt_of_lt_of_le hlt hhead) hinvalid
  have hnext : plxDmaRingInc (s.cleaned % plxDmaDescRxSize) =
      (s.cleaned + 1) % plxDmaDescRxSize := plxDmaRingInc_mod _
  rcases h.txs.next_cases with ⟨t, rest, hpending, hlast, hcookie, hslot⟩ | ⟨hnot, hslot⟩
  · -- the last descriptor of a transaction
    have htx : (s.txArray (s.cleaned % plxDmaDescRxSize)).cookie = t.cookie ∧
        (s.txArray (s.cleaned % plxDmaDescRxSize)).callback = t.callback :=
      Prod.mk.injEq _ _ _ _ ▸ hslot
    have hne0 : t.cookie ≠ 0 := by
      simp only [dmaMinCookie] at hcookie
      omega
    have htxs := h.txs.report hpending hlast
    have hpass : completeTx s (s.cleaned % plxDmaDescRxSize) =
        { s with
          completedCookie := t.cookie
          txArray :=
            update s.txArray (s.cleaned % plxDmaDescRxSize)
              { s.txArray (s.cleaned % plxDmaDescRxSize) with cookie := 0, callback := none }
          reported := s.reported ++ [t.cookie]
          called := s.called ++ t.callback.toList } := by
      simp only [completeTx, htx.1, htx.2, if_neg hne0, if_neg (Int.not_lt.mpr hcookie)]
    rw [cleanupPass, hpass, hnext]
    exact
      { ring := hring
        txs := by
          simp only [txsAt, comp_update]
          exact htxs
        prep := by
          have hprep := h.prep
          show PrepOk _ s.preparer
          cases hp : s.preparer with
          | idle | published idx => trivial
          | counting m | cleaning m | recounting m | programming m | advancing m =>
            rw [hp] at hprep
            exact hprep
          | prepared idx | submitted idx =>
            -- `flags` stays as it is, whichever element is reported
            rw [hp] at hprep
            refine ⟨hprep.1, ?_⟩
            simp only [update_apply]
            split
            case isTrue hidx =>
              rw [← hidx]
              exact hprep.2
            case isFalse => exact hprep.2
        clean := ⟨rfl, head, hlt, hhead, rfl⟩
        failures := h.failures
        bug := h.bug }
  · have hcookie : (s.txArray (s.cleaned % plxDmaDescRxSize)).cookie = 0 :=
      congrArg Prod.fst hslot
    have htxs := h.txs.skip hnot
    have hpass : completeTx s (s.cleaned % plxDmaDescRxSize) = s := by
      simp only [completeTx, if_pos hcookie]
    rw [cleanupPass, hpass, hnext]
    exact ⟨hring, htxs, h.prep, ⟨rfl, head, hlt, hhead, rfl⟩, h.failures, h.bug⟩

theorem cleanupEnds (hc : s.cleaner = .scanning caller again lastTail cachedHead) :
    ChanInv (cleanupEnd s caller lastTail) := by
  have hclean := h.clean
  rw [hc] at hclean
  obtain ⟨rfl, -⟩ := hclean
  have hreleased : ChanInv
      { s with
        lastTail := s.cleaned % plxDmaDescRxSize, cleaner := .idle, released := s.cleaned } :=
    ⟨h.ring.release, h.txs, h.prep, rfl, h.failures, h.bug⟩
  unfold cleanupEnd
  split
  case h_2 => exact hreleased
  case h_1 m hp =>
    have hroom := (hreleased.ring_of hp).room
    have hok := hreleased.prep_of hp
    exact hreleased.move hp rfl rfl hroom hok

theorem cleanupSteps (hstep : cleanupStep s = some s') : ChanInv s' := by
  rw [cleanupStep] at hstep
  split at hstep
  case h_1 => cases hstep
  case h_2 caller again lastTail cachedHead hc =>
    split at hstep
    case isTrue =>
      cases hstep
      exact h.cleanupEnds hc
    case isFalse hne =>
      split at hstep
      case isTrue =>
        split at hstep
        · cases hstep
          exact h.cleanupEnds hc
        · cases hstep
          exact h.rereads hc
      case isFalse hinvalid =>
        cases hstep
        exact h.passes hc hne (Bool.not_eq_true _ ▸ hinvalid)

/-! ## All steps -/

theorem preparerSteps (hstep : preparerStep s = some s') : ChanInv s' := by
  simp only [preparerStep] at hstep
  split at hstep
  case h_1 | h_2 => cases hstep
  case h_3 m hp =>
    obtain ⟨hnum, hflags, hhead, hcleared⟩ := h.prep_of hp
    split at hstep
    case isTrue =>
      cases hstep
      exact h.move hp rfl rfl (h.ring_of hp).room ⟨hnum, hflags, hhead, hcleared⟩
    case isFalse hspace =>
      cases hstep
      exact h.startProgramming hp rfl rfl hnum hflags hspace
  case h_4 => exact h.cleanupStarts hstep
  case h_5 m hp =>
    obtain ⟨hnum, hflags, -⟩ := h.prep_of hp
    cases hstep
    split
    case isTrue => exact h.prepFails hp
    case isFalse hspace => exact h.startProgramming hp rfl rfl hnum hflags hspace
  case h_6 m hp =>
    cases hstep
    split
    case isTrue => exact h.prepReturns hp
    case isFalse hne => exact h.progDescs hp hne
  case h_7 m hp =>
    cases hstep
    exact h.advances hp
  case h_8 idx hp =>
    cases hstep
    rw [if_pos (h.prep_of hp).2]
    exact h.publishes hp
  case h_9 idx hp =>
    cases hstep
    exact h.unlocks hp

end ChanInv

/-! ## The requests that the driver can serve -/

/-- The most bytes whose descriptors an `int` can count -/
def maxLen : Nat := (2 ^ 31 - 1) * maxXferSize.toNat

/-- Clients ask for at most `maxLen` bytes, with flags that are not zero as an `int`. -/
def FitsInt (_ : ChanState) (a : ChanAct) (_ : ChanState) : Prop :=
  match a with
  | .prep _ _ len flags => len.toNat ≤ maxLen ∧ flags.toUInt32 ≠ 0
  | .preparer | .txSubmit _ | .hardware | .cleanup | .cleaner => True

instance (s : ChanState) (a : ChanAct) (s' : ChanState) : Decidable (FitsInt s a s') :=
  match a with
  | .prep _ _ len flags => inferInstanceAs (Decidable (len.toNat ≤ maxLen ∧ flags.toUInt32 ≠ 0))
  | .preparer | .txSubmit _ | .hardware | .cleanup | .cleaner => inferInstanceAs (Decidable True)

theorem numDesc_pos {len : UInt64} (hle : len.toNat ≤ maxLen) : 0 < numDesc len := by
  have hmax : maxLen = 2147483647 * 134217727 := rfl
  rw [hmax] at hle
  have hbounds : 0 < descNeeded len.toNat ∧ descNeeded len.toNat < 2 ^ 31 := by
    unfold descNeeded
    split <;> omega
  rw [numDesc_eq hbounds.2]
  exact Int.natCast_pos.mpr hbounds.1

theorem chanInit_inv : ChanInv chanInit where
  ring :=
    { head := rfl
      lastTail := rfl
      hwNext := rfl
      released_le := le_refl _
      cleaned_le := le_refl _
      cleaned_le_passed := le_refl _
      unpassed_le := le_refl _
      room := by decide
      executed := prefix_refl _
      window := Window.empty _ _
      valid := fun _ hd => absurd hd not_mem_nil
      bits := fun i _ _ => by simp [ringAt, chanInit] }
  txs :=
    { reported := rfl
      called := rfl
      completed := rfl
      done_lt := fun _ ht => absurd ht not_mem_nil
      marks := Marks.empty plxDmaDescRxSize (0, none) 0
      pending_lt := fun _ ht => absurd ht not_mem_nil
      cookies := fun _ ht => absurd ht not_mem_nil }
  prep := trivial
  clean := rfl
  failures := fun _ hf => absurd hf not_mem_nil
  bug := rfl

theorem ChanInv.step {s s' : ChanState} {a : ChanAct} (h : ChanInv s) (hG : FitsInt s a s')
    (hstep : chanStep s a = some s') : ChanInv s' := by
  cases a with
  | prep dmaDest dmaSrc len flags =>
    obtain ⟨hlen, hflags⟩ := hG
    simp only [chanStep, plxDmaPrepMemcpyLock] at hstep
    split at hstep
    case h_1 hp =>
      cases hstep
      exact h.prepCall hp (numDesc_pos hlen) hflags
    case h_2 => cases hstep
  | preparer => exact h.preparerSteps hstep
  | txSubmit callback =>
    cases hp : s.preparer with
    | prepared idx => exact h.submits hp callback hstep
    | idle | counting m | cleaning m | recounting m | programming m | advancing m | submitted idx
    | published idx => simp [chanStep, plxDmaTxSubmitUnlock, hp] at hstep
  | hardware => exact h.hardwareFinishes hstep
  | cleanup => exact h.cleanupStarts hstep
  | cleaner => exact h.cleanupSteps hstep

theorem chanInv_of_reachBy {s : ChanState} (h : chanSystem.ReachBy FitsInt s) : ChanInv s := by
  refine h.invariant ?_ ?_
  · rintro s rfl
    exact chanInit_inv
  · intro s a s' hI hG hstep
    exact hI.step hG hstep

end Vcass.PlxDma
