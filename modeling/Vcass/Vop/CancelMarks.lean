import Vcass.Vop.CancelLoop

/-!
# What a Cancellation Marks

`vop_kvec_check_cancel` marks the slot of the request and then every following slot with the same
head, as long as the window test lets it.  The test lets everything pass when the window wraps, and
`vop_kvec_get` leaves the head 0 in the slots it has taken.  So a request for a slot that was taken
already marks a neighbour, when that has the legal head 0: `neighbour_skipped`.

When a request is for a slot that has a head other than 0, or whose transfer is under way
(`CancelNamed`), the marks stay on the chain of the request, and no other chain is ever skipped:
`marks_confined`.  The window test has no part in this: the heads of the unfetched chains are unlike,
and all other slots have the head 0 (`HeadsCleared`).
-/

namespace Vcass.Vop

open Vcass.Core

/-! ## The condition and the property -/

/-- When the mutex is taken, the slot of the request has a head other than 0, or is in use. -/
def CancelRing.Names (s : CancelRing) : CancelAct → CancelPhase → Prop
  | .cancel, .lock request _ _ _ => (s.buf request).head ≠ 0 ∨ (s.buf request).inUse = true
  | _, _ => True

def CancelNamed (num : Nat) (s : CancelRing) (a : CancelAct) (s' : CancelRing) : Prop :=
  QueueOk num s a s' ∧ s.Names a s.canceller

instance (s : CancelRing) (a : CancelAct) (p : CancelPhase) : Decidable (s.Names a p) :=
  match a, p with
  | .cancel, .lock _ _ _ _ => inferInstanceAs (Decidable (_ ∨ _))
  | .cancel, .idle | .cancel, .start _ _ | .cancel, .stop _ _ _ | .cancel, .check _ _ _ _
  | .cancel, .wait _ _ | .cancel, .hung | .put _, _ | .publish, _ | .consume, _ | .get, _
  | .transfer _ _, _ | .request _, _ | .cancelTimeout, _ => .isTrue trivial

instance (num : Nat) (s : CancelRing) (a : CancelAct) (s' : CancelRing) :
    Decidable (CancelNamed num s a s') :=
  inferInstanceAs (Decidable (_ ∧ _))

/-- The marks that a step sets are on the slot of the request or on slots of its chain. -/
def MarksConfined (s s' : CancelRing) (request : Nat) : Prop :=
  ∀ j, (s'.buf j).cancelled = true → (s.buf j).cancelled = true ∨ j = request ∨
    ∃ k, (s.buf request).chain = some k ∧ (s.buf j).chain = some k

/-- Only chains that were named by a request are skipped. -/
def SkipsRequested (s : CancelRing) : Prop :=
  ∀ k ∈ s.skipped, k ∈ s.requested

/-! ## The invariant -/

/-- **The invariant**: heads are where unfetched chains are, and marks are where requests were. -/
structure MarksInv (num : Nat) (s : CancelRing) : Prop where
  free : HeadsCleared num s
  marks : ∀ i, s.passed ≤ i → i < 2 * s.heads.length → (s.buf (i % num)).cancelled = true →
    i / 2 ∈ s.requested
  skipped : SkipsRequested s

namespace MarksInv

variable {num : Nat} {s s' : CancelRing} (h : MarksInv num s)

include h

theorem chain_eq (hw : WindowOk num s.window) {request j : Nat}
    (hrequest : (s.buf request).head ≠ 0) (hj : (s.buf j).head = (s.buf request).head) :
    ∃ k, (s.buf request).chain = some k ∧ (s.buf j).chain = some k := by
  have hunfetched : ∀ {r}, (s.buf r).head ≠ 0 → s.Unfetched num r := by
    intro r hr
    by_contra hfree
    exact hr (h.free r hfree)
  obtain ⟨i, hi, hlt, rfl⟩ := hunfetched hrequest
  obtain ⟨i', hi', hlt', rfl⟩ := hunfetched (hj ▸ hrequest)
  have hsame : i / 2 = i' / 2 := by
    rcases Nat.lt_trichotomy (i / 2) (i' / 2) with hless | heq | hless
    · exact absurd hj.symm (hw.head_injective hi hless hlt')
    · exact heq
    · exact absurd hj (hw.head_injective hi' hless hlt)
  refine ⟨i / 2, hw.chain i hi hlt, ?_⟩
  rw [hsame]
  exact hw.chain i' hi' hlt'

/-- **The marks of a cancellation are confined** to the chain of the request. -/
theorem confined (hw : WindowOk num s.window) {request : Nat}
    (hrequest : (s.buf request).head ≠ 0) (idxStart idxEnd : Nat)
    (hbuf : s'.buf = (s.mark num request idxStart idxEnd).1) : MarksConfined s s' request := by
  intro j hj
  rw [hbuf] at hj
  rcases mark_slot num s request idxStart idxEnd j with ⟨hsame, _⟩ | ⟨hwhere, _⟩
  · rw [hsame] at hj
    exact .inl hj
  · rcases hwhere with heq | hhead
    · exact .inr (.inl heq)
    · exact .inr (.inr (h.chain_eq hw hrequest hhead))

theorem put (hw : WindowOk num s.window) (hnum : EvenSize num) {head : Nat}
    (hguard : QueueOk num s (.put head) s') : MarksInv num (s.put num head) := by
  constructor
  · exact HeadsCleared.put h.free hw hnum head
  · intro i hi hlt hmark
    rcases hw.put_buf hnum hguard hi hlt with ⟨hlt', hold⟩ | ⟨_, hnew⟩
    · rw [hold] at hmark
      exact h.marks i hi hlt' hmark
    · rw [hnew] at hmark
      cases hmark
  · exact h.skipped

theorem passes (hp : Passes num s s') (hskipped : SkipsRequested s') : MarksInv num s' := by
  constructor
  · exact HeadsCleared.passes h.free hp
  · intro i hi hlt hmark
    rw [hp.heads] at hlt
    rw [hp.keep (i % num) (hp.apart i hi hlt)] at hmark
    rw [hp.requested]
    exact h.marks i (Nat.le_trans hp.le hi) hlt hmark
  · exact hskipped

theorem skip (hw : WindowOk num s.window) (hne : s.lastCnt ≠ s.cnt)
    (hmark : (s.buf (kvecCounterToIdx s.lastCnt num)).cancelled = true) :
    MarksInv num (s.skip num) := by
  refine h.passes (hw.passes_skip hne hmark) ?_
  obtain ⟨-, hpublished, -⟩ := hw.bounds
  have hlt := hw.passed_lt hne
  rw [hw.skip_eq hne hmark]
  rw [hw.fetcher_idx] at hmark
  -- the skipped slot has a mark, and so was requested
  intro k hk
  rcases List.mem_append.mp hk with hold | hnew
  · exact h.skipped k hold
  · rw [List.mem_singleton.mp hnew]
    exact h.marks s.passed (Nat.le_refl _) (by omega) hmark

theorem fetch (hw : WindowOk num s.window) (hnum : EvenSize num)
    (hne : s.passed < 2 * s.published) : MarksInv num (s.fetch num) := by
  refine h.passes (hw.passes_fetch hnum hne) ?_
  rw [WindowOk.fetch_eq hnum hw hne]
  exact h.skipped

theorem mark (hw : WindowOk num s.window) {request : Nat}
    (hrequest : (s.buf request).head ≠ 0) (idxStart idxEnd : Nat) (hfree : HeadsCleared num s')
    (hbuf : s'.buf = (s.mark num request idxStart idxEnd).1)
    (hrequested : s'.requested = s.requested ++ (s.buf request).chain.toList)
    (hpassed : s'.passed = s.passed) (hheads : s'.heads = s.heads)
    (hskipped : s'.skipped = s.skipped) : MarksInv num s' := by
  have hconfined := h.confined hw hrequest idxStart idxEnd hbuf
  refine ⟨hfree, ?_, ?_⟩
  · rw [hpassed, hheads, hrequested]
    intro i hi hlt hmark
    have hchain := hw.chain_at hi hlt
    -- a mark is old, or on the slot of the request, or on a slot of the same chain
    rcases hconfined _ hmark with hold | hself | ⟨k, hk, hj⟩
    · exact List.mem_append_left _ (h.marks i hi hlt hold)
    · rw [← hself, hchain]
      simp
    · cases hchain.symm.trans hj
      rw [hk]
      simp
  · unfold SkipsRequested
    rw [hskipped, hrequested]
    intro k hk
    exact List.mem_append_left _ (h.skipped k hk)

omit h in
theorem head_of_named {request idxStart idxEnd : Nat} {named : Option Nat}
    (hguard : CancelNamed num s .cancel s')
    (hlock : s.canceller = .lock request named idxStart idxEnd)
    (hunused : (s.buf request).inUse = false) : (s.buf request).head ≠ 0 := by
  have hname := hguard.2
  rw [hlock] at hname
  exact hname.resolve_right (by simp [hunused])

/-- **Every step that meets the condition keeps the invariant.** -/
theorem step {a : CancelAct} (hq : QueueInv num s) (hnum : EvenSize num)
    (hguard : CancelNamed num s a s') (hstep : cancelStep num s a = some s') : MarksInv num s' := by
  have hfree : HeadsCleared num s' := HeadsCleared.step h.free hq hnum hstep
  cases cancelStep_cases hstep with
  | put head => exact h.put hq.window hnum hguard.1
  | skip _ more marked => exact h.skip hq.window more marked
  | fetch phase => exact h.fetch hq.window hnum (hq.nonempty phase)
  | @clear i ok item =>
    refine ⟨hfree, ?_, h.skipped⟩
    intro i hi hlt hmark
    -- the flags of the slot are cleared; a mark elsewhere is left
    by_cases hj : i % num = item.slot
    · simp [CancelRing.setSlot, hj] at hmark
    · simp only [CancelRing.setSlot, Function.update_of_ne hj] at hmark
      exact h.marks i hi hlt hmark
  | mark lock _ unused =>
    exact h.mark hq.window (head_of_named hguard lock unused) _ _ hfree rfl rfl rfl rfl rfl
  | publish | consume | look | move | ask | waited => exact ⟨hfree, h.marks, h.skipped⟩

end MarksInv

theorem marksInv_of_reachBy {num : Nat} (hnum : EvenSize num) {s : CancelRing}
    (h : (cancelSystem num).ReachBy (CancelNamed num) s) : QueueInv num s ∧ MarksInv num s := by
  apply System.ReachBy.invariant ?_ ?_ h
  · rintro s rfl
    refine ⟨queueInv_initial num, ⟨fun _ _ => rfl, ?_, ?_⟩⟩
    · intro i _ hlt
      exact absurd hlt (Nat.not_lt_zero _)
    · intro k hk
      cases hk
  · rintro s a s' ⟨hq, hm⟩ hguard hstep
    exact ⟨hq.step hnum hguard.1 hstep, hm.step hq hnum hguard hstep⟩

/-! ## Main results -/

/-- **A cancellation touches only the cancelled request**: in every run that meets the condition, the
marks of each cancellation are confined to the chain of its request, and only requested chains are
skipped. -/
theorem marks_confined {num : Nat} (hnum : EvenSize num) {s : CancelRing}
    (h : (cancelSystem num).ReachBy (CancelNamed num) s) :
    (∀ request named idxStart idxEnd s', s.canceller = .lock request named idxStart idxEnd →
      CancelNamed num s .cancel s' → cancelStep num s .cancel = some s' →
        MarksConfined s s' request) ∧ SkipsRequested s := by
  obtain ⟨hq, hm⟩ := marksInv_of_reachBy hnum h
  refine ⟨?_, hm.skipped⟩
  intro request named idxStart idxEnd s' hlock hguard hstep
  cases cancelStep_cases hstep with
  | mark lock _ unused =>
    cases hlock.symm.trans lock
    exact hm.confined hq.window (MarksInv.head_of_named hguard lock unused) idxStart idxEnd rfl
  | ask | waited => exact fun j hj => .inl hj

/-- A whole cancellation of a request that is not in use -/
def wholeCancel (request : Nat) : List CancelAct :=
  [.request request, .cancel, .cancel, .cancel, .cancel]

/-- Three chains are put, the first under the head 0; the second is cancelled and skipped, the others
are fetched. -/
theorem marks_confined_secondOfThree :
    ∃ s, (cancelSystem 8).ReachBy (CancelNamed 8) s ∧ s.requested = [1] ∧ s.skipped = [1, 1] ∧
      SkipsRequested s := by
  have hobs : ((cancelSystem 8).runBy (CancelNamed 8) .initial
      ([CancelAct.put 0, .put 6, .put 7, .publish] ++ wholeGet ++ wholeCancel 2 ++
        [CancelAct.get, .get] ++ wholeGet)).map (fun s => (s.requested, s.skipped)) =
      some ([1], [1, 1]) := by
    decide +kernel
  obtain ⟨s, hreach, hseen⟩ := System.exists_reachBy hobs rfl
  obtain ⟨hrequested, hskipped⟩ := Prod.mk.inj hseen
  exact ⟨s, hreach, hrequested, hskipped, (marks_confined ⟨by decide, by decide⟩ hreach).2⟩

/-- The request is for the second slot of a chain that was fetched already.  The next chain has the
head 0, is marked with it, and is skipped. -/
theorem neighbour_skipped :
    ∃ s, (cancelSystem 8).ReachBy (QueueOk 8) s ∧ s.requested = [0] ∧ s.skipped = [1, 1] ∧
      ¬ SkipsRequested s := by
  have hobs : ((cancelSystem 8).runBy (QueueOk 8) .initial
      ([CancelAct.put 5, .put 0, .put 7, .publish] ++ wholeGet ++ wholeCancel 1 ++
        [CancelAct.get, .get] ++ wholeGet)).map (fun s => (s.requested, s.skipped)) =
      some ([0], [1, 1]) := by
    decide +kernel
  obtain ⟨s, hreach, hseen⟩ := System.exists_reachBy hobs rfl
  obtain ⟨hrequested, hskipped⟩ := Prod.mk.inj hseen
  refine ⟨s, hreach, hrequested, hskipped, ?_⟩
  intro hskips
  have hmem := hskips 1 (by rw [hskipped]; decide)
  rw [hrequested] at hmem
  exact absurd hmem (by decide)

end Vcass.Vop
