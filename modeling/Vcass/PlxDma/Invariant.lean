import Vcass.PlxDma.Channel

/-!
# The Invariant of the Descriptor Ring

`head`, `last_tail` and the position of the engine are indices into the ring.  Each stands for a
number that only grows: the descriptors that `head` has passed, those that `last_tail` has passed,
and those that the engine has finished.

- `RingInv` ties the ring to these numbers: from `last_tail` on it holds the descriptors published,
  and the valid bit is set on those that the engine has not finished.
- `TxInv` does the same for `tx_array`: a cookie stands on the slot of the last descriptor of each
  transaction that was submitted and not reported, and nowhere else.

Both are stated over the parts of the state that they read, so that each operation of the driver
needs one lemma for each of them.
-/

namespace Vcass.PlxDma

open Vcass.Core Function List PlxDmaDesc Transaction

/-! ## Indices and numbers -/

theorem plxDmaRingInc_mod (n : Nat) :
    plxDmaRingInc (n % plxDmaDescRxSize) = (n + 1) % plxDmaDescRxSize := by
  show (n % 2048 + 1) &&& (2 ^ 11 - 1) = (n + 1) % 2048
  rw [Nat.and_two_pow_sub_one_eq_mod]
  omega

theorem plxDmaRingCount_mod {head tail : Nat} (hle : tail ≤ head)
    (hfits : head ≤ tail + (plxDmaDescRxSize - 1)) :
    plxDmaRingCount (head % plxDmaDescRxSize) (tail % plxDmaDescRxSize) =
      (tail : Int) + (plxDmaDescRxSize - 1) - head := by
  rw [plxDmaRingCount]
  by_cases h : tail % plxDmaDescRxSize ≤ head % plxDmaDescRxSize
  · rw [if_pos h]
    simp only [plxDmaDescRxSize] at *
    omega
  · rw [if_neg h]
    simp only [plxDmaDescRxSize] at *
    omega

/-! ## The descriptors -/

/-- The descriptor with its valid bit set -/
def PlxDmaDesc.asValid (d : PlxDmaDesc) : PlxDmaDesc := { d with valid := true }

theorem PlxDmaDesc.asValid_eq {d : PlxDmaDesc} (h : d.valid = true) : d.asValid = d := by
  cases d
  cases h
  rfl

/-- The number of valid descriptors that `head` has not passed yet -/
def Preparer.unpassed : Preparer → Nat
  | .advancing _ | .published _ => 1
  | .idle | .counting _ | .cleaning _ | .recounting _ | .programming _ | .prepared _
  | .submitted _ => 0

/-- The number of descriptors that the preparer is still going to publish -/
def Preparer.needs : Preparer → Nat
  | .programming m | .advancing m => max 1 m.numDesc.toNat
  | .prepared _ | .submitted _ => 1
  | .idle | .counting _ | .cleaning _ | .recounting _ | .published _ => 0

/-- What the invariant of the ring reads -/
structure RingView where
  head : Nat
  lastTail : Nat
  hwNext : Nat
  descRing : Nat → PlxDmaDesc
  published : List PlxDmaDesc
  executed : List PlxDmaDesc
  cleaned : Nat
  released : Nat
  unpassed : Nat
  needs : Nat

/-- The number of descriptors that `head` has passed -/
def RingView.passed (r : RingView) : Nat := r.published.length - r.unpassed

/-- The ring between `last_tail` and `head` -/
structure RingInv (r : RingView) : Prop where
  head : r.head = r.passed % plxDmaDescRxSize
  lastTail : r.lastTail = r.released % plxDmaDescRxSize
  hwNext : r.hwNext = r.executed.length % plxDmaDescRxSize
  released_le : r.released ≤ r.cleaned
  cleaned_le : r.cleaned ≤ r.executed.length
  cleaned_le_passed : r.cleaned ≤ r.passed
  unpassed_le : r.unpassed ≤ r.published.length
  /-- what the preparer is going to publish fits into the ring -/
  room : r.published.length + r.needs ≤ r.released + (plxDmaDescRxSize - 1)
  executed : r.executed <+: r.published
  window :
    Window plxDmaDescRxSize (PlxDmaDesc.asValid ∘ r.descRing) r.published r.released
  valid : ∀ d ∈ r.published, d.valid = true
  /-- the valid bits of one lap -/
  bits : ∀ i, r.released ≤ i → i < r.released + plxDmaDescRxSize →
    (r.descRing (i % plxDmaDescRxSize)).valid =
      decide (r.executed.length ≤ i ∧ i < r.published.length)

namespace RingInv

variable {r : RingView} (h : RingInv r)

include h

theorem executed_le : r.executed.length ≤ r.published.length :=
  h.executed.length_le

theorem passed_le : r.passed ≤ r.released + (plxDmaDescRxSize - 1) := by
  have hroom := h.room
  simp only [RingView.passed]
  omega

omit h in
theorem size_pos : 0 < plxDmaDescRxSize := by decide

theorem replan {needs : Nat}
    (hroom : r.published.length + needs ≤ r.released + (plxDmaDescRxSize - 1)) :
    RingInv { r with needs := needs } :=
  { h with room := hroom }

/-- The slot at `head` is not one of those between `last_tail` and `head`. -/
theorem head_free (hpassed : r.unpassed = 0) (i : Nat) (hle : r.released ≤ i)
    (hlt : i < r.published.length) : i % plxDmaDescRxSize ≠ r.head := by
  have hroom := h.room
  have hpos := size_pos
  rw [h.head, RingView.passed, hpassed, Nat.sub_zero]
  exact slot_ne hlt (by omega)

theorem writeInvalid (hpassed : r.unpassed = 0) {d : PlxDmaDesc}
    (hd : d.valid = false) :
    RingInv { r with descRing := update r.descRing r.head d } where
  head := h.head
  lastTail := h.lastTail
  hwNext := h.hwNext
  released_le := h.released_le
  cleaned_le := h.cleaned_le
  cleaned_le_passed := h.cleaned_le_passed
  unpassed_le := h.unpassed_le
  room := h.room
  executed := h.executed
  window := by
    show Window _ (asValid ∘ update r.descRing r.head d) _ _
    rw [comp_update]
    exact h.window.update (h.head_free hpassed)
  valid := h.valid
  bits i hle hlt := by
    simp only [update_apply]
    split
    case isTrue hslot =>
      -- a slot at `head` is of a number that is not published
      have hnot : ¬ i < r.published.length := fun hi => h.head_free hpassed i hle hi hslot
      rw [hd]
      simp [hnot]
    case isFalse => exact h.bits i hle hlt

/-- A valid descriptor is written at `head`. -/
theorem writeValid (hpassed : r.unpassed = 0) {d : PlxDmaDesc}
    (hd : d.valid = true) {needs : Nat} (hneeds : needs + 1 ≤ r.needs) :
    RingInv
      { r with
        descRing := update r.descRing r.head d
        published := r.published ++ [d]
        unpassed := 1
        needs := needs } := by
  have hroom := h.room
  have hhead : r.head = r.published.length % plxDmaDescRxSize := by
    rw [h.head, RingView.passed, hpassed, Nat.sub_zero]
  have hpos := size_pos
  have hexecuted := h.executed_le
  have hcleaned := h.cleaned_le
  have hreleased := h.released_le
  exact
    { head := by
        simp only [RingView.passed, length_append, length_singleton,
          Nat.add_sub_cancel]
        exact hhead
      lastTail := h.lastTail
      hwNext := h.hwNext
      released_le := h.released_le
      cleaned_le := h.cleaned_le
      cleaned_le_passed := by
        have hcleaned := h.cleaned_le_passed
        simp only [RingView.passed, hpassed, Nat.sub_zero] at hcleaned
        simpa [RingView.passed] using hcleaned
      unpassed_le := by simp
      room := by
        simp only [length_append, length_singleton]
        omega
      executed := h.executed.trans (prefix_append _ _)
      -- the slot is free, for less than a whole turn of the ring is published and not released
      window := by
        show Window _ (asValid ∘ update r.descRing r.head d) _ _
        rw [comp_update, hhead, asValid_eq hd]
        exact h.window.push (by omega) d
      valid := by
        intro d' hd'
        rcases mem_append.mp hd' with hd' | hd'
        · exact h.valid d' hd'
        · rw [mem_singleton.mp hd', hd]
      bits := by
        intro i hle hlt
        have hlap : r.released ≤ i ∧ i < r.released + plxDmaDescRxSize := ⟨hle, hlt⟩
        simp only [length_append, length_singleton]
        by_cases hi : i = r.published.length
        · rw [hi, ← hhead, update_self, hd]
          symm
          simp only [decide_eq_true_eq]
          omega
        · -- within one turn of the ring different numbers have different slots
          have hslot : i % plxDmaDescRxSize ≠ r.head := by
            intro hslot
            rw [hhead] at hslot
            exact hi (slot_injective hlap (by omega) hslot)
          rw [update_of_ne hslot, h.bits i hle hlt]
          simp only [decide_eq_decide]
          omega }

/-- `head` passes the descriptor that was made valid. -/
theorem advance (hunpassed : r.unpassed = 1) :
    RingInv { r with head := plxDmaRingInc r.head, unpassed := 0 } := by
  have hle := h.unpassed_le
  have hhead := h.head
  have hcleaned := h.cleaned_le_passed
  simp only [RingView.passed, hunpassed] at hhead hcleaned
  exact
    { head := by
        simp only [RingView.passed, Nat.sub_zero]
        rw [hhead, plxDmaRingInc_mod]
        congr 1
        omega
      lastTail := h.lastTail
      hwNext := h.hwNext
      released_le := h.released_le
      cleaned_le := h.cleaned_le
      cleaned_le_passed := by
        simp only [RingView.passed]
        omega
      unpassed_le := Nat.zero_le _
      room := h.room
      executed := h.executed
      window := h.window
      valid := h.valid
      bits := h.bits }

theorem hardware_reads (hvalid : (r.descRing r.hwNext).valid = true) :
    r.published[r.executed.length]? = some (r.descRing r.hwNext) := by
  have hroom := h.room
  have hle := h.executed_le
  have hcleaned := h.cleaned_le
  have hreleased := h.released_le
  have hpos := size_pos
  rw [h.hwNext] at hvalid ⊢
  have hbit := h.bits r.executed.length (by omega) (by omega)
  rw [hvalid] at hbit
  have hlt : r.executed.length < r.published.length := (of_decide_eq_true hbit.symm).2
  have hslot := h.window.slot _ hlt (by omega)
  rw [comp_apply, asValid_eq hvalid] at hslot
  rw [hslot]
  exact List.getElem?_eq_getElem hlt

theorem hardware (hvalid : (r.descRing r.hwNext).valid = true) :
    RingInv
      { r with
        descRing :=
          update r.descRing r.hwNext { r.descRing r.hwNext with valid := false }
        hwNext := plxDmaRingInc r.hwNext
        executed := r.executed ++ [r.descRing r.hwNext] } := by
  have hroom := h.room
  have hcleaned := h.cleaned_le
  have hreleased := h.released_le
  have hpos := size_pos
  have hread := h.hardware_reads hvalid
  obtain ⟨hlt, -⟩ := List.getElem?_eq_some_iff.mp hread
  exact
    { head := h.head
      lastTail := h.lastTail
      hwNext := by
        rw [h.hwNext, plxDmaRingInc_mod, length_append, length_singleton]
      released_le := h.released_le
      cleaned_le := by
        simp only [length_append, length_singleton]
        omega
      cleaned_le_passed := h.cleaned_le_passed
      unpassed_le := h.unpassed_le
      room := h.room
      executed := prefix_snoc h.executed hread
      window := by
        -- the window does not look at the valid bit
        show Window _ (asValid ∘ update r.descRing r.hwNext _) _ _
        rw [comp_update]
        have hsame : asValid { r.descRing r.hwNext with valid := false } =
            (asValid ∘ r.descRing) r.hwNext := rfl
        rw [hsame, update_eq_self]
        exact h.window
      valid := h.valid
      bits := by
        intro i hle hlt'
        have hlap : r.released ≤ i ∧ i < r.released + plxDmaDescRxSize := ⟨hle, hlt'⟩
        simp only [length_append, length_singleton]
        by_cases hi : i = r.executed.length
        · rw [hi, ← h.hwNext, update_self]
          symm
          simp
        · have hslot : i % plxDmaDescRxSize ≠ r.hwNext := by
            intro hslot
            rw [h.hwNext] at hslot
            exact hi (slot_injective hlap (by omega) hslot)
          rw [update_of_ne hslot, h.bits i hle hlt']
          simp only [decide_eq_decide]
          omega }

/-- A descriptor between `last_tail` and `head` that is not valid is finished. -/
theorem finished (hlt : r.cleaned < r.passed)
    (hinvalid : (r.descRing (r.cleaned % plxDmaDescRxSize)).valid = false) :
    r.cleaned < r.executed.length := by
  have hpassed := h.passed_le
  have hreleased := h.released_le
  have hpos := size_pos
  have hbit := h.bits r.cleaned hreleased (by omega)
  rw [hinvalid] at hbit
  have hnot := of_decide_eq_false hbit.symm
  simp only [RingView.passed] at hlt
  omega

theorem pass (hlt : r.cleaned < r.passed)
    (hinvalid : (r.descRing (r.cleaned % plxDmaDescRxSize)).valid = false) :
    RingInv { r with cleaned := r.cleaned + 1 } :=
  { h with
    released_le := Nat.le_succ_of_le h.released_le
    cleaned_le := h.finished hlt hinvalid
    cleaned_le_passed := hlt }

/-- A cleanup stores `last_tail`. -/
theorem release :
    RingInv { r with lastTail := r.cleaned % plxDmaDescRxSize, released := r.cleaned } := by
  have hroom := h.room
  have hreleased := h.released_le
  have hcleaned := h.cleaned_le
  have hexecuted := h.executed_le
  have hpos := size_pos
  exact
    { head := h.head
      lastTail := rfl
      hwNext := h.hwNext
      released_le := le_refl _
      cleaned_le := h.cleaned_le
      cleaned_le_passed := h.cleaned_le_passed
      unpassed_le := h.unpassed_le
      room := by
        simp only
        omega
      executed := h.executed
      window := h.window.advance h.released_le
      valid := h.valid
      bits := by
        intro i hle hlt
        simp only at hle hlt ⊢
        rcases lt_or_ge i (r.released + plxDmaDescRxSize) with hi | hi
        · exact h.bits i (by omega) hi
        · -- the slot of a descriptor that was passed in the lap before
          obtain ⟨j, rfl⟩ : ∃ j, i = j + plxDmaDescRxSize := ⟨i - plxDmaDescRxSize, by omega⟩
          rw [Nat.add_mod_right, h.bits j (by omega) (by omega), decide_eq_decide]
          omega }

/-- What a slot between `last_tail` and the last descriptor published holds. -/
theorem kept {i : Nat} (hle : r.released ≤ i) (hlt : i < r.published.length) :
    r.descRing (i % plxDmaDescRxSize) =
      { r.published[i] with valid := decide (r.executed.length ≤ i) } := by
  have hroom := h.room
  have hpos := size_pos
  have hslot := h.window.slot i hlt hle
  have hbit := h.bits i hle (by omega)
  simp only [hlt, and_true] at hbit
  rw [← hslot, ← hbit]
  rfl

end RingInv

/-! ## The transactions -/

/-- The cookie and the callback of an element of `tx_array` -/
def TxDescriptor.mark (tx : TxDescriptor) : Int × Option Nat := (tx.cookie, tx.callback)

/-- A transaction as a mark on the number of its last descriptor -/
def Transaction.mark (t : Transaction) : Nat × (Int × Option Nat) :=
  (t.last, (t.cookie, t.callback))

/-- What the invariant of `tx_array` reads.  `bound` is behind the last descriptor of every
transaction. -/
structure TxView where
  slots : Nat → Int × Option Nat
  completedCookie : Int
  submitted : List Transaction
  reported : List Int
  called : List Nat
  cleaned : Nat
  bound : Nat

namespace TxView

def done (v : TxView) : List Transaction := v.submitted.take v.reported.length

def pending (v : TxView) : List Transaction := v.submitted.drop v.reported.length

end TxView

/-- Each transaction stands in `tx_array` from its submission to its report. -/
structure TxInv (v : TxView) : Prop where
  reported : v.reported = v.done.map Transaction.cookie
  called : v.called = v.done.filterMap Transaction.callback
  completed : v.completedCookie = v.reported.getLast?.getD dmaMinCookie
  done_lt : ∀ t ∈ v.done, t.last < v.cleaned
  marks :
    Marks plxDmaDescRxSize v.slots (0, none) v.cleaned (v.pending.map Transaction.mark)
  pending_lt : ∀ t ∈ v.pending, t.last < v.bound
  cookies : ∀ t ∈ v.submitted, dmaMinCookie ≤ t.cookie

theorem dmaMinCookie_le_nextCookie (cookie : Int) : dmaMinCookie ≤ nextCookie cookie := by
  simp only [nextCookie]
  split
  case isTrue => exact Int.le_refl _
  case isFalse h => exact Int.not_lt.mp h

theorem take_succ_of_drop {α : Type*} {l : List α} {n : Nat} {a : α} {rest : List α}
    (h : l.drop n = a :: rest) : l.take (n + 1) = l.take n ++ [a] ∧ l.drop (n + 1) = rest := by
  have hget : l[n]? = some a := by
    rw [← List.head?_drop, h, List.head?_cons]
  constructor
  · rw [take_add_one, hget]
    rfl
  · rw [← tail_drop, h, tail_cons]

namespace TxInv

variable {v : TxView} (h : TxInv v)

include h

theorem reported_le : v.reported.length ≤ v.submitted.length := by
  have hlen := congrArg List.length h.reported
  rw [length_map, TxView.done, length_take] at hlen
  omega

theorem mono {bound : Nat} (hle : v.bound ≤ bound) : TxInv { v with bound := bound } :=
  { h with pending_lt := fun t ht => lt_of_lt_of_le (h.pending_lt t ht) hle }

theorem blank (hle : v.cleaned ≤ v.bound)
    (hlt : v.bound < v.cleaned + plxDmaDescRxSize) :
    v.slots (v.bound % plxDmaDescRxSize) = (0, none) := by
  apply h.marks.unmarked _ hle hlt
  intro m hm
  obtain ⟨t, ht, rfl⟩ := mem_map.mp hm
  exact ne_of_lt (h.pending_lt t ht)

theorem submit {t : Transaction} (hlast : t.last = v.bound)
    (hle : v.cleaned ≤ v.bound) (hlt : v.bound < v.cleaned + plxDmaDescRxSize)
    (hcookie : dmaMinCookie ≤ t.cookie) :
    TxInv
      { v with
        slots :=
          update v.slots (t.last % plxDmaDescRxSize) (t.cookie, t.callback)
        submitted := v.submitted ++ [t]
        bound := v.bound + 1 } := by
  have hlen := h.reported_le
  have hdone : (v.submitted ++ [t]).take v.reported.length = v.done :=
    take_append_of_le_length hlen
  have hpending : (v.submitted ++ [t]).drop v.reported.length = v.pending ++ [t] :=
    drop_append_of_le_length hlen
  exact
    { reported := by
        rw [TxView.done, hdone]
        exact h.reported
      called := by
        rw [TxView.done, hdone]
        exact h.called
      completed := h.completed
      done_lt := by
        rw [TxView.done, hdone]
        exact h.done_lt
      -- the new mark is behind all others, and less than a turn behind the cleanup
      marks := by
        rw [TxView.pending, hpending, map_append]
        apply h.marks.snoc
        · rw [hlast]
          exact hle
        · rw [hlast]
          exact hlt
        · intro m hm
          obtain ⟨t', ht', rfl⟩ := mem_map.mp hm
          rw [hlast]
          exact h.pending_lt t' ht'
      pending_lt := by
        rw [TxView.pending, hpending]
        intro t' ht'
        rcases mem_append.mp ht' with ht' | ht'
        · exact Nat.lt_succ_of_lt (h.pending_lt t' ht')
        · rw [mem_singleton.mp ht', hlast]
          exact Nat.lt_succ_self _
      cookies := by
        intro t' ht'
        rcases mem_append.mp ht' with ht' | ht'
        · exact h.cookies t' ht'
        · rw [mem_singleton.mp ht']
          exact hcookie }

/-- What stands in the slot that a cleanup passes next: nothing, or the transaction that was
submitted first among those not reported. -/
theorem next_cases :
    (∃ t rest, v.pending = t :: rest ∧ t.last = v.cleaned ∧ dmaMinCookie ≤ t.cookie ∧
      v.slots (v.cleaned % plxDmaDescRxSize) = (t.cookie, t.callback)) ∨
    ((∀ t ∈ v.pending, t.last ≠ v.cleaned) ∧
      v.slots (v.cleaned % plxDmaDescRxSize) = (0, none)) := by
  rcases h.marks.next_cases RingInv.size_pos with ⟨a, rest, hmarks, hslot⟩ | ⟨hnot, hslot⟩
  · obtain ⟨t, rest', hpending, hmark, -⟩ := map_eq_cons_iff.mp hmarks
    simp only [mark, Prod.mk.injEq] at hmark
    obtain ⟨hlast, rfl⟩ := hmark
    have hmem : t ∈ v.submitted := by
      apply mem_of_mem_drop
      rw [TxView.pending] at hpending
      rw [hpending]
      exact mem_cons_self
    exact Or.inl ⟨t, rest', hpending, hlast, h.cookies t hmem, hslot⟩
  · refine Or.inr ⟨?_, hslot⟩
    intro t ht
    exact hnot t.mark (mem_map_of_mem ht)

theorem skip (hnot : ∀ t ∈ v.pending, t.last ≠ v.cleaned) :
    TxInv { v with cleaned := v.cleaned + 1 } :=
  { h with
    done_lt := fun t ht => Nat.lt_succ_of_lt (h.done_lt t ht)
    marks := by
      apply h.marks.skip
      intro m hm
      obtain ⟨t, ht, rfl⟩ := mem_map.mp hm
      exact hnot t ht }

theorem report {t : Transaction} {rest : List Transaction}
    (hpending : v.pending = t :: rest) (hlast : t.last = v.cleaned) :
    TxInv
      { v with
        slots := update v.slots (v.cleaned % plxDmaDescRxSize) (0, none)
        completedCookie := t.cookie
        reported := v.reported ++ [t.cookie]
        called := v.called ++ t.callback.toList
        cleaned := v.cleaned + 1 } := by
  obtain ⟨htake, hdrop⟩ := take_succ_of_drop hpending
  have hdone : v.submitted.take (v.reported ++ [t.cookie]).length = v.done ++ [t] := by
    rw [length_append, length_singleton, htake]
    rfl
  have hrest : v.submitted.drop (v.reported ++ [t.cookie]).length = rest := by
    rw [length_append, length_singleton, hdrop]
  exact
    { reported := by
        rw [TxView.done, hdone, map_append, ← h.reported]
        rfl
      called := by
        rw [TxView.done, hdone, filterMap_append, ← h.called]
        cases hcallback : t.callback <;> simp [hcallback]
      completed := by simp
      done_lt := by
        rw [TxView.done, hdone]
        intro t' ht'
        rcases mem_append.mp ht' with ht' | ht'
        · exact Nat.lt_succ_of_lt (h.done_lt t' ht')
        · rw [mem_singleton.mp ht', hlast]
          exact Nat.lt_succ_self _
      -- the transaction that is reported is the first of those pending
      marks := by
        rw [TxView.pending, hrest]
        have hmarks := h.marks
        rw [hpending, map_cons, mark, hlast] at hmarks
        exact hmarks.take
      pending_lt := by
        rw [TxView.pending, hrest]
        intro t' ht'
        apply h.pending_lt t'
        rw [hpending]
        exact mem_cons_of_mem _ ht'
      cookies := h.cookies }

end TxInv

end Vcass.PlxDma
