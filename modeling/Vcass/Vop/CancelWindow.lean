import Vcass.Vop.CancelRing
import Vcass.Core.Ring
import Mathlib.Data.List.Nodup
import Mathlib.Data.List.Perm.Subperm

/-!
# The Unfetched Chains of a Ring with Cancellation

The slots between the fetcher and the poster hold the chains that were put and not fetched, in order,
with the heads under which they were put (`WindowOk`).  This needs the promise of the queue only
(`QueueOk`): heads are unlike while they are outstanding, and the chains fit into the ring.  What the
canceller does to the flags has no influence, and neither has the time at which the slots of fetched
chains are given back.

A get that finds the ring nonempty takes what is left of one chain: both slots, or the second one when
only the first was skipped (`fetch_eq`).
-/

namespace Vcass.Vop

open Vcass.Core Function List CancelRing

/-- The size of a ring: a positive, even number of slots (all powers of two from 2 on are). -/
structure EvenSize (num : Nat) : Prop where
  pos : 0 < num
  even : 2 ∣ num

/-! ## What the window reads -/

/-- The part of the state that the window is about -/
structure WindowView where
  chainAt : Nat → Option Nat
  headAt : Nat → Nat
  putCnt : Nat
  cnt : Nat
  lastCnt : Nat
  heads : List Nat
  published : Nat
  passed : Nat
  outstanding : List Nat
  items : List (Option Nat)
  usedRing : List Nat

def CancelRing.window (s : CancelRing) : WindowView where
  chainAt j := (s.buf j).chain
  headAt j := (s.buf j).head
  putCnt := s.putCnt
  cnt := s.cnt
  lastCnt := s.lastCnt
  heads := s.heads
  published := s.published
  passed := s.passed
  outstanding := s.outstanding
  items := s.items.map (·.chain)
  usedRing := s.usedRing

/-- **The window of the unfetched chains** -/
structure WindowOk (num : Nat) (v : WindowView) : Prop where
  putCnt : v.putCnt = 2 * v.heads.length % (2 * num)
  cnt : v.cnt = 2 * v.published % (2 * num)
  lastCnt : v.lastCnt = v.passed % (2 * num)
  passed_le : v.passed ≤ 2 * v.published
  published_le : v.published ≤ v.heads.length
  fits : 2 * v.heads.length ≤ v.passed + num
  chain : ∀ i, v.passed ≤ i → i < 2 * v.heads.length → v.chainAt (i % num) = some (i / 2)
  head : ∀ i, v.passed ≤ i → i < 2 * v.heads.length → v.heads[i / 2]? = some (v.headAt (i % num))
  /-- a chain with an unfetched slot is outstanding -/
  outstanding : ∀ k, v.passed ≤ 2 * k + 1 → k < v.heads.length → k ∈ v.outstanding
  distinct : ∀ k l, v.passed ≤ 2 * k + 1 → k < l → l < v.heads.length → v.heads[k]? ≠ v.heads[l]?
  /-- a fetched chain has no unfetched slot -/
  items : ∀ k, some k ∈ v.items → 2 * k + 1 < v.passed
  usedRing : ∀ k ∈ v.usedRing, 2 * k + 1 < v.passed

theorem CancelRing.put_buf_of_ne {num : Nat} {s : CancelRing} {head j : Nat}
    (hne : j ≠ kvecCounterToIdx s.putCnt num)
    (hne' : j ≠ kvecCounterToIdx s.putCnt num + 1) : (s.put num head).buf j = s.buf j := by
  simp only [put, update_of_ne hne', update_of_ne hne]

theorem CancelRing.put_buf_new {num : Nat} {s : CancelRing} {head j : Nat}
    (hj : j = kvecCounterToIdx s.putCnt num ∨ j = kvecCounterToIdx s.putCnt num + 1) :
    (s.put num head).buf j = ⟨head, false, false, some s.heads.length⟩ := by
  simp only [put]
  rcases hj with rfl | rfl
  · rw [update_of_ne (by omega), update_self]
  · rw [update_self]

theorem WindowOk.initial (num : Nat) : WindowOk num CancelRing.initial.window where
  putCnt := by simp [CancelRing.window, CancelRing.initial]
  cnt := by simp [CancelRing.window, CancelRing.initial]
  lastCnt := by simp [CancelRing.window, CancelRing.initial]
  passed_le := Nat.le_refl _
  published_le := Nat.le_refl _
  fits := Nat.zero_le _
  chain _ _ hi := absurd hi (Nat.not_lt_zero _)
  head _ _ hi := absurd hi (Nat.not_lt_zero _)
  outstanding _ _ hk := absurd hk (Nat.not_lt_zero _)
  distinct _ _ _ _ hl := absurd hl (Nat.not_lt_zero _)
  items _ hk := absurd hk not_mem_nil
  usedRing _ hk := absurd hk not_mem_nil

namespace WindowOk

variable {num : Nat} {s : CancelRing}

/-! ## The poster -/

section

variable (hnum : EvenSize num) (h : WindowOk num s.window)

include h

theorem bounds : s.passed ≤ 2 * s.published ∧ s.published ≤ s.heads.length ∧
    2 * s.heads.length ≤ s.passed + num :=
  ⟨h.passed_le, h.published_le, h.fits⟩

theorem chain_at {i : Nat} (hi : s.passed ≤ i) (hlt : i < 2 * s.heads.length) :
    (s.buf (i % num)).chain = some (i / 2) :=
  h.chain i hi hlt

theorem unfetched_le : s.heads.length ≤ s.passed / 2 + s.outstanding.length := by
  have hsub : (List.range' (s.passed / 2) (s.heads.length - s.passed / 2)) ⊆ s.outstanding := by
    intro k hk
    obtain ⟨hle, hlt⟩ := mem_range'_1.mp hk
    have hpassed : s.passed ≤ 2 * k + 1 := by omega
    have hk : k < s.heads.length := by omega
    exact h.outstanding k hpassed hk
  have hlen := (subperm_of_subset nodup_range' hsub).length_le
  rw [length_range'] at hlen
  omega

theorem publish : WindowOk num s.publish.window :=
  { h with
    cnt := h.putCnt
    passed_le := Nat.le_trans h.passed_le (Nat.mul_le_mul_left 2 h.published_le)
    published_le := Nat.le_refl _ }

theorem consume {k : Nat} {rest : List Nat} (hused : s.usedRing = k :: rest) :
    WindowOk num { s with usedRing := rest, outstanding := s.outstanding.erase k }.window := by
  have hpassed : ∀ l ∈ k :: rest, 2 * l + 1 < s.passed := by
    intro l hl
    exact h.usedRing l (by simpa only [window, hused] using hl)
  refine { h with outstanding := ?_, usedRing := fun l hl => hpassed l (mem_cons_of_mem _ hl) }
  intro l hle hlt
  have hne : l ≠ k := by
    rintro rfl
    exact not_lt.mpr hle (hpassed l mem_cons_self)
  exact (mem_erase_of_ne hne).mpr (h.outstanding l hle hlt)

include hnum

theorem put_idx :
    kvecCounterToIdx s.putCnt num = 2 * s.heads.length % num ∧
      kvecCounterToIdx s.putCnt num + 1 = (2 * s.heads.length + 1) % num := by
  have hcnt : s.putCnt = 2 * s.heads.length % (2 * num) := h.putCnt
  have hidx : kvecCounterToIdx s.putCnt num = 2 * s.heads.length % num := by
    rw [kvecCounterToIdx, hcnt, counter_mod_slot]
  refine ⟨hidx, ?_⟩
  obtain ⟨n, rfl⟩ := hnum.even
  have hpos := hnum.pos
  -- the number of slots is even, so that the two slots of a chain are not split
  rw [hidx, Nat.mul_mod_mul_left]
  have hlt : s.heads.length % n < n := Nat.mod_lt _ (by omega)
  have hmod : (2 * s.heads.length + 1) % (2 * n) = 2 * (s.heads.length % n) + 1 := by
    rw [Nat.add_mod, Nat.mul_mod_mul_left, Nat.mod_eq_of_lt (a := 1) (by omega)]
    exact Nat.mod_eq_of_lt (by omega)
  exact hmod.symm

theorem put_buf {head : Nat} {s' : CancelRing} (hguard : QueueOk num s (.put head) s') {i : Nat}
    (hi : s.passed ≤ i) (hlt : i < 2 * (s.put num head).heads.length) :
    i < 2 * s.heads.length ∧ (s.put num head).buf (i % num) = s.buf (i % num) ∨
      i / 2 = s.heads.length ∧
        (s.put num head).buf (i % num) = ⟨head, false, false, some s.heads.length⟩ := by
  have hcount := h.unfetched_le
  have hroom := hguard.2
  obtain ⟨hidx, hnext⟩ := h.put_idx hnum
  have hlen : (s.put num head).heads.length = s.heads.length + 1 := by simp [put]
  by_cases hold : i < 2 * s.heads.length
  · -- the slots of an unfetched chain are less than a round behind those of the new one
    refine .inl ⟨hold, put_buf_of_ne ?_ ?_⟩
    · rw [hidx]
      exact slot_ne hold (by omega)
    · rw [hnext]
      exact slot_ne (by omega) (by omega)
  · refine .inr ⟨by omega, put_buf_new ?_⟩
    rw [hnext, hidx]
    -- what is left are the two new slots
    obtain rfl | rfl : i = 2 * s.heads.length ∨ i = 2 * s.heads.length + 1 := by omega
    · exact .inl rfl
    · exact .inr rfl

/-- **A put under the promise of the queue** -/
theorem put {head : Nat} {s' : CancelRing} (hguard : QueueOk num s (.put head) s') :
    WindowOk num (s.put num head).window := by
  have hcount := h.unfetched_le
  have hroom := hguard.2
  obtain ⟨hpassed, hpub, -⟩ := h.bounds
  have hlen : (s.put num head).heads.length = s.heads.length + 1 := by simp [CancelRing.put]
  constructor
  · have hcnt : s.putCnt = 2 * s.heads.length % (2 * num) := h.putCnt
    simp only [window, hlen]
    simp only [CancelRing.put, kvecCounterAdd]
    rw [hcnt, Nat.mod_add_mod]
    congr 1
  · exact h.cnt
  · exact h.lastCnt
  · exact h.passed_le
  · simp only [window, hlen]
    exact Nat.le_succ_of_le hpub
  · simp only [window, hlen]
    simp only [CancelRing.put]
    omega
  · -- the chain and the head of a slot, old or new
    intro i hle hlt
    simp only [window]
    rcases h.put_buf hnum hguard hle hlt with ⟨hi, hold⟩ | ⟨hk, hnew⟩
    · rw [hold]
      exact h.chain i hle hi
    · rw [hnew, hk]
  · intro i hle hlt
    simp only [window]
    rcases h.put_buf hnum hguard hle hlt with ⟨hi, hold⟩ | ⟨hk, hnew⟩
    · rw [hold]
      simp only [CancelRing.put]
      rw [List.getElem?_append_left (by omega)]
      exact h.head i hle hi
    · rw [hnew, hk]
      simp [CancelRing.put]
  · -- the head that is put becomes outstanding
    intro k hle hlt
    have hlt' : k < s.heads.length + 1 := hlen ▸ hlt
    rcases Nat.lt_succ_iff_lt_or_eq.mp hlt' with hk | rfl
    · exact mem_cons_of_mem _ (h.outstanding k hle hk)
    · exact mem_cons_self
  · -- the new head differs from the outstanding ones, as the vring promises
    intro k l hle hkl hlt
    have hlt' : l < s.heads.length + 1 := hlen ▸ hlt
    simp only [window, CancelRing.put]
    rcases Nat.lt_succ_iff_lt_or_eq.mp hlt' with hl | rfl
    · rw [List.getElem?_append_left (by omega), List.getElem?_append_left hl]
      exact h.distinct k l hle hkl hl
    · rw [List.getElem?_append_left hkl, List.getElem?_concat_length]
      exact hguard.1 k (h.outstanding k hle hkl)
  · exact h.items
  · exact h.usedRing

end

/-! ## The fetcher -/

section

variable (h : WindowOk num s.window)

include h

theorem fetcher_idx : kvecCounterToIdx s.lastCnt num = s.passed % num := by
  have hcnt : s.lastCnt = s.passed % (2 * num) := h.lastCnt
  rw [kvecCounterToIdx, hcnt, counter_mod_slot]

theorem empty_iff : s.lastCnt = s.cnt ↔ s.passed = 2 * s.published := by
  obtain ⟨hle, hpub, hfits⟩ := h.bounds
  have hlast : s.lastCnt = s.passed % (2 * num) := h.lastCnt
  have hcnt : s.cnt = 2 * s.published % (2 * num) := h.cnt
  rw [hlast, hcnt]
  by_cases hnum : 0 < num
  · exact counter_eq_iff hle (by omega)
  · constructor
    · intro _
      omega
    · intro heq
      rw [heq]

theorem passed_lt (hne : s.lastCnt ≠ s.cnt) : s.passed < 2 * s.published :=
  lt_of_le_of_ne h.passed_le fun heq => hne (h.empty_iff.mpr heq)

/-- The heads of the slots may be cleared up to the new position of the fetcher, and the flags do not
matter. -/
theorem advance {s' : CancelRing} (next : Nat) (hle : s.passed ≤ next)
    (hpub : next ≤ 2 * s.published) (hlast : s'.lastCnt = next % (2 * num))
    (hbuf : ∀ i, next ≤ i → i < 2 * s.heads.length →
      (s'.buf (i % num)).chain = (s.buf (i % num)).chain ∧
        (s'.buf (i % num)).head = (s.buf (i % num)).head)
    (hitems : ∀ k, some k ∈ s'.items.map (·.chain) →
      some k ∈ s.items.map (·.chain) ∨ 2 * k + 1 < next)
    (hrest : s'.window =
      { s.window with
        chainAt := s'.window.chainAt
        headAt := s'.window.headAt
        lastCnt := s'.lastCnt
        passed := next
        items := s'.window.items }) :
    WindowOk num s'.window := by
  rw [hrest]
  constructor
  · exact h.putCnt
  · exact h.cnt
  · exact hlast
  · exact hpub
  · exact h.published_le
  · -- the fetcher moves on, so that there is only more room
    exact Nat.le_trans h.fits (Nat.add_le_add_right hle num)
  · intro i hi hlt
    exact (hbuf i hi hlt).1.trans (h.chain i (Nat.le_trans hle hi) hlt)
  · intro i hi hlt
    have hhead := h.head i (Nat.le_trans hle hi) hlt
    simp only [window] at hhead ⊢
    rw [(hbuf i hi hlt).2]
    exact hhead
  · intro k hk
    exact h.outstanding k (Nat.le_trans hle hk)
  · intro k l hk
    exact h.distinct k l (Nat.le_trans hle hk)
  · intro k hk
    rcases hitems k hk with hold | hnew
    · exact Nat.lt_of_lt_of_le (h.items k hold) hle
    · exact hnew
  · intro k hk
    exact Nat.lt_of_lt_of_le (h.usedRing k hk) hle

theorem skip_eq (hne : s.lastCnt ≠ s.cnt)
    (hmark : (s.buf (kvecCounterToIdx s.lastCnt num)).cancelled = true) :
    s.skip num =
      { s.setSlot (s.passed % num)
          { s.buf (s.passed % num) with head := 0, inUse := false, cancelled := false } with
        lastCnt := kvecCounterAdd s.lastCnt 1 num
        passed := s.passed + 1
        skipped := s.skipped ++ [s.passed / 2] } := by
  obtain ⟨-, hpub, -⟩ := h.bounds
  have hlt := h.passed_lt hne
  -- the slot at the counter has a chain, which the history of skipped chains gets
  have hchain := h.chain_at (le_refl _) (by omega : s.passed < 2 * s.heads.length)
  unfold skip
  rw [h.fetcher_idx] at hmark ⊢
  simp only [if_pos (And.intro hne hmark), hchain, Option.toList_some]

theorem skip (hne : s.lastCnt ≠ s.cnt)
    (hmark : (s.buf (kvecCounterToIdx s.lastCnt num)).cancelled = true) :
    WindowOk num (s.skip num).window := by
  rw [h.skip_eq hne hmark]
  obtain ⟨-, -, hfits⟩ := h.bounds
  have hlast : s.lastCnt = s.passed % (2 * num) := h.lastCnt
  apply h.advance (s.passed + 1) (Nat.le_succ _) (h.passed_lt hne)
  · simp only [kvecCounterAdd]
    rw [hlast, Nat.mod_add_mod]
  · intro i hle hlt
    -- only the slot behind the fetcher has changed
    have hslot : i % num ≠ s.passed % num := (slot_ne (by omega) (by omega)).symm
    simp only [setSlot, update_of_ne hslot]
    exact ⟨trivial, trivial⟩
  · intro k hk
    exact .inl hk
  · rfl

theorem head_injective {i j : Nat} (hi : s.passed ≤ i) (hij : i / 2 < j / 2)
    (hj : j < 2 * s.heads.length) : (s.buf (i % num)).head ≠ (s.buf (j % num)).head := by
  have hpast : s.passed ≤ 2 * (i / 2) + 1 := by omega
  have hlast : j / 2 < s.heads.length := by omega
  have hheadi := h.head i hi (by omega : i < 2 * s.heads.length)
  have hheadj := h.head j (by omega : s.passed ≤ j) hj
  intro heq
  apply h.distinct (i / 2) (j / 2) hpast hij hlast
  rw [hheadi, hheadj]
  exact congrArg some heq

theorem head_eq {i j : Nat} (hi : s.passed ≤ i) (hij : i / 2 = j / 2) (hj : s.passed ≤ j)
    (hlt : i < 2 * s.heads.length) : (s.buf (i % num)).head = (s.buf (j % num)).head := by
  have hheadi := h.head i hi hlt
  have hheadj := h.head j hj (by omega : j < 2 * s.heads.length)
  rw [hij] at hheadi
  exact Option.some.inj (hheadi.symm.trans hheadj)

theorem counterEq_iff {cnt : Nat} (hle : s.passed + cnt ≤ 2 * s.published) (hnum : 0 < num) :
    kvecCounterEq (s.lastCnt + cnt) s.cnt num ↔ s.passed + cnt = 2 * s.published := by
  obtain ⟨-, hpub, hfits⟩ := h.bounds
  have hlast : s.lastCnt = s.passed % (2 * num) := h.lastCnt
  have hcnt : s.cnt = 2 * s.published % (2 * num) := h.cnt
  unfold kvecCounterEq
  rw [hlast, hcnt, Nat.mod_add_mod, Nat.mod_mod]
  exact counter_eq_iff hle (by omega)

end

/-- The slots that a get takes: what is left of a chain -/
def takes (s : CancelRing) : Nat := 2 - s.passed % 2

/-- The heads that a get clears -/
def cleared (num : Nat) (s : CancelRing) : Nat → CancelSlot :=
  let buf := Function.update s.buf (s.passed % num) { s.buf (s.passed % num) with head := 0 }
  if s.passed % 2 = 0 then
    Function.update buf ((s.passed + 1) % num) { buf ((s.passed + 1) % num) with head := 0 }
  else
    buf

theorem adjacent_stop (hnum : EvenSize num) (h : WindowOk num s.window) (buf : Nat → CancelSlot)
    (cnt fuel : Nat) (hend : (s.passed + cnt) % 2 = 0) (hcnt : 0 < cnt) (hle : cnt ≤ 2)
    (hpub : s.passed + cnt ≤ 2 * s.published)
    (hbuf : s.passed + cnt < 2 * s.published → cnt < num →
      (buf ((s.passed + cnt) % num)).head = (s.buf ((s.passed + cnt) % num)).head) :
    adjacent num s.lastCnt s.cnt (s.buf (s.passed % num)).head (fuel + 1) buf cnt
      ((s.passed + cnt) % num) = (buf, cnt) := by
  rw [adjacent, if_neg]
  rintro ⟨hmore, hhead, hlt⟩
  -- a third slot would belong to the next chain, which has another head
  rw [h.counterEq_iff hpub hnum.pos] at hmore
  obtain ⟨-, hpublished, -⟩ := h.bounds
  rw [hbuf (by omega) hlt] at hhead
  exact h.head_injective (le_refl _) (by omega) (by omega) hhead

/-- **A get takes what is left of one chain.** -/
theorem adjacent_eq (hnum : EvenSize num) (h : WindowOk num s.window)
    (hne : s.passed < 2 * s.published) :
    adjacent num s.lastCnt s.cnt (s.buf (s.passed % num)).head num
      (update s.buf (s.passed % num) { s.buf (s.passed % num) with head := 0 }) 1
      ((s.passed + 1) % num) = (cleared num s, takes s) := by
  obtain ⟨n, hn⟩ := hnum.even
  have hpos := hnum.pos
  obtain ⟨hle, hpublished, hfits⟩ := h.bounds
  have hfirst : ∀ i, s.passed < i → i < s.passed + num → i % num ≠ s.passed % num :=
    fun i hlt hnear => (slot_ne hlt hnear).symm
  obtain ⟨fuel, hfuel⟩ : ∃ fuel, num = fuel + 2 := ⟨num - 2, by omega⟩
  rw [show adjacent num s.lastCnt s.cnt (s.buf (s.passed % num)).head num =
    adjacent num s.lastCnt s.cnt (s.buf (s.passed % num)).head (fuel + 2) by rw [← hfuel]]
  by_cases heven : s.passed % 2 = 0
  · -- both slots are there, and the next one belongs to another chain
    have hsecond : (s.passed + 1) % num ≠ s.passed % num := hfirst _ (by omega) (by omega)
    rw [adjacent, if_pos]
    · have hidx : kvecCounterToIdx ((s.passed + 1) % num + 1) num = (s.passed + 2) % num := by
        rw [kvecCounterToIdx, Nat.mod_add_mod]
      rw [hidx]
      have hstop := adjacent_stop hnum h (cleared num s) 2 fuel (by omega)
        (by omega) (by omega) (by omega) (by
          intro hlt hroom
          have hne1 : (s.passed + 2) % num ≠ (s.passed + 1) % num :=
            (slot_ne (by omega) (by omega)).symm
          have hne0 : (s.passed + 2) % num ≠ s.passed % num := hfirst _ (by omega) (by omega)
          simp only [cleared, if_pos heven]
          rw [update_of_ne hne1, update_of_ne hne0])
      simp only [cleared, if_pos heven, takes] at hstop ⊢
      rw [hstop, heven]
    · refine ⟨?_, ?_, by omega⟩
      · rw [h.counterEq_iff (by omega) hpos]
        omega
      · rw [update_of_ne hsecond]
        exact h.head_eq (le_refl _) (by omega) (by omega) (by omega)
  · have hstop := adjacent_stop hnum h (cleared num s) 1 (fuel + 1)
      (by omega) (by omega) (by omega) (by omega) (by
        intro hlt hroom
        have hne0 : (s.passed + 1) % num ≠ s.passed % num := hfirst _ (by omega) (by omega)
        simp only [cleared, if_neg heven]
        rw [update_of_ne hne0])
    have hodd : s.passed % 2 = 1 := by omega
    simp only [cleared, takes, hodd] at hstop ⊢
    exact hstop

theorem cleared_frame (num : Nat) (s : CancelRing) (j : Nat) :
    cleared num s j = { s.buf j with head := (cleared num s j).head } := by
  unfold cleared
  simp only
  split
  · -- at most two slots are written, and each of them loses its head only
    by_cases hj : j = (s.passed + 1) % num
    · subst hj
      rw [update_self]
      by_cases hfirst : (s.passed + 1) % num = s.passed % num
      · rw [hfirst, update_self]
      · rw [update_of_ne hfirst]
    · rw [update_of_ne hj]
      by_cases hfirst : j = s.passed % num
      · subst hfirst
        rw [update_self]
      · rw [update_of_ne hfirst]
  · by_cases hfirst : j = s.passed % num
    · subst hfirst
      rw [update_self]
    · rw [update_of_ne hfirst]

theorem cleared_of_ne {num : Nat} {s : CancelRing} {j : Nat} (hfirst : j ≠ s.passed % num)
    (hsecond : s.passed % 2 = 0 → j ≠ (s.passed + 1) % num) : cleared num s j = s.buf j := by
  unfold cleared
  simp only
  split
  case isTrue heven => rw [update_of_ne (hsecond heven), update_of_ne hfirst]
  case isFalse => rw [update_of_ne hfirst]

theorem fetch_eq (hnum : EvenSize num) (h : WindowOk num s.window)
    (hne : s.passed < 2 * s.published) :
    s.fetch num =
      { s with
        buf := update (cleared num s) (s.passed % num)
          { cleared num s (s.passed % num) with inUse := true, cancelled := false }
        lastCnt := kvecCounterAdd s.lastCnt (takes s) num
        passed := s.passed + takes s
        fetcher := .idle
        items := s.items ++ [⟨some (s.passed / 2), s.passed % num, takes s, .fetched⟩] } := by
  have hfirst : s.lastCnt % num = s.passed % num := h.fetcher_idx
  have hsecond : kvecCounterToIdx (s.lastCnt + 1) num = (s.passed + 1) % num := by
    have hlast : s.lastCnt = s.passed % (2 * num) := h.lastCnt
    rw [kvecCounterToIdx, hlast, Nat.add_mod, counter_mod_slot, ← Nat.add_mod]
  obtain ⟨-, hpub, -⟩ := h.bounds
  -- the item remembers the chain of its first slot
  have hchain := h.chain_at (le_refl _) (by omega : s.passed < 2 * s.heads.length)
  unfold fetch
  simp only [hfirst, hsecond, adjacent_eq hnum h hne]
  rw [hchain]

/-- **A get under the promise of the queue** -/
theorem fetch (hnum : EvenSize num) (h : WindowOk num s.window)
    (hne : s.passed < 2 * s.published) : WindowOk num (s.fetch num).window := by
  rw [fetch_eq hnum h hne]
  obtain ⟨hle, hpublished, hfits⟩ := h.bounds
  have hlast : s.lastCnt = s.passed % (2 * num) := h.lastCnt
  have htakes : takes s = 2 - s.passed % 2 := rfl
  apply h.advance (s.passed + takes s) (Nat.le_add_right _ _) (by omega)
  · simp only [kvecCounterAdd]
    rw [hlast, Nat.mod_add_mod]
  · intro i hi hlt
    have hfirst : i % num ≠ s.passed % num := (slot_ne (by omega) (by omega)).symm
    -- a chain of which one slot was skipped has a single slot left
    have hsecond : s.passed % 2 = 0 → i % num ≠ (s.passed + 1) % num :=
      fun heven => (slot_ne (by omega) (by omega)).symm
    simp only [update_of_ne hfirst, cleared_of_ne hfirst hsecond]
    exact ⟨trivial, trivial⟩
  · intro k hk
    simp only [map_append, map_cons, map_nil, mem_append, mem_singleton,
      Option.some.injEq] at hk
    rcases hk with hold | rfl
    · exact .inl hold
    · right
      omega
  · rfl

/-! ## The items and the canceller -/

theorem flags {s' : CancelRing} (h : WindowOk num s.window)
    (hbuf : ∀ j, (s'.buf j).chain = (s.buf j).chain ∧ (s'.buf j).head = (s.buf j).head)
    (hitems : ∀ k, some k ∈ s'.items.map (·.chain) → some k ∈ s.items.map (·.chain))
    (hused : ∀ k ∈ s'.usedRing, k ∈ s.usedRing ∨ 2 * k + 1 < s.passed)
    (hrest : s'.window =
      { s.window with
        chainAt := s'.window.chainAt
        headAt := s'.window.headAt
        items := s'.window.items
        usedRing := s'.usedRing }) :
    WindowOk num s'.window := by
  have hchainAt : s'.window.chainAt = s.window.chainAt := funext fun j => (hbuf j).1
  have hheadAt : s'.window.headAt = s.window.headAt := funext fun j => (hbuf j).2
  rw [hrest, hchainAt, hheadAt]
  refine { h with items := fun k hk => h.items k (hitems k hk), usedRing := ?_ }
  intro k hk
  rcases hused k hk with hold | hnew
  · exact h.usedRing k hold
  · exact hnew

theorem map_chain_set {items : List CancelItem} {i : Nat} {item : CancelItem} (phase : ItemPhase)
    (hget : items[i]? = some item) :
    (items.set i { item with phase := phase }).map (·.chain) = items.map (·.chain) := by
  obtain ⟨hi, rfl⟩ := List.getElem?_eq_some_iff.mp hget
  have hlt : i < (items.map (·.chain)).length := by
    rw [length_map]
    exact hi
  have hsame := set_getElem_self hlt
  rw [getElem_map] at hsame
  rw [map_set]
  exact hsame

theorem move (h : WindowOk num s.window) {i : Nat} {item : CancelItem} {phase : ItemPhase}
    {back : List Nat} (hget : s.items[i]? = some item) (hmoves : s.Moves item phase back) :
    WindowOk num { s with
      items := s.items.set i { item with phase := phase }, usedRing := s.usedRing ++ back }.window := by
  refine h.flags (fun _ => ⟨rfl, rfl⟩) ?_ ?_ rfl
  · intro k hk
    rwa [map_chain_set phase hget] at hk
  · intro k hk
    rcases mem_append.mp hk with hold | hnew
    · exact .inl hold
    · right
      apply h.items k
      exact mem_map.mpr ⟨item, mem_of_getElem? hget, hmoves.chain_eq k hnew⟩

end WindowOk

theorem cleared_slot (s : CancelRing) (slot j : Nat) :
    ((s.setSlot slot { s.buf slot with inUse := false, cancelled := false }).buf j).chain =
        (s.buf j).chain ∧
      ((s.setSlot slot { s.buf slot with inUse := false, cancelled := false }).buf j).head =
        (s.buf j).head := by
  by_cases hj : j = slot
  · subst hj
    simp [setSlot]
  · simp [setSlot, update_of_ne hj]

/-- What marking does to a slot: it leaves it alone, or marks it and the slot is the request or has the
head of the request. -/
theorem markLoop_slot (num head idxStart idxEnd fuel : Nat) (buf : Nat → CancelSlot) (idx j : Nat) :
    (markLoop num head idxStart idxEnd fuel buf idx).1 j = buf j ∨
      (buf j).head = head ∧
        (markLoop num head idxStart idxEnd fuel buf idx).1 j =
          { buf j with cancelled := true } := by
  induction fuel generalizing buf idx with
  | zero =>
    rw [markLoop]
    split <;> exact .inl rfl
  | succ fuel ih =>
    rw [markLoop]
    split
    case isFalse => exact .inl rfl
    case isTrue hmark =>
      -- the loop goes on with the slot marked, which does not change any head
      have hnext := ih (update buf idx { buf idx with cancelled := true })
        (kvecCounterToIdx (idx + 1) num)
      by_cases hj : j = idx
      · subst hj
        rw [update_self] at hnext
        rcases hnext with hsame | ⟨_, hmarked⟩
        · exact .inr ⟨hmark.1, hsame⟩
        · exact .inr ⟨hmark.1, hmarked⟩
      · rw [update_of_ne hj] at hnext
        exact hnext

theorem mark_slot (num : Nat) (s : CancelRing) (request idxStart idxEnd j : Nat) :
    (s.mark num request idxStart idxEnd).1 j = s.buf j ∧ j ≠ request ∨
      (j = request ∨ (s.buf j).head = (s.buf request).head) ∧
        (s.mark num request idxStart idxEnd).1 j = { s.buf j with cancelled := true } := by
  have hslot := markLoop_slot num (s.buf request).head idxStart idxEnd num
    (update s.buf request { s.buf request with cancelled := true })
    (kvecCounterToIdx (request + 1) num) j
  unfold mark
  by_cases hj : j = request
  · subst hj
    rw [update_self] at hslot
    rcases hslot with hsame | ⟨_, hmarked⟩
    · exact .inr ⟨.inl rfl, hsame⟩
    · exact .inr ⟨.inl rfl, hmarked⟩
  · rw [update_of_ne hj] at hslot
    rcases hslot with hsame | ⟨hhead, hmarked⟩
    · exact .inl ⟨hsame, hj⟩
    · exact .inr ⟨.inr hhead, hmarked⟩

theorem mark_frame (num : Nat) (s : CancelRing) (request idxStart idxEnd j : Nat) :
    (s.mark num request idxStart idxEnd).1 j =
      { s.buf j with cancelled := ((s.mark num request idxStart idxEnd).1 j).cancelled } := by
  rcases mark_slot num s request idxStart idxEnd j with ⟨heq, _⟩ | ⟨_, heq⟩ <;> rw [heq]

namespace WindowOk

variable {num : Nat} {s : CancelRing}

/-- **Every step under the promise of the queue keeps the window.** -/
theorem step {s' : CancelRing} {a : CancelAct} (hnum : EvenSize num) (h : WindowOk num s.window)
    (hphase : s.fetcher = .nonempty → s.passed < 2 * s.published) (hguard : QueueOk num s a s')
    (hstep : s.Step num a s') : WindowOk num s'.window := by
  cases hstep with
  | put head => exact h.put hnum hguard
  | publish => exact h.publish
  | consume used => exact h.consume used
  | skip _ more marked => exact h.skip more marked
  | fetch phase => exact h.fetch hnum (hphase phase)
  | move get moves => exact h.move get moves
  | @clear i ok item get _ =>
    -- clearing a slot and marking touch flags only
    refine h.flags (cleared_slot s item.slot) ?_ (fun k hk => .inl hk) rfl
    intro k hk
    obtain ⟨it, hit, hchain⟩ := mem_map.mp hk
    exact mem_map.mpr ⟨it, mem_of_mem_eraseIdx hit, hchain⟩
  | mark =>
    refine h.flags ?_ (fun k hk => hk) (fun k hk => .inl hk) rfl
    intro j
    simp only
    rw [mark_frame]
    exact ⟨rfl, rfl⟩
  | look | ask | waited => exact h

end WindowOk

/-! ## The window along a run -/

/-- The window, and what the fetcher has found out about it -/
structure QueueInv (num : Nat) (s : CancelRing) : Prop where
  window : WindowOk num s.window
  nonempty : s.fetcher = .nonempty → s.passed < 2 * s.published

theorem queueInv_initial (num : Nat) : QueueInv num .initial where
  window := .initial num
  nonempty h := nomatch h

/-- **The promise of the queue keeps the window.** -/
theorem QueueInv.step {num : Nat} {s s' : CancelRing} {a : CancelAct} (hnum : EvenSize num)
    (h : QueueInv num s) (hguard : QueueOk num s a s') (hstep : cancelStep num s a = some s') :
    QueueInv num s' := by
  have hcases := cancelStep_cases hstep
  refine ⟨h.window.step hnum h.nonempty hguard hcases, ?_⟩
  intro hphase
  cases hcases with
  | publish =>
    -- the fetcher has seen a published chain, and nobody else takes it
    have hless := h.nonempty hphase
    exact Nat.lt_of_lt_of_le hless (Nat.mul_le_mul_left 2 h.window.published_le)
  | look looks =>
    cases looks with
    | nonempty _ more => exact h.window.passed_lt more
    | start | stop | empty => cases hphase
  | skip phase more marked =>
    rw [h.window.skip_eq more marked] at hphase
    cases phase.symm.trans hphase
  | fetch phase =>
    rw [WindowOk.fetch_eq hnum h.window (h.nonempty phase)] at hphase
    cases hphase
  | put | consume | move | clear | ask | mark | waited => exact h.nonempty hphase

end Vcass.Vop
