import Vcass.Alut.Manager
import Mathlib.Data.Nat.Bitwise
import Mathlib.Tactic.Ring
import Mathlib.Tactic.Linarith
import Vcass.Core.Words

/-!
# Well-Formed A-LUT Tables

The shape that `plx_alm_check` describes: the table is a sequence of blocks and
free entries.  A block starts with the only entry of it that is counted, and the
entries behind that one carry nothing but the index of the first.

Each function of the manager gets one specification over this shape:

- `searchMatch_spec` — the search ends, and its match is a free run or a block
  that contains the range,
- `enterMatch_free_wellFormed` / `setCounter_wellFormed` — entering a match,
- `plxAlmDelEntry_eq` — dropping one use of a block,
- `cleanup_spec` — eviction removes exactly the blocks with a counter of one.
-/

namespace Vcass.Alut

open Vcass.Core PlxAlm Option

/-! ## Segment arithmetic -/

/-- What the driver guarantees about the sizes of a manager: at most 256 entries
(the hardware has no more) and an aperture that leaves room in 64 bits. -/
structure Config (m : PlxAlm) : Prop where
  pow : ∃ k, m.segmentSize = 2 ^ k
  num_le : m.segmentsNum ≤ 256
  span : (m.segmentsNum + 2) * m.segmentSize ≤ 2 ^ 64

/-- The part of `Config` that the shape of the table depends on: the segments may have any size. -/
structure Sized (m : PlxAlm) : Prop where
  size_pos : 0 < m.segmentSize
  num_le : m.segmentsNum ≤ 256
  span : (m.segmentsNum + 2) * m.segmentSize ≤ 2 ^ 64

/-- Every manager that `plx_alm_init` sets up for one or two NTBs, with segments of
a power of two, meets `Config`. -/
theorem plxAlmInit_config (numNtbs aperLen k : Nat) (hntbs : numNtbs = 1 ∨ numNtbs = 2)
    (haper : aperLen < 2 ^ 64) (hk : aperLen / (256 / numNtbs) = 2 ^ k) :
    Config (plxAlmInit numNtbs aperLen) := by
  have hnum : 256 / numNtbs = 256 ∨ 256 / numNtbs = 128 := by
    rcases hntbs with rfl | rfl <;> simp
  -- a power of two below another is at most half of it
  have hhalf : ∀ n, 2 ^ k < 2 ^ (n + 1) → 2 ^ k ≤ 2 ^ n := by
    intro n hlt
    have hle := Nat.lt_succ_iff.mp ((Nat.pow_lt_pow_iff_right (by decide)).mp hlt)
    exact Nat.pow_le_pow_right (by decide) hle
  have h55 := hhalf 55
  have h56 := hhalf 56
  refine ⟨⟨k, hk⟩, by simp only [plxAlmInit]; omega, ?_⟩
  simp only [plxAlmInit, hk]
  rcases hnum with h | h <;> rw [h] at hk ⊢ <;> omega

variable {m : PlxAlm}

namespace Config

theorem size_pos (h : Config m) : 0 < m.segmentSize := by
  obtain ⟨k, hk⟩ := h.pow
  rw [hk]
  exact Nat.two_pow_pos k

theorem size_dvd (h : Config m) : m.segmentSize ∣ 2 ^ 64 := by
  obtain ⟨k, hk⟩ := h.pow
  have hle : 2 ^ k ≤ 2 ^ 64 := by
    have := h.span
    rw [hk] at this
    exact le_trans (Nat.le_mul_of_pos_left _ (by omega)) this
  rw [hk]
  exact Nat.pow_dvd_pow 2 ((Nat.pow_le_pow_iff_right (by omega)).mp hle)

theorem sized (h : Config m) : Sized m := ⟨h.size_pos, h.num_le, h.span⟩

end Config

theorem Sized.aperture_lt (h : Sized m) : m.segmentsNum * m.segmentSize < 2 ^ 64 := by
  have := h.size_pos
  have := h.span
  nlinarith

theorem addrMasked_eq (h : Config m) {addr : Nat} (ha : addr < 2 ^ 64) :
    addrMasked m addr = addr / m.segmentSize * m.segmentSize := by
  obtain ⟨k, hk⟩ := h.pow
  have hle : k ≤ 64 := by
    have := h.size_dvd
    rw [hk] at this
    exact (Nat.pow_dvd_pow_iff_le_right (by omega)).mp this
  have hpos := Nat.two_pow_pos k
  have hmask : 2 ^ 64 - 1 - (2 ^ k - 1) = 2 ^ 64 - 2 ^ k := by omega
  rw [addrMasked, hk, hmask]
  exact and_high_mask ha hle

theorem offsetInSegment_eq (h : Config m) (addr : Nat) :
    offsetInSegment m addr = addr % m.segmentSize := by
  obtain ⟨k, hk⟩ := h.pow
  rw [offsetInSegment, hk, Nat.and_two_pow_sub_one_eq_mod]

/-- For a request that passes the size check nothing wraps, and `segments` is the
number of segments that the range touches. -/
theorem segmentsFor_eq (h : Config m) {addr size : Nat}
    (hsize : size ≤ m.segmentsNum * m.segmentSize) :
    segmentsFor m addr size =
      (addr % m.segmentSize + size + m.segmentSize - 1) / m.segmentSize := by
  have hpos := h.size_pos
  have hspan := h.span
  have hoff : addr % m.segmentSize < m.segmentSize := Nat.mod_lt _ hpos
  have hfit : addr % m.segmentSize + size + m.segmentSize - 1 < 2 ^ 64 := by
    have : (m.segmentsNum + 2) * m.segmentSize
        = m.segmentsNum * m.segmentSize + 2 * m.segmentSize := by ring
    omega
  have hsegs : (addr % m.segmentSize + size + m.segmentSize - 1) / m.segmentSize < 2 ^ 32 := by
    have hnum := h.num_le
    have hlt : (addr % m.segmentSize + size + m.segmentSize - 1) / m.segmentSize
        < m.segmentsNum + 2 := by
      rw [Nat.div_lt_iff_lt_mul hpos]
      have : (m.segmentsNum + 2) * m.segmentSize
          = m.segmentsNum * m.segmentSize + 2 * m.segmentSize := by ring
      omega
    omega
  have hsum : addr % m.segmentSize + size < 2 ^ 64 := by omega
  rw [segmentsFor, offsetInSegment_eq h, Nat.mod_eq_of_lt hsum, Nat.mod_eq_of_lt hfit,
    Nat.mod_eq_of_lt hsegs]

theorem segments_cover (off : Nat) {sz size : Nat} (hpos : 0 < sz) (hsize : 0 < size) :
    off + size ≤ (off + size + sz - 1) / sz * sz ∧
      (off + size + sz - 1) / sz * sz < off + size + sz ∧
      0 < (off + size + sz - 1) / sz := by
  have hdiv := Nat.div_add_mod (off + size + sz - 1) sz
  have hmod := Nat.mod_lt (off + size + sz - 1) hpos
  have hcomm : (off + size + sz - 1) / sz * sz = sz * ((off + size + sz - 1) / sz) :=
    mul_comm _ _
  refine ⟨by omega, by omega, ?_⟩
  exact Nat.div_pos (by omega) hpos

/-! ## Blocks and free entries -/

namespace PlxAlm

/-- Entry `j` lies inside the block of an earlier entry. -/
def Interior (m : PlxAlm) (j : Nat) : Prop :=
  ∃ i < j, (m.entries i).counter ≠ 0 ∧ j < i + (m.entries i).segmentsCount

/-- Entry `j` belongs to no block. -/
def Free (m : PlxAlm) (j : Nat) : Prop :=
  (m.entries j).counter = 0 ∧ ¬ m.Interior j

theorem not_free_of_block {i j : Nat} (hi : (m.entries i).counter ≠ 0) (hij : i ≤ j)
    (hj : j < i + (m.entries i).segmentsCount) : ¬ m.Free j := by
  rintro ⟨hc, hint⟩
  rcases eq_or_lt_of_le hij with rfl | hlt
  · exact hi hc
  · exact hint ⟨i, hlt, hi, hj⟩

theorem not_interior_succ {i : Nat} (hi : m.Free i) : ¬ m.Interior (i + 1) := by
  rintro ⟨h, hlt, hc, hin⟩
  rcases Nat.eq_or_lt_of_le (Nat.le_of_lt_succ hlt) with rfl | hlt'
  · exact hc hi.1
  · exact hi.2 ⟨h, hlt', hc, by omega⟩

/-- A table made of disjoint blocks and free, cleared entries. -/
structure WellFormed (m : PlxAlm) : Prop where
  /-- Nothing is counted outside the array -/
  inside : ∀ i, (m.entries i).counter ≠ 0 → i < m.segmentsNum
  /-- A block is not empty and ends inside the array -/
  bound : ∀ i, (m.entries i).counter ≠ 0 → 0 < (m.entries i).segmentsCount ∧
    i + (m.entries i).segmentsCount ≤ m.segmentsNum
  /-- The first entry of a block names itself -/
  start : ∀ i, (m.entries i).counter ≠ 0 → (m.entries i).start = i
  /-- The other entries of a block only name the first -/
  inner : ∀ i, (m.entries i).counter ≠ 0 → ∀ j, i < j →
    j < i + (m.entries i).segmentsCount → m.entries j = { start := i }
  /-- Everything else is cleared -/
  free : ∀ j, m.Free j → m.entries j = {}

theorem wellFormed_of_cleared (h : ∀ i, m.entries i = {}) : m.WellFormed where
  inside i hi := absurd (by rw [h i]) hi
  bound i hi := absurd (by rw [h i]) hi
  start i hi := absurd (by rw [h i]) hi
  inner i hi := absurd (by rw [h i]) hi
  free j _ := h j

namespace WellFormed

variable (wf : m.WellFormed)

include wf

theorem not_interior {i : Nat} (hi : (m.entries i).counter ≠ 0) : ¬ m.Interior i := by
  rintro ⟨h, hlt, hc, hin⟩
  exact hi (by rw [wf.inner h hc i hlt hin])

theorem start_of_block {i j : Nat} (hi : (m.entries i).counter ≠ 0) (hij : i ≤ j)
    (hj : j < i + (m.entries i).segmentsCount) : (m.entries j).start = i := by
  rcases eq_or_lt_of_le hij with rfl | hlt
  · exact wf.start i hi
  · rw [wf.inner i hi j hlt hj]

theorem block_unique {i i' j : Nat} (hi : (m.entries i).counter ≠ 0)
    (hi' : (m.entries i').counter ≠ 0) (hij : i ≤ j)
    (hj : j < i + (m.entries i).segmentsCount) (hij' : i' ≤ j)
    (hj' : j < i' + (m.entries i').segmentsCount) : i = i' := by
  rw [← wf.start_of_block hi hij hj, ← wf.start_of_block hi' hij' hj']

theorem not_interior_next {i : Nat} (hi : (m.entries i).counter ≠ 0) :
    ¬ m.Interior (i + (m.entries i).segmentsCount) := by
  rintro ⟨h, hlt, hc, hin⟩
  have hpos := (wf.bound i hi).1
  rcases Nat.lt_trichotomy h i with hh | rfl | hh
  · exact wf.not_interior hi ⟨h, hh, hc, by omega⟩
  · omega
  · exact hc (by rw [wf.inner i hi h hh hlt])

end WellFormed

end PlxAlm

/-! ## The search loop -/

/-- What a result of the search is good for: a run of free entries, or a block that
contains the `segments` segments from `masked` on. -/
def MatchOk (m : PlxAlm) (masked segments mtch idx : Nat) : Prop :=
  ((m.entries mtch).counter = 0 ∧ idx = 0 ∧ 0 < segments ∧ mtch + segments ≤ m.segmentsNum ∧
      ∀ j, mtch ≤ j → j < mtch + segments → m.Free j) ∨
    ((m.entries mtch).counter ≠ 0 ∧ (m.entries mtch).value ≤ masked ∧
      idx = (masked - (m.entries mtch).value) / m.segmentSize ∧
      idx + segments ≤ (m.entries mtch).segmentsCount)

/-- The loop invariant of the search at entry `i`. -/
structure SearchInv (m : PlxAlm) (segments i freeSlots : Nat) (mtch : Option Nat) : Prop where
  boundary : ¬ m.Interior i
  slots : mtch = none → freeSlots ≤ i ∧ ∀ j, i - freeSlots ≤ j → j < i → m.Free j
  run : ∀ k, mtch = some k → 0 < segments ∧ k + segments ≤ i ∧
    ∀ j, k ≤ j → j < k + segments → m.Free j

/-- From any point of the search that meets the loop invariant, the search ends and a
match it reports is good. -/
theorem searchMatch_spec_from (wf : m.WellFormed) (masked segments : Nat) :
    ∀ (fuel i freeSlots : Nat) (mtch : Option Nat),
      SearchInv m segments i freeSlots mtch → i ≤ m.segmentsNum → m.segmentsNum < i + fuel →
      ∃ r idx, searchMatch m masked segments fuel i freeSlots mtch = some (r, idx) ∧
        ∀ k, r = some k → MatchOk m masked segments k idx := by
  intro fuel
  induction fuel with
  | zero => intro i _ _ _ hi hf; omega
  | succ fuel ih =>
    intro i freeSlots mtch inv hi hf
    unfold searchMatch
    by_cases hlt : i < m.segmentsNum
    · simp only [hlt, if_true]
      by_cases hc : (m.entries i).counter = 0
      · simp only [hc, if_true]
        have hfree : m.Free i := ⟨hc, inv.boundary⟩
        cases mtch with
        | none =>
          -- the run of free entries that ends before `i` is one longer now
          obtain ⟨hle, hrun⟩ := inv.slots rfl
          have hrun' : ∀ j, i - freeSlots ≤ j → j < i + 1 → m.Free j := by
            intro j hj hj'
            rcases Nat.eq_or_lt_of_le (Nat.le_of_lt_succ hj') with rfl | hlt'
            · exact hfree
            · exact hrun j hj hlt'
          apply ih _ _ _ _ (by omega) (by omega)
          refine ⟨not_interior_succ hfree, ?_, ?_⟩
          · intro _
            exact ⟨by omega, fun j hj hj' => hrun' j (by omega) hj'⟩
          · intro k hk
            split at hk
            · cases hk
              exact ⟨by omega, by omega, fun j hj hj' => hrun' j (by omega) (by omega)⟩
            · cases hk
        | some k =>
          -- a run long enough is known already, and the search goes on for a containing block only
          obtain ⟨hpos, hle, hrun⟩ := inv.run k rfl
          apply ih _ _ _ _ (by omega) (by omega)
          refine ⟨not_interior_succ hfree, nofun, ?_⟩
          intro k' hk'
          cases hk'
          exact ⟨hpos, by omega, hrun⟩
      · simp only [hc, if_false]
        -- a block in use ends the run, and the search goes on behind it
        obtain ⟨hpos, hend⟩ := wf.bound i hc
        split
        · rename_i hin
          refine ⟨_, _, rfl, ?_⟩
          intro k hk
          cases hk
          exact Or.inr ⟨hc, hin.1, rfl, hin.2.2⟩
        · apply ih _ _ _ _ hend (by omega)
          refine ⟨wf.not_interior_next hc, ?_, ?_⟩
          · intro _
            exact ⟨by omega, fun j hj hj' => by omega⟩
          · intro k hk
            obtain ⟨hpos', hle, hrun⟩ := inv.run k hk
            exact ⟨hpos', by omega, hrun⟩
    · simp only [hlt, if_false]
      refine ⟨_, _, rfl, ?_⟩
      intro k hk
      obtain ⟨hpos, hle, hrun⟩ := inv.run k hk
      exact Or.inl ⟨(hrun k (by omega) (by omega)).1, rfl, hpos, by omega, hrun⟩

/-- **The search ends and finds what it says**: with the fuel that
`plxAlmAddEntryRec` gives it, the search of a well-formed table returns, and a match
is a run of free entries or a block that contains the range. -/
theorem searchMatch_spec (wf : m.WellFormed) (masked segments : Nat) :
    ∃ r idx, searchMatch m masked segments (m.segmentsNum + 1) 0 0 none = some (r, idx) ∧
      ∀ k, r = some k → MatchOk m masked segments k idx := by
  apply searchMatch_spec_from wf masked segments _ _ _ _ _ (by omega) (by omega)
  refine ⟨?_, ?_, nofun⟩
  · rintro ⟨i, hi, _⟩
    omega
  · intro _
    exact ⟨by omega, fun j _ hj => by omega⟩

/-! ## Entering a match -/

section

variable {masked segments k : Nat}

theorem enterMatch_free_entries (hc : (m.entries k).counter = 0) (hpos : 0 < segments)
    (hseg : segments < 2 ^ 16) (hk : k < 2 ^ 16) (j : Nat) :
    (enterMatch m masked segments k).1.entries j =
      if j = k then { value := masked, counter := 2, segmentsCount := segments, start := k }
      else if k < j ∧ j < k + segments then { m.entries j with start := k }
      else m.entries j := by
  simp only [enterMatch, hc, if_true, setEntry, Nat.mod_eq_of_lt hseg,
    Nat.mod_eq_of_lt hk]
  by_cases hj : j = k
  · subst hj
    simp [hpos]
  · have hle : (k ≤ j ∧ j < k + segments) ↔ (k < j ∧ j < k + segments) := by omega
    simp [hj, hle]

theorem enterMatch_free_rc (hc : (m.entries k).counter = 0) :
    (enterMatch m masked segments k).2 = 0 := by
  simp [enterMatch, hc]

@[simp]
theorem enterMatch_segmentsNum : (enterMatch m masked segments k).1.segmentsNum = m.segmentsNum := by
  rw [enterMatch]
  split <;> rfl

@[simp]
theorem enterMatch_segmentSize : (enterMatch m masked segments k).1.segmentSize = m.segmentSize := by
  rw [enterMatch]
  split <;> rfl

variable (masked) (wf : m.WellFormed) (hpos : 0 < segments) (hseg : segments < 2 ^ 16)
  (hk : k < 2 ^ 16) (hfree : ∀ j, k ≤ j → j < k + segments → m.Free j)

include wf hpos hseg hk hfree

theorem enterMatch_free_block :
    (enterMatch m masked segments k).1.entries k =
        { value := masked, counter := 2, segmentsCount := segments, start := k } ∧
      ∀ j, k < j → j < k + segments →
        (enterMatch m masked segments k).1.entries j = { start := k } := by
  have hc := (hfree k (by omega) (by omega)).1
  refine ⟨by simp [enterMatch_free_entries hc hpos hseg hk], ?_⟩
  intro j hj hj'
  have hne : j ≠ k := by omega
  rw [enterMatch_free_entries hc hpos hseg hk, if_neg hne, if_pos ⟨hj, hj'⟩,
    wf.free j (hfree j (by omega) hj')]

omit wf in
theorem enterMatch_free_other {j : Nat} (hj : j < k ∨ k + segments ≤ j) :
    (enterMatch m masked segments k).1.entries j = m.entries j := by
  have hc := (hfree k (by omega) (by omega)).1
  have hne : j ≠ k := by omega
  rw [enterMatch_free_entries hc hpos hseg hk, if_neg hne, if_neg (by omega)]

omit wf in
/-- An old block starts outside the new one. -/
theorem enterMatch_free_old {h : Nat} (hc : (m.entries h).counter ≠ 0) :
    (enterMatch m masked segments k).1.entries h = m.entries h := by
  apply enterMatch_free_other masked hpos hseg hk hfree
  by_contra hcon
  exact hc (hfree h (by omega) (by omega)).1

theorem enterMatch_free_counted {i : Nat}
    (hi : ((enterMatch m masked segments k).1.entries i).counter ≠ 0) :
    i = k ∨ ((i < k ∨ k + segments ≤ i) ∧ (m.entries i).counter ≠ 0 ∧
      (enterMatch m masked segments k).1.entries i = m.entries i) := by
  by_cases hik : i = k
  · exact Or.inl hik
  · by_cases hin : k < i ∧ i < k + segments
    · rw [(enterMatch_free_block masked wf hpos hseg hk hfree).2 i hin.1 hin.2] at hi
      exact absurd rfl hi
    · have hout : i < k ∨ k + segments ≤ i := by omega
      have heq := enterMatch_free_other masked hpos hseg hk hfree hout
      rw [heq] at hi
      exact Or.inr ⟨hout, hi, heq⟩

theorem enterMatch_free_wellFormed (hend : k + segments ≤ m.segmentsNum) :
    (enterMatch m masked segments k).1.WellFormed := by
  obtain ⟨hhead, hrest⟩ := enterMatch_free_block masked wf hpos hseg hk hfree
  have hcounted := @enterMatch_free_counted m masked segments k wf hpos hseg hk hfree
  refine ⟨?_, ?_, ?_, ?_, ?_⟩
  · intro i hi
    rw [enterMatch_segmentsNum]
    rcases hcounted hi with rfl | ⟨-, hi', -⟩
    · omega
    · exact wf.inside i hi'
  · intro i hi
    rw [enterMatch_segmentsNum]
    rcases hcounted hi with rfl | ⟨-, hi', heq⟩
    · rw [hhead]
      exact ⟨hpos, hend⟩
    · rw [heq]
      exact wf.bound i hi'
  · intro i hi
    rcases hcounted hi with rfl | ⟨-, hi', heq⟩
    · rw [hhead]
    · rw [heq]
      exact wf.start i hi'
  · intro i hi j hij hj
    rcases hcounted hi with rfl | ⟨hout, hi', heq⟩
    · rw [hhead] at hj
      exact hrest j hij hj
    · rw [heq] at hj
      have hnot : ¬ m.Free j := not_free_of_block hi' (le_of_lt hij) hj
      have hjout : j < k ∨ k + segments ≤ j := by
        by_contra hcon
        exact hnot (hfree j (by omega) (by omega))
      rw [enterMatch_free_other masked hpos hseg hk hfree hjout]
      exact wf.inner i hi' j hij hj
  · intro j hj
    have hjout : j < k ∨ k + segments ≤ j := by
      by_contra hcon
      refine not_free_of_block (i := k) (by simp [hhead]) (by omega) ?_ hj
      rw [hhead]
      show j < k + segments
      omega
    have heq := enterMatch_free_other masked hpos hseg hk hfree hjout
    rw [heq]
    refine wf.free j ⟨by rw [← heq]; exact hj.1, ?_⟩
    rintro ⟨i, hij, hi, hin⟩
    -- the block around `j` would also be a block of the new table
    have hieq := enterMatch_free_old masked hpos hseg hk hfree hi
    exact hj.2 ⟨i, hij, by rw [hieq]; exact hi, by rw [hieq]; exact hin⟩

end

/-! ## Counting uses of a block -/

theorem entries_setCounter (m : PlxAlm) (h c i : Nat) :
    (m.setEntry h { m.entries h with counter := c }).entries i =
      { m.entries i with counter := if i = h then c else (m.entries i).counter } := by
  by_cases hi : i = h
  · simp [setEntry, hi]
  · simp [setEntry, hi]

theorem counted_setCounter {h c : Nat} (hh : (m.entries h).counter ≠ 0) (hc : c ≠ 0)
    (i : Nat) : ((m.setEntry h { m.entries h with counter := c }).entries i).counter ≠ 0 ↔
      (m.entries i).counter ≠ 0 := by
  rw [entries_setCounter]
  dsimp only
  split
  · rename_i hi
    exact iff_of_true hc (hi ▸ hh)
  · rfl

theorem setCounter_wellFormed (wf : m.WellFormed) {h c : Nat}
    (hh : (m.entries h).counter ≠ 0) (hc : c ≠ 0) :
    (m.setEntry h { m.entries h with counter := c }).WellFormed := by
  have hcount := counted_setCounter hh hc
  refine ⟨?_, ?_, ?_, ?_, ?_⟩
  · intro i hi
    exact wf.inside i ((hcount i).mp hi)
  · intro i hi
    rw [entries_setCounter]
    exact wf.bound i ((hcount i).mp hi)
  · intro i hi
    rw [entries_setCounter]
    exact wf.start i ((hcount i).mp hi)
  · intro i hi j hij hj
    rw [entries_setCounter] at hj
    -- an entry inside a block has counter 0, and `h` has not
    have hj' := wf.inner i ((hcount i).mp hi) j hij hj
    have hne : j ≠ h := by
      rintro rfl
      exact hh (by rw [hj'])
    rw [entries_setCounter, if_neg hne, hj']
  · intro j hj
    have hne : j ≠ h := by
      rintro rfl
      exact (hcount j).mpr hh hj.1
    rw [entries_setCounter, if_neg hne]
    refine wf.free j ⟨by_contra fun hcon => (hcount j).mpr hcon hj.1, ?_⟩
    rintro ⟨i, hij, hi, hin⟩
    exact hj.2 ⟨i, hij, (hcount i).mpr hi, by rw [entries_setCounter]; exact hin⟩

theorem enterMatch_block {masked segments h : Nat}
    (hh : (m.entries h).counter ≠ 0) :
    enterMatch m masked segments h =
      (m.setEntry h { m.entries h with counter := ((m.entries h).counter + 1) % 2 ^ 16 },
        -eExist) := by
  simp [enterMatch, hh]

/-- `plx_alm_del_entry` on a segment of the block that starts at `h`. -/
theorem plxAlmDelEntry_eq (wf : m.WellFormed) {h j : Nat}
    (hh : (m.entries h).counter ≠ 0) (hj : h ≤ j)
    (hj' : j < h + (m.entries h).segmentsCount) :
    plxAlmDelEntry m j =
      if (m.entries h).counter = 1
      then some (m.clearEntries h (m.entries h).segmentsCount,
        some (h, (m.entries h).segmentsCount))
      else some (m.setEntry h { m.entries h with counter := (m.entries h).counter - 1 },
        none) := by
  have hone : (m.entries h).counter - 1 = 0 ↔ (m.entries h).counter = 1 := by omega
  simp only [plxAlmDelEntry, wf.start_of_block hh hj hj', hh, if_false, hone]

/-! ## Eviction -/

theorem clearBlock_wellFormed (wf : m.WellFormed) {h : Nat}
    (hh : (m.entries h).counter ≠ 0) :
    (m.clearEntries h (m.entries h).segmentsCount).WellFormed := by
  set m' := m.clearEntries h (m.entries h).segmentsCount with hm'
  have hval : ∀ i, m'.entries i =
      if h ≤ i ∧ i < h + (m.entries h).segmentsCount then {} else m.entries i := fun _ => rfl
  -- a block that is left is untouched, because blocks do not overlap
  have hkeep : ∀ i, (m'.entries i).counter ≠ 0 →
      (m.entries i).counter ≠ 0 ∧ m'.entries i = m.entries i ∧ i ≠ h := by
    intro i hi
    rw [hval] at hi ⊢
    split at hi
    · exact absurd rfl hi
    · rename_i hout
      have := (wf.bound h hh).1
      rw [if_neg hout]
      exact ⟨hi, rfl, by omega⟩
  refine ⟨?_, ?_, ?_, ?_, ?_⟩
  · intro i hi
    exact wf.inside i (hkeep i hi).1
  · intro i hi
    rw [(hkeep i hi).2.1]
    exact wf.bound i (hkeep i hi).1
  · intro i hi
    rw [(hkeep i hi).2.1]
    exact wf.start i (hkeep i hi).1
  · intro i hi j hij hj
    obtain ⟨hi', heq, hne⟩ := hkeep i hi
    rw [heq] at hj
    rw [hval, if_neg, wf.inner i hi' j hij hj]
    rintro ⟨h1, h2⟩
    exact hne (wf.block_unique hi' hh (le_of_lt hij) hj h1 h2)
  · intro j hj
    rw [hval]
    split
    · rfl
    · rename_i hout
      refine wf.free j ⟨?_, ?_⟩
      · have := hj.1
        rwa [hval, if_neg hout] at this
      · rintro ⟨i, hij, hi, hin⟩
        have hne : i ≠ h := by
          rintro rfl
          omega
        have hi' : m'.entries i = m.entries i := by
          rw [hval, if_neg]
          rintro ⟨h1, h2⟩
          exact hne (wf.block_unique hi hh (le_refl _) (by have := (wf.bound i hi).1; omega) h1 h2)
        exact hj.2 ⟨i, hij, by rw [hi']; exact hi, by rw [hi']; exact hin⟩

/-- `m'` is `m` after the eviction of some unused blocks. -/
structure Evicts (m m' : PlxAlm) : Prop where
  wellFormed : m'.WellFormed
  segmentsNum : m'.segmentsNum = m.segmentsNum
  segmentSize : m'.segmentSize = m.segmentSize
  /-- What is left is as it was -/
  kept : ∀ i, (m'.entries i).counter ≠ 0 → m'.entries i = m.entries i
  /-- A block in use is left -/
  used : ∀ i, 2 ≤ (m.entries i).counter → m'.entries i = m.entries i

theorem Evicts.refl (wf : m.WellFormed) : Evicts m m :=
  ⟨wf, rfl, rfl, fun _ _ => rfl, fun _ _ => rfl⟩

/-- One iteration of the eviction loop at entry `i`: it returns, evicts no block in use,
leaves no unused block at `i` and counts what it evicts. -/
theorem cleanupStep_spec {acc : PlxAlm × Nat} (hev : Evicts m acc.1) (i : Nat) :
    ∃ acc', cleanupStep acc i = some acc' ∧ Evicts m acc'.1 ∧
      (acc'.1.entries i).counter ≠ 1 ∧
      (∀ j, (acc'.1.entries j).counter = 1 → (acc.1.entries j).counter = 1) ∧
      (acc'.2 = 0 → acc.2 = 0 ∧ acc'.1 = acc.1) := by
  by_cases hone : (acc.1.entries i).counter = 1
  · have hne : (acc.1.entries i).counter ≠ 0 := by omega
    have hpos := (hev.wellFormed.bound i hne).1
    have hdel := plxAlmDelEntry_eq hev.wellFormed hne (le_refl i) (by omega)
    rw [if_pos hone] at hdel
    refine ⟨(acc.1.clearEntries i (acc.1.entries i).segmentsCount, acc.2 + 1), ?_, ?_, ?_, ?_, ?_⟩
    · simp [cleanupStep, hone, hdel]
    · refine ⟨clearBlock_wellFormed hev.wellFormed hne, hev.segmentsNum, hev.segmentSize, ?_, ?_⟩
      · intro j hj
        simp only [clearEntries] at hj ⊢
        split at hj
        · exact absurd rfl hj
        · rename_i hout
          rw [if_neg hout]
          exact hev.kept j hj
      · intro j hj
        simp only [clearEntries]
        -- a block in use is not the one at `i`, so it does not overlap with what is cleared
        have hjeq := hev.used j hj
        have hjne : (acc.1.entries j).counter ≠ 0 := by
          rw [hjeq]
          omega
        rw [if_neg, hjeq]
        rintro ⟨h1, h2⟩
        have hjpos := (hev.wellFormed.bound j hjne).1
        have hij := hev.wellFormed.block_unique hjne hne (le_refl j) (by omega) h1 h2
        subst hij
        rw [hjeq] at hone
        omega
    · simp only [clearEntries]
      rw [if_pos ⟨le_refl i, by omega⟩]
      decide
    · intro j hj
      simp only [clearEntries] at hj
      split at hj
      · cases hj
      · exact hj
    · intro h
      omega
  · refine ⟨acc, by simp [cleanupStep, hone], hev, hone, fun _ h => h, fun h => ⟨h, rfl⟩⟩

/-- **Eviction**: `plx_alm_cleanup_unused_entry` returns, keeps the table well-formed, leaves
every block in use and no other, and reports `0` only when it changed nothing. -/
theorem cleanup_spec (wf : m.WellFormed) :
    ∃ m' nums, plxAlmCleanupUnusedEntry m = some (m', nums) ∧ Evicts m m' ∧
      (∀ i, (m'.entries i).counter ≠ 1) ∧ (nums = 0 → m' = m) := by
  -- after `n` turns no unused block is left below `n`, and no new one has come up
  have hloop : ∀ n, ∃ acc, (List.range n).foldlM cleanupStep (m, 0) = some acc ∧
      Evicts m acc.1 ∧ (∀ i < n, (acc.1.entries i).counter ≠ 1) ∧ (acc.2 = 0 → acc.1 = m) := by
    intro n
    induction n with
    | zero => exact ⟨(m, 0), rfl, Evicts.refl wf, fun _ h => absurd h (by omega), fun _ => rfl⟩
    | succ n ih =>
      obtain ⟨acc, hrun, hev, hnone, hsame⟩ := ih
      obtain ⟨acc', hstep, hev', hn, hback, hzero⟩ := cleanupStep_spec hev n
      refine ⟨acc', ?_, hev', ?_, ?_⟩
      · rw [List.range_succ, List.foldlM_append, hrun]
        simp [hstep]
      · intro i hi hone
        rcases Nat.eq_or_lt_of_le (Nat.le_of_lt_succ hi) with rfl | hlt
        · exact hn hone
        · exact hnone i hlt (hback i hone)
      · intro h0
        obtain ⟨h1, h2⟩ := hzero h0
        rw [h2]
        exact hsame h1
  obtain ⟨acc, hrun, hev, hnone, hsame⟩ := hloop m.segmentsNum
  refine ⟨acc.1, acc.2, hrun, hev, ?_, hsame⟩
  intro i hone
  have hin := hev.wellFormed.inside i (by omega)
  rw [hev.segmentsNum] at hin
  exact hnone i hin hone

theorem cleanup_nothing (h : ∀ i, (m.entries i).counter ≠ 1) :
    plxAlmCleanupUnusedEntry m = some (m, 0) := by
  rw [plxAlmCleanupUnusedEntry]
  induction List.range m.segmentsNum with
  | nil => rfl
  | cons i is ih =>
    have hi : cleanupStep (m, 0) i = some (m, 0) := by simp [cleanupStep, h i]
    simp [List.foldlM_cons, hi, ih]

/-! ## Adding an entry -/

/-- The search of `plx_alm_add_entry` for a request -/
def searchFor (m : PlxAlm) (addr size : Nat) : Option (Option Nat × Nat) :=
  searchMatch m (addrMasked m addr) (segmentsFor m addr size) (m.segmentsNum + 1) 0 0 none

/-- Where `plx_alm_add_entry` finds its match, or that it finds none -/
inductive AddPath (m : PlxAlm) (addr size : Nat) : PlxAlm → AddResult → Prop where
  | badSize : size = 0 ∨ (m.segmentSize * m.segmentsNum) % 2 ^ 64 < size →
      AddPath m addr size m { rc := -eNoMem }
  /-- without an eviction -/
  | found {k idx : Nat} : ¬ (size = 0 ∨ (m.segmentSize * m.segmentsNum) % 2 ^ 64 < size) →
      searchFor m addr size = some (some k, idx) →
      AddPath m addr size (enterMatch m (addrMasked m addr) (segmentsFor m addr size) k).1
        { rc := (enterMatch m (addrMasked m addr) (segmentsFor m addr size) k).2,
          segmentId := (k + idx) % 2 ^ 32, segmentsNum := segmentsFor m addr size }
  /-- after the eviction that leaves `m₁` -/
  | evicted {m₁ : PlxAlm} {nums k idx idx' : Nat} :
      ¬ (size = 0 ∨ (m.segmentSize * m.segmentsNum) % 2 ^ 64 < size) →
      searchFor m addr size = some (none, idx') → plxAlmCleanupUnusedEntry m = some (m₁, nums) →
      searchFor m₁ addr size = some (some k, idx) →
      AddPath m addr size (enterMatch m₁ (addrMasked m addr) (segmentsFor m addr size) k).1
        { rc := (enterMatch m₁ (addrMasked m addr) (segmentsFor m addr size) k).2,
          segmentId := (k + idx) % 2 ^ 32, segmentsNum := segmentsFor m addr size }
  /-- no room even after the eviction that leaves `m₁` -/
  | noRoom {m₁ : PlxAlm} {nums idx' : Nat} :
      ¬ (size = 0 ∨ (m.segmentSize * m.segmentsNum) % 2 ^ 64 < size) →
      searchFor m addr size = some (none, idx') → plxAlmCleanupUnusedEntry m = some (m₁, nums) →
      (∀ k idx, searchFor m₁ addr size ≠ some (some k, idx)) →
      AddPath m addr size m₁ { rc := -eNoMem }

/-- The three ways in which `plx_alm_add_entry` ends, after the eviction of unused blocks
has turned `m` into `m₁`. -/
inductive AddOutcome (m : PlxAlm) (addr size : Nat) : PlxAlm → AddResult → Prop where
  /-- Refused: a bad size, or no room -/
  | refused {m₁ : PlxAlm} : Evicts m m₁ → AddOutcome m addr size m₁ { rc := -eNoMem }
  /-- A new block at a run of free entries -/
  | created {m₁ : PlxAlm} {k : Nat} : Evicts m m₁ → 0 < size →
      size ≤ m.segmentsNum * m.segmentSize →
      0 < segmentsFor m addr size → k + segmentsFor m addr size ≤ m.segmentsNum →
      (∀ j, k ≤ j → j < k + segmentsFor m addr size → m₁.Free j) →
      AddOutcome m addr size (enterMatch m₁ (addrMasked m addr) (segmentsFor m addr size) k).1
        { rc := 0, segmentId := k, segmentsNum := segmentsFor m addr size }
  /-- One more use of a block that contains the range -/
  | embedded {m₁ : PlxAlm} {h idx : Nat} : Evicts m m₁ → 0 < size →
      size ≤ m.segmentsNum * m.segmentSize →
      (m₁.entries h).counter ≠ 0 → (m₁.entries h).value ≤ addrMasked m addr →
      idx = (addrMasked m addr - (m₁.entries h).value) / m.segmentSize →
      idx + segmentsFor m addr size ≤ (m₁.entries h).segmentsCount →
      AddOutcome m addr size
        (m₁.setEntry h
          { m₁.entries h with counter := ((m₁.entries h).counter + 1) % 2 ^ 16 })
        { rc := -eExist, segmentId := h + idx, segmentsNum := segmentsFor m addr size }

section

variable {m₁ : PlxAlm} {addr size : Nat}

/-- `plx_alm_add_entry` looks at the sizes only, so that an eviction changes none of the
numbers it derives from the request. -/
theorem Evicts.derived (hev : Evicts m m₁) (addr size : Nat) :
    addrMasked m₁ addr = addrMasked m addr ∧ segmentsFor m₁ addr size = segmentsFor m addr size := by
  simp only [addrMasked, segmentsFor, offsetInSegment, hev.segmentSize, and_self]

theorem addOutcome_of_match (cfg : Sized m) (hev : Evicts m m₁) (hsize : 0 < size)
    (hmax : size ≤ m.segmentsNum * m.segmentSize) {k idx : Nat}
    (hok : MatchOk m₁ (addrMasked m addr) (segmentsFor m addr size) k idx) :
    AddOutcome m addr size (enterMatch m₁ (addrMasked m addr) (segmentsFor m addr size) k).1
      { rc := (enterMatch m₁ (addrMasked m addr) (segmentsFor m addr size) k).2,
        segmentId := (k + idx) % 2 ^ 32, segmentsNum := segmentsFor m addr size } := by
  have hnum := cfg.num_le
  rcases hok with ⟨hc, rfl, hpos, hend, hfree⟩ | ⟨hc, hval, hidx, hin⟩
  · rw [hev.segmentsNum] at hend
    rw [enterMatch_free_rc hc, add_zero, Nat.mod_eq_of_lt (by omega)]
    exact .created hev hsize hmax hpos hend hfree
  · have hbound := (hev.wellFormed.bound k hc).2
    rw [hev.segmentsNum] at hbound
    rw [enterMatch_block hc, Nat.mod_eq_of_lt (a := k + idx) (by omega)]
    rw [hev.segmentSize] at hidx
    exact .embedded hev hsize hmax hc hval hidx hin

theorem searchFor_ok (hev : Evicts m m₁) {k idx : Nat}
    (hsearch : searchFor m₁ addr size = some (some k, idx)) :
    MatchOk m₁ (addrMasked m addr) (segmentsFor m addr size) k idx := by
  obtain ⟨r, idx', hspec, hok⟩ := searchMatch_spec hev.wellFormed (addrMasked m₁ addr)
    (segmentsFor m₁ addr size)
  cases hspec.symm.trans hsearch
  obtain ⟨hmask, hseg⟩ := hev.derived addr size
  rw [← hmask, ← hseg]
  exact hok k rfl

theorem evicts_of_cleanup {nums : Nat} (wf : m.WellFormed)
    (hclean : plxAlmCleanupUnusedEntry m = some (m₁, nums)) :
    Evicts m m₁ ∧ ∀ i, (m₁.entries i).counter ≠ 1 := by
  obtain ⟨m₂, nums', hclean', hev, hnone, -⟩ := cleanup_spec wf
  cases hclean.symm.trans hclean'
  exact ⟨hev, hnone⟩

theorem addPath_evicted {nums idx' : Nat} (hev : Evicts m m₁)
    (hcheck : ¬ (size = 0 ∨ (m.segmentSize * m.segmentsNum) % 2 ^ 64 < size))
    (hfirst : searchFor m addr size = some (none, idx'))
    (hclean : plxAlmCleanupUnusedEntry m = some (m₁, nums))
    (hnone : ∀ i, (m₁.entries i).counter ≠ 1) (depth : Nat) :
    ∃ m' r, plxAlmAddEntryRec (depth + 1) m₁ addr size = some (m', r) ∧
      AddPath m addr size m' r := by
  obtain ⟨hmask, hseg⟩ := hev.derived addr size
  obtain ⟨r, idx, hsearch, -⟩ := searchMatch_spec hev.wellFormed
    (addrMasked m₁ addr) (segmentsFor m₁ addr size)
  have hcheck₁ := hcheck
  rw [← hev.segmentSize, ← hev.segmentsNum] at hcheck₁
  rw [plxAlmAddEntryRec]
  simp only [hcheck₁, if_false, hsearch, bind_eq_bind, bind_some]
  cases r with
  | some k =>
    rw [hmask, hseg]
    exact ⟨_, _, rfl, .evicted hcheck hfirst hclean hsearch⟩
  | none =>
    -- nothing is left to evict
    simp only [cleanup_nothing hnone, bind_some]
    refine ⟨_, _, rfl, .noRoom hcheck hfirst hclean ?_⟩
    intro k idx hfound
    cases hsearch.symm.trans hfound

theorem plxAlmAddEntry_path (wf : m.WellFormed) (addr size : Nat) :
    ∃ m' r, plxAlmAddEntry m addr size = some (m', r) ∧ AddPath m addr size m' r := by
  rw [plxAlmAddEntry, plxAlmAddEntryRec]
  by_cases hcheck : size = 0 ∨ (m.segmentSize * m.segmentsNum) % 2 ^ 64 < size
  · simp only [hcheck, if_true]
    exact ⟨_, _, rfl, .badSize hcheck⟩
  · obtain ⟨r, idx, hsearch, -⟩ := searchMatch_spec wf
      (addrMasked m addr) (segmentsFor m addr size)
    simp only [hcheck, if_false, hsearch, bind_eq_bind, bind_some]
    cases r with
    | some k => exact ⟨_, _, rfl, .found hcheck hsearch⟩
    | none =>
      obtain ⟨m₁, nums, hclean, hev, hnone, hsame⟩ := cleanup_spec wf
      simp only [hclean, bind_some]
      split
      case isTrue =>
        -- the size is positive, so the table has a segment and the recursion has a level left
        obtain ⟨n, hn⟩ : ∃ n, m.segmentsNum = n + 1 := by
          apply Nat.exists_eq_succ_of_ne_zero
          intro hzero
          rw [hzero, mul_zero, Nat.zero_mod] at hcheck
          omega
        rw [hn]
        exact addPath_evicted hev hcheck hsearch hclean hnone n
      case isFalse hzero =>
        refine ⟨_, _, rfl, .noRoom hcheck hsearch hclean ?_⟩
        intro k idx hfound
        rw [hsame (not_not.mp hzero)] at hfound
        cases hsearch.symm.trans hfound

/-- **`plx_alm_add_entry` returns**, and in one of the ways of `AddOutcome`. -/
theorem plxAlmAddEntry_spec (wf : m.WellFormed) (cfg : Sized m) (addr size : Nat) :
    ∃ m' r, plxAlmAddEntry m addr size = some (m', r) ∧ AddOutcome m addr size m' r := by
  obtain ⟨m', r, hadd, hpath⟩ := plxAlmAddEntry_path wf addr size
  refine ⟨m', r, hadd, ?_⟩
  have hbounds : ¬ (size = 0 ∨ (m.segmentSize * m.segmentsNum) % 2 ^ 64 < size) →
      0 < size ∧ size ≤ m.segmentsNum * m.segmentSize := by
    rw [mul_comm, Nat.mod_eq_of_lt cfg.aperture_lt]
    omega
  cases hpath with
  | badSize => exact .refused (Evicts.refl wf)
  | found hcheck hsearch =>
    obtain ⟨hsize, hmax⟩ := hbounds hcheck
    have hself := Evicts.refl wf
    exact addOutcome_of_match cfg hself hsize hmax (searchFor_ok hself hsearch)
  | evicted hcheck hfirst hclean hsearch =>
    obtain ⟨hsize, hmax⟩ := hbounds hcheck
    obtain ⟨hev, -⟩ := evicts_of_cleanup wf hclean
    exact addOutcome_of_match cfg hev hsize hmax (searchFor_ok hev hsearch)
  | noRoom hcheck hfirst hclean => exact .refused (evicts_of_cleanup wf hclean).1

end

end Vcass.Alut
