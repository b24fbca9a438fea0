import Vcass.Alut.Check
import Vcass.Alut.Revocation

/-!
# Allocation in the A-LUT Is Complete

One loop of `plx_alm_add_entry` looks for a block that already contains the range of a request and
for the first run of free segments; when it finds neither, the unused blocks are evicted and the
function calls itself.

The loop misses no block and no run (`searchMatch_misses`), and the second call finds nothing left
to evict (`addEntryRec_depth`).  So the request is embedded, or gets a new block, or is refused,
exactly when it should be: `addComplete_of_bounded`.  The 16-bit counters are the limit of this: a
block with 65535 live mappings counts as free, and the next request takes it
(`live_block_overwritten`).
-/

namespace Vcass.Alut

open Vcass.Core Option PlxAlm

/-! ## The search misses nothing -/

/-- The block at `h` contains the `segments` segments from `masked` on. -/
def Contains (m : PlxAlm) (masked segments h : Nat) : Prop :=
  (m.entries h).counter ≠ 0 ∧ (m.entries h).value ≤ masked ∧
    (masked - (m.entries h).value) / m.segmentSize + segments ≤ (m.entries h).segmentsCount

/-- The `segments` segments from `k` on are free. -/
def FreeRun (m : PlxAlm) (segments k : Nat) : Prop :=
  ∀ j, k ≤ j → j < k + segments → m.Free j

/-- What the search has ruled out when it is at entry `i` -/
structure RuledOut (m : PlxAlm) (masked segments i freeSlots : Nat) (mtch : Option Nat) : Prop where
  blocks : ∀ h < i, ¬ Contains m masked segments h
  short : mtch = none → freeSlots < segments
  /-- `freeSlots` is the length of the longest free run that ends here -/
  longest : mtch = none → ∀ k, (∀ j, k ≤ j → j < i → m.Free j) → i ≤ k + freeSlots
  runs : mtch = none → ∀ k, k + segments ≤ i → ¬ FreeRun m segments k

section

variable {m : PlxAlm} {masked segments i freeSlots : Nat} {mtch : Option Nat}

theorem RuledOut.free (out : RuledOut m masked segments i freeSlots none)
    (hc : (m.entries i).counter = 0) (hne : freeSlots + 1 ≠ segments) :
    RuledOut m masked segments (i + 1) (freeSlots + 1) none := by
  have hshort := out.short rfl
  have hlongest : ∀ k, (∀ j, k ≤ j → j < i + 1 → m.Free j) → i + 1 ≤ k + (freeSlots + 1) := by
    intro k hk
    have hle := out.longest rfl k fun j hj hlt => hk j hj (by omega)
    omega
  refine ⟨?_, fun _ => by omega, fun _ => hlongest, ?_⟩
  · intro h hh hcon
    rcases Nat.eq_or_lt_of_le (Nat.le_of_lt_succ hh) with rfl | hlt
    · exact hcon.1 hc
    · exact out.blocks h hlt hcon
  · intro _ k hk hrun
    rcases Nat.eq_or_lt_of_le hk with heq | hlt
    · -- a run that ends here would be longer than the longest
      have hle := hlongest k fun j hj hlt => hrun j hj (by omega)
      omega
    · exact out.runs rfl k (by omega) hrun

theorem RuledOut.skip {k : Nat} (out : RuledOut m masked segments i freeSlots mtch)
    (hc : (m.entries i).counter = 0) (freeSlots' : Nat) :
    RuledOut m masked segments (i + 1) freeSlots' (some k) := by
  refine ⟨?_, nofun, nofun, nofun⟩
  intro h hh hcon
  rcases Nat.eq_or_lt_of_le (Nat.le_of_lt_succ hh) with rfl | hlt
  · exact hcon.1 hc
  · exact out.blocks h hlt hcon

section

variable (wf : m.WellFormed)

include wf

theorem RuledOut.block (out : RuledOut m masked segments i freeSlots mtch)
    (hpos : 0 < segments) (hc : (m.entries i).counter ≠ 0)
    (hnot : ¬ Contains m masked segments i) :
    RuledOut m masked segments (i + (m.entries i).segmentsCount) 0 mtch := by
  have hcount := (wf.bound i hc).1
  have hheld : ∀ j, i ≤ j → j < i + (m.entries i).segmentsCount → ¬ m.Free j :=
    fun j hj hlt => not_free_of_block hc hj hlt
  refine ⟨?_, fun _ => hpos, ?_, ?_⟩
  · intro h hh hcon
    rcases Nat.lt_trichotomy h i with hlt | rfl | hgt
    · exact out.blocks h hlt hcon
    · exact hnot hcon
    · -- the other entries of the block start none
      exact hcon.1 (by rw [wf.inner i hc h hgt hh])
  · intro _ k hk
    by_contra hlt
    have hlast := hk (max k (i + (m.entries i).segmentsCount - 1)) (by omega) (by omega)
    exact hheld _ (by omega) (by omega) hlast
  · intro hnone k hk hrun
    by_cases hle : k + segments ≤ i
    · exact out.runs hnone k hle hrun
    · exact hheld (k + segments - 1) (by omega) (by omega) (hrun _ (by omega) (by omega))

/-- From any point of the search: it is left with a block that contains the range, or there is no
such block; and without a match there is no free run either. -/
theorem searchMatch_misses_from (hpos : 0 < segments) {r : Option Nat}
    {idx : Nat} : ∀ (fuel i freeSlots : Nat) (mtch : Option Nat),
      RuledOut m masked segments i freeSlots mtch → i ≤ m.segmentsNum →
      searchMatch m masked segments fuel i freeSlots mtch = some (r, idx) →
      (∃ h, r = some h ∧ Contains m masked segments h) ∨
        (∀ h, ¬ Contains m masked segments h) ∧
          (r = none → ∀ k, k + segments ≤ m.segmentsNum → ¬ FreeRun m segments k) := by
  intro fuel
  induction fuel with
  | zero =>
    intro i freeSlots mtch _ _ hsearch
    cases hsearch
  | succ fuel ih =>
    intro i freeSlots mtch out hi hsearch
    unfold searchMatch at hsearch
    split at hsearch
    case isTrue hlt =>
      dsimp only at hsearch
      split at hsearch
      case isTrue hc =>
        cases mtch with
        | some k => exact ih _ _ _ (out.skip hc _) (by omega) hsearch
        | none =>
          by_cases hrun : freeSlots + 1 = segments
          · rw [if_pos hrun] at hsearch
            exact ih _ _ _ (out.skip hc _) (by omega) hsearch
          · rw [if_neg hrun] at hsearch
            exact ih _ _ _ (out.free hc hrun) (by omega) hsearch
      case isFalse hc =>
        split at hsearch
        case isTrue hin =>
          cases hsearch
          exact .inl ⟨i, rfl, hc, hin.1, hin.2.2⟩
        case isFalse hnot =>
          have hbound := (wf.bound i hc).2
          refine ih _ _ _ (out.block wf hpos hc ?_) hbound hsearch
          -- the index is small when the block contains the range
          rintro ⟨-, hval, hin⟩
          exact hnot ⟨hval, by omega, hin⟩
    case isFalse hge =>
      cases hsearch
      have heq : i = m.segmentsNum := by omega
      subst heq
      refine .inr ⟨?_, fun hnone => out.runs hnone⟩
      intro h hcon
      exact out.blocks h (wf.inside h hcon.1) hcon

/-- **The search misses nothing.** -/
theorem searchMatch_misses (hpos : 0 < segments) {r : Option Nat} {idx : Nat}
    (h : searchMatch m masked segments (m.segmentsNum + 1) 0 0 none = some (r, idx)) :
    (∃ h, r = some h ∧ Contains m masked segments h) ∨
      (∀ h, ¬ Contains m masked segments h) ∧
        (r = none → ∀ k, k + segments ≤ m.segmentsNum → ¬ FreeRun m segments k) := by
  refine searchMatch_misses_from wf hpos _ 0 0 none ?_ (Nat.zero_le _) h
  refine ⟨fun h hh => absurd hh (Nat.not_lt_zero h), fun _ => hpos, ?_, ?_⟩
  · intro _ k _
    exact Nat.zero_le _
  · intro _ k hk
    omega

/-- What a match is: a block that contains the range, or the start of a free run when there is no
such block -/
theorem searchMatch_some (hpos : 0 < segments) {k idx : Nat}
    (h : searchMatch m masked segments (m.segmentsNum + 1) 0 0 none = some (some k, idx)) :
    Contains m masked segments k ∨
      (∀ h, ¬ Contains m masked segments h) ∧ (m.entries k).counter = 0 ∧
        k + segments ≤ m.segmentsNum ∧ FreeRun m segments k := by
  obtain ⟨r, idx', hsearch, hok⟩ := searchMatch_spec wf masked segments
  cases hsearch.symm.trans h
  rcases searchMatch_misses wf hpos h with ⟨h', heq, hcon⟩ | ⟨hnone, -⟩
  · cases heq
    exact .inl hcon
  · rcases hok k rfl with ⟨hc, -, -, hend, hfree⟩ | ⟨hc, hval, hidx, hin⟩
    · exact .inr ⟨hnone, hc, hend, hfree⟩
    · rw [hidx] at hin
      exact absurd ⟨hc, hval, hin⟩ (hnone k)

end

end

/-! ## The depth of the recursion -/

section

variable {m : PlxAlm} {addr size : Nat}

theorem addEntryRec_flat (hnone : ∀ i, (m.entries i).counter ≠ 1) (depth : Nat) :
    plxAlmAddEntryRec (depth + 1) m addr size = plxAlmAddEntryRec 1 m addr size := by
  simp only [plxAlmAddEntryRec, cleanup_nothing hnone]
  rfl

/-- **The function calls itself at most once.** -/
theorem addEntryRec_depth (wf : m.WellFormed) (depth : Nat) :
    plxAlmAddEntryRec (depth + 2) m addr size = plxAlmAddEntryRec 2 m addr size := by
  obtain ⟨m₁, nums, hclean, -, hnone, -⟩ := cleanup_spec wf
  unfold plxAlmAddEntryRec
  simp only [hclean, bind_eq_bind, bind_some, addEntryRec_flat hnone depth]

theorem addEntry_depth (wf : m.WellFormed) (depth : Nat) :
    plxAlmAddEntryRec (depth + 2) m addr size = plxAlmAddEntry m addr size := by
  rw [addEntryRec_depth wf, plxAlmAddEntry]
  cases hnum : m.segmentsNum with
  | succ n => exact (addEntryRec_depth wf n).symm
  | zero =>
    -- without segments every request is refused for its size
    have hcheck : size = 0 ∨ m.segmentSize * 0 % 2 ^ 64 < size := by
      rw [mul_zero, Nat.zero_mod]
      omega
    simp only [plxAlmAddEntryRec, hnum, if_pos hcheck]

end

/-! ## What a request should get -/

/-- The number of segments that `[addr, addr + size)` touches -/
def segmentsTouched (m : PlxAlm) (addr size : Nat) : Nat :=
  (addr + size - 1) / m.segmentSize - addr / m.segmentSize + 1

/-- The segments of the block at `h` cover those of the range. -/
def CoveredBy (m : PlxAlm) (addr size h : Nat) : Prop :=
  (m.entries h).counter ≠ 0 ∧ (m.entries h).value ≤ addr / m.segmentSize * m.segmentSize ∧
    addr / m.segmentSize * m.segmentSize + segmentsTouched m addr size * m.segmentSize ≤
      (m.entries h).value + (m.entries h).segmentsCount * m.segmentSize

/-- Segment `j` is free, or lies in a block without a live mapping. -/
def Available (s : AlmState) (j : Nat) : Prop :=
  s.mngr.Free j ∨ ∃ h, (s.mngr.entries h).counter ≠ 0 ∧ h ≤ j ∧
    j < h + (s.mngr.entries h).segmentsCount ∧ liveIn s.mngr s.live h = 0

/-- There are enough consecutive segments that are available. -/
def Room (s : AlmState) (addr size : Nat) : Prop :=
  ∃ k, k + segmentsTouched s.mngr addr size ≤ s.mngr.segmentsNum ∧
    ∀ j, k ≤ j → j < k + segmentsTouched s.mngr addr size → Available s j

/-- What `plx_alm_add_entry` should answer -/
structure AddAnswer (s : AlmState) (addr size : Nat) (m' : PlxAlm) (r : AddResult) : Prop where
  embedded : 1 ≤ size → size ≤ s.mngr.segmentSize * s.mngr.segmentsNum →
    (r.rc = -eExist ↔ ∃ h, CoveredBy s.mngr addr size h)
  created : 1 ≤ size → size ≤ s.mngr.segmentSize * s.mngr.segmentsNum →
    (¬ ∃ h, CoveredBy s.mngr addr size h) → (r.rc = 0 ↔ Room s addr size)
  refused : 1 ≤ size → size ≤ s.mngr.segmentSize * s.mngr.segmentsNum →
    (¬ ∃ h, CoveredBy s.mngr addr size h) → ¬ Room s addr size → r.rc = -eNoMem
  /-- A block with live mappings stays as it is, but for its counter -/
  kept : ∀ h, liveIn s.mngr s.live h ≠ 0 →
    ∃ counter, m'.entries h = { s.mngr.entries h with counter := counter }

/-- `plx_alm_add_entry` returns, however deep its recursion is allowed to be, and answers as it
should. -/
def AddComplete (s : AlmState) (addr size : Nat) : Prop :=
  ∃ m' r, (∀ depth, plxAlmAddEntryRec (depth + 2) s.mngr addr size = some (m', r)) ∧
    AddAnswer s addr size m' r

section

variable {m : PlxAlm} {addr size : Nat}

theorem segmentsFor_eq_touched (cfg : Config m) (hsize : 1 ≤ size)
    (hmax : size ≤ m.segmentSize * m.segmentsNum) :
    segmentsFor m addr size = segmentsTouched m addr size := by
  have hpos := cfg.size_pos
  have hsplit := Nat.div_add_mod addr m.segmentSize
  have hsum : addr + size - 1 = addr % m.segmentSize + size - 1 +
      m.segmentSize * (addr / m.segmentSize) := by omega
  have hquot : (addr % m.segmentSize + size + m.segmentSize - 1) / m.segmentSize =
      (addr % m.segmentSize + size - 1) / m.segmentSize + 1 := by
    rw [show addr % m.segmentSize + size + m.segmentSize - 1 =
      addr % m.segmentSize + size - 1 + m.segmentSize by omega, Nat.add_div_right _ hpos]
  rw [segmentsFor_eq cfg (by rwa [Nat.mul_comm] at hmax), hquot, segmentsTouched, hsum,
    Nat.add_mul_div_left _ _ hpos, Nat.add_sub_cancel]

theorem segmentSize_dvd_addrMasked (cfg : Config m) (addr : Nat) :
    m.segmentSize ∣ addrMasked m addr := by
  have hdvd := cfg.size_dvd
  have hpos := cfg.size_pos
  have hle := Nat.le_of_dvd (by decide) hdvd
  have hmask : (2 ^ 64 - 1 - (m.segmentSize - 1)) % m.segmentSize = 0 := by
    rw [show 2 ^ 64 - 1 - (m.segmentSize - 1) = 2 ^ 64 - m.segmentSize by omega]
    exact Nat.mod_eq_zero_of_dvd (Nat.dvd_sub hdvd (Nat.dvd_refl _))
  obtain ⟨k, hk⟩ := cfg.pow
  apply Nat.dvd_of_mod_eq_zero
  rw [addrMasked]
  rw [hk] at hmask ⊢
  rw [Nat.and_mod_two_pow, hmask, Nat.and_zero]

/-- For a block at a multiple of the segment size, the test of the search is that the segments of
the block cover those of the range. -/
theorem contains_iff_coveredBy (cfg : Config m) (haddr : addr < 2 ^ 64) (hsize : 1 ≤ size)
    (hmax : size ≤ m.segmentSize * m.segmentsNum) {h : Nat}
    (haligned : (m.entries h).counter ≠ 0 → m.segmentSize ∣ (m.entries h).value) :
    Contains m (addrMasked m addr) (segmentsFor m addr size) h ↔ CoveredBy m addr size h := by
  have hpos := cfg.size_pos
  rw [Contains, CoveredBy, addrMasked_eq cfg haddr, segmentsFor_eq_touched cfg hsize hmax]
  refine and_congr_right fun hc => and_congr_right fun hval => ?_
  obtain ⟨v, hv⟩ := haligned hc
  rw [hv, Nat.mul_comm m.segmentSize v] at hval ⊢
  have hle : v ≤ addr / m.segmentSize := Nat.le_of_mul_le_mul_right hval hpos
  rw [← Nat.sub_mul, Nat.mul_div_cancel _ hpos, ← Nat.add_mul, ← Nat.add_mul,
    Nat.mul_le_mul_right_iff hpos]
  omega

end

/-! ## Blocks start at multiples of the segment size -/

/-- Every block maps whole segments. -/
def PlxAlm.Aligned (m : PlxAlm) : Prop :=
  ∀ h, (m.entries h).counter ≠ 0 → m.segmentSize ∣ (m.entries h).value

section

variable {m m' : PlxAlm}

theorem PlxAlm.Aligned.of_kept (al : m.Aligned) (hsize : m'.segmentSize = m.segmentSize)
    (hkept : ∀ h, (m'.entries h).counter ≠ 0 →
      (m.entries h).counter ≠ 0 ∧ (m'.entries h).value = (m.entries h).value) : m'.Aligned := by
  intro h hc
  obtain ⟨hc', hval⟩ := hkept h hc
  rw [hsize, hval]
  exact al h hc'

theorem PlxAlm.Aligned.evict (al : m.Aligned) (hev : Evicts m m') : m'.Aligned := by
  refine al.of_kept hev.segmentSize ?_
  intro h hc
  have heq := hev.kept h hc
  rw [heq] at hc ⊢
  exact ⟨hc, rfl⟩

theorem PlxAlm.Aligned.setCounter (al : m.Aligned) {h : Nat} (hc : (m.entries h).counter ≠ 0)
    (c : Nat) : (m.setEntry h { m.entries h with counter := c }).Aligned := by
  refine al.of_kept rfl ?_
  intro i hi
  rw [entries_setCounter] at hi ⊢
  refine ⟨?_, rfl⟩
  by_cases heq : i = h
  · exact heq ▸ hc
  · simpa only [if_neg heq] using hi

theorem PlxAlm.Aligned.clear (al : m.Aligned) (idBegin num : Nat) :
    (m.clearEntries idBegin num).Aligned := by
  refine al.of_kept rfl ?_
  intro i hi
  simp only [clearEntries] at hi ⊢
  split at hi
  · exact absurd rfl hi
  · rename_i hout
    rw [if_neg hout]
    exact ⟨hi, rfl⟩

end

/-- **One call** keeps the sizes, and with them the alignment. -/
theorem almStep_aligned {s s' : AlmState} {c : AlmCall} (inv : AlmInv s)
    (hstep : almStep s c = some s') :
    s'.mngr.segmentSize = s.mngr.segmentSize ∧ s'.mngr.segmentsNum = s.mngr.segmentsNum ∧
      (Config s.mngr → s.mngr.Aligned → s'.mngr.Aligned) := by
  cases c with
  | add addr size =>
    obtain ⟨m', r, hadd, hout⟩ := plxAlmAddEntry_spec inv.wellFormed inv.sized addr size
    simp only [almStep, hadd, map_some, Option.some.injEq] at hstep
    have hmngr : s'.mngr = m' := by
      rw [← hstep]
      split <;> rfl
    rw [hmngr]
    cases hout with
    | refused hev => exact ⟨hev.segmentSize, hev.segmentsNum, fun _ al => al.evict hev⟩
    | @created m₁ k hev hsize hmax hpos hend hfree =>
      have hnum := inv.sized.num_le
      refine ⟨enterMatch_segmentSize.trans hev.segmentSize,
        enterMatch_segmentsNum.trans hev.segmentsNum, ?_⟩
      intro cfg al h hc
      rw [enterMatch_segmentSize, hev.segmentSize]
      rcases enterMatch_free_counted (addrMasked s.mngr addr) hev.wellFormed hpos (by omega)
        (by omega) hfree hc with rfl | ⟨-, hc', heq⟩
      · rw [(enterMatch_free_block (addrMasked s.mngr addr) hev.wellFormed hpos (by omega)
          (by omega) hfree).1]
        exact segmentSize_dvd_addrMasked cfg addr
      · have hal := al.evict hev h hc'
        rwa [hev.segmentSize, ← heq] at hal
    | embedded hev _ _ hh _ _ _ =>
      exact ⟨hev.segmentSize, hev.segmentsNum, fun _ al => (al.evict hev).setCounter hh _⟩
  | del mp =>
    simp only [almStep] at hstep
    split at hstep
    case isTrue hmp =>
      obtain ⟨⟨m', out⟩, hdel, heq⟩ := Option.map_eq_some_iff.mp hstep
      subst heq
      simp only [plxAlmDelEntry] at hdel
      split at hdel
      · cases hdel
      · rename_i hc
        split at hdel
        · cases hdel
          exact ⟨rfl, rfl, fun _ al => al.clear _ _⟩
        · cases hdel
          exact ⟨rfl, rfl, fun _ al => al.setCounter hc _⟩
    case isFalse => cases hstep

theorem aligned_of_reach {s : AlmState}
    (h : almSystem.ReachBy (fun _ _ s' => AlmBounded s') s) (cfg : Config s.mngr) :
    s.mngr.Aligned := by
  have hinv : AlmInv s ∧ (Config s.mngr → s.mngr.Aligned) := by
    refine System.ReachBy.invariant (I := fun s => AlmInv s ∧ (Config s.mngr → s.mngr.Aligned))
      ?_ ?_ h
    · intro s hinit
      refine ⟨almInv_of_reach (.init hinit), ?_⟩
      intro _ h hc
      rw [hinit.2.1 h] at hc
      exact absurd rfl hc
    · rintro s c s' ⟨inv, hal⟩ hbound hstep
      obtain ⟨hsize, hnum, hkeep⟩ := almStep_aligned inv hstep
      refine ⟨almStep_inv inv hbound hstep, fun cfg' => ?_⟩
      have cfg : Config s.mngr := by
        obtain ⟨hpow, hle, hspan⟩ := cfg'
        rw [hsize] at hpow hspan
        rw [hnum] at hle hspan
        exact ⟨hpow, hle, hspan⟩
      exact hkeep cfg (hal cfg)
  exact hinv.2 cfg

/-! ## Live blocks and available segments -/

section

variable {s : AlmState} {m₁ : PlxAlm}

theorem free_iff_not_held {m : PlxAlm} (wf : m.WellFormed) (j : Nat) : m.Free j ↔ ¬ m.Held j := by
  constructor
  · rintro hfree ⟨h, hc, hle, hlt⟩
    exact not_free_of_block hc hle hlt hfree
  · intro hheld
    constructor
    · by_contra hc
      exact hheld ⟨j, hc, le_refl j, by have := (wf.bound j hc).1; omega⟩
    · rintro ⟨h, hlt, hc, hin⟩
      exact hheld ⟨h, hc, le_of_lt hlt, hin⟩

theorem AlmInv.live_used (inv : AlmInv s) {h : Nat} (hlive : liveIn s.mngr s.live h ≠ 0) :
    2 ≤ (s.mngr.entries h).counter := by
  obtain ⟨mp, hmp, hin⟩ := List.countP_pos_iff.mp (pos_of_ne_zero hlive)
  have hin := of_decide_eq_true hin
  refine inv.used hmp ?_ hin
  -- without a counter the entry has no length, and the mapping is not empty
  intro hc
  have hempty : (s.mngr.entries h).segmentsCount = 0 := by
    by_cases hint : s.mngr.Interior h
    · obtain ⟨i, hlt, hi, hih⟩ := hint
      rw [inv.wellFormed.inner i hi h hlt hih]
    · rw [inv.wellFormed.free h ⟨hc, hint⟩]
  have hpos := inv.nonempty mp hmp
  obtain ⟨hle, hend⟩ := hin
  omega

theorem available_iff_free (inv : AlmInv s) (hev : Evicts s.mngr m₁)
    (hnone : ∀ i, (m₁.entries i).counter ≠ 1) (j : Nat) : Available s j ↔ m₁.Free j := by
  rw [free_iff_not_held hev.wellFormed, held_evict inv.wellFormed hev hnone, not_and_not_right,
    Available, free_iff_not_held inv.wellFormed, ← imp_iff_not_or]
  refine imp_congr_right fun _ => exists_congr fun h => ?_
  constructor
  · rintro ⟨hc, hle, hlt, hlive⟩
    have hcount := inv.counted h hc
    exact ⟨by omega, hle, hlt⟩
  · rintro ⟨hone, hle, hlt⟩
    have hcount := inv.counted h (by omega)
    exact ⟨by omega, hle, hlt, by omega⟩

theorem available_of_free {j : Nat} (h : s.mngr.Free j) : Available s j := .inl h

theorem Evicts.contains {m : PlxAlm} (hev : Evicts m m₁) {masked segments h : Nat}
    (hcon : Contains m₁ masked segments h) : Contains m masked segments h := by
  obtain ⟨hc, hval, hin⟩ := hcon
  have heq := hev.kept h hc
  rw [heq] at hc hval hin
  rw [hev.segmentSize] at hin
  exact ⟨hc, hval, hin⟩

theorem AlmInv.kept_enterMatch (inv : AlmInv s) (hev : Evicts s.mngr m₁) {masked segments k : Nat}
    (hpos : 0 < segments) (hseg : segments < 2 ^ 16) (hk : k < 2 ^ 16)
    (hmatch : (m₁.entries k).counter ≠ 0 ∨ FreeRun m₁ segments k) {h : Nat}
    (hlive : liveIn s.mngr s.live h ≠ 0) : ∃ counter,
      (enterMatch m₁ masked segments k).1.entries h =
        { s.mngr.entries h with counter := counter } := by
  have htwo := inv.live_used hlive
  have heq := hev.used h htwo
  by_cases hc : (m₁.entries k).counter = 0
  · have hfree := hmatch.resolve_left (not_not.mpr hc)
    refine ⟨(s.mngr.entries h).counter, ?_⟩
    rw [enterMatch_free_old masked hpos hseg hk hfree, heq]
    rw [heq]
    omega
  · rw [enterMatch_block hc]
    by_cases hh : h = k
    · subst hh
      simp only [setEntry, Function.update_self, heq]
      exact ⟨_, rfl⟩
    · simp only [setEntry, Function.update_of_ne hh, heq]
      exact ⟨_, rfl⟩

end

/-! ## Main results -/

section

variable {s : AlmState} {addr size : Nat}

theorem AddAnswer.of_cases {m' : PlxAlm} {r : AddResult}
    (hcases : (r.rc = -eExist ∧ ∃ h, CoveredBy s.mngr addr size h) ∨
      (¬ ∃ h, CoveredBy s.mngr addr size h) ∧
        (r.rc = 0 ∧ Room s addr size ∨ r.rc = -eNoMem ∧ ¬ Room s addr size))
    (hkept : ∀ h, liveIn s.mngr s.live h ≠ 0 →
      ∃ counter, m'.entries h = { s.mngr.entries h with counter := counter }) :
    AddAnswer s addr size m' r := by
  have hcodes : (0 : Int) ≠ -eExist ∧ -eNoMem ≠ -eExist ∧ -eNoMem ≠ 0 := by decide
  rcases hcases with ⟨hrc, hcov⟩ | ⟨hcov, ⟨hrc, hroom⟩ | ⟨hrc, hroom⟩⟩
  · exact ⟨fun _ _ => iff_of_true hrc hcov, fun _ _ h => absurd hcov h,
      fun _ _ h => absurd hcov h, hkept⟩
  · refine ⟨fun _ _ => iff_of_false ?_ hcov, fun _ _ _ => iff_of_true hrc hroom,
      fun _ _ _ h => absurd hroom h, hkept⟩
    rw [hrc]
    exact hcodes.1
  · refine ⟨fun _ _ => iff_of_false ?_ hcov, fun _ _ _ => iff_of_false ?_ hroom,
      fun _ _ _ _ => hrc, hkept⟩
    · rw [hrc]
      exact hcodes.2.1
    · rw [hrc]
      exact hcodes.2.2

/-- A match in the table `m₁` that an eviction has left leads to the right answer, when the eviction
has taken no block that contains the range. -/
theorem AlmInv.answer_match (inv : AlmInv s) (cfg : Config s.mngr) (al : s.mngr.Aligned)
    (haddr : addr < 2 ^ 64) (hsize : 1 ≤ size)
    (hmax : size ≤ s.mngr.segmentSize * s.mngr.segmentsNum) {m₁ : PlxAlm}
    (hev : Evicts s.mngr m₁) (havail : ∀ j, m₁.Free j → Available s j)
    (hsame : (∀ h, ¬ Contains m₁ (addrMasked s.mngr addr) (segmentsFor s.mngr addr size) h) →
      ∀ h, ¬ Contains s.mngr (addrMasked s.mngr addr) (segmentsFor s.mngr addr size) h)
    {k idx : Nat} (hsearch : searchFor m₁ addr size = some (some k, idx)) :
    AddAnswer s addr size
      (enterMatch m₁ (addrMasked s.mngr addr) (segmentsFor s.mngr addr size) k).1
      { rc := (enterMatch m₁ (addrMasked s.mngr addr) (segmentsFor s.mngr addr size) k).2,
        segmentId := (k + idx) % 2 ^ 32, segmentsNum := segmentsFor s.mngr addr size } := by
  obtain ⟨hmask, hsegs⟩ := hev.derived addr size
  rw [searchFor, hmask, hsegs] at hsearch
  have hpos : 0 < segmentsFor s.mngr addr size :=
    segmentsFor_pos cfg.sized addr hsize (by rwa [Nat.mul_comm] at hmax)
  have hcovered : ∀ h, Contains s.mngr (addrMasked s.mngr addr) (segmentsFor s.mngr addr size) h ↔
      CoveredBy s.mngr addr size h :=
    fun h => contains_iff_coveredBy cfg haddr hsize hmax (al h)
  have hnum := cfg.num_le
  rcases searchMatch_some hev.wellFormed hpos hsearch with hcon | ⟨hnone, hc, hend, hrun⟩
  · have hcov := (hcovered k).mp (hev.contains hcon)
    obtain ⟨hc, -, hin⟩ := hcon
    have hcount := Nat.le_trans (Nat.le_add_left _ _) hin
    have hbound := hev.wellFormed.bound k hc
    rw [hev.segmentsNum] at hbound
    refine .of_cases (.inl ⟨?_, k, hcov⟩) ?_
    · rw [enterMatch_block hc]
    · intro h hlive
      exact inv.kept_enterMatch hev hpos (by omega) (by omega) (.inl hc) hlive
  · rw [hev.segmentsNum] at hend
    refine .of_cases (.inr ⟨?_, .inl ⟨enterMatch_free_rc hc, k, ?_, ?_⟩⟩) ?_
    · rintro ⟨h, hcov⟩
      exact hsame hnone h ((hcovered h).mpr hcov)
    · rw [← segmentsFor_eq_touched cfg hsize hmax]
      exact hend
    · intro j hj hlt
      rw [← segmentsFor_eq_touched cfg hsize hmax] at hlt
      exact havail j (hrun j hj hlt)
    · intro h hlive
      exact inv.kept_enterMatch hev hpos (by omega) (by omega) (.inr hrun) hlive

theorem AlmInv.answer_noRoom (inv : AlmInv s) (cfg : Config s.mngr) (al : s.mngr.Aligned)
    (haddr : addr < 2 ^ 64) (hsize : 1 ≤ size)
    (hmax : size ≤ s.mngr.segmentSize * s.mngr.segmentsNum) {m₁ : PlxAlm}
    (hev : Evicts s.mngr m₁) (hone : ∀ i, (m₁.entries i).counter ≠ 1)
    (hfirst : ∀ h, ¬ Contains s.mngr (addrMasked s.mngr addr) (segmentsFor s.mngr addr size) h)
    (hsearch : ∀ k idx, searchFor m₁ addr size ≠ some (some k, idx)) :
    AddAnswer s addr size m₁ { rc := -eNoMem } := by
  obtain ⟨hmask, hsegs⟩ := hev.derived addr size
  have hpos : 0 < segmentsFor s.mngr addr size :=
    segmentsFor_pos cfg.sized addr hsize (by rwa [mul_comm] at hmax)
  refine .of_cases (.inr ⟨?_, .inr ⟨rfl, ?_⟩⟩) ?_
  · rintro ⟨h, hcov⟩
    exact hfirst h ((contains_iff_coveredBy cfg haddr hsize hmax (al h)).mpr hcov)
  · rintro ⟨k, hend, havail⟩
    rw [← segmentsFor_eq_touched cfg hsize hmax] at hend havail
    -- the search has ended without a match, so there is no free run
    obtain ⟨r, idx, hres, -⟩ := searchMatch_spec hev.wellFormed (addrMasked s.mngr addr)
      (segmentsFor s.mngr addr size)
    have hr : r = none := by
      cases r with
      | none => rfl
      | some k' =>
        refine absurd ?_ (hsearch k' idx)
        rw [searchFor, hmask, hsegs]
        exact hres
    subst hr
    rcases searchMatch_misses hev.wellFormed hpos hres with ⟨h, heq, -⟩ | ⟨-, hruns⟩
    · cases heq
    · refine hruns rfl k (by rw [hev.segmentsNum]; exact hend) ?_
      intro j hj hlt
      exact (available_iff_free inv hev hone j).mp (havail j hj hlt)
  · intro h hlive
    exact ⟨_, hev.used h (inv.live_used hlive)⟩

end

/-- **Allocation is complete.**  In every run in which no block has more than 65534 live mappings,
`plx_alm_add_entry` returns for every request.  A request of a proper size is embedded exactly
when a block covers it, gets a new block exactly when there are enough available segments in a
row, and is refused otherwise; blocks with live mappings stay where they are. -/
theorem addComplete_of_bounded {s : AlmState}
    (h : almSystem.ReachBy (fun _ _ s' => AlmBounded s') s) (cfg : Config s.mngr) {addr : Nat}
    (haddr : addr < 2 ^ 64) (size : Nat) : AddComplete s addr size := by
  have inv := almInv_of_reach h
  have al := aligned_of_reach h cfg
  have wf := inv.wellFormed
  obtain ⟨m', r, hadd, hpath⟩ := plxAlmAddEntry_path wf addr size
  refine ⟨m', r, fun depth => (addEntry_depth wf depth).trans hadd, ?_⟩
  have haperture : s.mngr.segmentSize * s.mngr.segmentsNum % 2 ^ 64 =
      s.mngr.segmentSize * s.mngr.segmentsNum := by
    rw [Nat.mul_comm]
    exact Nat.mod_eq_of_lt cfg.sized.aperture_lt
  have hsizes : ¬ (size = 0 ∨ s.mngr.segmentSize * s.mngr.segmentsNum % 2 ^ 64 < size) →
      1 ≤ size ∧ size ≤ s.mngr.segmentSize * s.mngr.segmentsNum := by
    rw [haperture]
    omega
  -- an empty first search has ruled out every block
  have hfirst : ∀ {idx : Nat}, 1 ≤ size → size ≤ s.mngr.segmentSize * s.mngr.segmentsNum →
      searchFor s.mngr addr size = some (none, idx) →
      ∀ h, ¬ Contains s.mngr (addrMasked s.mngr addr) (segmentsFor s.mngr addr size) h := by
    intro idx hsize hmax hsearch
    have hpos := segmentsFor_pos cfg.sized addr hsize (by rwa [Nat.mul_comm] at hmax)
    rcases searchMatch_misses wf hpos hsearch with ⟨h, heq, -⟩ | ⟨hnone, -⟩
    · cases heq
    · exact hnone
  cases hpath with
  | badSize hbad =>
    rw [haperture] at hbad
    refine ⟨fun h h' => ?_, fun h h' => ?_, fun h h' => ?_, fun h _ => ⟨_, rfl⟩⟩ <;> omega
  | found hcheck hsearch =>
    obtain ⟨hsize, hmax⟩ := hsizes hcheck
    exact inv.answer_match cfg al haddr hsize hmax (Evicts.refl wf) (fun _ => available_of_free) id
      hsearch
  | evicted hcheck hempty hclean hsearch =>
    obtain ⟨hsize, hmax⟩ := hsizes hcheck
    obtain ⟨hev, hone⟩ := evicts_of_cleanup wf hclean
    exact inv.answer_match cfg al haddr hsize hmax hev
      (fun j => (available_iff_free inv hev hone j).mpr) (fun _ => hfirst hsize hmax hempty) hsearch
  | noRoom hcheck hempty hclean hsearch =>
    obtain ⟨hsize, hmax⟩ := hsizes hcheck
    obtain ⟨hev, hone⟩ := evicts_of_cleanup wf hclean
    exact inv.answer_noRoom cfg al haddr hsize hmax hev hone (hfirst hsize hmax hempty) hsearch

/-- Two segments; the block of the first is unused.  A range that touches two segments gets both. -/
theorem addComplete_of_bounded_evicts :
    ∃ s : AlmState, almSystem.ReachBy (fun _ _ s' => AlmBounded s') s ∧ s.live = [] ∧
      (s.mngr.entries 0).counter = 1 ∧ AddComplete s 0x105 20 ∧
      (plxAlmAddEntry s.mngr 0x105 20).map (fun x => x.2.rc) = some 0 := by
  have hbounded : ∀ s : AlmState, s.live.length ≤ 65534 → AlmBounded s :=
    fun s hs h => le_trans List.countP_le_length hs
  have hinit : almSystem.Init ⟨⟨2, 16, fun _ => {}⟩, []⟩ :=
    ⟨⟨by decide, by decide, by decide⟩, fun _ => rfl, rfl⟩
  have hadd := System.ReachBy.step (G := fun _ _ s' => AlmBounded s') (a := .add 0x20 1)
    (.init hinit) (hbounded _ (by decide)) rfl
  have hdel := System.ReachBy.step (a := .del ⟨0, 1⟩) hadd (hbounded _ (by decide)) rfl
  refine ⟨_, hdel, by decide, by decide, ?_, by decide⟩
  exact addComplete_of_bounded hdel ⟨⟨4, rfl⟩, by decide, by decide⟩ (by decide) 20

/-! ## A counter that wraps -/

/-- The table of a card with one NTB and an aperture of 1 MiB, after `n` mappings of the first
segment -/
def crowded (n : Nat) : AlmState :=
  ⟨(plxAlmInit 1 0x100000).setEntry 0 ⟨0, (n + 1) % 2 ^ 16, 1, 0⟩, List.replicate n ⟨0, 1⟩⟩

theorem crowded_first : almStep ⟨plxAlmInit 1 0x100000, []⟩ (.add 0 1) = some (crowded 1) := by
  have hsearch : searchMatch (plxAlmInit 1 0x100000) 0 1 257 0 0 none = some (some 0, 0) := by
    decide +kernel
  have hentered : (enterMatch (plxAlmInit 1 0x100000) 0 1 0).1 =
      (plxAlmInit 1 0x100000).setEntry 0 ⟨0, 2, 1, 0⟩ := by
    simp only [enterMatch, plxAlmInit, setEntry, if_true, PlxAlm.mk.injEq, true_and]
    funext i
    by_cases hi : i = 0
    · subst hi
      rfl
    · simp [hi]
  have hmask : addrMasked (plxAlmInit 1 0x100000) 0 = 0 := by decide
  have hsegs : segmentsFor (plxAlmInit 1 0x100000) 0 1 = 1 := by decide
  have hadd : plxAlmAddEntry (plxAlmInit 1 0x100000) 0 1 =
      some ((plxAlmInit 1 0x100000).setEntry 0 ⟨0, 2, 1, 0⟩, ⟨0, 0, 1⟩) := by
    rw [plxAlmAddEntry, plxAlmAddEntryRec, hmask, hsegs,
      if_neg (by decide), show (plxAlmInit 1 0x100000).segmentsNum + 1 = 257 from rfl, hsearch,
      ← hentered]
    rfl
  rw [almStep, hadd]
  rfl

theorem crowded_next {n : Nat} (hn : n + 1 < 2 ^ 16) :
    almStep (crowded n) (.add 0 1) = some (crowded (n + 1)) := by
  have hnum : (crowded n).mngr.segmentsNum = 256 := rfl
  have hsize : (crowded n).mngr.segmentSize = 4096 :=
    show (plxAlmInit 1 0x100000).segmentSize = 4096 by decide
  have hentry : (crowded n).mngr.entries 0 = ⟨0, n + 1, 1, 0⟩ := by
    simp only [crowded, setEntry, Function.update_self, Nat.mod_eq_of_lt hn]
  have hmask : addrMasked (crowded n).mngr 0 = 0 := by
    rw [addrMasked, Nat.zero_and]
  have hsegs : segmentsFor (crowded n).mngr 0 1 = 1 := by
    simp [segmentsFor, offsetInSegment, hsize]
  have hsearch : searchMatch (crowded n).mngr 0 1 257 0 0 none = some (some 0, 0) := by
    rw [searchMatch, hnum, if_pos (by decide), hentry, hsize, if_neg (Nat.succ_ne_zero n)]
    simp
  have hentered : enterMatch (crowded n).mngr 0 1 0 = ((crowded (n + 1)).mngr, -eExist) := by
    rw [enterMatch_block (by rw [hentry]; exact Nat.succ_ne_zero n), hentry]
    simp [crowded, setEntry]
  have hadd : plxAlmAddEntry (crowded n).mngr 0 1 =
      some ((crowded (n + 1)).mngr, ⟨-eExist, 0, 1⟩) := by
    rw [plxAlmAddEntry, plxAlmAddEntryRec, hmask, hsegs, hsize, hnum, if_neg (by decide)]
    simp only [hsearch, hentered, bind_eq_bind, bind_some]
    rfl
  rw [almStep, hadd]
  rfl

theorem almSystem_step : almSystem.step = almStep := rfl

theorem crowded_reachable : ∀ n, n + 1 < 2 ^ 16 → almSystem.Reachable (crowded (n + 1)) := by
  intro n
  induction n with
  | zero =>
    intro _
    have hinit : almSystem.Reachable ⟨plxAlmInit 1 0x100000, []⟩ :=
      .init ⟨⟨by decide, by decide, by decide⟩, fun _ => rfl, rfl⟩
    refine hinit.step trivial (a := .add 0 1) ?_
    rw [almSystem_step]
    exact crowded_first
  | succ n ih =>
    intro hn
    refine (ih (by omega)).step trivial (a := .add 0 1) ?_
    rw [almSystem_step]
    exact crowded_next (by omega)

/-- 65535 mappings of one segment wrap the counter of its block to 0.  The next request for another
address takes the segment as a free one. -/
theorem live_block_overwritten :
    ∃ s : AlmState, almSystem.Reachable s ∧ Config s.mngr ∧ s.live = List.replicate 65535 ⟨0, 1⟩ ∧
      ¬ AddComplete s 0x5000 1 := by
  refine ⟨crowded 65535, crowded_reachable 65534 (by decide), ?_, rfl, ?_⟩
  · exact ⟨⟨12, by decide⟩, by decide, by decide⟩
  · rintro ⟨m', r, hadd, hanswer⟩
    have hlive : liveIn (crowded 65535).mngr (crowded 65535).live 0 = 65535 := by
      have hin : AlmMapping.LiesIn ⟨0, 1⟩ (crowded 65535).mngr 0 := by decide
      rw [liveIn, crowded, List.countP_replicate, if_pos]
      exact decide_eq_true hin
    obtain ⟨counter, hkept⟩ := hanswer.kept 0 (by rw [hlive]; decide)
    have hvalue : (plxAlmAddEntryRec 2 (crowded 65535).mngr 0x5000 1).map
        (fun x => (x.1.entries 0).value) = some 0x5000 := by
      decide +kernel
    rw [hadd 0, Option.map_some, hkept, Option.some.injEq] at hvalue
    have hold : ((crowded 65535).mngr.entries 0).value = 0 := by decide
    exact absurd (hold.symm.trans hvalue) (by decide)

end Vcass.Alut
