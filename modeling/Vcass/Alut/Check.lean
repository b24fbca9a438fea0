import Vcass.Alut.WellFormed
import Vcass.Core.System

/-!
# The Self-Check of the A-LUT Manager

`plx_alm_check` walks over the table and stops the kernel when it finds something wrong.  A
well-formed table passes (`plxAlmCheck_wellFormed`), and every run of `plx_alm_add_entry` and
`plx_alm_del_entry` keeps the table well-formed, with each block counting the mappings in it:
`AlmInv`.
-/

namespace Vcass.Alut

open Vcass.Core List

/-! ## `plx_alm_check` -/

/-- What the check of a block that starts at `i` objects to in entry `j`. -/
def badParent (m : PlxAlm) (i j : Nat) : Bool :=
  (m.entries j).start ≠ i ∨
    (j ≠ i ∧ ((m.entries j).counter ≠ 0 ∨ (m.entries j).segmentsCount ≠ 0))

/-- The loop of `plx_alm_check` with the flag `err`; each turn moves on by at least one entry. -/
def checkLoop (m : PlxAlm) : (fuel i : Nat) → (err : Bool) → Option Bool
  | 0, _, _ => none
  | fuel + 1, i, err =>
    if i < m.segmentsNum then
      let e := m.entries i
      if e.counter = 0 then
        checkLoop m fuel (i + 1) (err || (e.segmentsCount ≠ 0 ∨ e.start ≠ 0 ∨ e.value ≠ 0))
      else if e.segmentsCount = 0 then
        checkLoop m fuel (i + 1) true
      else if m.segmentsNum < e.segmentsCount + i then
        checkLoop m fuel (i + 1) true
      else
        checkLoop m fuel (i + e.segmentsCount)
          (err || (List.range e.segmentsCount).any fun d => badParent m i (i + d))
    else
      some err

/-- `plx_alm_check`; `none` is its `BUG_ON`. -/
def plxAlmCheck (m : PlxAlm) : Option Unit :=
  (checkLoop m (m.segmentsNum + 1) 0 false).bind fun err => if err then none else some ()

theorem checkLoop_wellFormed {m : PlxAlm} (wf : m.WellFormed) :
    ∀ fuel i, ¬ m.Interior i → i ≤ m.segmentsNum → m.segmentsNum < i + fuel →
      checkLoop m fuel i false = some false := by
  intro fuel
  induction fuel with
  | zero => intro i _ hi hfuel; omega
  | succ fuel ih =>
    intro i hboundary hi hfuel
    unfold checkLoop
    by_cases hlt : i < m.segmentsNum
    · rw [if_pos hlt]
      by_cases hc : (m.entries i).counter = 0
      · -- a free entry is cleared
        have hfree : m.Free i := ⟨hc, hboundary⟩
        simp only [wf.free i hfree]
        exact ih (i + 1) (PlxAlm.not_interior_succ hfree) hlt (by omega)
      · obtain ⟨hpos, hend⟩ := wf.bound i hc
        have hgood : ((List.range (m.entries i).segmentsCount).any fun d => badParent m i (i + d)) =
            false := by
          apply any_eq_false.mpr
          intro d hd
          have hd := mem_range.mp hd
          unfold badParent
          rcases Nat.eq_zero_or_pos d with rfl | hdpos
          · simp [wf.start i hc]
          · have hinner := wf.inner i hc (i + d) (by omega) (by omega)
            simp [hinner]
        simp only [if_neg hc, if_neg (Nat.pos_iff_ne_zero.mp hpos), hgood]
        rw [if_neg (by omega)]
        exact ih _ (wf.not_interior_next hc) hend (by omega)
    · rw [if_neg hlt]

/-- **A well-formed table passes `plx_alm_check`.** -/
theorem plxAlmCheck_wellFormed {m : PlxAlm} (wf : m.WellFormed) : plxAlmCheck m = some () := by
  unfold plxAlmCheck
  have hboundary : ¬ m.Interior 0 := by
    rintro ⟨i, hi, -⟩
    exact Nat.not_lt_zero i hi
  rw [checkLoop_wellFormed wf _ 0 hboundary (Nat.zero_le _) (by omega)]
  rfl

/-! ## The manager with its callers -/

/-- The segments that `plx_alm_add_entry` returned for a mapping -/
structure AlmMapping where
  segmentId : Nat
  segmentsNum : Nat
deriving DecidableEq

/-- The manager together with the mappings that its callers hold -/
structure AlmState where
  mngr : PlxAlm
  live : List AlmMapping

inductive AlmCall where
  | add (addr size : Nat)
  | del (mp : AlmMapping)

/-- One call; only live mappings are deleted. -/
def almStep (s : AlmState) : AlmCall → Option AlmState
  | .add addr size =>
    (plxAlmAddEntry s.mngr addr size).map fun (mngr, r) =>
      if r.rc = 0 ∨ r.rc = -eExist then ⟨mngr, ⟨r.segmentId, r.segmentsNum⟩ :: s.live⟩
      else ⟨mngr, s.live⟩
  | .del mp =>
    if mp ∈ s.live then
      (plxAlmDelEntry s.mngr mp.segmentId).map fun (mngr, _) => ⟨mngr, s.live.erase mp⟩
    else none

/-- Starts from a zeroed table. -/
def almSystem : System AlmState AlmCall where
  Init s := Sized s.mngr ∧ (∀ i, s.mngr.entries i = {}) ∧ s.live = []
  step := almStep

/-- The segments of `mp` lie in the `segments_count` segments from `h` on. -/
def AlmMapping.LiesIn (mp : AlmMapping) (m : PlxAlm) (h : Nat) : Prop :=
  h ≤ mp.segmentId ∧ mp.segmentId + mp.segmentsNum ≤ h + (m.entries h).segmentsCount

instance (mp : AlmMapping) (m : PlxAlm) (h : Nat) : Decidable (mp.LiesIn m h) :=
  inferInstanceAs (Decidable (_ ∧ _))

/-- Number of live mappings whose segments lie in the block that starts at `h` -/
def liveIn (m : PlxAlm) (live : List AlmMapping) (h : Nat) : Nat :=
  live.countP fun mp => mp.LiesIn m h

/-- No block has more live mappings than its 16-bit counter can count. -/
def AlmBounded (s : AlmState) : Prop := ∀ h, liveIn s.mngr s.live h ≤ 65534

/-! ## The invariant -/

/-- The table is well-formed, every live mapping lies in a block, and each block counts its live
mappings, plus one for the lazy unmap. -/
structure AlmInv (s : AlmState) : Prop where
  sized : Sized s.mngr
  wellFormed : s.mngr.WellFormed
  nonempty : ∀ mp ∈ s.live, 0 < mp.segmentsNum
  covered : ∀ mp ∈ s.live, ∃ h, (s.mngr.entries h).counter ≠ 0 ∧ mp.LiesIn s.mngr h
  counted : ∀ h, (s.mngr.entries h).counter ≠ 0 →
    (s.mngr.entries h).counter = liveIn s.mngr s.live h + 1

variable {mp : AlmMapping}

theorem AlmMapping.LiesIn.congr {m m' : PlxAlm} {h : Nat}
    (heq : (m'.entries h).segmentsCount = (m.entries h).segmentsCount) :
    mp.LiesIn m' h ↔ mp.LiesIn m h := by
  unfold AlmMapping.LiesIn
  rw [heq]

theorem liveIn_congr {m m' : PlxAlm} {live : List AlmMapping} {h : Nat}
    (heq : (m'.entries h).segmentsCount = (m.entries h).segmentsCount) :
    liveIn m' live h = liveIn m live h := by
  unfold liveIn
  simp only [AlmMapping.LiesIn.congr heq]

theorem liveIn_cons (m : PlxAlm) (mp : AlmMapping) (live : List AlmMapping) (h : Nat) :
    liveIn m (mp :: live) h = liveIn m live h + if mp.LiesIn m h then 1 else 0 := by
  simp [liveIn, countP_cons]

theorem liveIn_perm (m : PlxAlm) {live live' : List AlmMapping} (hperm : live.Perm (mp :: live'))
    (h : Nat) : liveIn m live h = liveIn m live' h + if mp.LiesIn m h then 1 else 0 := by
  rw [← liveIn_cons]
  exact hperm.countP_eq _

namespace AlmInv

variable {s : AlmState} (inv : AlmInv s)

include inv

theorem block_unique (hmp : mp ∈ s.live) {h h' : Nat}
    (hc : (s.mngr.entries h).counter ≠ 0) (hc' : (s.mngr.entries h').counter ≠ 0)
    (hin : mp.LiesIn s.mngr h) (hin' : mp.LiesIn s.mngr h') : h = h' := by
  have hpos := inv.nonempty mp hmp
  obtain ⟨hle, hend⟩ := hin
  obtain ⟨hle', hend'⟩ := hin'
  exact inv.wellFormed.block_unique hc hc' hle (by omega) hle' (by omega)

theorem used (hmp : mp ∈ s.live) {h : Nat}
    (hc : (s.mngr.entries h).counter ≠ 0) (hin : mp.LiesIn s.mngr h) :
    2 ≤ (s.mngr.entries h).counter := by
  have hcount := inv.counted h hc
  have hpos : 0 < liveIn s.mngr s.live h := by
    rw [liveIn, countP_pos_iff]
    exact ⟨mp, hmp, decide_eq_true hin⟩
  omega

theorem evict {m₁ : PlxAlm} (hev : Evicts s.mngr m₁) : AlmInv { s with mngr := m₁ } := by
  refine ⟨?_, hev.wellFormed, inv.nonempty, ?_, ?_⟩
  · obtain ⟨hpow, hnum, hspan⟩ := inv.sized
    exact ⟨by rw [hev.segmentSize]; exact hpow, by rw [hev.segmentsNum]; exact hnum,
      by rw [hev.segmentSize, hev.segmentsNum]; exact hspan⟩
  · intro mp hmp
    obtain ⟨h, hc, hin⟩ := inv.covered mp hmp
    have heq := hev.used h (inv.used hmp hc hin)
    refine ⟨h, ?_, (AlmMapping.LiesIn.congr (by rw [heq])).mpr hin⟩
    rw [heq]
    exact hc
  · intro h hc
    have heq := hev.kept h hc
    have hlive : liveIn m₁ s.live h = liveIn s.mngr s.live h := liveIn_congr (by rw [heq])
    simp only [heq] at hc ⊢
    rw [hlive]
    exact inv.counted h hc

theorem create (masked : Nat) {segments k : Nat} (hpos : 0 < segments)
    (hend : k + segments ≤ s.mngr.segmentsNum)
    (hfree : ∀ j, k ≤ j → j < k + segments → s.mngr.Free j) :
    AlmInv ⟨(enterMatch s.mngr masked segments k).1, ⟨k, segments⟩ :: s.live⟩ := by
  have hnum := inv.sized.num_le
  have hseg : segments < 2 ^ 16 := by omega
  have hk : k < 2 ^ 16 := by omega
  have wf := inv.wellFormed
  obtain ⟨hhead, -⟩ := enterMatch_free_block masked wf hpos hseg hk hfree
  refine ⟨?_, enterMatch_free_wellFormed masked wf hpos hseg hk hfree hend, ?_, ?_, ?_⟩
  · obtain ⟨hpow, hnum, hspan⟩ := inv.sized
    exact ⟨by rw [enterMatch_segmentSize]; exact hpow, by rw [enterMatch_segmentsNum]; exact hnum,
      by rw [enterMatch_segmentSize, enterMatch_segmentsNum]; exact hspan⟩
  · exact forall_mem_cons.mpr ⟨hpos, inv.nonempty⟩
  · refine forall_mem_cons.mpr ⟨⟨k, by rw [hhead]; exact two_ne_zero, le_refl k, ?_⟩, ?_⟩
    · rw [hhead]
    · intro mp hmp
      obtain ⟨h, hc, hin⟩ := inv.covered mp hmp
      have heq := enterMatch_free_old masked hpos hseg hk hfree hc
      refine ⟨h, ?_, (AlmMapping.LiesIn.congr (by rw [heq])).mpr hin⟩
      rw [heq]
      exact hc
  · intro h hc
    rw [liveIn_cons]
    rcases enterMatch_free_counted masked wf hpos hseg hk hfree hc with rfl | ⟨hout, hc', heq⟩
    · -- no mapping but the new one lies in the new block
      have hnone : liveIn (enterMatch s.mngr masked segments h).1 s.live h = 0 := by
        rw [liveIn, countP_eq_zero]
        intro mp hmp hin
        obtain ⟨hle, hlast⟩ := of_decide_eq_true hin
        rw [hhead] at hlast
        have hlast : mp.segmentId + mp.segmentsNum ≤ h + segments := hlast
        obtain ⟨b, hb, hbin⟩ := inv.covered mp hmp
        have hmpos := inv.nonempty mp hmp
        exact PlxAlm.not_free_of_block hb hbin.1 (by have := hbin.2; omega)
          (hfree mp.segmentId hle (by omega))
      have hin : (⟨h, segments⟩ : AlmMapping).LiesIn (enterMatch s.mngr masked segments h).1 h := by
        refine ⟨le_refl h, ?_⟩
        rw [hhead]
      rw [hnone, if_pos hin, hhead]
    · -- the new mapping lies in no old block
      have hlive : liveIn (enterMatch s.mngr masked segments k).1 s.live h =
          liveIn s.mngr s.live h := liveIn_congr (by rw [heq])
      have hnot : ¬ (⟨k, segments⟩ : AlmMapping).LiesIn (enterMatch s.mngr masked segments k).1 h := by
        rintro ⟨hle, hlast⟩
        rw [heq] at hlast
        have hlast : k + segments ≤ h + (s.mngr.entries h).segmentsCount := hlast
        exact PlxAlm.not_free_of_block hc' hle (by omega : k < _) (hfree k (le_refl k) (by omega))
      rw [hlive, if_neg hnot, heq]
      exact inv.counted h hc'

theorem recount {h c : Nat} {live : List AlmMapping}
    (hh : (s.mngr.entries h).counter ≠ 0) (hcount : c = liveIn s.mngr live h + 1)
    (hother : ∀ h', h' ≠ h → (s.mngr.entries h').counter ≠ 0 →
      liveIn s.mngr live h' = liveIn s.mngr s.live h')
    (hnonempty : ∀ mp ∈ live, 0 < mp.segmentsNum)
    (hcovered : ∀ mp ∈ live, ∃ h, (s.mngr.entries h).counter ≠ 0 ∧ mp.LiesIn s.mngr h) :
    AlmInv ⟨s.mngr.setEntry h { s.mngr.entries h with counter := c }, live⟩ := by
  have hc : c ≠ 0 := by omega
  have hcounted := counted_setCounter hh hc
  -- the blocks stay where they are; only one counter is written
  have hsegs : ∀ i, ((s.mngr.setEntry h { s.mngr.entries h with counter := c }).entries
      i).segmentsCount = (s.mngr.entries i).segmentsCount := by
    intro i
    rw [entries_setCounter]
  refine ⟨?_, setCounter_wellFormed inv.wellFormed hh hc, hnonempty, ?_, ?_⟩
  · obtain ⟨hpos, hnum, hspan⟩ := inv.sized
    exact ⟨hpos, hnum, hspan⟩
  · intro mp hmp
    obtain ⟨b, hb, hin⟩ := hcovered mp hmp
    exact ⟨b, (hcounted b).mpr hb, (AlmMapping.LiesIn.congr (hsegs b)).mpr hin⟩
  · intro b hb
    have hb := (hcounted b).mp hb
    rw [liveIn_congr (hsegs b), entries_setCounter]
    dsimp only
    split
    · rename_i heq
      rw [heq]
      exact hcount
    · rename_i hne
      rw [hother b hne hb]
      exact inv.counted b hb

theorem embed {h idx segments : Nat} (hpos : 0 < segments)
    (hh : (s.mngr.entries h).counter ≠ 0)
    (hin : idx + segments ≤ (s.mngr.entries h).segmentsCount)
    (hbound : liveIn s.mngr (⟨h + idx, segments⟩ :: s.live) h ≤ 65534) :
    AlmInv ⟨s.mngr.setEntry h
      { s.mngr.entries h with counter := ((s.mngr.entries h).counter + 1) % 2 ^ 16 },
      ⟨h + idx, segments⟩ :: s.live⟩ := by
  have hlies : (⟨h + idx, segments⟩ : AlmMapping).LiesIn s.mngr h := by
    refine ⟨Nat.le_add_right h idx, ?_⟩
    show h + idx + segments ≤ _
    omega
  have hcount := inv.counted h hh
  rw [liveIn_cons, if_pos hlies] at hbound
  apply inv.recount hh
  · rw [liveIn_cons, if_pos hlies, hcount, Nat.mod_eq_of_lt (by omega)]
  · intro b hne hb
    have hnot : ¬ (⟨h + idx, segments⟩ : AlmMapping).LiesIn s.mngr b := by
      rintro ⟨hle, hlast⟩
      simp only at hle hlast
      exact hne (inv.wellFormed.block_unique hb hh hle (by omega) (Nat.le_add_right h idx) (by omega))
    rw [liveIn_cons, if_neg hnot, Nat.add_zero]
  · exact forall_mem_cons.mpr ⟨hpos, inv.nonempty⟩
  · exact forall_mem_cons.mpr ⟨⟨h, hh, hlies⟩, inv.covered⟩

theorem drop {live : List AlmMapping} (hperm : s.live.Perm (mp :: live)) {h : Nat}
    (hh : (s.mngr.entries h).counter ≠ 0) (hin : mp.LiesIn s.mngr h) :
    AlmInv ⟨s.mngr.setEntry h
      { s.mngr.entries h with counter := (s.mngr.entries h).counter - 1 }, live⟩ := by
  have hmem : ∀ {mp'}, mp' ∈ live → mp' ∈ s.live := fun h => hperm.mem_iff.mpr (mem_cons_of_mem _ h)
  apply inv.recount hh
  · have hcount := inv.counted h hh
    rw [liveIn_perm s.mngr hperm, if_pos hin] at hcount
    omega
  · intro b hne hb
    have hnot : ¬ mp.LiesIn s.mngr b := fun hb' =>
      hne (inv.block_unique (hperm.mem_iff.mpr mem_cons_self) hb hh hb' hin)
    rw [liveIn_perm s.mngr hperm, if_neg hnot, add_zero]
  · exact fun mp' hmp' => inv.nonempty mp' (hmem hmp')
  · exact fun mp' hmp' => inv.covered mp' (hmem hmp')

theorem delete (hmp : mp ∈ s.live) :
    ∃ m', plxAlmDelEntry s.mngr mp.segmentId = some (m', none) ∧
      AlmInv ⟨m', s.live.erase mp⟩ := by
  obtain ⟨h, hh, hin⟩ := inv.covered mp hmp
  have hused := inv.used hmp hh hin
  have hpos := inv.nonempty mp hmp
  have hlast := hin.2
  have hdel := plxAlmDelEntry_eq inv.wellFormed hh hin.1 (by omega)
  rw [if_neg (by omega)] at hdel
  exact ⟨_, hdel, inv.drop (perm_cons_erase hmp) hh hin⟩

end AlmInv

/-! ## Runs -/

theorem segmentsFor_pos {m : PlxAlm} (cfg : Sized m) (addr : Nat) {size : Nat} (hsize : 0 < size)
    (hmax : size ≤ m.segmentsNum * m.segmentSize) : 0 < segmentsFor m addr size := by
  have hsz := cfg.size_pos
  have hnum := cfg.num_le
  have hspan := cfg.span
  have hoff : offsetInSegment m addr ≤ m.segmentSize - 1 := Nat.and_le_right
  have hfit : offsetInSegment m addr + size + m.segmentSize - 1 <
      (m.segmentsNum + 2) * m.segmentSize := by
    have : (m.segmentsNum + 2) * m.segmentSize
        = m.segmentsNum * m.segmentSize + 2 * m.segmentSize := by ring
    omega
  have hlt := (Nat.div_lt_iff_lt_mul hsz).mpr hfit
  unfold segmentsFor
  rw [Nat.mod_eq_of_lt (by omega : offsetInSegment m addr + size < 2 ^ 64),
    Nat.mod_eq_of_lt (by omega : offsetInSegment m addr + size + m.segmentSize - 1 < 2 ^ 64),
    Nat.mod_eq_of_lt (by omega)]
  exact Nat.div_pos (by omega) hsz

/-- **One call keeps the invariant.** -/
theorem almStep_inv {s s' : AlmState} {c : AlmCall} (inv : AlmInv s) (hbound : AlmBounded s')
    (hstep : almStep s c = some s') : AlmInv s' := by
  cases c with
  | add addr size =>
    obtain ⟨m', r, hadd, hout⟩ := plxAlmAddEntry_spec inv.wellFormed inv.sized addr size
    simp only [almStep, hadd, Option.map_some, Option.some.injEq] at hstep
    subst hstep
    cases hout with
    | refused hev => exact inv.evict hev
    | created hev hsize hmax hpos hend hfree =>
      rw [← hev.segmentsNum] at hend
      exact (inv.evict hev).create _ hpos hend hfree
    | @embedded m₁ h idx hev hsize hmax hh hle hidx hin =>
      have hpos := segmentsFor_pos inv.sized addr hsize hmax
      -- the 16-bit counter does not wrap: with one more live mapping the block is in bounds
      refine (inv.evict hev).embed hpos hh hin ?_
      refine le_of_eq_of_le (liveIn_congr ?_) (hbound h)
      simp [PlxAlm.setEntry]
  | del mp =>
    simp only [almStep] at hstep
    split at hstep
    case isTrue hmp =>
      obtain ⟨m', hdel, hinv⟩ := inv.delete hmp
      rw [hdel] at hstep
      cases hstep
      exact hinv
    case isFalse => cases hstep

theorem almInv_cleared {m : PlxAlm} (sized : Sized m) (hclear : ∀ i, m.entries i = {}) :
    AlmInv ⟨m, []⟩ :=
  ⟨sized, PlxAlm.wellFormed_of_cleared hclear, forall_mem_nil _, forall_mem_nil _,
    fun h hh => absurd (congrArg PlxAlmArrEntry.counter (hclear h)) hh⟩

theorem almInv_of_reach {s : AlmState}
    (h : almSystem.ReachBy (fun _ _ s' => AlmBounded s') s) : AlmInv s := by
  apply h.invariant
  · rintro ⟨m, live⟩ ⟨hsized, hclear, rfl⟩
    exact almInv_cleared hsized hclear
  · intro s c s' inv hbound hstep
    exact almStep_inv inv hbound hstep

/-- **The table stays as `plx_alm_check` wants it.**  In every state of every run of calls, however
they end, the check passes and the table is made of disjoint blocks and cleared entries; each
block counts the live mappings in it plus one; and deleting a live mapping meets no `BUG_ON`. -/
theorem alm_stays_wellFormed {s : AlmState}
    (h : almSystem.ReachBy (fun _ _ s' => AlmBounded s') s) :
    plxAlmCheck s.mngr = some () ∧ s.mngr.WellFormed ∧
      (∀ h, (s.mngr.entries h).counter ≠ 0 →
        (s.mngr.entries h).counter = 1 + liveIn s.mngr s.live h) ∧
      (∀ mp ∈ s.live, (plxAlmDelEntry s.mngr mp.segmentId).isSome) ∧
      ∀ addr size, (plxAlmAddEntry s.mngr addr size).isSome := by
  have inv := almInv_of_reach h
  refine ⟨plxAlmCheck_wellFormed inv.wellFormed, inv.wellFormed, ?_, ?_, ?_⟩
  · intro h hh
    rw [Nat.add_comm]
    exact inv.counted h hh
  · intro mp hmp
    obtain ⟨m', hdel, -⟩ := inv.delete hmp
    rw [hdel]
    rfl
  · intro addr size
    obtain ⟨m', r, hadd, -⟩ := plxAlmAddEntry_spec inv.wellFormed inv.sized addr size
    rw [hadd]
    rfl

/-- Four segments of 16 bytes: a block of two segments, and a mapping embedded in it. -/
theorem alm_stays_wellFormed_embedded :
    ∃ s : AlmState, almSystem.ReachBy (fun _ _ s' => AlmBounded s') s ∧
      s.live = [⟨1, 1⟩, ⟨0, 2⟩] ∧ plxAlmCheck s.mngr = some () ∧ (s.mngr.entries 0).counter = 3 := by
  have hbounded : ∀ s : AlmState, s.live.length ≤ 65534 → AlmBounded s :=
    fun s hs h => le_trans List.countP_le_length hs
  have hinit : almSystem.Init ⟨⟨4, 16, fun _ => {}⟩, []⟩ :=
    ⟨⟨by decide, by decide, by decide⟩, fun _ => rfl, rfl⟩
  have hfirst := System.ReachBy.step (G := fun _ _ s' => AlmBounded s') (a := .add 0x105 20)
    (.init hinit) (hbounded _ (by decide)) rfl
  have hsecond := System.ReachBy.step (a := .add 0x112 4) hfirst (hbounded _ (by decide)) rfl
  obtain ⟨hcheck, -, hcounted, -⟩ := alm_stays_wellFormed hsecond
  exact ⟨_, hsecond, by decide, hcheck, by rw [hcounted 0 (by decide)]; decide⟩

end Vcass.Alut
