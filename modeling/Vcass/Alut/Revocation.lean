import Vcass.Alut.Translation

/-!
# Revocation of Access through the A-LUT

A segment of the aperture is open to the peer as long as its permission register is not 0.  The
driver withdraws permissions in `plx_del_a_lut_entry` when a block is released, but with lazy unmap
a block is released elsewhere: `plx_alm_cleanup_unused_entry` evicts it inside
`plx_alm_add_entry`, and nobody tells the hardware.

What is open is held by a block exactly as long as each eviction is followed by a new block that
takes over every segment that was evicted: `access_revoked_iff`.
-/

namespace Vcass.Alut

open Vcass.Core Option

/-! ## What is open, and what is held -/

/-- Segment `j` belongs to a block of the software table. -/
def PlxAlm.Held (m : PlxAlm) (j : Nat) : Prop :=
  ∃ h, (m.entries h).counter ≠ 0 ∧ h ≤ j ∧ j < h + (m.entries h).segmentsCount

/-- Segment `j` belongs to a block that nobody uses any more. -/
def PlxAlm.Unused (m : PlxAlm) (j : Nat) : Prop :=
  ∃ h, (m.entries h).counter = 1 ∧ h ≤ j ∧ j < h + (m.entries h).segmentsCount

/-- Every segment with a permission belongs to a block. -/
def Revoked (xdev : PlxDevice) : Prop :=
  ∀ j < xdev.aLutManager.segmentsNum,
    aLutPermission xdev.aLutArrayBase xdev.mmio j ≠ 0 → xdev.aLutManager.Held j

/-- The request is refused for its size, or finds room at once, or the block it gets after the
eviction takes over every segment of the unused blocks. -/
def TakesOver (m : PlxAlm) (addr size : Nat) : Prop :=
  (size = 0 ∨ (m.segmentSize * m.segmentsNum) % 2 ^ 64 < size) ∨
    (∃ k idx, searchFor m addr size = some (some k, idx)) ∨
    ∀ j, m.Unused j → ∃ m₁ nums k idx, plxAlmCleanupUnusedEntry m = some (m₁, nums) ∧
      searchFor m₁ addr size = some (some k, idx) ∧ (m₁.entries k).counter = 0 ∧
      k ≤ j ∧ j < k + segmentsFor m addr size

/-! ## The software table -/

section

variable {m m₁ : PlxAlm}

theorem held_evict (wf : m.WellFormed) (hev : Evicts m m₁) (hnone : ∀ i, (m₁.entries i).counter ≠ 1)
    (j : Nat) : m₁.Held j ↔ m.Held j ∧ ¬ m.Unused j := by
  constructor
  · rintro ⟨h, hc, hle, hlt⟩
    have heq := hev.kept h hc
    have hne := hnone h
    rw [heq] at hc hlt hne
    refine ⟨⟨h, hc, hle, hlt⟩, ?_⟩
    -- an unused block around the segment would be the same block
    rintro ⟨h', hone, hle', hlt'⟩
    cases wf.block_unique hc (hone ▸ one_ne_zero) hle hlt hle' hlt'
    exact hne hone
  · rintro ⟨⟨h, hc, hle, hlt⟩, hunused⟩
    have htwo : 2 ≤ (m.entries h).counter := by
      have hne : (m.entries h).counter ≠ 1 := fun hone => hunused ⟨h, hone, hle, hlt⟩
      omega
    have heq := hev.used h htwo
    refine ⟨h, ?_, hle, ?_⟩
    · rw [heq]
      exact hc
    · rw [heq]
      exact hlt

theorem held_enterFree {masked segments k : Nat} (wf : m.WellFormed) (hpos : 0 < segments)
    (hseg : segments < 2 ^ 16) (hk : k < 2 ^ 16)
    (hfree : ∀ j, k ≤ j → j < k + segments → m.Free j) (j : Nat) :
    (enterMatch m masked segments k).1.Held j ↔ m.Held j ∨ (k ≤ j ∧ j < k + segments) := by
  obtain ⟨hhead, -⟩ := enterMatch_free_block masked wf hpos hseg hk hfree
  constructor
  · rintro ⟨h, hc, hle, hlt⟩
    rcases enterMatch_free_counted masked wf hpos hseg hk hfree hc with rfl | ⟨-, hc', heq⟩
    · rw [hhead] at hlt
      exact .inr ⟨hle, hlt⟩
    · rw [heq] at hlt
      exact .inl ⟨h, hc', hle, hlt⟩
  · rintro (⟨h, hc, hle, hlt⟩ | ⟨hle, hlt⟩)
    · have heq := enterMatch_free_old masked hpos hseg hk hfree hc
      refine ⟨h, ?_, hle, ?_⟩
      · rw [heq]
        exact hc
      · rw [heq]
        exact hlt
    · refine ⟨k, ?_, hle, ?_⟩
      · rw [hhead]
        exact two_ne_zero
      · rw [hhead]
        exact hlt

theorem held_setCounter {h c : Nat} (hh : (m.entries h).counter ≠ 0) (hc : c ≠ 0) (j : Nat) :
    (m.setEntry h { m.entries h with counter := c }).Held j ↔ m.Held j := by
  unfold PlxAlm.Held
  apply exists_congr
  intro b
  rw [counted_setCounter hh hc, entries_setCounter]

end

/-! ## The permissions -/

theorem programSegments_permission (base sz : Nat) :
    ∀ (num i masked : Nat) (mmio : Nat → Nat), i + num ≤ 256 → ∀ j < 256,
      aLutPermission base (programSegments base sz num i masked mmio) j ≠ 0 ↔
        (i ≤ j ∧ j < i + num) ∨ aLutPermission base mmio j ≠ 0 := by
  intro num
  induction num with
  | zero =>
    intro i masked mmio _ j _
    simp only [programSegments]
    constructor
    · exact .inr
    · rintro (⟨hle, hlt⟩ | h)
      · omega
      · exact h
  | succ num ih =>
    intro i masked mmio hend j hj
    rw [programSegments, ih _ _ _ (by omega) j hj]
    by_cases hji : j = i
    · -- the segment of this turn
      subst hji
      rw [programSegment_permission]
      have hopen : permissionReadWrite ≠ 0 := by decide
      exact iff_of_true (.inr hopen) (.inl ⟨le_refl j, by omega⟩)
    · rw [(programSegment_other base masked mmio (by omega) hj hji).2]
      have hrange : (i + 1 ≤ j ∧ j < i + 1 + num) ↔ (i ≤ j ∧ j < i + (num + 1)) := by omega
      rw [hrange]

/-! ## What a call does -/

section

variable {xdev xdev' : PlxDevice} {live : List Mapping}

theorem unused_open (inv : AlutInv xdev live) {j : Nat} (hj : xdev.aLutManager.Unused j) :
    j < xdev.aLutManager.segmentsNum ∧ aLutPermission xdev.aLutArrayBase xdev.mmio j ≠ 0 := by
  obtain ⟨h, hone, hle, hlt⟩ := hj
  have hc : (xdev.aLutManager.entries h).counter ≠ 0 := hone ▸ one_ne_zero
  have hend := (inv.wellFormed.bound h hc).2
  have hperm := (inv.hardware h hc (j - h) (by omega)).2
  rw [Nat.add_sub_cancel' hle] at hperm
  refine ⟨by omega, ?_⟩
  rw [hperm]
  decide

/-- A call that opens `New` for a new block and evicts nothing -/
theorem revoked_step (hrevoked : Revoked xdev) {New : Nat → Prop}
    (hnum : xdev'.aLutManager.segmentsNum = xdev.aLutManager.segmentsNum)
    (hheld : ∀ j, xdev'.aLutManager.Held j ↔ xdev.aLutManager.Held j ∨ New j)
    (hperm : ∀ j < xdev.aLutManager.segmentsNum,
      aLutPermission xdev'.aLutArrayBase xdev'.mmio j ≠ 0 ↔
        New j ∨ aLutPermission xdev.aLutArrayBase xdev.mmio j ≠ 0) : Revoked xdev' := by
  intro j hj hopen
  rw [hnum] at hj
  rw [hheld]
  rcases (hperm j hj).mp hopen with hnew | hopen
  · exact .inr hnew
  · exact .inl (hrevoked j hj hopen)

/-- A call that evicts the unused blocks and opens `New` for a new block -/
theorem revoked_evict_iff (inv : AlutInv xdev live) (hrevoked : Revoked xdev) {m₁ : PlxAlm}
    (hev : Evicts xdev.aLutManager m₁) (hnone : ∀ i, (m₁.entries i).counter ≠ 1)
    (New : Nat → Prop) (hnum : xdev'.aLutManager.segmentsNum = xdev.aLutManager.segmentsNum)
    (hheld : ∀ j, xdev'.aLutManager.Held j ↔ m₁.Held j ∨ New j)
    (hperm : ∀ j < xdev.aLutManager.segmentsNum,
      aLutPermission xdev'.aLutArrayBase xdev'.mmio j ≠ 0 ↔
        New j ∨ aLutPermission xdev.aLutArrayBase xdev.mmio j ≠ 0) :
    Revoked xdev' ↔ ∀ j, xdev.aLutManager.Unused j → New j := by
  have hevict := held_evict inv.wellFormed hev hnone
  constructor
  · intro hrevoked' j hj
    obtain ⟨hlt, hopen⟩ := unused_open inv hj
    have hheld' := hrevoked' j (hnum ▸ hlt) ((hperm j hlt).mpr (.inr hopen))
    rcases (hheld j).mp hheld' with hkept | hnew
    · exact absurd hj ((hevict j).mp hkept).2
    · exact hnew
  · intro htakes j hj hopen
    rw [hnum] at hj
    rw [hheld]
    rcases (hperm j hj).mp hopen with hnew | hopen
    · exact .inr hnew
    · -- it was held before: by a block in use, or by one that was evicted
      by_cases hunused : xdev.aLutManager.Unused j
      · exact .inr (htakes j hunused)
      · exact .inl ((hevict j).mpr ⟨hrevoked j hj hopen, hunused⟩)

theorem counter_ne_zero {m : PlxAlm} (wf : m.WellFormed) {h c : Nat}
    (hh : (m.entries h).counter ≠ 0)
    (wf' : (m.setEntry h { m.entries h with counter := c }).WellFormed) : c ≠ 0 := by
  rintro rfl
  have hself : (m.setEntry h { m.entries h with counter := 0 }).entries h =
      { m.entries h with counter := 0 } := by simp [PlxAlm.setEntry]
  have hpos := (wf.bound h hh).1
  have hfree : (m.setEntry h { m.entries h with counter := 0 }).Free h := by
    refine ⟨by rw [hself], ?_⟩
    rintro ⟨i, hlt, hc, hin⟩
    have hother : (m.setEntry h { m.entries h with counter := 0 }).entries i = m.entries i := by
      simp [PlxAlm.setEntry, Function.update_of_ne hlt.ne]
    rw [hother] at hc hin
    exact wf.not_interior hh ⟨i, hlt, hc, hin⟩
  have hclear := wf'.free h hfree
  rw [hself] at hclear
  have hzero := congrArg PlxAlmArrEntry.segmentsCount hclear
  exact hpos.ne' hzero

theorem programmed_match {m₁ : PlxAlm} (cfg : Config xdev.aLutManager)
    (hev : Evicts xdev.aLutManager m₁) {addr size k idx : Nat}
    (hok : MatchOk m₁ (addrMasked xdev.aLutManager addr) (segmentsFor xdev.aLutManager addr size) k
      idx)
    (hwf : (enterMatch m₁ (addrMasked xdev.aLutManager addr)
      (segmentsFor xdev.aLutManager addr size) k).1.WellFormed)
    (hmngr : xdev'.aLutManager = (enterMatch m₁ (addrMasked xdev.aLutManager addr)
      (segmentsFor xdev.aLutManager addr size) k).1)
    (hbase : xdev'.aLutArrayBase = xdev.aLutArrayBase)
    (hmmio : xdev'.mmio =
      if (enterMatch m₁ (addrMasked xdev.aLutManager addr)
          (segmentsFor xdev.aLutManager addr size) k).2 = 0
      then programSegments xdev.aLutArrayBase xdev.aLutManager.segmentSize
        (segmentsFor xdev.aLutManager addr size) ((k + idx) % 2 ^ 32)
        (addrMasked xdev.aLutManager addr) xdev.mmio
      else xdev.mmio) (j : Nat) :
    (xdev'.aLutManager.Held j ↔ m₁.Held j ∨
      ((m₁.entries k).counter = 0 ∧ k ≤ j ∧ j < k + segmentsFor xdev.aLutManager addr size)) ∧
    (j < xdev.aLutManager.segmentsNum →
      (aLutPermission xdev'.aLutArrayBase xdev'.mmio j ≠ 0 ↔
        ((m₁.entries k).counter = 0 ∧ k ≤ j ∧ j < k + segmentsFor xdev.aLutManager addr size) ∨
          aLutPermission xdev.aLutArrayBase xdev.mmio j ≠ 0)) := by
  have hnum := cfg.num_le
  rw [hmngr, hbase, hmmio]
  rcases hok with ⟨hc, rfl, hpos, hend, hfree⟩ | ⟨hc, -, -, -⟩
  · rw [hev.segmentsNum] at hend
    rw [enterMatch_free_rc hc, if_pos rfl, add_zero, Nat.mod_eq_of_lt (by omega : k < 2 ^ 32)]
    refine ⟨?_, ?_⟩
    · rw [held_enterFree hev.wellFormed hpos (by omega) (by omega) hfree]
      simp [hc]
    · intro hj
      rw [programSegments_permission _ _ _ _ _ _ (by omega) j (by omega)]
      simp [hc]
  · rw [enterMatch_block hc] at hwf ⊢
    have hne := counter_ne_zero hev.wellFormed hc hwf
    have hrc : ¬ (-eExist : Int) = 0 := by decide
    rw [if_neg hrc, held_setCounter hc hne]
    simp [hc]

/-- The manager, the registers and the return code after a match at `k` -/
theorem plxAddALutEntry_match {m' : PlxAlm} {rc : Int} {addr size segmentId segmentsNum : Nat}
    (hadd : plxAlmAddEntry xdev.aLutManager addr size = some (m', ⟨rc, segmentId, segmentsNum⟩))
    (hrc : rc = 0 ∨ rc = -eExist) :
    ∃ addrOut, plxAddALutEntry xdev addr size =
      some ({ xdev with
        aLutManager := m'
        mmio := if rc = 0
          then programSegments xdev.aLutArrayBase xdev.aLutManager.segmentSize segmentsNum segmentId
            (addrMasked xdev.aLutManager addr) xdev.mmio
          else xdev.mmio }, 0, addrOut) := by
  have hok : ¬ (rc ≠ 0 ∧ rc ≠ -eExist) := by
    rintro ⟨h, h'⟩
    exact hrc.elim h h'
  simp only [plxAddALutEntry, hadd, bind_eq_bind, bind_some, if_neg hok]
  exact ⟨_, rfl⟩

theorem enterMatch_rc (m : PlxAlm) (masked segments k : Nat) :
    (enterMatch m masked segments k).2 = 0 ∨ (enterMatch m masked segments k).2 = -eExist := by
  by_cases hc : (m.entries k).counter = 0
  · exact .inl (enterMatch_free_rc hc)
  · rw [enterMatch_block hc]
    exact .inr rfl

theorem plxAddALutEntry_refused {m' : PlxAlm} {addr size : Nat}
    (hadd : plxAlmAddEntry xdev.aLutManager addr size = some (m', { rc := -eNoMem })) :
    plxAddALutEntry xdev addr size = some ({ xdev with aLutManager := m' }, -eNoMem, 0) := by
  simp only [plxAddALutEntry, hadd, bind_eq_bind, bind_some]
  rfl

/-- **Adding an entry keeps what is open held** exactly when the new block takes over what is
evicted. -/
theorem revoked_add_iff (inv : AlutInv xdev live) (hrevoked : Revoked xdev) {addr size : Nat}
    {rc : Int} {addrOut : Nat} (h : plxAddALutEntry xdev addr size = some (xdev', rc, addrOut))
    (hwf : xdev'.aLutManager.WellFormed) :
    Revoked xdev' ↔ TakesOver xdev.aLutManager addr size := by
  obtain ⟨m', r, hadd, hpath⟩ := plxAlmAddEntry_path inv.wellFormed addr size
  cases hpath with
  | badSize hbad =>
    rw [plxAddALutEntry_refused hadd] at h
    cases h
    exact iff_of_true hrevoked (.inl hbad)
  | @found k idx hcheck hsearch =>
    obtain ⟨out, hrun⟩ := plxAddALutEntry_match hadd (enterMatch_rc ..)
    have hx := (Prod.mk.inj (Option.some.inj (hrun.symm.trans h))).1
    have hmngr : xdev'.aLutManager = (enterMatch xdev.aLutManager (addrMasked xdev.aLutManager addr)
        (segmentsFor xdev.aLutManager addr size) k).1 := by rw [← hx]
    refine iff_of_true ?_ (.inr (.inl ⟨k, idx, hsearch⟩))
    have hself := Evicts.refl inv.wellFormed
    have hprog := programmed_match inv.config hself (searchFor_ok hself hsearch) (hmngr ▸ hwf) hmngr
      (by rw [← hx]) (by rw [← hx])
    refine revoked_step hrevoked ?_ (fun j => (hprog j).1) fun j hj => (hprog j).2 hj
    rw [hmngr, enterMatch_segmentsNum]
  | @evicted m₁ nums k idx idx' hcheck hfirst hclean hsearch =>
    obtain ⟨out, hrun⟩ := plxAddALutEntry_match hadd (enterMatch_rc ..)
    have hx := (Prod.mk.inj (Option.some.inj (hrun.symm.trans h))).1
    have hmngr : xdev'.aLutManager = (enterMatch m₁ (addrMasked xdev.aLutManager addr)
        (segmentsFor xdev.aLutManager addr size) k).1 := by rw [← hx]
    obtain ⟨hev, hnone⟩ := evicts_of_cleanup inv.wellFormed hclean
    have hprog := programmed_match inv.config hev (searchFor_ok hev hsearch) (hmngr ▸ hwf) hmngr
      (by rw [← hx]) (by rw [← hx])
    have hnum : xdev'.aLutManager.segmentsNum = xdev.aLutManager.segmentsNum := by
      rw [hmngr, enterMatch_segmentsNum, hev.segmentsNum]
    rw [revoked_evict_iff inv hrevoked hev hnone _ hnum (fun j => (hprog j).1)
      fun j hj => (hprog j).2 hj]
    constructor
    · intro htakes
      refine .inr (.inr fun j hj => ?_)
      obtain ⟨hc, hle, hlt⟩ := htakes j hj
      exact ⟨m₁, nums, k, idx, hclean, hsearch, hc, hle, hlt⟩
    · rintro (hbad | ⟨k', idx₁, hfound⟩ | htakes) j hj
      · exact absurd hbad hcheck
      · cases hfirst.symm.trans hfound
      · obtain ⟨m₂, nums₂, k₂, idx₂, hclean₂, hsearch₂, hc, hle, hlt⟩ := htakes j hj
        cases hclean.symm.trans hclean₂
        cases hsearch.symm.trans hsearch₂
        exact ⟨hc, hle, hlt⟩
  | @noRoom m₁ nums idx' hcheck hfirst hclean hnever =>
    rw [plxAddALutEntry_refused hadd] at h
    have hx := (Prod.mk.inj (Option.some.inj h)).1
    obtain ⟨hev, hnone⟩ := evicts_of_cleanup inv.wellFormed hclean
    -- nothing is opened, so nothing may have been evicted
    have hiff := revoked_evict_iff inv hrevoked hev hnone (fun _ => False)
      (show xdev'.aLutManager.segmentsNum = _ by rw [← hx]; exact hev.segmentsNum)
      (fun j => by rw [← hx, or_false]) fun j hj => by rw [← hx, false_or]
    rw [hiff]
    constructor
    · intro hunused
      exact .inr (.inr fun j hj => (hunused j hj).elim)
    · rintro (hbad | ⟨k', idx₁, hfound⟩ | htakes) j hj
      · exact hcheck hbad
      · cases hfirst.symm.trans hfound
      · obtain ⟨m₂, nums₂, k₂, idx₂, hclean₂, hsearch₂, -⟩ := htakes j hj
        cases hclean.symm.trans hclean₂
        exact hnever k₂ idx₂ hsearch₂

theorem revoked_del (inv : AlutInv xdev live) (hrevoked : Revoked xdev) {mp : Mapping}
    (hmp : mp ∈ live) (h : plxDelALutEntry xdev mp.addrOut = some xdev') : Revoked xdev' := by
  obtain ⟨b, d, c⟩ := inv.covered mp hmp
  have hused := inv.used hmp c
  have hne : (xdev.aLutManager.entries b).counter - 1 ≠ 0 := by omega
  have hdel := inv.plxDelALutEntry_live hmp c
  cases hdel.symm.trans h
  intro j hj hopen
  exact (held_setCounter c.counted hne j).mpr (hrevoked j hj hopen)

end

/-! ## Runs -/

/-- No block is evicted without being taken over. -/
def EvictsIntoNew (s : AlutState) : AlutCall → Prop
  | .add addr size => TakesOver s.xdev.aLutManager addr size
  | .del _ => True

theorem revoked_step_iff {s s' : AlutState} {c : AlutCall} (inv : AlutInv s.xdev s.live)
    (hrevoked : Revoked s.xdev) (hbound : LiveBounded s') (hstep : alutStep s c = some s') :
    Revoked s'.xdev ↔ EvictsIntoNew s c := by
  have inv' := alutStep_inv inv hbound hstep
  cases c with
  | add addr size =>
    simp only [alutStep] at hstep
    split at hstep
    case isTrue =>
      obtain ⟨⟨xdev', rc, addrOut⟩, hrun, heq⟩ := Option.map_eq_some_iff.mp hstep
      have hxdev : s'.xdev = xdev' := by
        rw [← heq]
        dsimp only
        split
        · rfl
        · rfl
      rw [hxdev]
      exact revoked_add_iff inv hrevoked hrun (hxdev ▸ inv'.wellFormed)
    case isFalse => cases hstep
  | del mp =>
    simp only [alutStep] at hstep
    split at hstep
    case isTrue hmp =>
      obtain ⟨xdev', hrun, rfl⟩ := Option.map_eq_some_iff.mp hstep
      exact iff_of_true (revoked_del inv hrevoked hmp hrun) trivial
    case isFalse => cases hstep

/-- The calls keep the number of live mappings of each block below the limit of its counter. -/
def KeepsBounded (s : AlutState) (c : AlutCall) : Prop :=
  ∀ s', alutStep s c = some s' → LiveBounded s'

/-- The call leaves no segment open without a block. -/
def KeepsRevoked (s : AlutState) (c : AlutCall) : Prop :=
  ∀ s', alutStep s c = some s' → Revoked s'.xdev

/-- **What is open is held by a block in every state of a run, exactly when no call of the run
evicts a block whose segments the new block does not take over.** -/
theorem access_revoked_iff {s t : AlutState} (hinit : alutSystem.Init s)
    (hclosed : ∀ j < s.xdev.aLutManager.segmentsNum,
      aLutPermission s.xdev.aLutArrayBase s.xdev.mmio j = 0)
    (calls : List AlutCall) (hbound : alutSystem.Along KeepsBounded s calls)
    (hrun : alutSystem.run s calls = some t) :
    alutSystem.Along KeepsRevoked s calls ↔ alutSystem.Along EvictsIntoNew s calls := by
  have hstart : AlutInv s.xdev s.live ∧ Revoked s.xdev := by
    refine ⟨alutInv_of_reach (.init hinit), ?_⟩
    intro j hj hopen
    exact absurd (hclosed j hj) hopen
  refine System.along_congr (I := fun s => AlutInv s.xdev s.live ∧ Revoked s.xdev)
    ?_ ?_ calls hstart hbound hrun
  · rintro s c s' ⟨inv, hrevoked⟩ hkeeps hstep
    rw [← revoked_step_iff inv hrevoked (hkeeps s' hstep) hstep]
    constructor
    · intro h
      exact h s' hstep
    · intro h s'' hstep'
      cases hstep.symm.trans hstep'
      exact h
  · rintro s c s' ⟨inv, -⟩ hkeeps hrevoked hstep
    exact ⟨alutStep_inv inv (hkeeps s' hstep) hstep, hrevoked s' hstep⟩

/-! ## Two segments -/

/-- A table of two segments of 16 bytes, nothing open -/
def twoSegments : AlutState := ⟨⟨⟨2, 16, fun _ => {}⟩, 0, fun _ => 0⟩, []⟩

theorem twoSegments_init : alutSystem.Init twoSegments :=
  ⟨⟨⟨4, rfl⟩, by decide, by decide⟩, fun _ => rfl, rfl⟩

theorem alutStep_live_length {s s' : AlutState} {c : AlutCall} (h : alutStep s c = some s') :
    s'.live.length ≤ s.live.length + 1 := by
  cases c with
  | add addr size =>
    simp only [alutStep] at h
    split at h
    · obtain ⟨⟨xdev', rc, addrOut⟩, -, rfl⟩ := Option.map_eq_some_iff.mp h
      dsimp only
      split
      · exact le_refl _
      · exact Nat.le_succ _
    · cases h
  | del mp =>
    simp only [alutStep] at h
    split at h
    · obtain ⟨xdev', -, rfl⟩ := Option.map_eq_some_iff.mp h
      exact (List.length_erase_le).trans (Nat.le_succ _)
    · cases h

theorem along_keepsBounded (calls : List AlutCall) (s : AlutState)
    (hshort : s.live.length + calls.length ≤ 65534) : alutSystem.Along KeepsBounded s calls := by
  induction calls generalizing s with
  | nil => trivial
  | cons c calls ih =>
    simp only [List.length_cons] at hshort
    constructor
    · intro s' hstep b
      have hlen := alutStep_live_length hstep
      exact le_trans List.countP_le_length (by omega)
    · intro s' hstep
      have hlen := alutStep_live_length hstep
      exact ih s' (by omega)

/-- The block of the third mapping takes over both segments of the block that it evicts. -/
theorem access_revoked_iff_takenOver :
    alutSystem.Along KeepsRevoked twoSegments
      [.add 0x100 32, .del ⟨0x100, 32, 0⟩, .add 0x300 32] := by
  refine (access_revoked_iff (t := _) twoSegments_init (fun _ _ => rfl)
    [.add 0x100 32, .del ⟨0x100, 32, 0⟩, .add 0x300 32]
    (along_keepsBounded _ _ (by decide)) rfl).mpr ?_
  refine ⟨.inr (.inl ⟨0, 0, rfl⟩), ?_⟩
  rintro s₁ ⟨⟩
  refine ⟨trivial, ?_⟩
  rintro s₂ ⟨⟩
  refine ⟨.inr (.inr ?_), fun _ _ => trivial⟩
  rintro j ⟨h, hone, hle, hlt⟩
  -- the only unused block is the one at segment 0
  match h with
  | 0 => exact ⟨_, _, 0, 0, rfl, rfl, rfl, Nat.zero_le j, hlt⟩
  | 1 => cases hone
  | n + 2 => cases hone

/-- Two mappings of one segment are made and deleted, and a third one is made. -/
def thirdMapping : List AlutCall :=
  [.add 0x100 16, .add 0x200 16, .del ⟨0x100, 16, 0⟩, .del ⟨0x200, 16, 16⟩, .add 0x300 16]

/-- The third mapping evicts both blocks and takes one segment.  The other segment belongs to no
block and still leads to the memory that was unmapped. -/
theorem evicted_segment_stays_open :
    alutSystem.Init twoSegments ∧
      (∀ j < twoSegments.xdev.aLutManager.segmentsNum,
        aLutPermission twoSegments.xdev.aLutArrayBase twoSegments.xdev.mmio j = 0) ∧
      alutSystem.Along KeepsBounded twoSegments thirdMapping ∧
      ∃ t, alutSystem.run twoSegments thirdMapping = some t ∧
        aLutPermission t.xdev.aLutArrayBase t.xdev.mmio 1 = permissionReadWrite ∧
        aLutTranslate t.xdev 16 = 0x200 ∧ ¬ Revoked t.xdev := by
  refine ⟨twoSegments_init, fun _ _ => rfl, along_keepsBounded _ _ (by decide), ?_⟩
  have hobs : (alutSystem.run twoSegments thirdMapping).map (fun t =>
      (t.xdev.aLutManager.segmentsNum, aLutPermission t.xdev.aLutArrayBase t.xdev.mmio 1,
        aLutTranslate t.xdev 16, (t.xdev.aLutManager.entries 0).segmentsCount,
        (t.xdev.aLutManager.entries 1).counter)) =
      some (2, permissionReadWrite, 0x200, 1, 0) := by decide +kernel
  obtain ⟨t, hrun, ht⟩ := Option.map_eq_some_iff.mp hobs
  simp only [Prod.mk.injEq] at ht
  obtain ⟨hnum, hperm, htrans, hcount, hcounter⟩ := ht
  refine ⟨t, hrun, hperm, htrans, ?_⟩
  intro hrevoked
  obtain ⟨h, hc, hle, hlt⟩ := hrevoked 1 (by omega) (by rw [hperm]; decide)
  -- the block at segment 0 ends before segment 1, which starts none
  match h with
  | 0 => omega
  | 1 => exact hc hcounter

end Vcass.Alut
