import Vcass.Alut.Hardware
import Vcass.Alut.Check

/-!
# A-LUT Translation Correctness

Runs of `plx_add_a_lut_entry` and `plx_del_a_lut_entry` over the software table, the
hardware table and the addresses handed out so far.

The invariant `AlutInv` ties the three together: the software table with the segments of
the live mappings is as its manager keeps it (`AlmInv`), a counted block is programmed into
the hardware, and every address that was handed out leads into the block of its mapping.  A
block with a live mapping counts at least two and is never evicted.
-/

namespace Vcass.Alut

open Vcass.Core List Option

/-! ## Registers -/

private theorem registers_ne (base : Nat) {i j : Nat} (hi : i < 256) (hj : j < 256) (h : i ≠ j) :
    plxGetALutEntryOffset i ≠ plxGetALutEntryOffset j ∧
      base + plxGetALutEntryOffset i ≠ base + plxGetALutEntryOffset j + 0x400 ∧
      base + plxGetALutEntryOffset i ≠ base + plxGetALutEntryOffset j + 0x800 ∧
      base + plxGetALutEntryOffset i + 0x400 ≠ base + plxGetALutEntryOffset j + 0x800 := by
  simp only [plxGetALutEntryOffset]
  split <;> split <;> omega

theorem programSegment_permission (base masked : Nat) (mmio : Nat → Nat) (i : Nat) :
    aLutPermission base (programSegment base mmio i masked) i = permissionReadWrite := by
  simp [aLutPermission, programSegment, plxMmioWrite, permissionReadWrite]

theorem programSegment_self (base i : Nat) (mmio : Nat → Nat) {masked : Nat} (hm : masked < 2 ^ 64) :
    aLutReMap base (programSegment base mmio i masked) i = masked ∧
      aLutPermission base (programSegment base mmio i masked) i = permissionReadWrite := by
  have hhi : masked >>> 32 % 2 ^ 32 = masked / 2 ^ 32 := by
    rw [Nat.shiftRight_eq_div_pow]
    apply Nat.mod_eq_of_lt
    omega
  refine ⟨?_, programSegment_permission base masked mmio i⟩
  simp [aLutReMap, programSegment, plxMmioWrite, higherReMapOffset, lowerReMapOffset,
    permissionOffset]
  omega

theorem programSegment_other (base masked : Nat) (mmio : Nat → Nat) {i j : Nat}
    (hi : i < 256) (hj : j < 256) (h : j ≠ i) :
    aLutReMap base (programSegment base mmio i masked) j = aLutReMap base mmio j ∧
      aLutPermission base (programSegment base mmio i masked) j = aLutPermission base mmio j := by
  obtain ⟨h1, h2, h3, h4⟩ := registers_ne base hj hi h
  obtain ⟨k1, k2, k3, k4⟩ := registers_ne base hi hj (Ne.symm h)
  constructor
  · simp only [aLutReMap, programSegment, plxMmioWrite, higherReMapOffset, lowerReMapOffset,
      permissionOffset, Function.update_apply]
    rw [if_neg (by omega), if_neg (by omega), if_neg (by omega), if_neg (by omega),
      if_neg (by omega), if_neg (by omega)]
  · simp only [aLutPermission, programSegment, plxMmioWrite, higherReMapOffset, lowerReMapOffset,
      permissionOffset, Function.update_apply]
    rw [if_neg (by omega), if_neg (by omega), if_neg (by omega)]

theorem programSegments_other (base sz : Nat) :
    ∀ (num i masked : Nat) (mmio : Nat → Nat), i + num ≤ 256 → ∀ j < 256,
      j < i ∨ i + num ≤ j →
      aLutReMap base (programSegments base sz num i masked mmio) j = aLutReMap base mmio j ∧
        aLutPermission base (programSegments base sz num i masked mmio) j =
          aLutPermission base mmio j := by
  intro num
  induction num with
  | zero => intro i masked mmio _ j _ _; exact ⟨rfl, rfl⟩
  | succ num ih =>
    intro i masked mmio hend j hj hout
    rw [programSegments]
    obtain ⟨hre, hpe⟩ := ih (i + 1) ((masked + sz) % 2 ^ 64) (programSegment base mmio i masked)
      (by omega) j hj (by omega)
    obtain ⟨hre', hpe'⟩ := programSegment_other base masked mmio
      (i := i) (by omega) hj (by omega)
    exact ⟨hre.trans hre', hpe.trans hpe'⟩

theorem programSegments_inside {base sz : Nat} :
    ∀ (num i masked : Nat) (mmio : Nat → Nat), i + num ≤ 256 → masked + num * sz ≤ 2 ^ 64 →
      0 < sz → ∀ d < num,
      aLutReMap base (programSegments base sz num i masked mmio) (i + d) = masked + d * sz ∧
        aLutPermission base (programSegments base sz num i masked mmio) (i + d) =
          permissionReadWrite := by
  intro num
  induction num with
  | zero => intro i masked mmio _ _ _ d hd; omega
  | succ num ih =>
    intro i masked mmio hend hfit hsz d hd
    have hmul : (num + 1) * sz = num * sz + sz := by ring
    rw [programSegments]
    cases d with
    | zero =>
      have hm : masked < 2 ^ 64 := by omega
      obtain ⟨hre, hpe⟩ := programSegments_other base sz num (i + 1)
        ((masked + sz) % 2 ^ 64) (programSegment base mmio i masked) (by omega) i (by omega)
        (by omega)
      obtain ⟨hre', hpe'⟩ := programSegment_self base i mmio hm
      simp only [Nat.add_zero, Nat.zero_mul]
      exact ⟨hre.trans hre', hpe.trans hpe'⟩
    | succ d =>
      -- only the value behind the last segment of the loop can reach 2 ^ 64
      have hlt : masked + sz < 2 ^ 64 := by
        have : 1 * sz ≤ num * sz := Nat.mul_le_mul_right sz (by omega)
        omega
      rw [Nat.mod_eq_of_lt hlt]
      obtain ⟨hre, hpe⟩ := ih (i + 1) (masked + sz) (programSegment base mmio i masked)
        (by omega) (by omega) hsz d (by omega)
      have hidx : i + (d + 1) = i + 1 + d := by omega
      have hval : masked + (d + 1) * sz = masked + sz + d * sz := by ring
      rw [hidx, hval]
      exact ⟨hre, hpe⟩

/-! ## The system -/

/-- A mapping that `plx_add_a_lut_entry` returned and that is not deleted yet. -/
structure Mapping where
  addr : Nat
  size : Nat
  /-- The address in the aperture that was handed out -/
  addrOut : Nat
deriving DecidableEq

/-- The device together with the mappings that its callers hold. -/
structure AlutState where
  xdev : PlxDevice
  live : List Mapping

inductive AlutCall where
  | add (addr size : Nat)
  | del (mp : Mapping)

/-- One call.  Ranges end below `2 ^ 64`, and only live mappings are deleted. -/
def alutStep (s : AlutState) : AlutCall → Option AlutState
  | .add addr size =>
    if addr < 2 ^ 64 ∧ addr + size ≤ 2 ^ 64 then
      (plxAddALutEntry s.xdev addr size).map fun (xdev, rc, addrOut) =>
        if rc = 0 then ⟨xdev, ⟨addr, size, addrOut⟩ :: s.live⟩ else ⟨xdev, s.live⟩
    else none
  | .del mp =>
    if mp ∈ s.live then
      (plxDelALutEntry s.xdev mp.addrOut).map fun xdev => ⟨xdev, s.live.erase mp⟩
    else none

/-- Starts from a cleared manager, with any contents of the registers. -/
def alutSystem : System AlutState AlutCall where
  Init s := Config s.xdev.aLutManager ∧ (∀ i, s.xdev.aLutManager.entries i = {}) ∧ s.live = []
  step := alutStep

/-- First segment of the block that a mapping lies in. -/
def blockOf (m : PlxAlm) (mp : Mapping) : Nat :=
  (m.entries (mp.addrOut / m.segmentSize)).start

/-- Number of live mappings in the block that starts at `b`. -/
def blockLive (m : PlxAlm) (live : List Mapping) (b : Nat) : Nat :=
  live.countP fun mp => blockOf m mp = b

/-- No block has more live mappings than its 16-bit counter can count. -/
def LiveBounded (s : AlutState) : Prop :=
  ∀ b, blockLive s.xdev.aLutManager s.live b ≤ 65534

/-! ## The invariant -/

/-- Mapping `mp` lies in the block that starts at `h`, `d` segments from its start. -/
structure Covers (m : PlxAlm) (mp : Mapping) (h d : Nat) : Prop where
  counted : (m.entries h).counter ≠ 0
  size_pos : 0 < mp.size
  out_eq : mp.addrOut = (h + d) * m.segmentSize + mp.addr % m.segmentSize
  addr_eq : mp.addr = (m.entries h).value + d * m.segmentSize + mp.addr % m.segmentSize
  fits : d * m.segmentSize + mp.addr % m.segmentSize + mp.size ≤
    (m.entries h).segmentsCount * m.segmentSize

def Mapping.segments (m : PlxAlm) (mp : Mapping) : AlmMapping :=
  ⟨mp.addrOut / m.segmentSize, segmentsFor m mp.addr mp.size⟩

/-- Software table, hardware table and handed out addresses agree. -/
structure AlutInv (xdev : PlxDevice) (live : List Mapping) : Prop where
  config : Config xdev.aLutManager
  manager : AlmInv ⟨xdev.aLutManager, live.map (Mapping.segments xdev.aLutManager)⟩
  /-- The range of a block is made of whole segments -/
  value : ∀ h, (xdev.aLutManager.entries h).counter ≠ 0 →
    xdev.aLutManager.segmentSize ∣ (xdev.aLutManager.entries h).value
  /-- The hardware holds every block of the software table -/
  hardware : ∀ h, (xdev.aLutManager.entries h).counter ≠ 0 →
    ∀ d < (xdev.aLutManager.entries h).segmentsCount,
      aLutReMap xdev.aLutArrayBase xdev.mmio (h + d) =
          (xdev.aLutManager.entries h).value + d * xdev.aLutManager.segmentSize ∧
        aLutPermission xdev.aLutArrayBase xdev.mmio (h + d) = permissionReadWrite
  /-- Every live mapping lies in a block, at its address -/
  covered : ∀ mp ∈ live, ∃ h d, Covers xdev.aLutManager mp h d

theorem AlutInv.wellFormed {xdev : PlxDevice} {live : List Mapping} (inv : AlutInv xdev live) :
    xdev.aLutManager.WellFormed :=
  inv.manager.wellFormed

theorem segments_congr {m m' : PlxAlm} (hsize : m'.segmentSize = m.segmentSize) :
    Mapping.segments m' = Mapping.segments m := by
  funext mp
  simp only [Mapping.segments, segmentsFor, offsetInSegment, hsize]

namespace Covers

variable {m : PlxAlm} {mp : Mapping} {h d : Nat}

section

variable (c : Covers m mp h d)

include c

theorem lt_count : d < (m.entries h).segmentsCount := by
  have h1 := c.fits
  have h2 := c.size_pos
  exact Nat.lt_of_mul_lt_mul_right (a := m.segmentSize) (by omega)

theorem segment_eq (hsz : 0 < m.segmentSize) :
    mp.addrOut / m.segmentSize = h + d := by
  rw [c.out_eq, mul_comm, Nat.mul_add_div hsz, Nat.div_eq_of_lt (Nat.mod_lt _ hsz),
    add_zero]

theorem segments_eq (hsz : 0 < m.segmentSize) :
    mp.segments m = ⟨h + d, segmentsFor m mp.addr mp.size⟩ := by
  rw [Mapping.segments, c.segment_eq hsz]

theorem blockOf_eq (wf : m.WellFormed) (hsz : 0 < m.segmentSize) :
    blockOf m mp = h := by
  have := c.lt_count
  rw [blockOf, c.segment_eq hsz]
  exact wf.start_of_block c.counted (by omega) (by omega)

theorem size_le (wf : m.WellFormed) : mp.size ≤ m.segmentsNum * m.segmentSize := by
  have hend := (wf.bound h c.counted).2
  have hblock := Nat.mul_le_mul_right m.segmentSize
    (show (m.entries h).segmentsCount ≤ m.segmentsNum by omega)
  have hfits := c.fits
  omega

theorem liesIn (cfg : Config m) (wf : m.WellFormed) : (mp.segments m).LiesIn m h := by
  have hsz := cfg.size_pos
  have hfits := c.fits
  have hlt := c.lt_count
  rw [c.segments_eq hsz]
  refine ⟨Nat.le_add_right h d, ?_⟩
  rw [segmentsFor_eq cfg (c.size_le wf)]
  -- what is left of the block behind `d` segments holds the range
  obtain ⟨rest, hrest⟩ := Nat.exists_eq_add_of_le hlt.le
  rw [hrest, Nat.add_mul] at hfits
  have hceil : (mp.addr % m.segmentSize + mp.size + m.segmentSize - 1) / m.segmentSize < rest + 1 := by
    rw [Nat.div_lt_iff_lt_mul hsz, Nat.add_mul]
    omega
  dsimp only
  omega

theorem of_entry_eq {m' : PlxAlm} (hsize : m'.segmentSize = m.segmentSize)
    (hval : (m'.entries h).value = (m.entries h).value)
    (hsegs : (m'.entries h).segmentsCount = (m.entries h).segmentsCount)
    (hcount : (m'.entries h).counter ≠ 0) : Covers m' mp h d :=
  ⟨hcount, c.size_pos, by rw [hsize]; exact c.out_eq, by rw [hsize, hval]; exact c.addr_eq,
    by rw [hsize, hsegs]; exact c.fits⟩

end

end Covers

namespace AlutInv

variable {xdev : PlxDevice} {live : List Mapping} {mp : Mapping}

/-- **Translation of one live mapping**, from the invariant. -/
theorem translate (inv : AlutInv xdev live) (hmp : mp ∈ live) {k : Nat}
    (hk : k < mp.size) :
    aLutTranslate xdev (mp.addrOut + k) = mp.addr + k ∧
      aLutPermission xdev.aLutArrayBase xdev.mmio
        ((mp.addrOut + k) / xdev.aLutManager.segmentSize) = permissionReadWrite := by
  obtain ⟨h, d, c⟩ := inv.covered mp hmp
  have hsz := inv.config.size_pos
  set sz := xdev.aLutManager.segmentSize with hszdef
  -- `q` is the distance of the accessed byte from the start of the block
  obtain ⟨q, hq⟩ : ∃ q, q = d * sz + mp.addr % sz + k := ⟨_, rfl⟩
  have hout : mp.addrOut + k = sz * h + q := by
    rw [c.out_eq, hq]
    ring
  have hseg : (mp.addrOut + k) / sz = h + q / sz := by
    rw [hout, Nat.mul_add_div hsz]
  have hmod : (mp.addrOut + k) % sz = q % sz := by
    rw [hout, Nat.mul_add_mod]
  have hlt : q / sz < (xdev.aLutManager.entries h).segmentsCount := by
    rw [Nat.div_lt_iff_lt_mul hsz]
    have hfits := c.fits
    rw [← hszdef] at hfits
    omega
  obtain ⟨hre, hpe⟩ := inv.hardware h c.counted (q / sz) hlt
  constructor
  · rw [aLutTranslate, ← hszdef, hseg, hmod, hre]
    have hdm : q / sz * sz + q % sz = q := Nat.div_add_mod' q sz
    have haddr := c.addr_eq
    rw [← hszdef] at haddr ⊢
    omega
  · rw [hseg]
    exact hpe

theorem used (inv : AlutInv xdev live) (hmp : mp ∈ live) {h d : Nat}
    (c : Covers xdev.aLutManager mp h d) : 2 ≤ (xdev.aLutManager.entries h).counter :=
  inv.manager.used (mem_map_of_mem hmp) c.counted (c.liesIn inv.config inv.wellFormed)

theorem liveIn_segments {m : PlxAlm} (cfg : Config m) (wf : m.WellFormed)
    (hcov : ∀ mp ∈ live, ∃ h d, Covers m mp h d) {b : Nat} (hb : (m.entries b).counter ≠ 0) :
    liveIn m (live.map (Mapping.segments m)) b = blockLive m live b := by
  rw [liveIn, blockLive, countP_map]
  apply countP_congr
  intro mp hmp
  obtain ⟨h, d, c⟩ := hcov mp hmp
  have hin := c.liesIn cfg wf
  have hlt := c.lt_count
  have hseg := c.segment_eq cfg.size_pos
  simp only [Function.comp_apply, decide_eq_true_eq, c.blockOf_eq wf cfg.size_pos]
  constructor
  · intro hin'
    have hpos := segmentsFor_pos cfg.sized mp.addr c.size_pos (c.size_le wf)
    have hle' := hin'.1
    have hend' := hin'.2
    simp only [Mapping.segments, hseg] at hle' hend'
    exact wf.block_unique c.counted hb (Nat.le_add_right h d) (by omega) hle' (by omega)
  · rintro rfl
    exact hin

theorem blockLive_setCounter (m : PlxAlm) (h c : Nat) (live : List Mapping) :
    blockLive (m.setEntry h { m.entries h with counter := c }) live = blockLive m live := by
  funext b
  simp only [blockLive, blockOf, entries_setCounter]
  rfl

/-! ## What each operation does to the invariant -/

variable (inv : AlutInv xdev live)

include inv

theorem keep {m' : PlxAlm} {live' : List Mapping}
    (hsize : m'.segmentSize = xdev.aLutManager.segmentSize)
    (hkept : ∀ h, (m'.entries h).counter ≠ 0 → (xdev.aLutManager.entries h).counter ≠ 0 ∧
      (m'.entries h).value = (xdev.aLutManager.entries h).value ∧
      (m'.entries h).segmentsCount = (xdev.aLutManager.entries h).segmentsCount)
    (hmanager : AlmInv ⟨m', live'.map (Mapping.segments m')⟩)
    (hcovered : ∀ mp ∈ live', ∃ h d, Covers m' mp h d) :
    AlutInv { xdev with aLutManager := m' } live' := by
  refine ⟨⟨?_, hmanager.sized.num_le, hmanager.sized.span⟩, hmanager, ?_, ?_, hcovered⟩
  · rw [hsize]
    exact inv.config.pow
  · intro h hh
    obtain ⟨hh', hval, -⟩ := hkept h hh
    simp only [hsize, hval]
    exact inv.value h hh'
  · intro h hh d hd
    obtain ⟨hh', hval, hsegs⟩ := hkept h hh
    simp only [hsize, hval, hsegs] at hd ⊢
    exact inv.hardware h hh' d hd

theorem evict {m₁ : PlxAlm} (hev : Evicts xdev.aLutManager m₁) :
    AlutInv { xdev with aLutManager := m₁ } live := by
  refine inv.keep hev.segmentSize ?_ ?_ ?_
  · intro h hh
    have heq := hev.kept h hh
    rw [heq] at hh ⊢
    exact ⟨hh, rfl, rfl⟩
  · rw [segments_congr hev.segmentSize]
    exact inv.manager.evict hev
  · intro mp hmp
    obtain ⟨h, d, c⟩ := inv.covered mp hmp
    have heq := hev.used h (inv.used hmp c)
    exact ⟨h, d, c.of_entry_eq hev.segmentSize (by rw [heq]) (by rw [heq])
      (by rw [heq]; exact c.counted)⟩

theorem recount {h c : Nat} {live' : List Mapping}
    (hh : (xdev.aLutManager.entries h).counter ≠ 0)
    (hmanager : AlmInv ⟨xdev.aLutManager.setEntry h
      { xdev.aLutManager.entries h with counter := c },
      live'.map (Mapping.segments xdev.aLutManager)⟩) (hc : c ≠ 0)
    (hcov : ∀ mp ∈ live', ∃ b d, Covers xdev.aLutManager mp b d) :
    AlutInv
      { xdev with
        aLutManager := xdev.aLutManager.setEntry h
          { xdev.aLutManager.entries h with counter := c } }
      live' := by
  have hcounted := counted_setCounter hh hc
  refine inv.keep rfl ?_ hmanager ?_
  · intro b hb
    rw [entries_setCounter]
    exact ⟨(hcounted b).mp hb, rfl, rfl⟩
  · intro mp hmp
    obtain ⟨b, d, cov⟩ := hcov mp hmp
    exact ⟨b, d, cov.of_entry_eq rfl (by rw [entries_setCounter]) (by rw [entries_setCounter])
      ((hcounted b).mpr cov.counted)⟩

variable {addr size : Nat}

omit inv in
/-- The `segments` segments from the masked address on hold the requested range. -/
private theorem range_in_segments {m : PlxAlm} (cfg : Config m)
    (haddr : addr < 2 ^ 64) (hend : addr + size ≤ 2 ^ 64) (hsize : 0 < size)
    (hmax : size ≤ m.segmentsNum * m.segmentSize) :
    addr = addrMasked m addr + addr % m.segmentSize ∧ m.segmentSize ∣ addrMasked m addr ∧
      addr % m.segmentSize + size ≤ segmentsFor m addr size * m.segmentSize ∧
      addrMasked m addr + segmentsFor m addr size * m.segmentSize ≤ 2 ^ 64 := by
  have hpos := cfg.size_pos
  rw [addrMasked_eq cfg haddr, segmentsFor_eq cfg hmax]
  obtain ⟨hcover, htight, -⟩ := segments_cover (addr % m.segmentSize) hpos hsize
  have hdm := Nat.div_add_mod' addr m.segmentSize
  refine ⟨by omega, Nat.dvd_mul_left _ _, hcover, ?_⟩
  -- both sides are multiples of the segment size, so a tie cannot be missed by a part of one
  obtain ⟨c, hc⟩ := cfg.size_dvd
  have hlt : (addr / m.segmentSize
      + (addr % m.segmentSize + size + m.segmentSize - 1) / m.segmentSize) * m.segmentSize
      < (c + 1) * m.segmentSize := by
    have h1 : (c + 1) * m.segmentSize = 2 ^ 64 + m.segmentSize := by
      rw [hc]
      ring
    rw [Nat.add_mul]
    omega
  have hle := Nat.lt_of_mul_lt_mul_right hlt
  calc addr / m.segmentSize * m.segmentSize
        + (addr % m.segmentSize + size + m.segmentSize - 1) / m.segmentSize * m.segmentSize
      = (addr / m.segmentSize
        + (addr % m.segmentSize + size + m.segmentSize - 1) / m.segmentSize)
        * m.segmentSize := by ring
    _ ≤ c * m.segmentSize := Nat.mul_le_mul_right _ (by omega)
    _ = 2 ^ 64 := by rw [hc]; ring

theorem hardware_create {masked segments k : Nat}
    (htop : masked + segments * xdev.aLutManager.segmentSize ≤ 2 ^ 64) (hpos : 0 < segments)
    (hroom : k + segments ≤ xdev.aLutManager.segmentsNum)
    (hfree : ∀ j, k ≤ j → j < k + segments → xdev.aLutManager.Free j) {m' : PlxAlm}
    (hm' : m' = (enterMatch xdev.aLutManager masked segments k).1) {mmio : Nat → Nat}
    (hmmio : mmio = programSegments xdev.aLutArrayBase xdev.aLutManager.segmentSize segments k
      masked xdev.mmio) {h : Nat} (hh : (m'.entries h).counter ≠ 0) :
    ∀ d < (m'.entries h).segmentsCount,
      aLutReMap xdev.aLutArrayBase mmio (h + d) =
          (m'.entries h).value + d * xdev.aLutManager.segmentSize ∧
        aLutPermission xdev.aLutArrayBase mmio (h + d) = permissionReadWrite := by
  intro d hd
  subst hm' hmmio
  have wf := inv.wellFormed
  have hnum := inv.config.num_le
  rcases enterMatch_free_counted masked wf hpos (by omega) (by omega) hfree hh
    with rfl | ⟨-, hh', heq⟩
  · rw [(enterMatch_free_block masked wf hpos (by omega) (by omega) hfree).1] at hd ⊢
    exact programSegments_inside segments h masked xdev.mmio (by omega) htop inv.config.size_pos d hd
  · rw [heq] at hd ⊢
    have hb := (wf.bound h hh').2
    -- the old block does not reach into the new one, whose entries are free
    have hdout : h + d < k ∨ k + segments ≤ h + d := by
      by_contra hcon
      exact PlxAlm.not_free_of_block hh' (by omega) (by omega)
        (hfree (h + d) (by omega) (by omega))
    obtain ⟨hre, hpe⟩ := programSegments_other xdev.aLutArrayBase xdev.aLutManager.segmentSize
      segments k masked xdev.mmio (by omega) (h + d) (by omega) hdout
    obtain ⟨hre', hpe'⟩ := inv.hardware h hh' d hd
    exact ⟨hre.trans hre', hpe.trans hpe'⟩

theorem create {addr size k : Nat} (haddr : addr < 2 ^ 64)
    (hend : addr + size ≤ 2 ^ 64) (hsize : 0 < size)
    (hmax : size ≤ xdev.aLutManager.segmentsNum * xdev.aLutManager.segmentSize)
    (hpos : 0 < segmentsFor xdev.aLutManager addr size)
    (hroom : k + segmentsFor xdev.aLutManager addr size ≤ xdev.aLutManager.segmentsNum)
    (hfree : ∀ j, k ≤ j → j < k + segmentsFor xdev.aLutManager addr size →
      xdev.aLutManager.Free j) :
    AlutInv
      { xdev with
        aLutManager := (enterMatch xdev.aLutManager (addrMasked xdev.aLutManager addr)
          (segmentsFor xdev.aLutManager addr size) k).1
        mmio := programSegments xdev.aLutArrayBase xdev.aLutManager.segmentSize
          (segmentsFor xdev.aLutManager addr size) k (addrMasked xdev.aLutManager addr)
          xdev.mmio }
      (⟨addr, size, k * xdev.aLutManager.segmentSize
        + addr % xdev.aLutManager.segmentSize⟩ :: live) := by
  have cfg := inv.config
  have wf := inv.wellFormed
  have hsz := cfg.size_pos
  have hnum := cfg.num_le
  obtain ⟨hsplit, hdvd, hcover, htop⟩ := range_in_segments cfg haddr hend hsize hmax
  set m := xdev.aLutManager with hm
  set masked := addrMasked m addr with hmasked
  set segments := segmentsFor m addr size with hsegments
  have hseg16 : segments < 2 ^ 16 := by omega
  have hk16 : k < 2 ^ 16 := by omega
  obtain ⟨hhead, -⟩ := enterMatch_free_block masked wf hpos hseg16 hk16 hfree
  have hcounted := fun i => @enterMatch_free_counted m masked segments k wf hpos hseg16 hk16
    hfree i
  have hmanager := inv.manager.create masked hpos hroom hfree
  set m' := (enterMatch m masked segments k).1 with hm'
  have hsz' : m'.segmentSize = m.segmentSize := enterMatch_segmentSize
  have hnew : Covers m' ⟨addr, size, k * m.segmentSize + addr % m.segmentSize⟩ k 0 := by
    refine ⟨by simp [hhead], hsize, ?_, ?_, ?_⟩
    · rw [hsz', add_zero]
    · rw [hhead, hsz', zero_mul, add_zero]
      exact hsplit
    · rw [hhead, hsz', zero_mul, zero_add]
      exact hcover
  have hnewSegments : Mapping.segments m ⟨addr, size, k * m.segmentSize + addr % m.segmentSize⟩ =
      ⟨k, segments⟩ := by
    have hseg := hnew.segment_eq (by rw [hsz']; exact hsz)
    rw [hsz'] at hseg
    simp only [Mapping.segments, hseg, add_zero, hsegments]
  refine ⟨⟨?_, hmanager.sized.num_le, hmanager.sized.span⟩, ?_, ?_, ?_, ?_⟩
  · rw [hsz']
    exact cfg.pow
  · rw [segments_congr hsz', map_cons, hnewSegments]
    exact hmanager
  · intro h hh
    rw [hsz']
    rcases hcounted h hh with rfl | ⟨-, hh', heq⟩
    · rw [hhead]
      exact hdvd
    · rw [heq]
      exact inv.value h hh'
  · intro h hh
    rw [hsz']
    exact inv.hardware_create htop hpos hroom hfree hm' rfl hh
  · refine forall_mem_cons.mpr ⟨⟨k, 0, hnew⟩, ?_⟩
    intro mp hmp
    obtain ⟨h, d, c⟩ := inv.covered mp hmp
    have heq := enterMatch_free_old masked hpos hseg16 hk16 hfree c.counted
    exact ⟨h, d, c.of_entry_eq hsz' (by rw [heq]) (by rw [heq]) (by rw [heq]; exact c.counted)⟩

theorem embed (h idx : Nat) (haddr : addr < 2 ^ 64)
    (hend : addr + size ≤ 2 ^ 64) (hsize : 0 < size)
    (hmax : size ≤ xdev.aLutManager.segmentsNum * xdev.aLutManager.segmentSize)
    (hh : (xdev.aLutManager.entries h).counter ≠ 0)
    (hle : (xdev.aLutManager.entries h).value ≤ addrMasked xdev.aLutManager addr)
    (hidx : idx = (addrMasked xdev.aLutManager addr - (xdev.aLutManager.entries h).value)
      / xdev.aLutManager.segmentSize)
    (hin : idx + segmentsFor xdev.aLutManager addr size ≤
      (xdev.aLutManager.entries h).segmentsCount)
    (hbound : blockLive xdev.aLutManager
      (⟨addr, size, (h + idx) * xdev.aLutManager.segmentSize
        + addr % xdev.aLutManager.segmentSize⟩ :: live) h ≤ 65534) :
    AlutInv
      { xdev with
        aLutManager := xdev.aLutManager.setEntry h
          { xdev.aLutManager.entries h with
            counter := ((xdev.aLutManager.entries h).counter + 1) % 2 ^ 16 } }
      (⟨addr, size, (h + idx) * xdev.aLutManager.segmentSize
        + addr % xdev.aLutManager.segmentSize⟩ :: live) := by
  have hsz := inv.config.size_pos
  obtain ⟨hsplit, hdvd, hcover, -⟩ := range_in_segments inv.config haddr hend hsize hmax
  have hdist : idx * xdev.aLutManager.segmentSize =
      addrMasked xdev.aLutManager addr - (xdev.aLutManager.entries h).value := by
    rw [hidx]
    exact Nat.div_mul_cancel (Nat.dvd_sub hdvd (inv.value h hh))
  have hnew : Covers xdev.aLutManager
      ⟨addr, size, (h + idx) * xdev.aLutManager.segmentSize
        + addr % xdev.aLutManager.segmentSize⟩ h idx := by
    refine ⟨hh, hsize, rfl, ?_, ?_⟩
    · show addr = _ + idx * xdev.aLutManager.segmentSize + addr % xdev.aLutManager.segmentSize
      omega
    · show idx * xdev.aLutManager.segmentSize + addr % xdev.aLutManager.segmentSize + size ≤ _
      calc idx * xdev.aLutManager.segmentSize + addr % xdev.aLutManager.segmentSize + size
          ≤ idx * xdev.aLutManager.segmentSize
            + segmentsFor xdev.aLutManager addr size * xdev.aLutManager.segmentSize := by omega
        _ = (idx + segmentsFor xdev.aLutManager addr size)
            * xdev.aLutManager.segmentSize := by ring
        _ ≤ (xdev.aLutManager.entries h).segmentsCount * xdev.aLutManager.segmentSize :=
          Nat.mul_le_mul_right _ hin
  have hcov := forall_mem_cons.mpr ⟨⟨h, idx, hnew⟩, inv.covered⟩
  have hsegs := hnew.segments_eq hsz
  rw [← liveIn_segments inv.config inv.wellFormed hcov hh, map_cons, hsegs] at hbound
  have hpos := segmentsFor_pos inv.config.sized addr hsize hmax
  refine inv.recount hh ?_ ?_ hcov
  · rw [map_cons, hsegs]
    exact inv.manager.embed hpos hh hin hbound
  · -- the bound keeps the counter from wrapping around
    have hlies := hnew.liesIn inv.config inv.wellFormed
    rw [hsegs] at hlies
    have hcount : (xdev.aLutManager.entries h).counter =
        liveIn xdev.aLutManager (live.map (Mapping.segments xdev.aLutManager)) h + 1 :=
      inv.manager.counted h hh
    rw [liveIn_cons, if_pos hlies] at hbound
    omega

theorem plxDelALutEntry_live (hmp : mp ∈ live) {h d : Nat}
    (c : Covers xdev.aLutManager mp h d) :
    plxDelALutEntry xdev mp.addrOut =
      some { xdev with
        aLutManager := xdev.aLutManager.setEntry h
          { xdev.aLutManager.entries h with
            counter := (xdev.aLutManager.entries h).counter - 1 } } := by
  have hsz := inv.config.size_pos
  have hnum := inv.config.num_le
  have hlt := c.lt_count
  have hbound := (inv.wellFormed.bound h c.counted).2
  have hused := inv.used hmp c
  -- the address is in the aperture
  have hrange : ¬ (xdev.aLutManager.segmentsNum * xdev.aLutManager.segmentSize) % 2 ^ 64
      ≤ mp.addrOut := by
    rw [Nat.mod_eq_of_lt inv.config.sized.aperture_lt, not_le, c.out_eq]
    have hmod := Nat.mod_lt mp.addr hsz
    calc (h + d) * xdev.aLutManager.segmentSize + mp.addr % xdev.aLutManager.segmentSize
        < (h + d) * xdev.aLutManager.segmentSize + xdev.aLutManager.segmentSize := by omega
      _ = (h + d + 1) * xdev.aLutManager.segmentSize := by ring
      _ ≤ xdev.aLutManager.segmentsNum * xdev.aLutManager.segmentSize :=
        Nat.mul_le_mul_right _ (by omega)
  have hid : mp.addrOut / xdev.aLutManager.segmentSize % 2 ^ 32 = h + d := by
    rw [c.segment_eq hsz, Nat.mod_eq_of_lt (by omega)]
  have hdel := plxAlmDelEntry_eq inv.wellFormed c.counted (j := h + d) (by omega) (by omega)
  rw [if_neg (by omega)] at hdel
  simp only [plxDelALutEntry, hrange, if_false, hid, hdel, bind_eq_bind, bind_some]
  rfl

theorem delete (hmp : mp ∈ live) :
    ∃ xdev', plxDelALutEntry xdev mp.addrOut = some xdev' ∧ AlutInv xdev' (live.erase mp) := by
  obtain ⟨h, d, c⟩ := inv.covered mp hmp
  have hused := inv.used hmp c
  have hperm := perm_cons_erase hmp
  refine ⟨_, inv.plxDelALutEntry_live hmp c, inv.recount c.counted ?_ (by omega) ?_⟩
  · exact inv.manager.drop (hperm.map _) c.counted (c.liesIn inv.config inv.wellFormed)
  · exact fun mp' hmp' => inv.covered mp' (mem_of_mem_erase hmp')

omit inv in
/-- `*addr_out` of a segment of the aperture does not wrap. -/
private theorem addrOut_eq {m : PlxAlm} (cfg : Config m) (addr : Nat) {segment : Nat}
    (hseg : segment < m.segmentsNum) :
    (segment * m.segmentSize + offsetInSegment m addr) % 2 ^ 64 =
      segment * m.segmentSize + addr % m.segmentSize := by
  rw [offsetInSegment_eq cfg]
  apply Nat.mod_eq_of_lt
  have hap := cfg.sized.aperture_lt
  have hmod := Nat.mod_lt addr cfg.size_pos
  have hle : (segment + 1) * m.segmentSize ≤ m.segmentsNum * m.segmentSize :=
    Nat.mul_le_mul_right _ (by omega)
  rw [Nat.add_mul] at hle
  omega

theorem add (haddr : addr < 2 ^ 64)
    (hend : addr + size ≤ 2 ^ 64) :
    ∃ xdev' rc addrOut, plxAddALutEntry xdev addr size = some (xdev', rc, addrOut) ∧
      (rc ≠ 0 → AlutInv xdev' live) ∧
      (rc = 0 → (∀ b, blockLive xdev'.aLutManager (⟨addr, size, addrOut⟩ :: live) b ≤ 65534) →
        AlutInv xdev' (⟨addr, size, addrOut⟩ :: live)) := by
  have hcfg := inv.config
  obtain ⟨m', r, hrun, hout⟩ := plxAlmAddEntry_spec inv.wellFormed hcfg.sized addr size
  simp only [plxAddALutEntry, hrun, bind_eq_bind, bind_some]
  cases hout with
  | refused hev =>
    refine ⟨_, _, _, rfl, fun _ => inv.evict hev, fun h => absurd h (by decide)⟩
  | @created m₁ k hev hsize hmax hpos hroom hfree =>
    refine ⟨_, _, _, rfl, fun h => absurd rfl h, fun _ _ => ?_⟩
    -- the eviction has changed entries only, not the sizes that the request is rounded with
    obtain ⟨hmask, hseg⟩ := hev.derived addr size
    have inv₁ := inv.evict hev
    have hnew := inv₁.create (k := k) haddr hend hsize
      (by simp only [hev.segmentsNum, hev.segmentSize]; exact hmax)
      (by simp only [hseg]; exact hpos)
      (by simp only [hseg, hev.segmentsNum]; exact hroom)
      (by simp only [hseg]; exact hfree)
    simp only [hmask, hseg, hev.segmentSize] at hnew
    have haddrOut := addrOut_eq hcfg addr (show k < _ by omega)
    simp only [if_true, haddrOut]
    exact hnew
  | @embedded m₁ h idx hev hsize hmax hh hle hidx hin =>
    obtain ⟨hmask, hseg⟩ := hev.derived addr size
    have hpos := segmentsFor_pos hcfg.sized addr hsize hmax
    have hlast := (hev.wellFormed.bound h hh).2
    rw [hev.segmentsNum] at hlast
    have haddrOut := addrOut_eq hcfg addr (show h + idx < _ by omega)
    -- `-EEXIST` is the way the manager reports an embedded range, and no failure
    have hrc : ¬ (-eExist : Int) = 0 := by decide
    simp only [ne_eq, hrc, not_false_eq_true, not_true_eq_false, and_false, if_false, haddrOut]
    refine ⟨_, _, _, rfl, fun h => absurd rfl h, fun _ hbound => ?_⟩
    rw [blockLive_setCounter] at hbound
    have hnew := (inv.evict hev).embed h idx haddr hend hsize
      (by simp only [hev.segmentsNum, hev.segmentSize]; exact hmax) hh
      (by simp only [hmask]; exact hle)
      (by simp only [hmask, hev.segmentSize]; exact hidx)
      (by simp only [hseg]; exact hin)
      (by simp only [hev.segmentSize]; exact hbound h)
    simp only [hev.segmentSize] at hnew
    exact hnew

end AlutInv

/-! ## Runs -/

theorem alutStep_inv {s s' : AlutState} {c : AlutCall} (inv : AlutInv s.xdev s.live)
    (hbound : LiveBounded s') (hstep : alutStep s c = some s') : AlutInv s'.xdev s'.live := by
  cases c with
  | add addr size =>
    simp only [alutStep] at hstep
    split at hstep
    · rename_i hrange
      obtain ⟨xdev', rc, addrOut, hrun, hfail, hok⟩ := inv.add hrange.1 hrange.2
      rw [hrun] at hstep
      simp only [map_some, Option.some.injEq] at hstep
      split at hstep
      · rename_i hrc
        subst hstep
        exact hok hrc hbound
      · rename_i hrc
        subst hstep
        exact hfail hrc
    · cases hstep
  | del mp =>
    simp only [alutStep] at hstep
    split at hstep
    · rename_i hmp
      obtain ⟨xdev', hrun, hinv⟩ := inv.delete hmp
      rw [hrun] at hstep
      cases hstep
      exact hinv
    · cases hstep

/-- The invariant holds in every state of every run in which no block has more live
mappings than its counter can count. -/
theorem alutInv_of_reach {s : AlutState}
    (h : alutSystem.ReachBy (fun _ _ s' => LiveBounded s') s) : AlutInv s.xdev s.live := by
  refine System.ReachBy.invariant (I := fun s => AlutInv s.xdev s.live) ?_ ?_ h
  · rintro s ⟨hcfg, hclear, hlive⟩
    have hnone : ∀ i, ¬ (s.xdev.aLutManager.entries i).counter ≠ 0 := by
      intro i hi
      exact hi (by rw [hclear i])
    rw [hlive]
    exact ⟨hcfg, almInv_cleared hcfg.sized hclear, fun h hh => absurd hh (hnone h),
      fun h hh => absurd hh (hnone h), forall_mem_nil _⟩
  · intro s c s' inv hbound hstep
    exact alutStep_inv inv hbound hstep

/-- **A-LUT translation correctness**: in every state of every run of calls, the hardware
sends each byte of each live mapping to the address that was mapped, with read and
write enabled. -/
theorem aLut_translates {s : AlutState}
    (h : alutSystem.ReachBy (fun _ _ s' => LiveBounded s') s) {mp : Mapping}
    (hmp : mp ∈ s.live) {k : Nat} (hk : k < mp.size) :
    aLutTranslate s.xdev (mp.addrOut + k) = mp.addr + k ∧
      aLutPermission s.xdev.aLutArrayBase s.xdev.mmio
        ((mp.addrOut + k) / s.xdev.aLutManager.segmentSize) = permissionReadWrite :=
  (alutInv_of_reach h).translate hmp hk

theorem embedded_reach :
    ∃ s : AlutState, alutSystem.ReachBy (fun _ _ s' => LiveBounded s') s ∧
      s.live = [⟨0x112, 4, 18⟩, ⟨0x105, 20, 5⟩] := by
  have hbounded : ∀ s : AlutState, s.live.length ≤ 65534 → LiveBounded s :=
    fun s hs b => le_trans List.countP_le_length hs
  have hinit : alutSystem.Init ⟨⟨⟨4, 16, fun _ => {}⟩, 0, fun _ => 0⟩, []⟩ :=
    ⟨⟨⟨4, rfl⟩, by decide, by decide⟩, fun _ => rfl, rfl⟩
  have hfirst := System.ReachBy.step (G := fun _ _ s' => LiveBounded s') (a := .add 0x105 20)
    (.init hinit) (hbounded _ (by decide)) rfl
  have hsecond := System.ReachBy.step (a := .add 0x112 4) hfirst (hbounded _ (by decide)) rfl
  exact ⟨_, hsecond, by decide⟩

theorem aLut_translates_embedded :
    ∃ s : AlutState, alutSystem.ReachBy (fun _ _ s' => LiveBounded s') s ∧
      (⟨0x112, 4, 18⟩ : Mapping) ∈ s.live ∧
      aLutTranslate s.xdev (18 + 3) = 0x112 + 3 ∧
      aLutPermission s.xdev.aLutArrayBase s.xdev.mmio
        ((18 + 3) / s.xdev.aLutManager.segmentSize) = permissionReadWrite := by
  obtain ⟨s, hreach, hlive⟩ := embedded_reach
  have hmem : (⟨0x112, 4, 18⟩ : Mapping) ∈ s.live := by simp [hlive]
  exact ⟨s, hreach, hmem, aLut_translates hreach hmem (by decide)⟩

/-- **A-LUT calls return**: in every state of such a run, neither a `BUG_ON` nor an endless
loop keeps a legal call from returning. -/
theorem alutStep_returns {s : AlutState}
    (h : alutSystem.ReachBy (fun _ _ s' => LiveBounded s') s) :
    (∀ addr size, addr < 2 ^ 64 → addr + size ≤ 2 ^ 64 →
      (alutStep s (.add addr size)).isSome) ∧
      ∀ mp ∈ s.live, (alutStep s (.del mp)).isSome := by
  have inv := alutInv_of_reach h
  constructor
  · intro addr size haddr hend
    obtain ⟨xdev', rc, addrOut, hrun, -⟩ := inv.add haddr hend
    rw [alutStep, if_pos ⟨haddr, hend⟩, hrun]
    rfl
  · intro mp hmp
    obtain ⟨xdev', hrun, -⟩ := inv.delete hmp
    simp [alutStep, hmp, hrun]

/-- A third mapping is made, and one of the two is deleted. -/
theorem alutStep_returns_embedded :
    ∃ s : AlutState, s.live = [⟨0x112, 4, 18⟩, ⟨0x105, 20, 5⟩] ∧
      (alutStep s (.add 0x300 16)).isSome ∧ (alutStep s (.del ⟨0x112, 4, 18⟩)).isSome := by
  obtain ⟨s, hreach, hlive⟩ := embedded_reach
  obtain ⟨hadd, hdel⟩ := alutStep_returns hreach
  exact ⟨s, hlive, hadd 0x300 16 (by decide) (by decide), hdel _ (by simp [hlive])⟩

end Vcass.Alut
