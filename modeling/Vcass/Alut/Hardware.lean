import Vcass.Alut.Manager

/-!
# Programming the A-LUT

Embeds the A-LUT part of `plx_hw.c`: the register layout of the hardware table,
`plx_add_a_lut_entry` and `plx_del_a_lut_entry`, together with what the hardware
does with the registers.

The registers are 32 bits wide.  Every A-LUT entry owns three of them: the lower
and the higher half of the remap value, and the permission.
-/

namespace Vcass.Alut

open Vcass.Core

/-- The part of `struct plx_device` that the A-LUT code uses. -/
structure PlxDevice where
  aLutManager : PlxAlm
  /-- Offset of this side's A-LUT array in the register space -/
  aLutArrayBase : Nat
  /-- The memory-mapped registers, by offset -/
  mmio : Nat → Nat

/-! ## Register layout -/

/-- `PLX_A_LUT_PERMISSION_READ_ENABLE | PLX_A_LUT_PERMISSION_WRITE_ENABLE`. -/
def permissionReadWrite : Nat := 0x2 ||| 0x1

/-- `plx_get_a_lut_entry_offset`: the table is divided into two arrays of
`PLX_A_LUT_MAX_ARRAY` entries. -/
def plxGetALutEntryOffset (idx : Nat) : Nat :=
  (if 128 ≤ idx then 0x1000 else 0) + idx % 128 * 4

/-- Register of the lower half of the remap value of segment `i`. -/
def lowerReMapOffset (base i : Nat) : Nat := base + plxGetALutEntryOffset i + 0x0

/-- Register of the higher half of the remap value of segment `i`. -/
def higherReMapOffset (base i : Nat) : Nat := base + plxGetALutEntryOffset i + 0x400

/-- Register of the permission of segment `i`. -/
def permissionOffset (base i : Nat) : Nat := base + plxGetALutEntryOffset i + 0x800

/-! ## Driver -/

/-- `plx_mmio_write`: a 32-bit store. -/
def plxMmioWrite (mmio : Nat → Nat) (val offset : Nat) : Nat → Nat :=
  Function.update mmio offset (val % 2 ^ 32)

/-- Body of the programming loop of `plx_add_a_lut_entry` for segment `i`. -/
def programSegment (base : Nat) (mmio : Nat → Nat) (i masked : Nat) : Nat → Nat :=
  let mmio := plxMmioWrite mmio (masked >>> 32) (higherReMapOffset base i)
  let mmio := plxMmioWrite mmio masked (lowerReMapOffset base i)
  plxMmioWrite mmio permissionReadWrite (permissionOffset base i)

/-- The programming loop of `plx_add_a_lut_entry`: `num` segments from `i` on, with
`addr_masked` advanced by one segment size each time. -/
def programSegments (base segmentSize : Nat) :
    (num i masked : Nat) → (Nat → Nat) → Nat → Nat
  | 0, _, _, mmio => mmio
  | num + 1, i, masked, mmio =>
    programSegments base segmentSize num (i + 1) ((masked + segmentSize) % 2 ^ 64)
      (programSegment base mmio i masked)

/-- `plx_add_a_lut_entry`: the device afterwards, the return code and `*addr_out`. -/
def plxAddALutEntry (xdev : PlxDevice) (addr size : Nat) :
    Option (PlxDevice × Int × Nat) := do
  let (mngr, r) ← plxAlmAddEntry xdev.aLutManager addr size
  if r.rc ≠ 0 ∧ r.rc ≠ -eExist then
    return ({ xdev with aLutManager := mngr }, -eNoMem, 0)
  else
    -- a mapping embedded in an existing block (-EEXIST) leaves the hardware alone
    let mmio := if r.rc = 0
      then programSegments xdev.aLutArrayBase xdev.aLutManager.segmentSize r.segmentsNum
        r.segmentId (addrMasked xdev.aLutManager addr) xdev.mmio
      else xdev.mmio
    return ({ xdev with aLutManager := mngr, mmio := mmio }, 0,
      (r.segmentId * xdev.aLutManager.segmentSize
        + offsetInSegment xdev.aLutManager addr) % 2 ^ 64)

/-- The loop of `plx_del_a_lut_entry` that withdraws the permissions. -/
def clearPermissions (base : Nat) : (num i : Nat) → (Nat → Nat) → Nat → Nat
  | 0, _, mmio => mmio
  | num + 1, i, mmio =>
    clearPermissions base num (i + 1) (plxMmioWrite mmio 0 (permissionOffset base i))

/-- `plx_del_a_lut_entry`. -/
def plxDelALutEntry (xdev : PlxDevice) (addr : Nat) : Option PlxDevice :=
  if (xdev.aLutManager.segmentsNum * xdev.aLutManager.segmentSize) % 2 ^ 64 ≤ addr then
    some xdev -- "addres not in BAR range"
  else do
    let segmentId := addr / xdev.aLutManager.segmentSize % 2 ^ 32
    let (mngr, freed) ← plxAlmDelEntry xdev.aLutManager segmentId
    match freed with
    | some (startSegment, segmentsNum) =>
      return { xdev with
        aLutManager := mngr
        mmio := clearPermissions xdev.aLutArrayBase segmentsNum startSegment xdev.mmio }
    | none => return { xdev with aLutManager := mngr }

/-! ## Hardware -/

/-- Remap value that the registers hold for a segment. -/
def aLutReMap (base : Nat) (mmio : Nat → Nat) (segment : Nat) : Nat :=
  mmio (higherReMapOffset base segment) * 2 ^ 32 + mmio (lowerReMapOffset base segment)

/-- Permission that the registers hold for a segment. -/
def aLutPermission (base : Nat) (mmio : Nat → Nat) (segment : Nat) : Nat :=
  mmio (permissionOffset base segment)

/-- Where an access of the peer at `a` in the aperture goes to. -/
def aLutTranslate (xdev : PlxDevice) (a : Nat) : Nat :=
  aLutReMap xdev.aLutArrayBase xdev.mmio (a / xdev.aLutManager.segmentSize)
    + a % xdev.aLutManager.segmentSize

end Vcass.Alut
