import Mathlib.Data.List.Nodup
import Vcass.Eeprom.Image

/-!
# Writing the EEPROM

`plx_update_eeprom` writes an accepted image word by word and reads each word back.  The last word of
an image may have two bytes only; it is put into its cell by reading, changing and writing the cell.

The chip is a parameter: a type of states with the answers of the registers.  A command may fail at any
time, and nothing is assumed about what is read, so that `updateLoop_ends` is about every behaviour of
the EEPROM.  The offset is a `u16`; for one of the accepted sizes, and for no other, it never gets past
the end of the image (`update_ends_iff`, `update_never_ends`).
-/

namespace Vcass.Eeprom

open Vcass.Core

universe u

/-! ## The chip -/

/-- The commands that carry an address -/
inductive EepCmd where
  /-- `PLX_EEP_CMD_READ` -/
  | read
  /-- `PLX_EEP_CMD_WRITE_ENABLE` -/
  | writeEnable
  /-- `PLX_EEP_CMD_WRITE` -/
  | write

/-- The fields of `struct plx_eep_status_register` that are set for a command -/
structure EepStatus where
  eepCmd : EepCmd
  eepBlkAddr : BitVec 13
  eepBlkAddrUpperBit : BitVec 1

/-- The registers of the chip, with the states `σ` of the chip and its EEPROM -/
structure Chip (σ : Type u) where
  /-- `eeprom_wait_for_access_ready` -/
  waitForAccessReady : σ → EepRetval × σ
  /-- `eeprom_send_cmd` -/
  sendCmd : EepStatus → σ → EepRetval × σ
  /-- `PLX_EEP_BUFFER` -/
  buffer : σ → BitVec 32
  setBuffer : BitVec 32 → σ → σ
  /-- `PLX_EEP_ADDRESS_BYTE` -/
  addressByte : σ → BitVec 32
  setAddressByte : BitVec 32 → σ → σ

section

variable {σ : Type u} (chip : Chip σ)

/-- The cell of an offset, cut off to the width of `eep_blk_addr` -/
def blkAddr (offset : Nat) : BitVec 13 := BitVec.ofNat 13 (offset / 4)

/-- `eeprom_read32`; the value is 0 when it fails. -/
def eepromRead32 (offset : Nat) (s : σ) : EepRetval × BitVec 32 × σ :=
  match chip.waitForAccessReady s with
  | (.statusOk, s) =>
    match chip.sendCmd ⟨.read, blkAddr offset, 0⟩ s with
    | (.statusOk, s) => (.statusOk, chip.buffer s, s)
    | (ret, s) => (ret, 0, s)
  | (ret, s) => (ret, 0, s)

/-- `eeprom_read16` -/
def eepromRead16 (offset : Nat) (s : σ) : EepRetval × BitVec 16 × σ :=
  match eepromRead32 chip (offset / 4 * 4) s with
  | (.statusOk, value32, s) =>
    (.statusOk, if offset % 4 ≠ 0 then (value32 >>> 16).setWidth 16 else value32.setWidth 16, s)
  | (ret, _, s) => (ret, 0, s)

/-- `eeprom_write32` -/
def eepromWrite32 (offset : Nat) (value32 : BitVec 32) (s : σ) : EepRetval × σ :=
  match chip.waitForAccessReady s with
  | (.statusOk, s) =>
    match chip.sendCmd ⟨.writeEnable, 0, 0⟩ s with
    | (.statusOk, s) => chip.sendCmd ⟨.write, blkAddr offset, 0⟩ (chip.setBuffer value32 s)
    | (ret, s) => (ret, s)
  | (ret, s) => (ret, s)

/-- `eeprom_write16` -/
def eepromWrite16 (offset : Nat) (value16 : BitVec 16) (s : σ) : EepRetval × σ :=
  match eepromRead32 chip (offset / 4 * 4) s with
  | (.statusOk, value32, s) =>
    let value32 :=
      if offset % 4 ≠ 0 then (value16.setWidth 32 <<< 16) ||| (value32 &&& 0xFFFF#32)
      else value16.setWidth 32 ||| (value32 &&& 0xFFFF0000#32)
    eepromWrite32 chip (offset / 4 * 4) value32 s
  | (ret, _, s) => (ret, s)

end

/-! ## The loop -/

inductive Turn (σ : Type u) where
  | next (s : σ)
  /-- the loop is left with a result -/
  | leave (ret : EepRetval) (s : σ)

section

variable {σ : Type u} (chip : Chip σ) (eepromData : Bytes) (eepromSize : Nat)

/-- The last two bytes are written and read back. -/
def updateTail (offset : Nat) (s : σ) : Turn σ :=
  let value16 := BitVec.ofNat 16 (eepromData.le offset 2)
  match eepromWrite16 chip offset value16 s with
  | (.statusOk, s) =>
    match eepromRead16 chip offset s with
    | (.statusOk, verifyValue16, s) =>
      if value16 ≠ verifyValue16 then .leave .internalError s else .leave .statusOk s
    | (ret, _, s) => .leave ret s
  | (ret, s) => .leave ret s

def updateWord (offset : Nat) (s : σ) : Turn σ :=
  let value32 := BitVec.ofNat 32 (eepromData.le offset 4)
  match eepromWrite32 chip offset value32 s with
  | (.statusOk, s) =>
    match eepromRead32 chip offset s with
    | (.statusOk, verifyValue32, s) =>
      if value32 ≠ verifyValue32 then .leave .internalError s else .next s
    | (ret, _, s) => .leave ret s
  | (ret, s) => .leave ret s

def updateTurn (offset : Nat) (s : σ) : Turn σ :=
  if eepromSize - offset = 2 then updateTail chip eepromData offset s
  else updateWord chip eepromData offset s

/-- The loop, for at most `fuel` turns: its result, the state, and (for the history) the offsets of its
turns.  The offset is a `u16`. -/
def updateLoop : Nat → Nat → List Nat → σ → Option (EepRetval × σ × List Nat)
  | fuel, offset, visited, s =>
    if offset < eepromSize then
      match fuel with
      | 0 => none
      | fuel + 1 =>
        match updateTurn chip eepromData eepromSize offset s with
        | .leave ret s => some (ret, s, visited ++ [offset])
        | .next s => updateLoop fuel ((offset + 4) % 2 ^ 16) (visited ++ [offset]) s
    else some (.statusOk, s, visited)

/-- `plx_update_eeprom` -/
def plxUpdateEeprom (fuel : Nat) (s : σ) : Option (EepRetval × σ × List Nat) :=
  match eepromValidate eepromData eepromSize with
  | .statusOk =>
    let reg := chip.addressByte s
    let s :=
      if reg &&& 0x3#32 ≠ 0#32 then chip.setAddressByte (reg &&& (0xFF00#32 ||| 0xFFFF0000#32)) s
      else s
    updateLoop chip eepromData eepromSize fuel 0 [] s
  | ret => some (ret, s, [])

end

/-! ## Termination -/

section

variable {σ : Type u} {chip : Chip σ} {eepromData : Bytes} {eepromSize : Nat} {offset : Nat}

theorem updateLoop_done (h : ¬ offset < eepromSize) (fuel : Nat) (visited : List Nat)
    (s : σ) :
    updateLoop chip eepromData eepromSize fuel offset visited s = some (.statusOk, s, visited) := by
  cases fuel <;> rw [updateLoop, if_neg h]

theorem updateLoop_next (h : offset < eepromSize) {s s' : σ}
    (hturn : updateTurn chip eepromData eepromSize offset s = .next s') (fuel : Nat)
    (visited : List Nat) :
    updateLoop chip eepromData eepromSize (fuel + 1) offset visited s =
      updateLoop chip eepromData eepromSize fuel ((offset + 4) % 2 ^ 16) (visited ++ [offset]) s' := by
  rw [updateLoop, if_pos h]
  simp only [hturn]

theorem updateLoop_leave (h : offset < eepromSize) {s s' : σ} {ret : EepRetval}
    (hturn : updateTurn chip eepromData eepromSize offset s = .leave ret s') (fuel : Nat)
    (visited : List Nat) :
    updateLoop chip eepromData eepromSize (fuel + 1) offset visited s =
      some (ret, s', visited ++ [offset]) := by
  rw [updateLoop, if_pos h]
  simp only [hturn]

theorem tail_leaves {s s' : σ}
    (h : updateTurn chip eepromData eepromSize offset s = .next s') : eepromSize - offset ≠ 2 := by
  intro htail
  rw [updateTurn, if_pos htail, updateTail] at h
  split at h
  · split at h
    · split at h <;> cases h
    · cases h
  · cases h

theorem updateWord_ne_ok (s s' : σ) :
    updateWord chip eepromData offset s ≠ .leave .statusOk s' := by
  intro h
  unfold updateWord at h
  simp only at h
  split at h
  case h_1 =>
    split at h
    case h_1 => split at h <;> cases h
    case h_2 ret value s₂ hne hread =>
      cases h
      exact hne rfl
  case h_2 ret s₁ hne hwrite =>
    cases h
    exact hne rfl

/-- The offsets of the first `n` turns -/
def offsets (n : Nat) : List Nat := (List.range n).map (4 * ·)

theorem offsets_succ (n : Nat) : offsets (n + 1) = offsets n ++ [4 * n] := by
  rw [offsets, List.range_succ, List.map_append]
  rfl

/-- **The loop ends, whatever the EEPROM does**: the size is even, and no offset wraps. -/
theorem updateLoop_ends (heven : 2 ∣ eepromSize) (hwrap : eepromSize < 2 ^ 16) {fuel n : Nat}
    (hfuel : eepromSize ≤ 4 * n + 4 * fuel) (hn : 4 * n ≤ eepromSize + 2) (s : σ) :
    ∃ ret s' n', updateLoop chip eepromData eepromSize fuel (4 * n) (offsets n) s =
        some (ret, s', offsets n') ∧ 4 * n' ≤ eepromSize + 2 := by
  induction fuel generalizing n s with
  | zero =>
    rw [updateLoop_done (by omega)]
    exact ⟨_, _, n, rfl, hn⟩
  | succ fuel ih =>
    by_cases hmore : 4 * n < eepromSize
    · -- an even number of bytes is left, and so at least two
      have hleft : 4 * (n + 1) ≤ eepromSize + 2 := by omega
      cases hturn : updateTurn chip eepromData eepromSize (4 * n) s with
      | leave ret s' =>
        rw [updateLoop_leave hmore hturn, ← offsets_succ]
        exact ⟨_, _, n + 1, rfl, hleft⟩
      | next s' =>
        have hword := tail_leaves hturn
        have hnext : (4 * n + 4) % 2 ^ 16 = 4 * (n + 1) := by omega
        rw [updateLoop_next hmore hturn, ← offsets_succ, hnext]
        exact ih (by omega) hleft s'
    · rw [updateLoop_done hmore]
      exact ⟨_, _, n, rfl, hn⟩

/-- **The update ends after at most `eeprom_size / 4 + 1` turns**, whatever the EEPROM does, and no
offset is visited twice.  One size is left out, the largest that is accepted. -/
theorem update_ends (chip : Chip σ) (h : eepromValidate eepromData eepromSize = .statusOk)
    (hsize : configurationSize eepromData ≠ 65532) (s : σ) :
    ∃ ret s' visited,
      plxUpdateEeprom chip eepromData eepromSize (eepromSize / 4 + 1) s = some (ret, s', visited) ∧
        visited.Nodup ∧ visited.length ≤ eepromSize / 4 + 1 ∧
        ∀ offset ∈ visited, 4 ∣ offset ∧ offset < eepromSize := by
  have hacc := eepromValidate_iff.mp h
  obtain ⟨n, hn, hform, hle⟩ := hacc.sizes
  have hconf := hacc.size
  have hstart : ∀ s : σ, ∃ ret s' n',
      updateLoop chip eepromData eepromSize (eepromSize / 4 + 1) 0 [] s =
        some (ret, s', offsets n') ∧ 4 * n' ≤ eepromSize + 2 :=
    fun s => updateLoop_ends (n := 0) (by omega) (by omega) (by omega) (by omega) s
  unfold plxUpdateEeprom
  rw [h]
  simp only
  -- the loop ends from whatever state the address byte is left in
  obtain ⟨ret, s', n', hloop, hbound⟩ := hstart
    (if chip.addressByte s &&& 0x3#32 ≠ 0#32 then
      chip.setAddressByte (chip.addressByte s &&& (0xFF00#32 ||| 0xFFFF0000#32)) s
    else s)
  refine ⟨ret, s', offsets n', hloop, ?_, ?_, ?_⟩
  · exact List.nodup_range.map fun a b hab => Nat.eq_of_mul_eq_mul_left (by decide) hab
  · rw [offsets, List.length_map, List.length_range]
    omega
  · intro offset hoffset
    obtain ⟨j, hj, rfl⟩ := List.mem_map.mp hoffset
    rw [List.mem_range] at hj
    exact ⟨Nat.dvd_mul_right 4 j, by omega⟩

end

/-! ## An EEPROM that does what it is told -/

/-- The number of the cell that a command addresses -/
def EepStatus.cell (status : EepStatus) : Nat :=
  status.eepBlkAddrUpperBit.toNat * 2 ^ 13 + status.eepBlkAddr.toNat

/-- Cells of 32 bits, and the registers -/
structure EepromMem where
  cells : Nat → BitVec 32
  buffer : BitVec 32
  addressByte : BitVec 32

/-- Every command takes effect. -/
def memChip : Chip EepromMem where
  waitForAccessReady s := (.statusOk, s)
  sendCmd status s :=
    match status.eepCmd with
    | .read => (.statusOk, { s with buffer := s.cells status.cell })
    | .writeEnable => (.statusOk, s)
    | .write => (.statusOk, { s with cells := Function.update s.cells status.cell s.buffer })
  buffer s := s.buffer
  setBuffer value s := { s with buffer := value }
  addressByte s := s.addressByte
  setAddressByte value s := { s with addressByte := value }

/-- The cell that the driver addresses for an offset: the upper address bit is 0. -/
def cellOf (offset : Nat) : Nat := offset / 4 % 2 ^ 13

theorem cell_blkAddr (cmd : EepCmd) (offset : Nat) :
    EepStatus.cell ⟨cmd, blkAddr offset, 0⟩ = cellOf offset := by
  have hzero : (0 : BitVec 1).toNat = 0 := rfl
  rw [EepStatus.cell, blkAddr, cellOf, BitVec.toNat_ofNat, hzero, Nat.zero_mul, Nat.zero_add]

theorem eepromWrite32_memChip (offset : Nat) (value : BitVec 32) (s : EepromMem) :
    eepromWrite32 memChip offset value s =
      (.statusOk,
        { s with cells := Function.update s.cells (cellOf offset) value, buffer := value }) := by
  rw [← cell_blkAddr .write]
  rfl

theorem eepromRead32_memChip (offset : Nat) (s : EepromMem) :
    eepromRead32 memChip offset s =
      (.statusOk, s.cells (cellOf offset), { s with buffer := s.cells (cellOf offset) }) := by
  rw [← cell_blkAddr .read]
  rfl

theorem updateWord_memChip (eepromData : Bytes) (offset : Nat) (s : EepromMem) :
    updateWord memChip eepromData offset s =
      .next
        { s with
          cells := Function.update s.cells (cellOf offset)
            (BitVec.ofNat 32 (eepromData.le offset 4))
          buffer := BitVec.ofNat 32 (eepromData.le offset 4) } := by
  unfold updateWord
  simp only [eepromWrite32_memChip, eepromRead32_memChip, Function.update_self, ne_eq,
    not_true_eq_false, if_false]

/-- With 65540 bytes the loop comes round for ever: the offset wraps before it reaches the last two
bytes. -/
theorem updateLoop_endless (eepromData : Bytes) (fuel : Nat) {offset : Nat} (haligned : 4 ∣ offset)
    (hlt : offset < 2 ^ 16) (visited : List Nat) (s : EepromMem) :
    updateLoop memChip eepromData 65540 fuel offset visited s = none := by
  induction fuel generalizing offset visited s with
  | zero => rw [updateLoop, if_pos (by omega)]
  | succ fuel ih =>
    have hturn := updateWord_memChip eepromData offset s
    have hword : updateTurn memChip eepromData 65540 offset s =
        updateWord memChip eepromData offset s := if_neg (by omega)
    rw [updateLoop_next (by omega) (hword.trans hturn)]
    exact ih (by omega) (Nat.mod_lt _ (by decide)) _ _

/-- The header of an image with `n` pairs, and zeros -/
def zeroImage (n : Nat) : Bytes := fun k =>
  if k = 0 then plxEepValidationHeader
  else if k = 2 then UInt8.ofNat (6 * n)
  else if k = 3 then UInt8.ofNat (6 * n / 256)
  else 0

theorem configurationSize_zeroImage {n : Nat} (hn : 6 * n < 2 ^ 16) :
    configurationSize (zeroImage n) = 6 * n := by
  have hlow : (zeroImage n 2).toNat = 6 * n % 256 := UInt8.toNat_ofNat'
  have hhigh : (zeroImage n 3).toNat = 6 * n / 256 % 256 := UInt8.toNat_ofNat'
  simp only [configurationSize, Bytes.le, hlow, hhigh]
  omega

/-- An image with `n` pairs of zeros that is accepted -/
theorem accepted_zeroImage {n eepromSize : Nat} (hpos : 0 < n) (hn : 6 * n < 2 ^ 16)
    (hsize : 6 * n + 8 = eepromSize) :
    Accepted (withCrc (zeroImage n) eepromSize) eepromSize := by
  subst hsize
  exact accepted_withCrc hpos (configurationSize_zeroImage hn) rfl

theorem update_endless {eepromData : Bytes}
    (h : eepromValidate eepromData 65540 = .statusOk) (fuel : Nat) (s : EepromMem) :
    plxUpdateEeprom memChip eepromData 65540 fuel s = none := by
  unfold plxUpdateEeprom
  rw [h]
  exact updateLoop_endless eepromData fuel (Nat.dvd_zero 4) (by decide) [] _

/-- **The update ends after at most `eeprom_size / 4 + 1` turns**, whatever the EEPROM does, and no
offset is visited twice, for exactly those accepted images that are not of the largest size. -/
theorem update_ends_iff {eepromData : Bytes} {eepromSize : Nat}
    (h : eepromValidate eepromData eepromSize = .statusOk) :
    (∀ (σ : Type) (chip : Chip σ) (s : σ), ∃ ret s' visited,
      plxUpdateEeprom chip eepromData eepromSize (eepromSize / 4 + 1) s = some (ret, s', visited) ∧
        visited.Nodup ∧ visited.length ≤ eepromSize / 4 + 1 ∧
        ∀ offset ∈ visited, 4 ∣ offset ∧ offset < eepromSize) ↔
      configurationSize eepromData ≠ 65532 := by
  refine ⟨fun hends hlargest => ?_, fun hsize σ chip s => update_ends chip h hsize s⟩
  obtain rfl : eepromSize = 65540 := by
    have hsize := (eepromValidate_iff.mp h).size
    omega
  obtain ⟨_, _, _, hupdate, _⟩ := hends EepromMem memChip ⟨fun _ => 0, 0, 0⟩
  rw [update_endless h] at hupdate
  cases hupdate

/-- Two pairs: five turns, the last one for two bytes of the CRC -/
theorem update_ends_twoPairs :
    ∃ ret s' visited,
      plxUpdateEeprom memChip (withCrc (zeroImage 2) 20) 20 6 ⟨fun _ => 0, 0, 3⟩ =
        some (ret, s', visited) ∧ visited.Nodup := by
  have hacc := accepted_zeroImage (n := 2) (by decide) (by decide) rfl
  have hsize := hacc.size
  obtain ⟨ret, s', visited, hupdate, hnodup, _⟩ :=
    (update_ends_iff (eepromValidate_iff.mpr hacc)).mpr (by omega) EepromMem memChip
      ⟨fun _ => 0, 0, 3⟩
  exact ⟨ret, s', visited, hupdate, hnodup⟩

/-- **An update that never ends**: the largest accepted image, and an EEPROM whose commands all
succeed. -/
theorem update_never_ends :
    ∃ eepromData, eepromValidate eepromData 65540 = .statusOk ∧
      ∀ fuel s, plxUpdateEeprom memChip eepromData 65540 fuel s = none := by
  have hsize : 6 * 10922 + 8 = 65540 := rfl
  have hvalid := eepromValidate_iff.mpr (accepted_zeroImage (by decide) (by decide) hsize)
  exact ⟨_, hvalid, update_endless hvalid⟩

end Vcass.Eeprom
