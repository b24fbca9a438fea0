import Vcass.Core.Words
import Vcass.Eeprom.Update

/-!
# What Is in the EEPROM after an Update

`plx_update_eeprom` reads each word back, but through the address that it has written to.  The address
of a cell has 13 bits, and the upper bit is always 0: from 32768 bytes on, the words of an image go to
the cells of its begin, and are read back from there.

`Succeeds` is a run of the loop that returns `PLX_EEP_STATUS_OK`, turn by turn.  For an image that fits,
such a run has written the image and nothing else, and for no larger one (`update_writes_image_iff`):
the begin of the image is lost (`first_cell_overwritten`), and the update is reported as successful all
the same (`update_loses_begin`).
-/

namespace Vcass.Eeprom

open Vcass.Core Function BitVec Bytes

universe u

/-! ## The EEPROM -/

/-- **A chip with an EEPROM of 32-bit cells**: a command takes effect, or it returns an error. -/
structure IsEeprom {σ : Type u} (chip : Chip σ) (cells : σ → Nat → BitVec 32) : Prop where
  wait : ∀ s, cells (chip.waitForAccessReady s).2 = cells s
  read : ∀ status s s', status.eepCmd = .read → chip.sendCmd status s = (.statusOk, s') →
    cells s' = cells s ∧ chip.buffer s' = cells s status.cell
  writeEnable : ∀ status s s', status.eepCmd = .writeEnable →
    chip.sendCmd status s = (.statusOk, s') → cells s' = cells s
  write : ∀ status s s', status.eepCmd = .write → chip.sendCmd status s = (.statusOk, s') →
    cells s' = Function.update (cells s) status.cell (chip.buffer s)
  setBuffer : ∀ value s, cells (chip.setBuffer value s) = cells s ∧
    chip.buffer (chip.setBuffer value s) = value
  setAddressByte : ∀ value s, cells (chip.setAddressByte value s) = cells s

theorem isEeprom_memChip : IsEeprom memChip EepromMem.cells where
  wait _ := rfl
  read := by
    rintro ⟨cmd, addr, upper⟩ s s' rfl h
    cases h
    exact ⟨rfl, rfl⟩
  writeEnable := by
    rintro ⟨cmd, addr, upper⟩ s s' rfl h
    cases h
    rfl
  write := by
    rintro ⟨cmd, addr, upper⟩ s s' rfl h
    cases h
    rfl
  setBuffer _ _ := ⟨rfl, rfl⟩
  setAddressByte _ _ := rfl

/-- Byte `k` of the EEPROM, in cell `k / 4` -/
def byteAt (cells : Nat → BitVec 32) (k : Nat) : UInt8 :=
  UInt8.ofNat ((cells (k / 4)).toNat / 256 ^ (k % 4))

/-! ## Accesses that succeed -/

section

variable {σ : Type u} {chip : Chip σ} {cells : σ → Nat → BitVec 32} (hchip : IsEeprom chip cells)
include hchip

variable {offset : Nat} {s s' : σ}

theorem eepromRead32_ok {value : BitVec 32}
    (h : eepromRead32 chip offset s = (.statusOk, value, s')) :
    cells s' = cells s ∧ value = cells s (cellOf offset) := by
  have hwait := hchip.wait s
  unfold eepromRead32 at h
  split at h
  case h_1 s₁ hready =>
    rw [hready] at hwait
    split at h
    case h_1 s₂ hsend =>
      cases h
      obtain ⟨hcells, hbuffer⟩ := hchip.read _ _ _ rfl hsend
      rw [cell_blkAddr] at hbuffer
      exact ⟨hcells.trans hwait, hbuffer.trans (congrFun hwait _)⟩
    case h_2 ret s₂ hne hsend =>
      cases h
      exact (hne rfl).elim
  case h_2 ret s₁ hne hready =>
    cases h
    exact (hne rfl).elim

theorem eepromWrite32_ok {value : BitVec 32}
    (h : eepromWrite32 chip offset value s = (.statusOk, s')) :
    cells s' = update (cells s) (cellOf offset) value := by
  have hwait := hchip.wait s
  unfold eepromWrite32 at h
  split at h
  case h_1 s₁ hready =>
    rw [hready] at hwait
    split at h
    case h_1 s₂ henable =>
      have hcells := hchip.writeEnable _ _ _ rfl henable
      obtain ⟨hsame, hbuffer⟩ := hchip.setBuffer value s₂
      have hwrite := hchip.write _ _ _ rfl h
      rw [cell_blkAddr, hsame, hbuffer, hcells] at hwrite
      exact hwrite.trans (by rw [← hwait])
    case h_2 ret s₂ hne henable =>
      cases h
      exact (hne rfl).elim
  case h_2 ret s₁ hne hready =>
    cases h
    exact (hne rfl).elim

theorem updateWord_next {eepromData : Bytes} (h : updateWord chip eepromData offset s = .next s') :
    cells s' = update (cells s) (cellOf offset)
      (BitVec.ofNat 32 (eepromData.le offset 4)) := by
  unfold updateWord at h
  simp only at h
  split at h
  case h_1 s₁ hwrite =>
    split at h
    case h_1 value s₂ hread =>
      split at h
      · cases h
      · cases h
        exact (eepromRead32_ok hchip hread).1.trans (eepromWrite32_ok hchip hwrite)
    case h_2 => cases h
  case h_2 => cases h

theorem updateTail_ok {eepromData : Bytes} (haligned : 4 ∣ offset)
    (h : updateTail chip eepromData offset s = .leave .statusOk s') :
    cells s' = update (cells s) (cellOf offset)
      ((BitVec.ofNat 16 (eepromData.le offset 2)).setWidth 32 |||
        (cells s (cellOf offset) &&& 0xFFFF0000#32)) := by
  have hplace : offset / 4 * 4 = offset := Nat.div_mul_cancel haligned
  have hlow : ¬ offset % 4 ≠ 0 := not_not.mpr (Nat.mod_eq_zero_of_dvd haligned)
  unfold updateTail at h
  simp only at h
  split at h
  case h_1 s₁ hwrite =>
    -- what was read before the write is the old cell
    have hcells : cells s₁ = update (cells s) (cellOf offset)
        ((BitVec.ofNat 16 (eepromData.le offset 2)).setWidth 32 |||
          (cells s (cellOf offset) &&& 0xFFFF0000#32)) := by
      unfold eepromWrite16 at hwrite
      rw [hplace] at hwrite
      split at hwrite
      case h_1 value s₀ hread =>
        obtain ⟨hsame, hvalue⟩ := eepromRead32_ok hchip hread
        rw [if_neg hlow] at hwrite
        rw [eepromWrite32_ok hchip hwrite, hsame, hvalue]
      case h_2 ret value s₀ hne hread =>
        cases hwrite
        exact (hne rfl).elim
    split at h
    case h_1 verify s₂ hread =>
      split at h
      · cases h
      · cases h
        -- reading back does not change the cells
        have hsame : cells s' = cells s₁ := by
          unfold eepromRead16 at hread
          split at hread
          case h_1 value s₃ hread32 =>
            cases hread
            exact (eepromRead32_ok hchip hread32).1
          case h_2 ret value s₃ hne hread32 =>
            cases hread
            exact (hne rfl).elim
        rw [hsame, hcells]
    case h_2 ret value s₂ hne hread =>
      cases h
      exact (hne rfl).elim
  case h_2 ret s₁ hne hwrite =>
    cases h
    exact (hne rfl).elim

end

/-! ## Bytes of cells -/

variable {cells : Nat → BitVec 32}

theorem byteAt_of_ne {c k : Nat} (value : BitVec 32) (h : k / 4 ≠ c) :
    byteAt (update cells c value) k = byteAt cells k := by
  rw [byteAt, byteAt, update_of_ne h]

theorem byteAt_word (eepromData : Bytes) {offset k : Nat}
    (haligned : 4 ∣ offset) (hk : k / 4 = offset / 4) :
    byteAt (update cells (offset / 4) (BitVec.ofNat 32 (eepromData.le offset 4))) k =
      eepromData k := by
  have hlt := le_lt eepromData offset 4
  have hdigit := le_digit eepromData offset (n := 4) (Nat.mod_lt k (by decide))
  have hplace : offset + k % 4 = k := by omega
  rw [hplace] at hdigit
  apply UInt8.toNat_inj.mp
  rw [byteAt, hk, update_self, UInt8.toNat_ofNat', toNat_ofNat,
    Nat.mod_eq_of_lt (lt_of_lt_of_le hlt (by decide))]
  exact hdigit

theorem toNat_replaceLow (value : BitVec 16) (old : BitVec 32) :
    (value.setWidth 32 ||| (old &&& 0xFFFF0000#32)).toNat =
      old.toNat / 2 ^ 16 * 2 ^ 16 + value.toNat := by
  have hmask : (0xFFFF0000#32 : BitVec 32).toNat = 2 ^ 32 - 2 ^ 16 := rfl
  have hvalue : (value.setWidth 32).toNat = value.toNat := by
    rw [toNat_setWidth]
    exact Nat.mod_eq_of_lt (lt_of_lt_of_le value.isLt (by decide))
  rw [toNat_or, toNat_and, hvalue, hmask, and_high_mask old.isLt (by decide),
    Nat.or_comm, or_field value.isLt]

theorem byteAt_tail (eepromData : Bytes) {offset k : Nat}
    (haligned : 4 ∣ offset) (hk : k / 4 = offset / 4) :
    byteAt (update cells (offset / 4)
        ((BitVec.ofNat 16 (eepromData.le offset 2)).setWidth 32 |||
          (cells (offset / 4) &&& 0xFFFF0000#32))) k =
      if k < offset + 2 then eepromData k else byteAt cells k := by
  have hlt : eepromData.le offset 2 < 2 ^ 16 := le_lt eepromData offset 2
  have hold := (cells (offset / 4)).isLt
  have hvalue : (BitVec.ofNat 16 (eepromData.le offset 2)).toNat = eepromData.le offset 2 := by
    rw [toNat_ofNat]
    exact Nat.mod_eq_of_lt hlt
  apply UInt8.toNat_inj.mp
  rw [byteAt, hk, update_self, toNat_replaceLow, hvalue, UInt8.toNat_ofNat']
  by_cases hlow : k < offset + 2
  · have hdigit := le_digit eepromData offset (n := 2) (k := k % 4) (by omega)
    have hplace : offset + k % 4 = k := by omega
    rw [hplace] at hdigit
    rw [if_pos hlow, ← hdigit]
    -- the byte is the first or the second of the cell
    obtain hzero | hone : k % 4 = 0 ∨ k % 4 = 1 := by omega
    · rw [hzero, Nat.pow_zero, Nat.div_one, Nat.div_one]
      omega
    · rw [hone, Nat.pow_one]
      omega
  · rw [if_neg hlow, byteAt, hk, UInt8.toNat_ofNat']
    -- the byte is the third or the fourth
    obtain htwo | hthree : k % 4 = 2 ∨ k % 4 = 3 := by omega
    · rw [htwo]
      omega
    · rw [hthree]
      omega

/-! ## Runs that succeed -/

section

variable {σ : Type u}

/-- **The loop returns `PLX_EEP_STATUS_OK`** in state `s'`, from an offset on. -/
inductive Succeeds (chip : Chip σ) (eepromData : Bytes) (eepromSize : Nat) : Nat → σ → σ → Prop
  | done {offset : Nat} {s : σ} (h : ¬ offset < eepromSize) :
    Succeeds chip eepromData eepromSize offset s s
  | tail {offset : Nat} {s s' : σ} (h : eepromSize - offset = 2)
    (hturn : updateTail chip eepromData offset s = .leave .statusOk s') :
    Succeeds chip eepromData eepromSize offset s s'
  | word {offset : Nat} {s s₁ s' : σ} (hmore : offset < eepromSize) (h : eepromSize - offset ≠ 2)
    (hturn : updateWord chip eepromData offset s = .next s₁)
    (hrest : Succeeds chip eepromData eepromSize ((offset + 4) % 2 ^ 16) s₁ s') :
    Succeeds chip eepromData eepromSize offset s s'

variable {chip : Chip σ} {eepromData : Bytes} {eepromSize : Nat} {s s' : σ}

theorem succeeds_of_updateLoop {fuel offset : Nat} {visited visited' : List Nat}
    (h : updateLoop chip eepromData eepromSize fuel offset visited s =
      some (.statusOk, s', visited')) :
    Succeeds chip eepromData eepromSize offset s s' := by
  induction fuel generalizing offset visited s with
  | zero =>
    by_cases hmore : offset < eepromSize
    · rw [updateLoop, if_pos hmore] at h
      cases h
    · rw [updateLoop_done hmore] at h
      cases h
      exact .done hmore
  | succ fuel ih =>
    by_cases hmore : offset < eepromSize
    · cases hturn : updateTurn chip eepromData eepromSize offset s with
      | next s₁ =>
        have hword := tail_leaves hturn
        rw [updateLoop_next hmore hturn] at h
        rw [updateTurn, if_neg hword] at hturn
        exact .word hmore hword hturn (ih h)
      | leave ret s₁ =>
        rw [updateLoop_leave hmore hturn] at h
        cases h
        by_cases htail : eepromSize - offset = 2
        · rw [updateTurn, if_pos htail] at hturn
          exact .tail htail hturn
        · -- a word that leaves the loop has failed
          rw [updateTurn, if_neg htail] at hturn
          exact absurd hturn (updateWord_ne_ok s s')
    · rw [updateLoop_done hmore] at h
      cases h
      exact .done hmore

theorem succeeds_of_update {cells : σ → Nat → BitVec 32} (hchip : IsEeprom chip cells)
    (h : eepromValidate eepromData eepromSize = .statusOk) {fuel : Nat} {visited : List Nat}
    (hupdate : plxUpdateEeprom chip eepromData eepromSize fuel s = some (.statusOk, s', visited)) :
    ∃ s₀, cells s₀ = cells s ∧ Succeeds chip eepromData eepromSize 0 s₀ s' := by
  unfold plxUpdateEeprom at hupdate
  rw [h] at hupdate
  refine ⟨_, ?_, succeeds_of_updateLoop hupdate⟩
  split
  · exact hchip.setAddressByte _ _
  · rfl

end

/-! ## Main results -/

section

variable {eepromData : Bytes} {eepromSize : Nat}

/-- The first `offset` bytes are those of the image, and the others are as they were. -/
structure WrittenTo (cells₀ cells : Nat → BitVec 32) (eepromData : Bytes) (offset : Nat) : Prop where
  written : ∀ k < offset, byteAt cells k = eepromData k
  kept : ∀ k, offset ≤ k → byteAt cells k = byteAt cells₀ k

variable {offset : Nat} {cells₀ cells cells' : Nat → BitVec 32}

theorem WrittenTo.word
    (h : WrittenTo cells₀ cells eepromData offset) (haligned : 4 ∣ offset) (hlt : offset < 32768)
    (hcells : cells' = update cells (cellOf offset)
      (BitVec.ofNat 32 (eepromData.le offset 4))) :
    WrittenTo cells₀ cells' eepromData (offset + 4) := by
  have hcell : cellOf offset = offset / 4 := Nat.mod_eq_of_lt (by omega)
  rw [hcell] at hcells
  subst hcells
  constructor
  · intro k hk
    by_cases hin : k / 4 = offset / 4
    · exact byteAt_word eepromData haligned hin
    · rw [byteAt_of_ne _ hin]
      exact h.written k (by omega)
  · intro k hk
    rw [byteAt_of_ne _ (by omega)]
    exact h.kept k (by omega)

theorem WrittenTo.tail
    (h : WrittenTo cells₀ cells eepromData offset) (haligned : 4 ∣ offset) (hlt : offset < 32768)
    (hcells : cells' = update cells (cellOf offset)
      ((BitVec.ofNat 16 (eepromData.le offset 2)).setWidth 32 |||
        (cells (cellOf offset) &&& 0xFFFF0000#32))) :
    WrittenTo cells₀ cells' eepromData (offset + 2) := by
  have hcell : cellOf offset = offset / 4 := Nat.mod_eq_of_lt (by omega)
  rw [hcell] at hcells
  subst hcells
  constructor
  · intro k hk
    by_cases hin : k / 4 = offset / 4
    · rw [byteAt_tail eepromData haligned hin, if_pos hk]
    · rw [byteAt_of_ne _ hin]
      exact h.written k (by omega)
  · intro k hk
    by_cases hin : k / 4 = offset / 4
    · rw [byteAt_tail eepromData haligned hin, if_neg (by omega)]
      exact h.kept k (by omega)
    · rw [byteAt_of_ne _ hin]
      exact h.kept k (by omega)

variable {σ : Type u} {chip : Chip σ} {cells : σ → Nat → BitVec 32} (hchip : IsEeprom chip cells)
include hchip

variable {s s' : σ}

/-- **The loop writes the image**, if no offset wraps in the address of a cell. -/
theorem Succeeds.writes
    (h : Succeeds chip eepromData eepromSize offset s s') (hfits : eepromSize ≤ 32768)
    (heven : 2 ∣ eepromSize) (haligned : 4 ∣ offset) (hle : offset ≤ eepromSize)
    {cells₀ : Nat → BitVec 32} (hwritten : WrittenTo cells₀ (cells s) eepromData offset) :
    WrittenTo cells₀ (cells s') eepromData eepromSize := by
  induction h with
  | @done offset s hdone =>
    obtain rfl : offset = eepromSize := by omega
    exact hwritten
  | @tail offset s s' htail hturn =>
    have hsize : eepromSize = offset + 2 := by omega
    rw [hsize]
    exact hwritten.tail haligned (by omega) (updateTail_ok hchip haligned hturn)
  | @word offset s s₁ s' hmore hword hturn _ ih =>
    -- an even number of bytes is left, and more than two
    have hnext : (offset + 4) % 2 ^ 16 = offset + 4 := Nat.mod_eq_of_lt (by omega)
    rw [hnext] at ih
    exact ih (by omega) (by omega)
      (hwritten.word haligned (by omega) (updateWord_next hchip hturn))

/-- **A successful update has written the image, and nothing else**, if the image has at most 32768
bytes. -/
theorem update_writes_image (h : eepromValidate eepromData eepromSize = .statusOk)
    (hfits : eepromSize ≤ 32768) {fuel : Nat} {s s' : σ} {visited : List Nat}
    (hupdate : plxUpdateEeprom chip eepromData eepromSize fuel s = some (.statusOk, s', visited)) :
    (∀ k < eepromSize, byteAt (cells s') k = eepromData k) ∧
      ∀ k, eepromSize ≤ k → byteAt (cells s') k = byteAt (cells s) k := by
  obtain ⟨n, _, hsize, _⟩ := (eepromValidate_iff.mp h).sizes
  obtain ⟨s₀, hsame, hrun⟩ := succeeds_of_update hchip h hupdate
  have hstart : WrittenTo (cells s) (cells s₀) eepromData 0 := by
    rw [hsame]
    exact ⟨fun k hk => absurd hk (Nat.not_lt_zero k), fun _ _ => rfl⟩
  have hdone := hrun.writes hchip hfits (by omega) (Nat.dvd_zero 4) (Nat.zero_le _) hstart
  exact ⟨hdone.written, hdone.kept⟩

omit hchip in
theorem Succeeds.size_ne (h : Succeeds chip eepromData eepromSize offset s s')
    (hlt : offset < 2 ^ 16) (haligned : 4 ∣ offset) : eepromSize ≠ 65540 := by
  induction h with
  | done hdone => omega
  | tail htail _ => omega
  | word _ _ _ _ ih => exact ih (Nat.mod_lt _ (by decide)) (by omega)

theorem Succeeds.keeps_beyond (h : Succeeds chip eepromData eepromSize offset s s')
    (haligned : 4 ∣ offset) {c : Nat} (hc : 2 ^ 13 ≤ c) : cells s' c = cells s c := by
  have hne : ∀ offset, c ≠ cellOf offset := by
    intro offset
    have hlt : cellOf offset < 2 ^ 13 := Nat.mod_lt _ (by decide)
    omega
  induction h with
  | done => rfl
  | tail _ hturn => rw [updateTail_ok hchip haligned hturn, update_of_ne (hne _)]
  | word _ _ hturn _ ih => rw [ih (by omega), updateWord_next hchip hturn, update_of_ne (hne _)]

theorem Succeeds.keeps_first
    (h : Succeeds chip eepromData eepromSize offset s s') (hwrap : eepromSize < 2 ^ 16)
    (heven : 2 ∣ eepromSize) (haligned : 4 ∣ offset) (hoffset : 32768 < offset) :
    cells s' 0 = cells s 0 := by
  induction h with
  | done => rfl
  | @tail offset s s' htail hturn =>
    have hcell : 0 ≠ cellOf offset := by
      rw [cellOf]
      omega
    rw [updateTail_ok hchip haligned hturn, update_of_ne hcell]
  | @word offset s s₁ s' hmore hword hturn _ ih =>
    have hnext : (offset + 4) % 2 ^ 16 = offset + 4 := Nat.mod_eq_of_lt (by omega)
    have hcell : 0 ≠ cellOf offset := by
      rw [cellOf]
      omega
    rw [hnext] at ih
    rw [ih (by omega) (by omega), updateWord_next hchip hturn, update_of_ne hcell]

/-- **The first cell gets the word at 32768**, whatever else is in the image. -/
theorem Succeeds.overwrites_first
    (h : Succeeds chip eepromData eepromSize offset s s') (hlarge : 32770 < eepromSize)
    (hwrap : eepromSize < 2 ^ 16) (heven : 2 ∣ eepromSize) (haligned : 4 ∣ offset)
    (hoffset : offset ≤ 32768) :
    cells s' 0 = BitVec.ofNat 32 (eepromData.le 32768 4) := by
  induction h with
  | @done offset s hdone => omega
  | @tail offset s s' htail _ => omega
  | @word offset s s₁ s' hmore hword hturn hrest ih =>
    have hnext : (offset + 4) % 2 ^ 16 = offset + 4 := Nat.mod_eq_of_lt (by omega)
    rw [hnext] at ih hrest
    by_cases hlast : offset = 32768
    · subst hlast
      rw [hrest.keeps_first hchip hwrap heven (by omega) (by omega), updateWord_next hchip hturn]
      exact update_self _ _ _
    · exact ih (by omega) (by omega)

theorem first_cell_overwritten (h : eepromValidate eepromData eepromSize = .statusOk)
    (hlarge : 32768 < eepromSize) (hwrap : eepromSize < 2 ^ 16) {fuel : Nat} {visited : List Nat}
    (hupdate : plxUpdateEeprom chip eepromData eepromSize fuel s = some (.statusOk, s', visited)) :
    byteAt (cells s') 0 = eepromData 32768 := by
  obtain ⟨n, _, hsize, _⟩ := (eepromValidate_iff.mp h).sizes
  obtain ⟨s₀, _, hrun⟩ := succeeds_of_update hchip h hupdate
  have hcell := hrun.overwrites_first hchip (by omega) hwrap (by omega) (Nat.dvd_zero 4) (by omega)
  have hlt := le_lt eepromData 32768 4
  have hdigit := le_digit eepromData 32768 (n := 4) (k := 0) (by decide)
  apply UInt8.toNat_inj.mp
  rw [byteAt, hcell, UInt8.toNat_ofNat', toNat_ofNat,
    Nat.mod_eq_of_lt (lt_of_lt_of_le hlt (by decide))]
  exact hdigit

end

/-! ## Updates that succeed -/

theorem updateTail_memChip (eepromData : Bytes) {offset : Nat} (haligned : 4 ∣ offset)
    (s : EepromMem) : ∃ s', updateTail memChip eepromData offset s = .leave .statusOk s' := by
  have hplace : offset / 4 * 4 = offset := Nat.div_mul_cancel haligned
  have hlow : ¬ offset % 4 ≠ 0 := not_not.mpr (Nat.mod_eq_zero_of_dvd haligned)
  have hback : ∀ (value : BitVec 16) (old : BitVec 32),
      (value.setWidth 32 ||| (old &&& 0xFFFF0000#32)).setWidth 16 = value := by
    intro value old
    have hvalue := value.isLt
    apply eq_of_toNat_eq
    rw [toNat_setWidth, toNat_replaceLow]
    omega
  unfold updateTail
  simp only [eepromWrite16, eepromRead16, hplace, if_neg hlow, eepromWrite32_memChip,
    eepromRead32_memChip, update_self, hback, ne_eq, not_true_eq_false, if_false]
  exact ⟨_, rfl⟩

theorem updateLoop_memChip {eepromData : Bytes} {eepromSize fuel offset : Nat} {visited : List Nat}
    {s : EepromMem} (haligned : 4 ∣ offset) {ret : EepRetval} {s' : EepromMem}
    {visited' : List Nat}
    (h : updateLoop memChip eepromData eepromSize fuel offset visited s = some (ret, s', visited')) :
    ret = .statusOk := by
  induction fuel generalizing offset visited s with
  | zero =>
    by_cases hmore : offset < eepromSize
    · rw [updateLoop, if_pos hmore] at h
      cases h
    · rw [updateLoop_done hmore] at h
      cases h
      rfl
  | succ fuel ih =>
    by_cases hmore : offset < eepromSize
    · by_cases htail : eepromSize - offset = 2
      · obtain ⟨s₁, hturn⟩ := updateTail_memChip eepromData haligned s
        have hleave : updateTurn memChip eepromData eepromSize offset s = .leave .statusOk s₁ :=
          (if_pos htail).trans hturn
        rw [updateLoop_leave hmore hleave] at h
        cases h
        rfl
      · have hword : updateTurn memChip eepromData eepromSize offset s =
            updateWord memChip eepromData offset s := if_neg htail
        rw [updateLoop_next hmore (hword.trans (updateWord_memChip eepromData offset s))] at h
        exact ih (by omega) h
    · rw [updateLoop_done hmore] at h
      cases h
      rfl

theorem update_succeeds {eepromData : Bytes} {eepromSize : Nat}
    (h : eepromValidate eepromData eepromSize = .statusOk) (hwrap : eepromSize < 2 ^ 16)
    (s : EepromMem) :
    ∃ fuel s' visited,
      plxUpdateEeprom memChip eepromData eepromSize fuel s = some (.statusOk, s', visited) := by
  obtain ⟨n, _, hsize, _⟩ := (eepromValidate_iff.mp h).sizes
  have hstart : ∀ s : EepromMem, ∃ s' visited,
      updateLoop memChip eepromData eepromSize (eepromSize / 4 + 1) 0 [] s =
        some (.statusOk, s', visited) := by
    intro s
    obtain ⟨ret, s', n', hloop, _⟩ : ∃ ret s' n',
        updateLoop memChip eepromData eepromSize (eepromSize / 4 + 1) (4 * 0) (offsets 0) s =
          some (ret, s', offsets n') ∧ 4 * n' ≤ eepromSize + 2 :=
      updateLoop_ends (by omega) hwrap (by omega) (by omega) s
    obtain rfl := updateLoop_memChip (Nat.dvd_zero 4) hloop
    exact ⟨s', _, hloop⟩
  unfold plxUpdateEeprom
  rw [h]
  obtain ⟨s', visited, hloop⟩ := hstart _
  exact ⟨_, s', visited, hloop⟩

/-- **A successful update has written the image, and nothing else**, on every EEPROM and from every
contents, exactly if the image has at most 32768 bytes; or if it is so large that no update
succeeds. -/
theorem update_writes_image_iff {eepromData : Bytes} {eepromSize : Nat}
    (h : eepromValidate eepromData eepromSize = .statusOk) :
    (∀ (σ : Type) (chip : Chip σ) (cells : σ → Nat → BitVec 32), IsEeprom chip cells →
      ∀ fuel s s' visited,
        plxUpdateEeprom chip eepromData eepromSize fuel s = some (.statusOk, s', visited) →
          WrittenTo (cells s) (cells s') eepromData eepromSize) ↔
      eepromSize ≤ 32768 ∨ eepromSize = 65540 := by
  obtain ⟨n, _, hform, hle⟩ := (eepromValidate_iff.mp h).sizes
  refine ⟨fun hwrites => ?_, fun hsize σ chip cells hchip fuel s s' visited hupdate => ?_⟩
  · by_contra hlarge
    -- cells that differ from byte 32768 of the image, and are not written
    obtain ⟨old, hold⟩ : ∃ old : BitVec 32, byteAt (fun _ => old) 32768 ≠ eepromData 32768 := by
      by_cases hzero : byteAt (fun _ => 0#32) 32768 = eepromData 32768
      · exact ⟨0xFF#32, fun hff => absurd (hff.trans hzero.symm) (by decide)⟩
      · exact ⟨0#32, hzero⟩
    obtain ⟨fuel, s', visited, hupdate⟩ := update_succeeds h (by omega) ⟨fun _ => old, 0, 0⟩
    have hwritten := (hwrites _ _ _ isEeprom_memChip _ _ _ _ hupdate).written 32768 (by omega)
    obtain ⟨s₀, hsame, hrun⟩ := succeeds_of_update isEeprom_memChip h hupdate
    have hcell := hrun.keeps_beyond isEeprom_memChip (Nat.dvd_zero 4) (c := 32768 / 4) (by decide)
    rw [hsame] at hcell
    rw [byteAt, hcell] at hwritten
    exact hold hwritten
  · rcases hsize with hfits | rfl
    · obtain ⟨hwritten, hkept⟩ := update_writes_image hchip h hfits hupdate
      exact ⟨hwritten, hkept⟩
    · obtain ⟨s₀, _, hrun⟩ := succeeds_of_update hchip h hupdate
      exact absurd rfl (hrun.size_ne (by decide) (Nat.dvd_zero 4))

/-- An image with two pairs is written over cells that were erased. -/
theorem update_writes_image_twoPairs :
    ∃ eepromData fuel s' visited,
      plxUpdateEeprom memChip eepromData 20 fuel ⟨fun _ => 0xFFFFFFFF#32, 0, 3⟩ =
          some (.statusOk, s', visited) ∧
        (∀ k < 20, byteAt s'.cells k = eepromData k) ∧
        ∀ k, 20 ≤ k → byteAt s'.cells k = byteAt (fun _ => 0xFFFFFFFF#32) k := by
  have hvalid := eepromValidate_iff.mpr (accepted_zeroImage (n := 2) (by decide) (by decide) rfl)
  obtain ⟨fuel, s', visited, hupdate⟩ := update_succeeds hvalid (by decide)
    ⟨fun _ => 0xFFFFFFFF#32, 0, 3⟩
  obtain ⟨hwritten, hkept⟩ := (update_writes_image_iff hvalid).mpr (.inl (by decide)) _ _ _
    isEeprom_memChip _ _ _ _ hupdate
  exact ⟨_, fuel, s', visited, hupdate, hwritten, hkept⟩

/-- **A successful update that loses the begin of the image**: the smallest accepted image that is too
large, and an EEPROM whose commands all take effect. -/
theorem update_loses_begin :
    ∃ eepromData fuel s' visited, eepromValidate eepromData 32774 = .statusOk ∧
      plxUpdateEeprom memChip eepromData 32774 fuel ⟨fun _ => 0xFFFFFFFF#32, 0, 0⟩ =
          some (.statusOk, s', visited) ∧
        byteAt s'.cells 0 ≠ eepromData 0 := by
  have hsize : 6 * 5461 + 8 = 32774 := rfl
  have hacc := accepted_zeroImage (by decide) (by decide) hsize
  obtain ⟨eepromData, hvalid, hlost⟩ : ∃ eepromData,
      eepromValidate eepromData 32774 = .statusOk ∧ eepromData 32768 = 0 := by
    have hkept : withCrc (zeroImage 5461) 32774 32768 = zeroImage 5461 32768 :=
      Bytes.write_of_outside (.inl (by decide))
    exact ⟨_, eepromValidate_iff.mpr hacc, hkept.trans rfl⟩
  obtain ⟨fuel, s', visited, hupdate⟩ := update_succeeds hvalid (by decide)
    ⟨fun _ => 0xFFFFFFFF#32, 0, 0⟩
  refine ⟨eepromData, fuel, s', visited, hvalid, hupdate, ?_⟩
  -- the signature of the image has been replaced by a zero
  have hfirst := first_cell_overwritten isEeprom_memChip hvalid (by decide) (by decide) hupdate
  rw [hfirst, hlost, (eepromValidate_iff.mp hvalid).signature]
  decide

end Vcass.Eeprom
