import Vcass.Core.Crc
import Vcass.Core.Pieces

/-!
# EEPROM Images

An image for the EEPROM of the PLX chip has a header of four bytes, pairs of register addresses and
values, and a CRC of four bytes.  `eeprom_validate` checks the header against the size of the image and
then the CRC, which `eeprom_check_crc` computes in steps of four bytes from offset 2 on.

The loop of `eeprom_check_crc` takes each byte in front of the stored CRC once (`Accepted.covers`), and
it is a code in the sense of `Core/Crc.lean` with an odd polynomial.  So every change inside one of its
words, or inside the stored CRC, is noticed: `corruption_rejected`.
-/

namespace Vcass.Eeprom

open Vcass.Core List Bytes BitVec

/-- `enum plx_eep_retval` -/
inductive EepRetval where
  | statusOk
  | internalError
  | timeout

/-! ## The CRC -/

/-- `PLX_EEP_START_CRC_OFFSET` -/
def plxEepStartCrcOffset : Nat := 2

/-- `PLX_EEP_HEADER_LENGTH_BYTE` -/
def plxEepHeaderLengthByte : Nat := 4

/-- `PLX_EEP_CRC_LENGTH_BYTE` -/
def plxEepCrcLengthByte : Nat := 4

/-- `PLX_EEP_CONST_CRC_XOR_VALUE` -/
def plxEepConstCrcXorValue : BitVec 32 := 0xDB710641#32

/-- One turn of the inner loop of `eeprom_check_crc` -/
def crcRound (nextCrcValue crcCalculated : BitVec 32) (i : Nat) : BitVec 32 :=
  let xorValue := (crcCalculated ^^^ (nextCrcValue <<< i)) &&& 0x80000000#32
  let xorValue := if xorValue ≠ 0#32 then plxEepConstCrcXorValue else 0#32
  (crcCalculated <<< 1) ^^^ xorValue

def crcWord (crcCalculated nextCrcValue : BitVec 32) : BitVec 32 :=
  (List.range 32).foldl (crcRound nextCrcValue) crcCalculated

/-- How many bytes the step at `crcOffset` takes -/
def crcWidth (crcEndOffset crcOffset : Nat) : Nat := if crcEndOffset - crcOffset = 2 then 2 else 4

/-- The outer loop.  Offsets fit into a `u32` many times over; the fuel is a bound on the turns. -/
def crcLoop (eepromData : Bytes) (crcEndOffset : Nat) : Nat → Nat → BitVec 32 → BitVec 32
  | 0, _, crc => crc
  | fuel + 1, crcOffset, crc =>
    if crcOffset < crcEndOffset then
      let nextCrcValue :=
        BitVec.ofNat 32 (eepromData.le crcOffset (crcWidth crcEndOffset crcOffset))
      crcLoop eepromData crcEndOffset fuel (crcOffset + 4) (crcWord crc nextCrcValue)
    else crc

/-- `crc_calculated` at the end of `eeprom_check_crc` -/
def crcCalculated (eepromData : Bytes) (eepromSize : Nat) : BitVec 32 :=
  let crcEndOffset := eepromSize - plxEepCrcLengthByte
  crcLoop eepromData crcEndOffset crcEndOffset plxEepStartCrcOffset (BitVec.allOnes 32)

/-- `crc_value`: the CRC at the end of the image -/
def storedCrc (eepromData : Bytes) (eepromSize : Nat) : BitVec 32 :=
  BitVec.ofNat 32 (eepromData.le (eepromSize - plxEepCrcLengthByte) 4)

/-- `eeprom_check_crc` -/
def eepromCheckCrc (eepromData : Bytes) (eepromSize : Nat) : EepRetval :=
  if crcCalculated eepromData eepromSize ≠ storedCrc eepromData eepromSize then .internalError
  else .statusOk

/-! ## Validation -/

/-- `PLX_EEP_CONFIGURATION_ALIGNMENT_BYTE` -/
def plxEepConfigurationAlignmentByte : Nat := 6

/-- `PLX_EEP_VALIDATION_HEADER` -/
def plxEepValidationHeader : UInt8 := 0x5A

/-- `configuration_size` of the header -/
def configurationSize (eepromData : Bytes) : Nat := eepromData.le 2 2

/-- `eeprom_validate` -/
def eepromValidate (eepromData : Bytes) (eepromSize : Nat) : EepRetval :=
  if eepromSize ≤ plxEepHeaderLengthByte + plxEepCrcLengthByte then .internalError
  else if configurationSize eepromData % plxEepConfigurationAlignmentByte ≠ 0 then .internalError
  else if eepromSize - plxEepHeaderLengthByte - plxEepCrcLengthByte ≠ configurationSize eepromData then
    .internalError
  else if eepromData 0 ≠ plxEepValidationHeader then .internalError
  else eepromCheckCrc eepromData eepromSize

/-- **What an accepted image is** -/
structure Accepted (eepromData : Bytes) (eepromSize : Nat) : Prop where
  nonempty : 8 < eepromSize
  pairs : configurationSize eepromData % 6 = 0
  size : eepromSize = configurationSize eepromData + 8
  signature : eepromData 0 = plxEepValidationHeader
  crc : crcCalculated eepromData eepromSize = storedCrc eepromData eepromSize

variable {eepromData : Bytes}

theorem eepromValidate_iff {eepromSize : Nat} :
    eepromValidate eepromData eepromSize = .statusOk ↔ Accepted eepromData eepromSize := by
  have hheader : plxEepHeaderLengthByte = 4 := rfl
  have hcrc : plxEepCrcLengthByte = 4 := rfl
  have halign : plxEepConfigurationAlignmentByte = 6 := rfl
  unfold eepromValidate eepromCheckCrc
  constructor
  · intro h
    -- each test has to let the image pass
    split at h
    case isTrue => cases h
    case isFalse hlong =>
      split at h
      case isTrue => cases h
      case isFalse hpairs =>
        split at h
        case isTrue => cases h
        case isFalse hsize =>
          split at h
          case isTrue => cases h
          case isFalse hsignature =>
            split at h
            case isTrue => cases h
            case isFalse hcode =>
              rw [halign] at hpairs
              exact ⟨by omega, not_not.mp hpairs, by omega, not_not.mp hsignature, not_not.mp hcode⟩
  · intro h
    have hnonempty := h.nonempty
    have hsize := h.size
    have hpairs := h.pairs
    rw [if_neg (by omega), if_neg (by rw [halign]; exact not_not.mpr hpairs), if_neg (by omega),
      if_neg (not_not.mpr h.signature), if_neg (not_not.mpr h.crc)]

namespace Accepted

variable {eepromData : Bytes} {eepromSize : Nat}

theorem sizes (h : Accepted eepromData eepromSize) :
    ∃ n, 0 < n ∧ eepromSize = 6 * n + 8 ∧ eepromSize ≤ 65540 := by
  have hpairs := h.pairs
  have hsize := h.size
  have hnonempty := h.nonempty
  have hlt : configurationSize eepromData < 256 ^ 2 := le_lt eepromData 2 2
  refine ⟨configurationSize eepromData / 6, ?_, ?_, ?_⟩
  · omega
  · omega
  · omega

end Accepted

/-! ## The steps of the CRC -/

/-- A step of the outer loop: the bytes that it takes -/
structure CrcStep where
  offset : Nat
  width : Nat
deriving DecidableEq

def crcStepsFrom (crcEndOffset : Nat) : Nat → Nat → List CrcStep
  | 0, _ => []
  | fuel + 1, crcOffset =>
    if crcOffset < crcEndOffset then
      ⟨crcOffset, crcWidth crcEndOffset crcOffset⟩ :: crcStepsFrom crcEndOffset fuel (crcOffset + 4)
    else []

def crcSteps (eepromSize : Nat) : List CrcStep :=
  crcStepsFrom (eepromSize - plxEepCrcLengthByte) (eepromSize - plxEepCrcLengthByte)
    plxEepStartCrcOffset

def CrcStep.word (eepromData : Bytes) (st : CrcStep) : BitVec 32 :=
  BitVec.ofNat 32 (eepromData.le st.offset st.width)

/-- The step as a piece, for its place between the others -/
def CrcStep.piece (st : CrcStep) : Piece := ⟨st.offset, st.offset, st.width⟩

/-- The byte `k` is taken by the step. -/
def CrcStep.Takes (st : CrcStep) (k : Nat) : Prop := st.offset ≤ k ∧ k < st.offset + st.width

theorem crcRound_eq (nextCrcValue crc : BitVec 32) (i : Nat) :
    crcRound nextCrcValue crc i = Crc.round plxEepConstCrcXorValue nextCrcValue crc i := by
  have hmask : (0x80000000#32 : BitVec 32) = BitVec.twoPow 32 31 := rfl
  have htest : (crc ^^^ (nextCrcValue <<< i)) &&& 0x80000000#32 ≠ 0#32 ↔
      (crc ^^^ (nextCrcValue <<< i)).msb = true := by
    rw [hmask, and_twoPow, msb_eq_getLsbD_last]
    split
    case isTrue h => simpa using h
    case isFalse h => simpa using h
  unfold crcRound Crc.round
  simp only [htest]
  rfl

theorem crcWord_eq (crc nextCrcValue : BitVec 32) :
    crcWord crc nextCrcValue = Crc.feed plxEepConstCrcXorValue crc nextCrcValue := by
  have hrounds : ∀ n, (List.range n).foldl (crcRound nextCrcValue) crc =
      Crc.rounds plxEepConstCrcXorValue nextCrcValue n crc := by
    intro n
    induction n with
    | zero => rfl
    | succ n ih =>
      rw [range_succ, foldl_append, ih]
      exact crcRound_eq _ _ _
  exact hrounds 32

theorem crcLoop_eq (eepromData : Bytes) (crcEndOffset fuel crcOffset : Nat) (crc : BitVec 32) :
    crcLoop eepromData crcEndOffset fuel crcOffset crc =
      Crc.feedAll plxEepConstCrcXorValue crc
        ((crcStepsFrom crcEndOffset fuel crcOffset).map (CrcStep.word eepromData)) := by
  induction fuel generalizing crcOffset crc with
  | zero => rfl
  | succ fuel ih =>
    rw [crcLoop, crcStepsFrom]
    split
    · simp only
      rw [ih, crcWord_eq]
      rfl
    · rfl

theorem crcCalculated_eq (eepromData : Bytes) (eepromSize : Nat) :
    crcCalculated eepromData eepromSize = Crc.feedAll plxEepConstCrcXorValue (BitVec.allOnes 32)
      ((crcSteps eepromSize).map (CrcStep.word eepromData)) :=
  crcLoop_eq ..

/-- **The steps follow each other without a gap**, if the number of bytes that are left is even. -/
theorem consecutive_crcSteps {crcEndOffset fuel crcOffset len : Nat}
    (hend : crcOffset + 2 * len = crcEndOffset) (hfuel : len ≤ fuel) :
    Consecutive crcOffset crcOffset (2 * len)
      ((crcStepsFrom crcEndOffset fuel crcOffset).map CrcStep.piece) := by
  induction fuel generalizing crcOffset len with
  | zero =>
    obtain rfl : len = 0 := Nat.le_zero.mp hfuel
    rfl
  | succ fuel ih =>
    rw [crcStepsFrom]
    by_cases hmore : crcOffset < crcEndOffset
    · rw [if_pos hmore]
      by_cases hlast : len = 1
      · -- the last step takes two bytes, and the loop ends behind it
        subst hlast
        have hwidth : crcWidth crcEndOffset crcOffset = 2 := if_pos (by omega)
        have hdone : crcStepsFrom crcEndOffset fuel (crcOffset + 4) = [] := by
          cases fuel with
          | zero => rfl
          | succ fuel => rw [crcStepsFrom, if_neg (by omega)]
        rw [hwidth, hdone]
        exact ⟨rfl, rfl, Nat.le_refl _, rfl⟩
      · have hwidth : crcWidth crcEndOffset crcOffset = 4 := if_neg (by omega)
        have hrest : Consecutive (crcOffset + 4) (crcOffset + 4) (2 * (len - 2))
            ((crcStepsFrom crcEndOffset fuel (crcOffset + 4)).map CrcStep.piece) :=
          ih (by omega) (by omega)
        have hleft : 2 * (len - 2) = 2 * len - 4 := by omega
        rw [hwidth]
        rw [hleft] at hrest
        refine ⟨rfl, rfl, ?_, hrest⟩
        simp only [CrcStep.piece]
        omega
    · have hlen : 2 * len = 0 := by omega
      rw [if_neg hmore, hlen]
      rfl

/-- **The loop takes each byte between the first two and the stored CRC once, and no other**; what it
computes depends on these bytes only. -/
structure CrcCovers (eepromData : Bytes) (eepromSize : Nat) : Prop where
  inside : ∀ st ∈ crcSteps eepromSize, 2 ≤ st.offset ∧ st.offset + st.width ≤ eepromSize - 4
  once : ∀ k, 2 ≤ k → k < eepromSize - 4 →
    ∃ i, (∃ st : CrcStep, (crcSteps eepromSize)[i]? = some st ∧ st.Takes k) ∧
      ∀ (j : Nat) (st : CrcStep), (crcSteps eepromSize)[j]? = some st → st.Takes k → j = i
  only : ∀ eepromData' : Bytes, (∀ k, 2 ≤ k → k < eepromSize - 4 → eepromData' k = eepromData k) →
    crcCalculated eepromData' eepromSize = crcCalculated eepromData eepromSize

variable {n : Nat}

theorem crcSteps_consecutive (hn : 0 < n) :
    Consecutive 2 2 (6 * n + 2) ((crcSteps (6 * n + 8)).map CrcStep.piece) := by
  have hlen : 6 * n + 2 = 2 * (3 * n + 1) := by omega
  have hcrc : plxEepCrcLengthByte = 4 := rfl
  rw [hlen]
  exact consecutive_crcSteps (by omega) (by omega)

theorem crcSteps_inside (hn : 0 < n) {st : CrcStep} (hst : st ∈ crcSteps (6 * n + 8)) :
    2 ≤ st.offset ∧ st.offset + st.width ≤ 6 * n + 4 := by
  have hin := (crcSteps_consecutive hn).within (mem_map.mpr ⟨st, hst, rfl⟩)
  simp only [CrcStep.piece] at hin
  omega

variable {eepromData eepromData' : Bytes}

theorem crcCalculated_congr (hn : 0 < n)
    (hsame : ∀ k, 2 ≤ k → k < 6 * n + 4 → eepromData' k = eepromData k) :
    crcCalculated eepromData' (6 * n + 8) = crcCalculated eepromData (6 * n + 8) := by
  rw [crcCalculated_eq, crcCalculated_eq]
  congr 1
  apply map_congr_left
  intro st hst
  have hin := crcSteps_inside hn hst
  unfold CrcStep.word
  rw [le_congr]
  intro k hk
  exact hsame _ (by omega) (by omega)

theorem Accepted.covers {eepromSize : Nat}
    (h : Accepted eepromData eepromSize) : CrcCovers eepromData eepromSize := by
  obtain ⟨n, hn, rfl, _⟩ := h.sizes
  refine ⟨fun st hst => crcSteps_inside hn hst, ?_, ?_⟩
  · intro k hk hlt
    have hmoves : ∀ st : CrcStep, st.piece.Moves 2 2 (k - 2) ↔ st.Takes k := by
      intro st
      constructor
      · rintro ⟨j, hj, hs, _⟩
        simp only [CrcStep.piece] at hj hs
        exact ⟨by omega, by omega⟩
      · rintro ⟨hle, hlt⟩
        refine ⟨k - st.offset, ?_, ?_, ?_⟩ <;> simp only [CrcStep.piece] <;> omega
    obtain ⟨i, ⟨q, hq, hqmoves⟩, honly⟩ := (crcSteps_consecutive hn).once (k := k - 2) (by omega)
    rw [List.getElem?_map] at hq
    obtain ⟨st, hst, rfl⟩ := Option.map_eq_some_iff.mp hq
    refine ⟨i, ⟨st, hst, (hmoves st).mp hqmoves⟩, ?_⟩
    intro j st' hst' htakes
    exact honly j _ (by rw [List.getElem?_map, hst']; rfl) ((hmoves st').mpr htakes)
  · exact fun eepromData' hsame => crcCalculated_congr hn fun k hk hlt => hsame k hk (by omega)

/-! ## Sealing an image -/

def withCrc (eepromData : Bytes) (eepromSize : Nat) : Bytes :=
  eepromData.write (eepromSize - 4)
    (Bytes.littleEndian 4 (crcCalculated eepromData eepromSize).toNat)

theorem accepted_withCrc (hn : 0 < n)
    (hsize : configurationSize eepromData = 6 * n)
    (hsignature : eepromData 0 = plxEepValidationHeader) :
    Accepted (withCrc eepromData (6 * n + 8)) (6 * n + 8) := by
  have hkept : ∀ k < 6 * n + 4, withCrc eepromData (6 * n + 8) k = eepromData k :=
    fun k hk => write_of_outside (.inl (by omega))
  have hconf : configurationSize (withCrc eepromData (6 * n + 8)) = 6 * n := by
    have hsame : configurationSize (withCrc eepromData (6 * n + 8)) = configurationSize eepromData :=
      le_congr fun k hk => hkept _ (by omega)
    rw [hsame, hsize]
  have hstored : (withCrc eepromData (6 * n + 8)).le (6 * n + 8 - 4) 4 =
      (crcCalculated eepromData (6 * n + 8)).toNat % 256 ^ 4 := by
    apply le_of_littleEndian
    intro k hk
    exact write_of_inside (by rw [length_littleEndian]; exact hk)
  refine ⟨by omega, by omega, by omega, ?_, ?_⟩
  · rw [hkept 0 (by omega), hsignature]
  · -- the code does not take the bytes that were written
    rw [crcCalculated_congr hn (fun k _ hk => hkept k (by omega))]
    apply eq_of_toNat_eq
    have hlt := (crcCalculated eepromData (6 * n + 8)).isLt
    have hcrc : plxEepCrcLengthByte = 4 := rfl
    rw [storedCrc, hcrc, hstored, toNat_ofNat]
    omega

/-! ## Corruption -/

/-- The two images differ, and only in bytes that one step takes, or only in the stored CRC. -/
structure Corrupts (eepromData eepromData' : Bytes) (eepromSize : Nat) : Prop where
  differs : ∃ k < eepromSize, eepromData' k ≠ eepromData k
  place : (∃ st ∈ crcSteps eepromSize, ∀ k < eepromSize, ¬ st.Takes k →
      eepromData' k = eepromData k) ∨
    ∀ k < eepromSize - 4, eepromData' k = eepromData k

theorem word_injective {st : CrcStep} (hwidth : st.width ≤ 4)
    (h : st.word eepromData' = st.word eepromData) {k : Nat} (hk : st.Takes k) :
    eepromData' k = eepromData k := by
  have hpow : 256 ^ st.width ≤ 256 ^ 4 := Nat.pow_le_pow_right (by decide) hwidth
  have hlt := le_lt eepromData st.offset st.width
  have hlt' := le_lt eepromData' st.offset st.width
  have heq : eepromData'.le st.offset st.width = eepromData.le st.offset st.width := by
    have hnat := congrArg BitVec.toNat h
    unfold CrcStep.word at hnat
    rw [toNat_ofNat, toNat_ofNat] at hnat
    omega
  have hin : k - st.offset < st.width := by
    have hle := hk.1
    have hlt := hk.2
    omega
  have hdigit := le_digit eepromData st.offset hin
  have hdigit' := le_digit eepromData' st.offset hin
  rw [heq, hdigit, Nat.add_sub_cancel' hk.1] at hdigit'
  exact UInt8.toNat_inj.mp hdigit'.symm

theorem width_le_of_mem {crcEndOffset fuel crcOffset : Nat} {st : CrcStep}
    (hst : st ∈ crcStepsFrom crcEndOffset fuel crcOffset) : st.width ≤ 4 := by
  induction fuel generalizing crcOffset with
  | zero => cases hst
  | succ fuel ih =>
    rw [crcStepsFrom] at hst
    split at hst
    · rcases mem_cons.mp hst with rfl | hrest
      · simp only [crcWidth]
        split <;> omega
      · exact ih hrest
    · cases hst

section

variable {eepromData eepromData' : Bytes} {eepromSize : Nat}

theorem Accepted.code_ne (h : Accepted eepromData eepromSize) {st : CrcStep}
    (hst : st ∈ crcSteps eepromSize)
    (hrest : ∀ k < eepromSize, ¬ st.Takes k → eepromData' k = eepromData k)
    {k : Nat} (htakes : st.Takes k) (hne : eepromData' k ≠ eepromData k) :
    crcCalculated eepromData' eepromSize ≠ crcCalculated eepromData eepromSize := by
  have hnonempty := h.nonempty
  have hinside := h.covers.inside
  have hword : st.word eepromData' ≠ st.word eepromData :=
    fun heq => hne (word_injective (width_le_of_mem hst) heq htakes)
  obtain ⟨pre, post, hsplit⟩ := append_of_mem hst
  -- the other steps take other bytes, and so read the same words in both images
  obtain ⟨n, hn, hsize, _⟩ := h.sizes
  have hcons := crcSteps_consecutive hn
  rw [← hsize, hsplit, map_append, map_cons] at hcons
  obtain ⟨hbefore, hbehind⟩ := hcons.apart
  have hsame : ∀ st' ∈ crcSteps eepromSize,
      st'.offset + st'.width ≤ st.offset ∨ st.offset + st.width ≤ st'.offset →
        st'.word eepromData' = st'.word eepromData := by
    intro st' hst' hapart
    have hin := hinside st' hst'
    unfold CrcStep.word
    rw [Bytes.le_congr]
    intro j hj
    refine hrest _ (by omega) ?_
    rintro ⟨hle, hlt⟩
    omega
  have hpre : pre.map (CrcStep.word eepromData') = pre.map (CrcStep.word eepromData) := by
    apply map_congr_left
    intro st' hst'
    refine hsame st' (hsplit ▸ mem_append_left _ hst') (.inl ?_)
    exact hbefore st'.piece (mem_map_of_mem hst')
  have hpost : post.map (CrcStep.word eepromData') = post.map (CrcStep.word eepromData) := by
    apply map_congr_left
    intro st' hst'
    refine hsame st' (hsplit ▸ mem_append_right _ (mem_cons_of_mem _ hst')) (.inr ?_)
    exact hbehind st'.piece (mem_map_of_mem hst')
  rw [crcCalculated_eq, crcCalculated_eq, hsplit, map_append, map_append, map_cons,
    map_cons, hpre, hpost]
  exact Crc.feedAll_ne (by decide) _ _ _ hword

theorem Accepted.storedCrc_ne (h : Accepted eepromData eepromSize)
    (hrest : ∀ k < eepromSize - 4, eepromData' k = eepromData k) {k : Nat} (hk : k < eepromSize)
    (hne : eepromData' k ≠ eepromData k) :
    storedCrc eepromData' eepromSize ≠ storedCrc eepromData eepromSize := by
  have hnonempty := h.nonempty
  have hcrc : plxEepCrcLengthByte = 4 := rfl
  have hin : eepromSize - 4 ≤ k := by
    by_contra hless
    exact hne (hrest k (by omega))
  intro heq
  have htakes : (⟨eepromSize - plxEepCrcLengthByte, 4⟩ : CrcStep).Takes k :=
    ⟨by simp only; omega, by simp only; omega⟩
  exact hne (@word_injective _ _ ⟨eepromSize - plxEepCrcLengthByte, 4⟩ (Nat.le_refl 4) heq k htakes)

/-- **The CRC detects every corruption of one word**: for an accepted image, the loop takes each byte
once, and every image of the same size that is corrupted in the bytes of one step, or in the stored
CRC, is rejected. -/
theorem corruption_rejected (h : eepromValidate eepromData eepromSize = .statusOk) :
    CrcCovers eepromData eepromSize ∧
      ∀ eepromData', Corrupts eepromData eepromData' eepromSize →
        eepromValidate eepromData' eepromSize ≠ .statusOk := by
  have hacc := eepromValidate_iff.mp h
  refine ⟨hacc.covers, ?_⟩
  intro eepromData' hcorrupts hvalid
  have hacc' := eepromValidate_iff.mp hvalid
  have hnonempty := hacc.nonempty
  obtain ⟨k, hk, hne⟩ := hcorrupts.differs
  rcases hcorrupts.place with ⟨st, hst, hrest⟩ | hrest
  · -- the stored CRC is the same, and the computed one is not
    have hin := hacc.covers.inside st hst
    have htakes : st.Takes k := by
      by_contra houtside
      exact hne (hrest k hk houtside)
    have hstored : storedCrc eepromData' eepromSize = storedCrc eepromData eepromSize := by
      have hcrc : plxEepCrcLengthByte = 4 := rfl
      unfold storedCrc
      rw [Bytes.le_congr]
      intro j hj
      refine hrest _ (by omega) ?_
      rintro ⟨hle, hlt⟩
      omega
    apply hacc.code_ne hst hrest htakes hne
    rw [hacc'.crc, hacc.crc, hstored]
  · -- the computed CRC is the same, and the stored one is not
    have hcode := hacc.covers.only eepromData' (fun j _ hj => hrest j hj)
    apply hacc.storedCrc_ne hrest hk hne
    rw [← hacc'.crc, ← hacc.crc, hcode]

/-- An image with one pair, and the same image with another register address -/
theorem corruption_rejected_onePair :
    let eepromData := withCrc (fun k => if k = 0 then 0x5A else if k = 2 then 6 else 0) 14
    eepromValidate eepromData 14 = .statusOk ∧
      eepromValidate (eepromData.write 5 [1]) 14 ≠ .statusOk := by
  intro eepromData
  have hvalid : eepromValidate eepromData 14 = .statusOk :=
    eepromValidate_iff.mpr (accepted_withCrc (n := 1) (by decide) (by decide) (by decide))
  refine ⟨hvalid, (corruption_rejected hvalid).2 _ ⟨⟨5, by decide, ?_⟩, .inl ⟨⟨2, 4⟩, by decide, ?_⟩⟩⟩
  · have hzero : eepromData 5 = 0 := Bytes.write_of_outside (.inl (by decide))
    rw [Bytes.write_singleton_self, hzero]
    decide
  · intro k hk houtside
    refine Bytes.write_of_outside ?_
    rw [List.length_singleton]
    by_contra hinside
    exact houtside ⟨by simp only; omega, by simp only; omega⟩

end

end Vcass.Eeprom
