import Mathlib.Tactic.IntervalCases
import Vcass.Core.Numeral

/-!
# Names of Block Devices in the Configuration

The entries of a list `block-devs` are named `vcablk0` to `vcablk7`.  `get_block_dev_name_from_id`
writes such a name and `extract_block_dev_id` reads it, with `sscanf` and the conversion `%u`.

The conversion accepts more than the writer produces: blanks and a sign before the digits, leading
zeros, any text after them, and numbers of any size, which are stored in 32 bits.  The result is
then compared with the number of devices as a signed `int`, so that a value of at least `2 ^ 31`
passes as a negative index.

- `extractBlockDevId_eq_true_iff`: the accepted names, by their spelling.
- `blockDevName_inverse_iff`: the names for which reading inverts writing.
-/

namespace Vcass.VcaConfig

open Vcass.Core.CString

/-- `MAX_BLK_DEVS` -/
def maxBlkDevs : Int := 8

/-- `BLK_CONFIG_NAME` -/
def blkConfigName : Str := ascii "vcablk"

/-- `FAIL` -/
def fail : Int := -1

/-- `int_to_string` -/
def intToString (val : Int) : Str := ascii (toString val)

/-- `get_block_dev_name_from_id` -/
def getBlockDevNameFromId (blkDevId : Int) : Str :=
  blkConfigName ++ intToString blkDevId

/-- `extract_block_dev_id`: the result and the value left in `id`.  A null pointer is `none`. -/
def extractBlockDevId (deviceStr : Option Str) : Bool × Int :=
  match deviceStr.bind (sscanfUnsigned blkConfigName) with
  | some value => if value.toInt < maxBlkDevs then (true, value.toInt) else (false, fail)
  | none => (false, fail)

/-! ## Accepted names -/

/-- A name is accepted if it spells a number below the bound, read as an `int`. -/
theorem extractBlockDevId_eq_true_iff {s : Str} {id : Int} :
    extractBlockDevId (some s) = (true, id) ↔
      ∃ t n, s = blkConfigName ++ t ∧ Spells t n ∧
        (BitVec.ofInt 32 n.value).toInt = id ∧ id < maxBlkDevs := by
  simp only [extractBlockDevId, Option.bind_some]
  constructor
  · intro h
    cases hscan : sscanfUnsigned blkConfigName s with
    | none => simp [hscan] at h
    | some value =>
      obtain ⟨t, n, hs, hspells, rfl⟩ := sscanfUnsigned_eq_some_iff.mp hscan
      by_cases hlt : (BitVec.ofInt 32 n.value).toInt < maxBlkDevs
      · simp only [hscan, hlt, if_true, Prod.mk.injEq, true_and] at h
        exact ⟨t, n, hs, hspells, h, h ▸ hlt⟩
      · simp only [hscan, hlt, if_false, Prod.mk.injEq, Bool.false_eq_true, false_and] at h
  · rintro ⟨t, n, hs, hspells, rfl, hlt⟩
    have hscan := sscanfUnsigned_eq_some_iff.mpr ⟨t, n, hs, hspells, rfl⟩
    simp only [hscan, hlt, if_true]

theorem extractBlockDevId_name {id : Int} (hnonneg : 0 ≤ id) (hlt : id < maxBlkDevs) :
    extractBlockDevId (some (getBlockDevNameFromId id)) = (true, id) := by
  unfold maxBlkDevs at hlt
  interval_cases id <;> decide +kernel

/-! ## Reading inverts writing -/

/-- Reading and writing are inverse at the name `s`, and the id read is an index of the array `blk`.
-/
structure Inverse (s : Str) : Prop where
  iff : ∀ id, extractBlockDevId (some s) = (true, id) ↔
    (0 ≤ id ∧ id < maxBlkDevs) ∧ getBlockDevNameFromId id = s
  index : ∀ id, extractBlockDevId (some s) = (true, id) → 0 ≤ id ∧ id < maxBlkDevs

/-- A name that spells a number in another way than the writer does has a number between
`MAX_BLK_DEVS` and `2 ^ 31`, modulo `2 ^ 32`. -/
def Canonical (s : Str) : Prop :=
  ∀ t n, s = blkConfigName ++ t → Spells t n →
    (∃ id, (0 ≤ id ∧ id < maxBlkDevs) ∧ getBlockDevNameFromId id = s) ∨
    (maxBlkDevs ≤ n.value % 2 ^ 32 ∧ n.value % 2 ^ 32 < 2 ^ 31)

theorem maxBlkDevs_le_toInt_iff (v : Int) :
    maxBlkDevs ≤ (BitVec.ofInt 32 v).toInt ↔
      maxBlkDevs ≤ v % 2 ^ 32 ∧ v % 2 ^ 32 < 2 ^ 31 := by
  rw [BitVec.toInt_ofInt, Int.bmod_def, maxBlkDevs]
  norm_num
  split <;> omega

/-- **Reading and writing names are inverse exactly at the names that are written, that spell no
number, or whose number is too large for a device and not negative as an `int`.** -/
theorem blockDevName_inverse_iff (s : Str) : Inverse s ↔ Canonical s := by
  constructor
  · rintro ⟨hiff, -⟩ t n hs hspells
    by_cases hlt : (BitVec.ofInt 32 n.value).toInt < maxBlkDevs
    · left
      have hread := extractBlockDevId_eq_true_iff.mpr ⟨t, n, hs, hspells, rfl, hlt⟩
      exact ⟨_, (hiff _).mp hread⟩
    · right
      exact (maxBlkDevs_le_toInt_iff _).mp (not_lt.mp hlt)
  · intro hcanonical
    have hread : ∀ id, extractBlockDevId (some s) = (true, id) →
        (0 ≤ id ∧ id < maxBlkDevs) ∧ getBlockDevNameFromId id = s := by
      intro id hid
      obtain ⟨t, n, hs, hspells, hvalue, hlt⟩ := extractBlockDevId_eq_true_iff.mp hid
      obtain ⟨written, hrange, hname⟩ | hlarge := hcanonical t n hs hspells
      · -- The name was written for `written`, and is read back as it.
        have hback := extractBlockDevId_name hrange.1 hrange.2
        rw [hname, hid] at hback
        obtain rfl : id = written := by simpa using hback
        exact ⟨hrange, hname⟩
      · have := (maxBlkDevs_le_toInt_iff _).mpr hlarge
        omega
    refine ⟨fun id => ⟨hread id, ?_⟩, fun id hid => (hread id hid).1⟩
    rintro ⟨⟨hnonneg, hlt⟩, rfl⟩
    exact extractBlockDevId_name hnonneg hlt

/-- The name `vcablk-1` is accepted with the index `-1`. -/
theorem negativeName_accepted :
    extractBlockDevId (some (ascii "vcablk-1")) = (true, -1) ∧
      ¬ Inverse (ascii "vcablk-1") := by
  have hread : extractBlockDevId (some (ascii "vcablk-1")) = (true, -1) := by
    decide +kernel
  refine ⟨hread, fun h => ?_⟩
  exact absurd (h.index (-1) hread).1 (by decide)

end Vcass.VcaConfig
