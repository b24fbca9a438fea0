import Mathlib.Data.Nat.Bitwise

/-!
# Fields of Machine Words

Masks and disjunctions of words in terms of division and remainder.  A field of a word that starts at
bit `i` is `x / 2 ^ i`, cut off by a remainder; a mask with the low `i` bits clear rounds down to a
multiple of `2 ^ i`; and a disjunction of fields that do not meet is a sum.
-/

namespace Vcass.Core

/-- The mask of the bits from `i` up to `w` clears the low `i` bits of a word. -/
theorem and_high_mask {x w i : Nat} (hx : x < 2 ^ w) (hi : i ≤ w) :
    x &&& (2 ^ w - 2 ^ i) = x / 2 ^ i * 2 ^ i := by
  have hmask : 2 ^ w - 2 ^ i = (2 ^ (w - i) - 1) <<< i := by
    rw [Nat.shiftLeft_eq, Nat.sub_mul, Nat.one_mul, ← Nat.pow_add, Nat.sub_add_cancel hi]
  rw [hmask, ← Nat.shiftRight_eq_div_pow, ← Nat.shiftLeft_eq]
  apply Nat.eq_of_testBit_eq
  intro j
  rw [Nat.testBit_and, Nat.testBit_shiftLeft, Nat.testBit_shiftLeft, Nat.testBit_shiftRight,
    Nat.testBit_two_pow_sub_one]
  by_cases hij : i ≤ j
  · rw [Nat.add_sub_cancel' hij]
    by_cases hjw : j < w
    · simp [hij, Nat.sub_lt_sub_right hij hjw]
    · -- beyond the word there are no bits
      have hzero : x.testBit j = false :=
        Nat.testBit_lt_two_pow (Nat.lt_of_lt_of_le hx (Nat.pow_le_pow_right (by decide) (by omega)))
      simp [hzero]
  · simp [hij]

/-- A field above bit `i` and a field below it -/
theorem or_field {a b i : Nat} (hb : b < 2 ^ i) : a * 2 ^ i ||| b = a * 2 ^ i + b := by
  rw [Nat.mul_comm]
  exact (Nat.two_pow_add_eq_or_of_lt hb a).symm

/-- Setting a bit above all bits of a word -/
theorem or_bit {b i : Nat} (hb : b < 2 ^ i) : b ||| 2 ^ i = 2 ^ i + b := by
  have hfield := or_field (a := 1) hb
  rw [Nat.one_mul] at hfield
  rw [Nat.or_comm, hfield]

end Vcass.Core
