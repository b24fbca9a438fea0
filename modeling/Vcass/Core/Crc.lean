import Mathlib.Data.List.Basic

/-!
# Cyclic Redundancy Codes

A code with the polynomial `p` over words of `w` bits.  A round shifts the state to the left and adds
`p` if the bit that falls out and the next bit of the data differ; `feed` does this for all bits of a
word, the highest first.

If `p` is odd, its lowest bit shows in the state whether it was added, and so a round can be undone
(`round_injective`).  Feeding a word is the same as adding it to the state and feeding zeros
(`feed_eq`).  Both together say that a word can be told from the state before and after it, and the
state before from the word and the state after.  Hence two messages that differ in one word have
different codes (`feedAll_ne`).
-/

namespace Vcass.Core.Crc

open BitVec

variable {w : Nat}

/-- Round `i` for the word `v` -/
def round (p v s : BitVec w) (i : Nat) : BitVec w :=
  (s <<< 1) ^^^ (if (s ^^^ (v <<< i)).msb then p else 0)

/-- The first `n` rounds for the word `v` -/
def rounds (p v : BitVec w) : Nat → BitVec w → BitVec w
  | 0, s => s
  | n + 1, s => round p v (rounds p v n s) n

/-- All rounds for the word `v` -/
def feed (p s v : BitVec w) : BitVec w := rounds p v w s

/-- The words of a message, one after the other -/
def feedAll (p s : BitVec w) (vs : List (BitVec w)) : BitVec w := vs.foldl (feed p) s

/-! ## A round can be undone -/

/-- The shift and the bit that falls out determine a word. -/
theorem eq_of_shiftLeft_eq {s t : BitVec w} (hshift : s <<< 1 = t <<< 1) (hmsb : s.msb = t.msb) :
    s = t := by
  apply eq_of_getLsbD_eq
  intro i hi
  by_cases hlast : i + 1 < w
  · have hbit := congrArg (fun x => x.getLsbD (i + 1)) hshift
    simp only [getLsbD_shiftLeft, hlast, Nat.add_sub_cancel] at hbit
    simpa using hbit
  · -- the highest bit
    obtain rfl : i = w - 1 := by omega
    rwa [msb_eq_getLsbD_last, msb_eq_getLsbD_last] at hmsb

variable {p : BitVec w}

/-- The lowest bit of the state says whether the polynomial was added. -/
theorem getLsbD_round (hp : p.getLsbD 0 = true) (v s : BitVec w) (i : Nat) :
    (round p v s i).getLsbD 0 = (s ^^^ (v <<< i)).msb := by
  rw [round, getLsbD_xor]
  by_cases h : (s ^^^ (v <<< i)).msb = true
  · simp [h, hp]
  · simp [h]

/-- **A round is injective in the state**, if the polynomial is odd. -/
theorem round_injective (hp : p.getLsbD 0 = true) (v : BitVec w) (i : Nat)
    {s t : BitVec w} (h : round p v s i = round p v t i) : s = t := by
  have hmsb : (s ^^^ (v <<< i)).msb = (t ^^^ (v <<< i)).msb := by
    rw [← getLsbD_round hp, ← getLsbD_round hp, h]
  apply eq_of_shiftLeft_eq
  · -- both rounds have added the same
    rw [round, round, hmsb] at h
    exact (xor_left_inj _).mp h
  · rw [msb_xor, msb_xor] at hmsb
    exact Bool.xor_left_inj.mp hmsb

theorem rounds_injective (hp : p.getLsbD 0 = true) (v : BitVec w) (n : Nat)
    {s t : BitVec w} (h : rounds p v n s = rounds p v n t) : s = t := by
  induction n with
  | zero => exact h
  | succ n ih => exact ih (round_injective hp v n h)

/-! ## Data and state -/

/-- After `n` rounds the rest of the word is still to be added to the state. -/
theorem rounds_eq (p v s : BitVec w) (n : Nat) :
    rounds p v n s ^^^ (v <<< n) = rounds p 0#w n (s ^^^ v) := by
  induction n with
  | zero => simp [rounds]
  | succ n ih =>
    have hshift : v <<< (n + 1) = (v <<< n) <<< 1 := by rw [shiftLeft_add]
    rw [rounds, rounds, ← ih, round, round, hshift, shiftLeft_xor_distrib]
    rw [zero_shiftLeft, xor_zero]
    ac_rfl

/-- **Feeding a word is adding it to the state and feeding zeros.** -/
theorem feed_eq (p s v : BitVec w) : feed p s v = feed p (s ^^^ v) 0#w := by
  have hrounds := rounds_eq p v s w
  rwa [shiftLeft_eq_zero (Nat.le_refl w), xor_zero] at hrounds

section

variable (hp : p.getLsbD 0 = true)

include hp

/-- The state before a word can be told from the word and the state after it. -/
theorem feed_left_injective {s t v : BitVec w}
    (h : feed p s v = feed p t v) : s = t :=
  rounds_injective hp v w h

/-- A word can be told from the states before and after it. -/
theorem feed_right_injective {s u v : BitVec w}
    (h : feed p s u = feed p s v) : u = v := by
  rw [feed_eq p s u, feed_eq p s v] at h
  exact (xor_right_inj s).mp (feed_left_injective hp h)

/-! ## Messages -/

theorem feedAll_injective {s t : BitVec w}
    {vs : List (BitVec w)} (h : feedAll p s vs = feedAll p t vs) : s = t := by
  induction vs generalizing s t with
  | nil => exact h
  | cons v vs ih => exact feed_left_injective hp (ih h)

/-- **A change of one word changes the code.** -/
theorem feedAll_ne (s : BitVec w) (pre post : List (BitVec w))
    {u v : BitVec w} (hne : u ≠ v) :
    feedAll p s (pre ++ u :: post) ≠ feedAll p s (pre ++ v :: post) := by
  intro h
  rw [feedAll, feedAll, List.foldl_append, List.foldl_append] at h
  -- the words before it lead to the same state, and those behind it cannot join two states
  exact hne (feed_right_injective hp (@feedAll_injective w p hp _ _ post h))

end

end Vcass.Core.Crc
