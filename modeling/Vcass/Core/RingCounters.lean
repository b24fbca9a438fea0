import Vcass.Core.Ring
import Vcass.Core.System

/-!
# Ring Counters as a Number Format

Two counters that run modulo `2 * size` stand for two numbers that only grow.  This file makes
that precise for any arithmetic of counters that reduces modulo `2 * size`, by a mask or by a
remainder:

- `CounterArith`: the operations, as a family of macros has them;
- `CounterArith.Reduces`: what the operations have to compute;
- `counters`: the producer's and the consumer's counter in fields of `width` bits, together with
  the numbers they stand for;
- `represents`: **as long as the ring is neither overrun nor underrun, the two counters determine
  the number of entries between them.**
-/

namespace Vcass.Core

/-! ## Arithmetic -/

/-- The operations on the counters of a ring; the last argument is the size of the ring. -/
structure CounterArith where
  /-- Do two counters stand for one position? -/
  same : Nat → Nat → Nat → Prop
  /-- A counter moved on -/
  add : Nat → Nat → Nat → Nat
  /-- The slot of a counter -/
  toIdx : Nat → Nat → Nat
  /-- The number of entries from the first counter to the second -/
  used : Nat → Nat → Nat → Nat

/-- The operations compute modulo `2 * size`. -/
structure CounterArith.Reduces (ops : CounterArith) (size : Nat) : Prop where
  same : ∀ a b, ops.same a b size ↔ a % (2 * size) = b % (2 * size)
  add : ∀ cnt val, ops.add cnt val size = (cnt + val) % (2 * size)
  toIdx : ∀ cnt, ops.toIdx cnt size = cnt % size
  used : ∀ last cnt,
    ops.used last cnt size = if last ≤ cnt then cnt - last else cnt + 2 * size - last

/-- The distance of two counters, with one turn added when the second has wrapped and the first
has not, is the distance of the numbers. -/
theorem counter_used {size a b : Nat} (hle : a ≤ b) (hfits : b < a + 2 * size) :
    (if a % (2 * size) ≤ b % (2 * size) then b % (2 * size) - a % (2 * size)
      else b % (2 * size) + 2 * size - a % (2 * size)) = b - a := by
  have hpos : 0 < 2 * size := by omega
  have ha := Nat.div_add_mod a (2 * size)
  have hb := Nat.div_add_mod b (2 * size)
  have hra := Nat.mod_lt a hpos
  have hrb := Nat.mod_lt b hpos
  -- the numbers lie in one turn or in two that follow each other
  have hturn : b / (2 * size) = a / (2 * size) ∨ b / (2 * size) = a / (2 * size) + 1 := by
    have hlow : a / (2 * size) ≤ b / (2 * size) := Nat.div_le_div_right hle
    have hhigh : b / (2 * size) ≤ (a + 2 * size) / (2 * size) :=
      Nat.div_le_div_right (le_of_lt hfits)
    rw [Nat.add_div_right a hpos] at hhigh
    omega
  rcases hturn with hsame | hnext
  · rw [hsame] at hb
    split <;> omega
  · rw [hnext, mul_add, mul_one] at hb
    split <;> omega

/-! ## Two counters -/

/-- The counters of a ring, and how far they have been moved since the start -/
structure CounterPair where
  /-- The producer's counter, as it is stored -/
  cnt : Nat
  /-- The consumer's counter, as it is stored -/
  lastCnt : Nat
  /-- History: all that was added to the producer's counter -/
  produced : Nat
  /-- History: all that was added to the consumer's counter -/
  consumed : Nat
deriving DecidableEq

/-- The true difference -/
def CounterPair.length (s : CounterPair) : Nat := s.produced - s.consumed

/-- One addition to one of the counters -/
inductive CounterAct where
  | produce (n : Nat)
  | consume (n : Nat)

/-- The sum is stored in a field of `width` bits. -/
def counterStep (ops : CounterArith) (size width : Nat) (s : CounterPair) :
    CounterAct → CounterPair
  | .produce n =>
    { s with cnt := ops.add s.cnt n size % 2 ^ width, produced := s.produced + n }
  | .consume n =>
    { s with lastCnt := ops.add s.lastCnt n size % 2 ^ width, consumed := s.consumed + n }

/-- The counters start equal, at any value of a counter. -/
def counters (ops : CounterArith) (size width : Nat) : System CounterPair CounterAct where
  Init s := ∃ start < 2 * size, s = ⟨start, start, 0, 0⟩
  step s a := some (counterStep ops size width s a)

/-- The addition leaves the true difference between 0 and `size`. -/
def keepsBetween (size : Nat) (_ : CounterPair) (_ : CounterAct) (s' : CounterPair) : Prop :=
  s'.consumed ≤ s'.produced ∧ s'.produced ≤ s'.consumed + size

instance (size : Nat) (s : CounterPair) (a : CounterAct) (s' : CounterPair) :
    Decidable (keepsBetween size s a s') :=
  inferInstanceAs (Decidable (_ ∧ _))

/-- What the counters tell about the entries in the ring -/
structure Represents (ops : CounterArith) (size : Nat) (s : CounterPair) : Prop where
  /-- The true difference is one that the ring can hold -/
  fits : s.consumed ≤ s.produced ∧ s.length ≤ size
  empty : s.lastCnt = s.cnt ↔ s.length = 0
  /-- The comparison of the family agrees with the comparison of the fields -/
  same : ops.same s.lastCnt s.cnt size ↔ s.length = 0
  full : (s.lastCnt ≠ s.cnt ∧ ops.toIdx s.lastCnt size = ops.toIdx s.cnt size) ↔ s.length = size
  used : ops.used s.lastCnt s.cnt size = s.length
  /-- The `i`-th and the `j`-th entry, counted from the consumer's counter -/
  slots : ∀ i j, i < j → j < s.length →
    ops.toIdx (ops.add s.lastCnt i size) size ≠ ops.toIdx (ops.add s.lastCnt j size) size

/-! ## The invariant -/

/-- The fields are the numbers, reduced. -/
structure Reduced (size start : Nat) (s : CounterPair) : Prop where
  cnt : s.cnt = (start + s.produced) % (2 * size)
  lastCnt : s.lastCnt = (start + s.consumed) % (2 * size)
  le : s.consumed ≤ s.produced
  fits : s.produced ≤ s.consumed + size

section

variable {ops : CounterArith} {size width start : Nat} {s s' : CounterPair}

section

variable (laws : ops.Reduces size)

include laws

/-- A reduced sum fits into the field. -/
theorem CounterArith.Reduces.add_stored (hpos : 0 < size)
    (hwidth : 2 * size ≤ 2 ^ width) (number val : Nat) :
    ops.add (number % (2 * size)) val size % 2 ^ width = (number + val) % (2 * size) := by
  have hlt : (number + val) % (2 * size) < 2 * size := Nat.mod_lt _ (by omega)
  rw [laws.add, Nat.mod_add_mod]
  exact Nat.mod_eq_of_lt (lt_of_lt_of_le hlt hwidth)

/-- One addition -/
theorem Reduced.step (hpos : 0 < size)
    (hwidth : 2 * size ≤ 2 ^ width) (red : Reduced size start s) {a : CounterAct}
    (hkeeps : keepsBetween size s a (counterStep ops size width s a)) :
    Reduced size start (counterStep ops size width s a) := by
  obtain ⟨hle, hfits⟩ := hkeeps
  cases a with
  | produce n =>
    refine ⟨?_, red.lastCnt, hle, hfits⟩
    simp only [counterStep, red.cnt]
    rw [laws.add_stored hpos hwidth, add_assoc]
  | consume n =>
    refine ⟨red.cnt, ?_, hle, hfits⟩
    simp only [counterStep, red.lastCnt]
    rw [laws.add_stored hpos hwidth, add_assoc]

/-- What reduced fields tell -/
theorem Reduced.represents (hpos : 0 < size)
    (red : Reduced size start s) : Represents ops size s := by
  obtain ⟨hcnt, hlast, hle, hfits⟩ := red
  have hsum : start + s.consumed ≤ start + s.produced := by omega
  have hequal : s.lastCnt = s.cnt ↔ s.length = 0 := by
    rw [hcnt, hlast, counter_eq_iff hsum (by omega), CounterPair.length]
    omega
  refine ⟨⟨hle, ?_⟩, hequal, ?_, ?_, ?_, ?_⟩
  · rw [CounterPair.length]
    omega
  · -- the fields are below `2 * size` already, so reducing them again changes nothing
    rw [laws.same, ← hequal, hcnt, hlast, Nat.mod_mod, Nat.mod_mod]
  · have hfull := counter_full_iff hpos hsum (by omega)
    rw [laws.toIdx, laws.toIdx, hcnt, hlast, counter_mod_slot, counter_mod_slot, ne_comm,
      eq_comm (b := (start + s.produced) % size), hfull, CounterPair.length]
    omega
  · rw [laws.used, hcnt, hlast, counter_used hsum (by omega), CounterPair.length]
    omega
  · intro i j hij hj
    rw [CounterPair.length] at hj
    rw [laws.add, laws.add, laws.toIdx, laws.toIdx, hlast, Nat.mod_add_mod, Nat.mod_add_mod,
      counter_mod_slot, counter_mod_slot]
    exact slot_ne (by omega) (by omega)

/-- **The counters determine the length of the queue**, after any number of turns. -/
theorem represents (hpos : 0 < size) (hwidth : 2 * size ≤ 2 ^ width)
    (h : (counters ops size width).ReachBy (keepsBetween size) s) : Represents ops size s := by
  have hred : ∃ start, Reduced size start s := by
    refine System.ReachBy.invariant (I := fun s => ∃ start, Reduced size start s) ?_ ?_ h
    · rintro s ⟨start, hstart, rfl⟩
      have hvalue : start = (start + 0) % (2 * size) := (Nat.mod_eq_of_lt hstart).symm
      exact ⟨start, hvalue, hvalue, Nat.le_refl 0, Nat.zero_le _⟩
    · rintro s a s' ⟨start, red⟩ hkeeps hstep
      obtain rfl := Option.some.inj hstep
      exact ⟨start, red.step laws hpos hwidth hkeeps⟩
  obtain ⟨start, red⟩ := hred
  exact red.represents laws hpos

end

end

end Vcass.Core
