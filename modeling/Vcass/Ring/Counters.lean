import Vcass.Core.RingCounters
import Vcass.Vcablk.Framing
import Vcass.Vop.KvecRing

/-!
# The Counters of the Rings

All rings of the driver stack, those of the block device (`vcablk.h`) and those of the network
queues (`vop_kvec_buff.h`), tell a full ring from an empty one by counters that run modulo twice
the size.  The first family of macros reduces with a mask, which needs a size that is a power of
two; the second one takes the remainder by `2 * size`, which works for any size.

Both are instances of `CounterArith`, so that **either family represents the number of entries
in the ring** (`ringCounters_determine_length`), with the counters stored in 16 bits as in
`struct vcablk_ring` and `struct vop_kvec_ring`.
-/

namespace Vcass.Ring

open Vcass.Core Vcass.Vcablk Vcass.Vop

/-! ## Masks: `VCA_RB_*` -/

/-- `VCA_RB_COUNTER_EQ` -/
def vcaRbCounterEq (cnt1 cnt2 size : Nat) : Prop :=
  cnt1 &&& ((size <<< 1) - 1) = cnt2 &&& ((size <<< 1) - 1)

/-- `VCA_RB_BUFF_USED` -/
def vcaRbBuffUsed (headCnt tailCnt size : Nat) : Nat :=
  if tailCnt ≥ headCnt then tailCnt - headCnt else tailCnt + (size <<< 1) - headCnt

/-- The macros for sizes that are powers of two -/
def vcaRb : CounterArith where
  same := vcaRbCounterEq
  add := vcaRbCounterAdd
  toIdx := vcaRbCounterToIdx
  used := vcaRbBuffUsed

theorem and_doubleMask (n k : Nat) : n &&& ((2 ^ k <<< 1) - 1) = n % (2 * 2 ^ k) := by
  rw [Nat.shiftLeft_eq, pow_one, ← pow_succ, Nat.and_two_pow_sub_one_eq_mod, pow_succ, mul_comm]

theorem vcaRb_reduces (k : Nat) : vcaRb.Reduces (2 ^ k) where
  same a b := by
    change a &&& _ = b &&& _ ↔ _
    rw [and_doubleMask, and_doubleMask]
  add cnt val := and_doubleMask (cnt + val) k
  toIdx cnt := Nat.and_two_pow_sub_one_eq_mod cnt k
  used last cnt := by
    change (if cnt ≥ last then cnt - last else cnt + (2 ^ k <<< 1) - last) = _
    rw [Nat.shiftLeft_eq, pow_one, mul_comm]

/-! ## Remainders: `KVEC_COUNTER_*` -/

/-- `KVEC_COUNTER_USED` -/
def kvecCounterUsed (lastCnt cnt size : Nat) : Nat :=
  if cnt ≥ lastCnt then cnt - lastCnt else cnt + size * 2 - lastCnt

/-- The macros for rings of any size -/
def kvecCounter : CounterArith where
  same := kvecCounterEq
  add := kvecCounterAdd
  toIdx := kvecCounterToIdx
  used := kvecCounterUsed

theorem kvecCounter_reduces (size : Nat) : kvecCounter.Reduces size where
  same _ _ := Iff.rfl
  add _ _ := rfl
  toIdx _ := rfl
  used last cnt := by
    change (if cnt ≥ last then cnt - last else cnt + size * 2 - last) = _
    rw [mul_comm]

/-! ## The length of the queue -/

/-- **Both families of macros represent the number of entries in the ring** in counters of 16
bits: after any additions that keep it between 0 and the size, the counters are equal exactly
when the ring is empty, they differ with one slot exactly when it is full, the macro for the
number of used entries gives the number, and no two entries share a slot. -/
theorem ringCounters_determine_length :
    (∀ k ≤ 14, ∀ s, (counters vcaRb (2 ^ k) 16).ReachBy (keepsBetween (2 ^ k)) s →
      Represents vcaRb (2 ^ k) s) ∧
    (∀ size, 1 ≤ size → size ≤ 2 ^ 14 →
      ∀ s, (counters kvecCounter size 16).ReachBy (keepsBetween size) s →
        Represents kvecCounter size s) := by
  constructor
  · intro k hk s hreach
    have hsize : 2 ^ k ≤ 2 ^ 14 := Nat.pow_le_pow_right (by decide) hk
    have hwidth : 2 * 2 ^ k ≤ 2 ^ 16 := by omega
    exact represents (vcaRb_reduces k) (Nat.two_pow_pos k) hwidth hreach
  · intro size hpos hsize s hreach
    have hwidth : 2 * size ≤ 2 ^ 16 := by omega
    exact represents (kvecCounter_reduces size) hpos hwidth hreach

/-- Four slots from counter 6 on, and three slots from counter 5 on, each past the wrap: the
first ring ends full, the second one with two entries. -/
theorem ringCounters_wrapped :
    Represents vcaRb (2 ^ 2) ⟨5, 1, 7, 3⟩ ∧ Represents kvecCounter 3 ⟨5, 3, 6, 4⟩ := by
  constructor
  · refine ringCounters_determine_length.1 2 (by decide) _ ?_
    have hinit : (counters vcaRb (2 ^ 2) 16).Init ⟨6, 6, 0, 0⟩ := ⟨6, by decide, rfl⟩
    exact System.reachBy_of_runBy (.init hinit) [.produce 4, .consume 3, .produce 3] (by decide)
  · refine ringCounters_determine_length.2 3 (by decide) (by decide) _ ?_
    have hinit : (counters kvecCounter 3 16).Init ⟨5, 5, 0, 0⟩ := ⟨5, by decide, rfl⟩
    exact System.reachBy_of_runBy (.init hinit)
      [.produce 3, .consume 2, .produce 2, .consume 2, .produce 1] (by decide)

end Vcass.Ring
