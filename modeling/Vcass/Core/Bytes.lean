import Mathlib.Data.List.Basic
import Mathlib.Tactic.Ring

/-!
# Byte Memories

A memory as a function from offsets to bytes, with the one operation `copyBytes` that `memcpy`, the
stores of single fields and the copies in pieces come down to.  `Within lo hi m m'` is the frame: `m'`
differs from `m` at most in the bytes from `lo` up to `hi`.
-/

namespace Vcass.Core

section

variable {β : Type*}

/-- Overwrite `n` cells at `offset` with the first cells of `src`. -/
def copyBytes (dst : Nat → β) (offset n : Nat) (src : Nat → β) : Nat → β :=
  fun a => if offset ≤ a ∧ a < offset + n then src (a - offset) else dst a

variable {dst src : Nat → β} {offset n a : Nat}

theorem copyBytes_inside (h : offset ≤ a ∧ a < offset + n) :
    copyBytes dst offset n src a = src (a - offset) := by
  simp only [copyBytes, if_pos h]

theorem copyBytes_outside (h : ¬ (offset ≤ a ∧ a < offset + n)) :
    copyBytes dst offset n src a = dst a := by
  simp only [copyBytes, if_neg h]

end

/-- The bytes of a memory, by offset -/
abbrev Bytes := Nat → UInt8

namespace Bytes

/-- Store the bytes `bs` from offset `off` on -/
def write (m : Bytes) (off : Nat) (bs : List UInt8) : Bytes :=
  copyBytes m off bs.length fun k => bs.getD k 0

/-- The bytes of a number, the lowest first -/
def littleEndian : Nat → Nat → List UInt8
  | 0, _ => []
  | width + 1, x => UInt8.ofNat x :: littleEndian width (x / 256)

/-- The 16-bit number at offset `off`, lowest byte first -/
def le16 (m : Bytes) (off : Nat) : Nat :=
  (m off).toNat + 256 * (m (off + 1)).toNat

@[simp]
theorem length_littleEndian (width x : Nat) : (littleEndian width x).length = width := by
  induction width generalizing x with
  | zero => rfl
  | succ width ih => rw [littleEndian, List.length_cons, ih]

variable {m m' m'' : Bytes} {lo hi : Nat} {bs : List UInt8}

theorem write_of_outside {off k : Nat} (h : k < off ∨ off + bs.length ≤ k) :
    m.write off bs k = m k :=
  copyBytes_outside (by omega)

theorem write_of_inside {off k : Nat} (h : k < bs.length) :
    m.write off bs (off + k) = bs.getD k 0 := by
  rw [write, copyBytes_inside (by omega), Nat.add_sub_cancel_left]

@[simp]
theorem write_singleton_self {off : Nat} {b : UInt8} : m.write off [b] off = b :=
  write_of_inside (k := 0) Nat.zero_lt_one

/-! ## Numbers in memory -/

/-- The number in the `n` bytes from offset `off` on, lowest byte first -/
def le (m : Bytes) (off : Nat) : Nat → Nat
  | 0 => 0
  | n + 1 => (m off).toNat + 256 * le m (off + 1) n

theorem le_lt (m : Bytes) (off n : Nat) : m.le off n < 256 ^ n := by
  induction n generalizing off with
  | zero => exact Nat.one_pos
  | succ n ih =>
    have hbyte := (m off).toNat_lt
    have hrest := ih (off + 1)
    rw [le, pow_succ]
    omega

/-- The number is made of the bytes that are read, and of nothing else. -/
theorem le_congr {off n : Nat} (h : ∀ k < n, m' (off + k) = m (off + k)) :
    m'.le off n = m.le off n := by
  induction n generalizing off with
  | zero => rfl
  | succ n ih =>
    have hrest : m'.le (off + 1) n = m.le (off + 1) n := by
      apply ih
      intro k hk
      rw [add_assoc, add_comm 1 k]
      exact h (k + 1) (by omega)
    have hfirst : m' off = m off := h 0 (Nat.succ_pos n)
    rw [le, le, hfirst, hrest]

/-- A number is made of the number in its first bytes and the one in the bytes that follow. -/
theorem le_add (m : Bytes) (off a b : Nat) :
    m.le off (a + b) = m.le off a + 256 ^ a * m.le (off + a) b := by
  induction a generalizing off with
  | zero => simp [le]
  | succ a ih =>
    have hnext : off + 1 + a = off + (a + 1) := by omega
    rw [Nat.succ_add, le, ih, le, hnext, pow_succ]
    ring

/-- The bytes are the digits of the number. -/
theorem le_digit (m : Bytes) (off : Nat) {n k : Nat} (hk : k < n) :
    m.le off n / 256 ^ k % 256 = (m (off + k)).toNat := by
  have hbyte := (m off).toNat_lt
  induction n generalizing off k with
  | zero => exact absurd hk (Nat.not_lt_zero k)
  | succ n ih =>
    rw [le]
    cases k with
    | zero =>
      have hsame : m (off + 0) = m off := rfl
      rw [Nat.pow_zero, Nat.div_one, hsame]
      omega
    | succ k =>
      have hdiv : ((m off).toNat + 256 * m.le (off + 1) n) / 256 = m.le (off + 1) n := by omega
      rw [Nat.pow_succ, Nat.mul_comm (256 ^ k), ← Nat.div_div_eq_div_mul, hdiv,
        ih (off + 1) (Nat.lt_of_succ_lt_succ hk) (m (off + 1)).toNat_lt, Nat.add_assoc, Nat.add_comm 1 k]

/-- A number that was stored is read back. -/
theorem le_of_littleEndian {off n x : Nat}
    (h : ∀ k < n, m (off + k) = (littleEndian n x).getD k 0) : m.le off n = x % 256 ^ n := by
  induction n generalizing off x with
  | zero => rw [Nat.pow_zero, Nat.mod_one, le]
  | succ n ih =>
    have hfirst : m off = UInt8.ofNat x := h 0 (Nat.succ_pos n)
    have hrest : m.le (off + 1) n = x / 256 % 256 ^ n := by
      apply ih
      intro k hk
      rw [add_assoc, add_comm 1 k, h (k + 1) (by omega)]
      rfl
    have hpow : 256 ^ (n + 1) = 256 * 256 ^ n := by rw [pow_succ, mul_comm]
    rw [le, hfirst, hrest, UInt8.toNat_ofNat', hpow, Nat.mod_mul]

/-- `m'` differs from `m` at most in the bytes from `lo` up to `hi`. -/
def Within (lo hi : Nat) (m m' : Bytes) : Prop :=
  ∀ k, k < lo ∨ hi ≤ k → m' k = m k

theorem Within.refl : Within lo hi m m := fun _ _ => rfl

theorem Within.trans (h : Within lo hi m m') (h' : Within lo hi m' m'') : Within lo hi m m'' :=
  fun k hk => (h' k hk).trans (h k hk)

theorem Within.mono {lo' hi' : Nat} (h : Within lo hi m m') (hlo : lo' ≤ lo) (hhi : hi ≤ hi') :
    Within lo' hi' m m' :=
  fun k hk => h k (by omega)

theorem within_write {off : Nat} (hlo : lo ≤ off) (hhi : off + bs.length ≤ hi) :
    Within lo hi m (m.write off bs) :=
  fun _ hk => write_of_outside (by omega)

end Bytes

end Vcass.Core
