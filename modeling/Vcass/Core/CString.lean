import Mathlib.Data.List.TakeWhile
import Mathlib.Data.List.Infix

/-!
# Character Strings of C

Byte strings as the string functions of C read them.  A string ends at its first byte 0 or, where
the list of bytes ends earlier, at the end of the list.

- `strcspn_append_zero`: the length of the text before a rejected byte.
- `strncmp_eq_zero_iff`: a comparison limited to the length of a text asks only whether the text is
  the beginning of the other string.
-/

namespace Vcass.Core.CString

open List

/-- A string of bytes -/
abbrev Str := List UInt8

/-- The bytes of a text in ASCII -/
def ascii (s : String) : Str :=
  s.toList.map fun c => UInt8.ofNat c.toNat

/-! ## Length of a beginning -/

/-- The bytes before the first byte of `reject` or the end of the string -/
def span (reject s : Str) : Str :=
  s.takeWhile fun c => c ≠ 0 && !reject.contains c

/-- `strcspn` -/
def strcspn (s reject : Str) : Nat :=
  (span reject s).length

theorem zero_notMem_span (reject s : Str) : 0 ∉ span reject s := by
  intro hmem
  have hkeep := mem_takeWhile_imp hmem
  simp at hkeep

theorem span_isPrefix (reject s : Str) : span reject s <+: s :=
  List.takeWhile_prefix _

/-- A terminator after the bytes changes nothing. -/
theorem span_append_zero (reject s : Str) : span reject (s ++ [0]) = span reject s := by
  unfold span
  induction s with
  | nil => simp
  | cons c s ih =>
    rw [cons_append, takeWhile_cons, takeWhile_cons, ih]

theorem strcspn_append_zero (reject s : Str) :
    strcspn (s ++ [0]) reject = (span reject s).length := by
  rw [strcspn, span_append_zero]

/-! ## Comparison of beginnings -/

/-- `strncmp`: the sign of the first difference among `n` bytes.  Equal strings that end earlier
compare as equal. -/
def strncmp : Nat → Str → Str → Int
  | 0, _, _ => 0
  | n + 1, a, b =>
    let c₁ := a.headD 0
    let c₂ := b.headD 0
    if c₁ ≠ c₂ then (if c₁ < c₂ then -1 else 1)
    else if c₁ = 0 then 0
    else strncmp n a.tail b.tail

/-- A comparison over the length of the text `t` succeeds exactly for the strings that begin with
`t`. -/
theorem strncmp_eq_zero_iff {t : Str} (ht : 0 ∉ t) (name rest : Str) :
    strncmp t.length name (t ++ rest) = 0 ↔ t <+: name := by
  induction t generalizing name with
  | nil => simp [strncmp]
  | cons c t ih =>
    obtain ⟨hc, hrest⟩ : 0 ≠ c ∧ 0 ∉ t := by simpa using ht
    cases name with
    | nil =>
      -- The name has ended, and its terminator differs from `c`.
      have hsign : (if (0 : UInt8) < c then (-1 : Int) else 1) ≠ 0 := by
        split <;> decide
      simp [strncmp, hc, hsign]
    | cons d name =>
      by_cases hd : d = c
      · subst hd
        simp [strncmp, hc.symm, ih hrest]
      · have hsign : (if d < c then (-1 : Int) else 1) ≠ 0 := by
          split <;> decide
        simp [strncmp, hd, Ne.symm hd, hsign, cons_prefix_cons]

end Vcass.Core.CString
