import Mathlib.Algebra.Order.Ring.Nat
import Vcass.Core.CString

/-!
# Numbers in Strings

Decimal numbers as the C library reads them from a string: blanks, a sign and as many digits as
follow.  `Spells` is the grammar, without any function that scans.  `readNumeral_eq_some_iff` says
that the scanner follows it, and that a string spells one number at most.
-/

namespace Vcass.Core.CString

open List Option

/-- `isspace` in the C locale -/
def isSpace (c : UInt8) : Bool := c == 32 || (9 ≤ c && c ≤ 13)

/-- `isdigit` -/
def isDigit (c : UInt8) : Bool := 48 ≤ c && c ≤ 57

/-- The value of a string of digits -/
def decimal (digits : Str) : Nat :=
  digits.foldl (fun v d => 10 * v + (d.toNat - 48)) 0

/-- A number as it stands in a string, with what follows its digits -/
structure Numeral where
  negative : Bool
  digits : Str
  rest : Str

/-- The value of a number with its sign -/
def Numeral.value (n : Numeral) : Int :=
  if n.negative then -(decimal n.digits) else decimal n.digits

/-! ## Scanning -/

/-- An optional sign -/
def readSign : Str → Bool × Str
  | [] => (false, [])
  | c :: s => if c = 45 then (true, s) else if c = 43 then (false, s) else (false, c :: s)

/-- Read a number at the beginning of a string. -/
def readNumeral (s : Str) : Option Numeral :=
  let signed := readSign (s.dropWhile isSpace)
  let digits := signed.2.takeWhile isDigit
  if digits = [] then none
  else some ⟨signed.1, digits, signed.2.dropWhile isDigit⟩

/-- The conversion `%u` of `sscanf`.  The value is stored in 32 bits. -/
def scanUnsigned (s : Str) : Option (BitVec 32) :=
  (readNumeral s).map fun n => BitVec.ofInt 32 n.value

/-- `sscanf` with the format of `literal` and then `%u` -/
def sscanfUnsigned (literal s : Str) : Option (BitVec 32) :=
  (literal.isPrefixOf? s).bind scanUnsigned

/-- `operator>>` of an input stream for `unsigned int`, on a string that has to be read to its end,
blanks apart.  A value that does not fit is refused; a sign is not. -/
def streamUnsigned (s : Str) : Option Nat :=
  match readNumeral s with
  | none => none
  | some n =>
    if decimal n.digits < 2 ^ 32 ∧ n.rest.all isSpace then
      some (BitVec.ofInt 32 n.value).toNat
    else
      none

/-! ## Grammar -/

/-- The spellings of a sign -/
def signs : Bool → List Str
  | true => [ascii "-"]
  | false => [[], ascii "+"]

/-- The string begins with the number `n`. -/
structure Spells (s : Str) (n : Numeral) : Prop where
  split : ∃ blanks, ∃ sign ∈ signs n.negative,
    (∀ c ∈ blanks, isSpace c) ∧ s = blanks ++ (sign ++ (n.digits ++ n.rest))
  digits_ne_nil : n.digits ≠ []
  digits : ∀ c ∈ n.digits, isDigit c
  ends : ∀ c ∈ n.rest.head?, isDigit c = false

/-- A run of bytes is taken up to the first byte of another kind. -/
theorem takeWhile_append_of_head? {p : UInt8 → Bool} {run rest : Str}
    (hrun : ∀ c ∈ run, p c) (hrest : ∀ c ∈ rest.head?, p c = false) :
    (run ++ rest).takeWhile p = run ∧ (run ++ rest).dropWhile p = rest := by
  have hnone : rest.takeWhile p = [] ∧ rest.dropWhile p = rest := by
    cases rest with
    | nil => simp
    | cons c rest => simp [hrest c (by simp)]
  constructor
  · rw [takeWhile_append_of_pos hrun, hnone.1, append_nil]
  · rw [dropWhile_append_of_pos hrun, hnone.2]

/-- A byte that begins a sign or a digit is no blank. -/
theorem not_isSpace_of_sign_or_digit {c : UInt8} (h : c = 45 ∨ c = 43 ∨ isDigit c) :
    isSpace c = false := by
  obtain rfl | rfl | hdigit := h
  · decide
  · decide
  · simp only [isDigit, Bool.and_eq_true, decide_eq_true_eq, UInt8.le_iff_toNat_le] at hdigit
    have hblank : c ≠ 32 := by
      rintro rfl
      exact absurd hdigit.1 (by decide)
    have hcontrol : ¬ c ≤ 13 := by
      rw [UInt8.le_iff_toNat_le]
      have : (48 : UInt8).toNat = 48 := rfl
      have : (13 : UInt8).toNat = 13 := rfl
      omega
    simp [isSpace, hblank, hcontrol]

theorem isDigit_ne_sign {c : UInt8} (h : isDigit c) : c ≠ 45 ∧ c ≠ 43 := by
  constructor <;> rintro rfl <;> revert h <;> decide

/-- The sign is read as it is spelled in front of a digit. -/
theorem readSign_append {negative : Bool} {sign digits : Str} (hsign : sign ∈ signs negative)
    (hne : digits ≠ []) (hdigits : ∀ c ∈ digits, isDigit c) (rest : Str) :
    readSign (sign ++ (digits ++ rest)) = (negative, digits ++ rest) := by
  obtain ⟨d, ds, rfl⟩ := exists_cons_of_ne_nil hne
  have hd := isDigit_ne_sign (hdigits d (by simp))
  cases negative with
  | true =>
    obtain rfl : sign = [45] := by simpa [signs, ascii] using hsign
    simp [readSign]
  | false =>
    obtain rfl | rfl : sign = [] ∨ sign = [43] := by simpa [signs, ascii] using hsign
    · simp [readSign, hd]
    · simp [readSign]

/-- The first byte after the blanks -/
theorem head?_not_isSpace {negative : Bool} {sign digits : Str} (hsign : sign ∈ signs negative)
    (hne : digits ≠ []) (hdigits : ∀ c ∈ digits, isDigit c) (rest : Str) :
    ∀ c ∈ (sign ++ (digits ++ rest)).head?, isSpace c = false := by
  obtain ⟨d, ds, rfl⟩ := exists_cons_of_ne_nil hne
  have hd := hdigits d (by simp)
  intro c hc
  apply not_isSpace_of_sign_or_digit
  cases negative with
  | true =>
    obtain rfl : sign = [45] := by simpa [signs, ascii] using hsign
    left
    simpa using hc.symm
  | false =>
    obtain rfl | rfl : sign = [] ∨ sign = [43] := by simpa [signs, ascii] using hsign
    · right; right
      obtain rfl : d = c := by simpa using hc
      exact hd
    · right; left
      simpa using hc.symm

/-- What the sign leaves is the string without one of its spellings. -/
theorem readSign_split (s : Str) : ∃ sign ∈ signs (readSign s).1, s = sign ++ (readSign s).2 := by
  cases s with
  | nil => exact ⟨[], by simp [readSign, signs], by simp [readSign]⟩
  | cons c s =>
    by_cases hminus : c = 45
    · exact ⟨[45], by simp [readSign, hminus, signs, ascii], by simp [readSign, hminus]⟩
    · by_cases hplus : c = 43
      · exact ⟨[43], by simp [readSign, hplus, signs, ascii], by simp [readSign, hplus]⟩
      · exact ⟨[], by simp [readSign, hminus, hplus, signs],
          by simp [readSign, hminus, hplus]⟩

/-- **The scanner reads exactly the number that the string spells.** -/
theorem readNumeral_eq_some_iff {s : Str} {n : Numeral} : readNumeral s = some n ↔ Spells s n := by
  constructor
  · intro hread
    simp only [readNumeral, ite_none_left_eq_some, Option.some.injEq] at hread
    obtain ⟨hne, rfl⟩ := hread
    obtain ⟨sign, hsign, hsplit⟩ := readSign_split (s.dropWhile isSpace)
    refine ⟨⟨s.takeWhile isSpace, sign, hsign, ?_, ?_⟩, hne, ?_, ?_⟩
    · exact fun c hc => mem_takeWhile_imp hc
    · rw [takeWhile_append_dropWhile, ← hsplit, takeWhile_append_dropWhile]
    · exact fun c hc => mem_takeWhile_imp hc
    · intro c hc
      have hstop := List.head?_dropWhile_not isDigit (readSign (s.dropWhile isSpace)).2
      rw [Option.mem_def.mp hc] at hstop
      simpa using hstop
  · rintro ⟨⟨blanks, sign, hsign, hblanks, rfl⟩, hne, hdigits, hends⟩
    have hdrop := (takeWhile_append_of_head? hblanks
      (head?_not_isSpace hsign hne hdigits n.rest)).2
    obtain ⟨htake, hrest⟩ := takeWhile_append_of_head? hdigits hends
    simp [readNumeral, hdrop, readSign_append hsign hne hdigits, htake, hrest, hne]

/-- `sscanf` stores the value that is spelled after the literal, in 32 bits. -/
theorem sscanfUnsigned_eq_some_iff {literal s : Str} {b : BitVec 32} :
    sscanfUnsigned literal s = some b ↔
      ∃ t n, s = literal ++ t ∧ Spells t n ∧ BitVec.ofInt 32 n.value = b := by
  simp only [sscanfUnsigned, scanUnsigned, bind_eq_some_iff, map_eq_some_iff,
    readNumeral_eq_some_iff, List.isPrefixOf?_eq_some_iff_append_eq]
  constructor
  · rintro ⟨t, rfl, n, hspells, rfl⟩
    exact ⟨t, n, rfl, hspells, rfl⟩
  · rintro ⟨t, n, rfl, hspells, rfl⟩
    exact ⟨t, rfl, n, hspells, rfl⟩

end Vcass.Core.CString
