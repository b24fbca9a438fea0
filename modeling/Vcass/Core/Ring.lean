import Mathlib.Data.List.Basic
import Mathlib.Data.Nat.ModEq

/-!
# Ring Buffers with Free-Running Counters

A ring of `num` slots is shared by a writer and a reader.  Each keeps a counter modulo
`2 * num`; the slot of a counter is its value modulo `num`.  The counters stand for the
numbers of entries written and read so far, and `Window` says what the slots hold in terms
of the list of all entries ever written.
-/

namespace Vcass.Core

open List Function

/-! ## Counters -/

/-- The slot of a counter is the slot of the number it stands for. -/
@[simp]
theorem counter_mod_slot (a num : Nat) : a % (2 * num) % num = a % num :=
  Nat.mod_mod_of_dvd a (Nat.dvd_mul_left num 2)

/-- Counters of numbers that are less than `2 * num` apart tell the numbers apart. -/
theorem counter_eq_iff {num a b : Nat} (hle : a ≤ b) (hlt : b < a + 2 * num) :
    a % (2 * num) = b % (2 * num) ↔ a = b := by
  constructor
  · intro h
    have hdvd : 2 * num ∣ b - a := (Nat.modEq_iff_dvd' hle).mp h
    have hzero : b - a = 0 := Nat.eq_zero_of_dvd_of_lt hdvd (by omega)
    omega
  · intro h
    rw [h]

/-- The test for a full ring -/
theorem counter_full_iff {num a b : Nat} (hpos : 0 < num) (hle : b ≤ a) (hfits : a ≤ b + num) :
    (a % (2 * num) ≠ b % (2 * num) ∧ a % num = b % num) ↔ a = b + num := by
  have hcounter : b % (2 * num) = a % (2 * num) ↔ b = a := counter_eq_iff hle (by omega)
  constructor
  · rintro ⟨hne, hslot⟩
    -- the distance is a multiple of `num` between 0 and `num`
    obtain ⟨k, hk⟩ : num ∣ a - b := (Nat.modEq_iff_dvd' hle).mp hslot.symm
    rcases Nat.lt_trichotomy k 1 with h | rfl | h
    · obtain rfl : k = 0 := by omega
      exact absurd (hcounter.mpr (by omega)).symm hne
    · omega
    · have : num * 2 ≤ num * k := Nat.mul_le_mul_left num h
      omega
  · rintro rfl
    refine ⟨fun h => ?_, Nat.add_mod_right b num⟩
    have := hcounter.mp h.symm
    omega

/-- Entries that are less than `num` apart are in different slots. -/
theorem slot_ne {num i j : Nat} (hlt : i < j) (hnear : j < i + num) : i % num ≠ j % num := by
  intro h
  have hdvd : num ∣ j - i := (Nat.modEq_iff_dvd' (le_of_lt hlt)).mp h
  have hzero : j - i = 0 := Nat.eq_zero_of_dvd_of_lt hdvd (by omega)
  omega

/-- A walk round the ring comes to every slot. -/
theorem slot_of_walk {num : Nat} (hpos : 0 < num) (start : Nat) {j : Nat} (hj : j < num) :
    ∃ n < num, (start + n) % num = j := by
  have hstart : start % num < num := Nat.mod_lt _ hpos
  refine ⟨(j + (num - start % num)) % num, Nat.mod_lt _ hpos, ?_⟩
  calc (start + (j + (num - start % num)) % num) % num
      = (start % num + (j + (num - start % num))) % num := by
        rw [Nat.add_mod_mod, Nat.mod_add_mod]
    _ = (j + num) % num := by
        congr 1
        omega
    _ = j := by rw [Nat.add_mod_right, Nat.mod_eq_of_lt hj]

/-! ## Windows -/

/-- The slots `buf` hold the entries of `log` from number `first` on. -/
structure Window {α : Type*} (num : Nat) (buf : Nat → α) (log : List α) (first : Nat) : Prop where
  /-- The entries from `first` on fit into the ring -/
  fits : log.length ≤ first + num
  slot : ∀ i (h : i < log.length), first ≤ i → buf (i % num) = log[i]

namespace Window

variable {α : Type*} {num first : Nat} {buf : Nat → α} {log : List α}

theorem empty (num : Nat) (buf : Nat → α) : Window num buf [] 0 where
  fits := Nat.zero_le _
  slot i h := absurd h (Nat.not_lt_zero i)

/-- The reader moves on. -/
theorem advance (w : Window num buf log first) {next : Nat} (h : first ≤ next) :
    Window num buf log next where
  fits := Nat.le_trans w.fits (Nat.add_le_add_right h num)
  slot i hi hle := w.slot i hi (Nat.le_trans h hle)

/-- The last entries may be taken back. -/
theorem left {rest : List α} (w : Window num buf (log ++ rest) first) :
    Window num buf log first where
  fits := by
    have := w.fits
    rw [length_append] at this
    omega
  slot i hi hle := by
    have := w.slot i (by rw [length_append]; omega) hle
    rw [this, getElem_append_left hi]

/-- What the reader finds in its next slot. -/
theorem read (w : Window num buf log first) {i : Nat} (hle : first ≤ i) {a : α}
    (h : log[i]? = some a) : buf (i % num) = a := by
  obtain ⟨hi, hget⟩ := List.getElem?_eq_some_iff.mp h
  rw [w.slot i hi hle, hget]

/-- Writing a slot outside the window changes nothing in it. -/
theorem update (w : Window num buf log first) {j : Nat} {a : α}
    (hj : ∀ i, first ≤ i → i < log.length → i % num ≠ j) :
    Window num (Function.update buf j a) log first where
  fits := w.fits
  slot i hi hle := by
    rw [update_of_ne (hj i hle hi)]
    exact w.slot i hi hle

/-- The writer stores the next entry, as long as there is room. -/
theorem push (w : Window num buf log first) (hroom : log.length < first + num) (a : α) :
    Window num (Function.update buf (log.length % num) a) (log ++ [a]) first where
  fits := by
    rw [length_append]
    exact hroom
  slot i hi hle := by
    rw [length_append, length_singleton] at hi
    rcases Nat.lt_succ_iff_lt_or_eq.mp hi with hlt | rfl
    · rw [update_of_ne (slot_ne hlt (by omega)), getElem_append_left hlt]
      exact w.slot i hlt hle
    · rw [update_self, getElem_append_right (le_refl _)]
      simp

end Window

/-! ## Sparse windows -/

/-- Some of the numbers from `first` on carry a mark.  The slot of a marked number holds its mark,
and the slots of all other numbers of this lap are blank. -/
structure Marks {α : Type*} (num : Nat) (buf : Nat → α) (blank : α) (first : Nat)
    (marks : List (Nat × α)) : Prop where
  sorted : marks.Pairwise fun m m' => m.1 < m'.1
  range : ∀ m ∈ marks, first ≤ m.1 ∧ m.1 < first + num
  marked : ∀ m ∈ marks, buf (m.1 % num) = m.2
  unmarked : ∀ i, first ≤ i → i < first + num → (∀ m ∈ marks, m.1 ≠ i) → buf (i % num) = blank

/-- Every slot belongs to one of the numbers of a lap. -/
theorem exists_slot_eq {num : Nat} (first : Nat) {j : Nat} (hj : j < num) :
    ∃ i, first ≤ i ∧ i < first + num ∧ i % num = j := by
  have hlt : first % num < num := Nat.mod_lt first (by omega)
  have hdiv : num * (first / num) + first % num = first := Nat.div_add_mod first num
  by_cases h : first % num ≤ j
  · refine ⟨num * (first / num) + j, by omega, by omega, ?_⟩
    rw [Nat.mul_add_mod, Nat.mod_eq_of_lt hj]
  · refine ⟨num * (first / num + 1) + j, ?_, ?_, ?_⟩
    · rw [mul_add, mul_one]
      omega
    · rw [mul_add, mul_one]
      omega
    · rw [Nat.mul_add_mod, Nat.mod_eq_of_lt hj]

/-- Different numbers of one lap are in different slots. -/
theorem slot_injective {num first i j : Nat} (hi : first ≤ i ∧ i < first + num)
    (hj : first ≤ j ∧ j < first + num) (h : i % num = j % num) : i = j := by
  rcases Nat.lt_trichotomy i j with hlt | heq | hlt
  · exact absurd h (slot_ne hlt (by omega))
  · exact heq
  · exact absurd h.symm (slot_ne hlt (by omega))

namespace Marks

variable {α : Type*} {num first : Nat} {buf : Nat → α} {blank : α} {marks : List (Nat × α)}

theorem empty (num : Nat) (blank : α) (first : Nat) :
    Marks num (fun _ => blank) blank first [] where
  sorted := List.Pairwise.nil
  range _ hm := absurd hm not_mem_nil
  marked _ hm := absurd hm not_mem_nil
  unmarked _ _ _ _ := rfl

section

variable (w : Marks num buf blank first marks)

include w

/-- A slot that is not blank is the slot of a marked number. -/
theorem exists_mark {j : Nat} (hj : j < num)
    (h : buf j ≠ blank) : ∃ m ∈ marks, m.1 % num = j ∧ buf j = m.2 := by
  obtain ⟨i, hle, hlt, rfl⟩ := exists_slot_eq first hj
  by_contra hnone
  apply h (w.unmarked i hle hlt ?_)
  rintro m hm rfl
  exact hnone ⟨m, hm, rfl, w.marked m hm⟩

/-- The next number to be passed is marked exactly when its slot is not blank, and then its mark is
the first one. -/
theorem next_cases (hpos : 0 < num) :
    (∃ a rest, marks = (first, a) :: rest ∧ buf (first % num) = a) ∨
      (∀ m ∈ marks, m.1 ≠ first) ∧ buf (first % num) = blank := by
  by_cases hmarked : ∃ m ∈ marks, m.1 = first
  · obtain ⟨⟨i, a⟩, hm, rfl⟩ := hmarked
    have ha := w.marked _ hm
    cases marks with
    | nil => cases hm
    | cons m rest =>
      rcases mem_cons.mp hm with rfl | hm
      · exact Or.inl ⟨a, rest, rfl, ha⟩
      · -- the first mark would have been passed
        have hlt : m.1 < i := (pairwise_cons.mp w.sorted).1 _ hm
        have hle := (w.range m mem_cons_self).1
        exact absurd hle (Nat.not_le_of_lt hlt)
  · simp only [not_exists, not_and] at hmarked
    exact Or.inr ⟨hmarked, w.unmarked first (le_refl _) (by omega) hmarked⟩

/-- A number behind all marks is marked. -/
theorem snoc {i : Nat} (a : α) (hle : first ≤ i)
    (hlt : i < first + num) (hbehind : ∀ m ∈ marks, m.1 < i) :
    Marks num (Function.update buf (i % num) a) blank first (marks ++ [(i, a)]) where
  sorted := by
    rw [pairwise_append]
    refine ⟨w.sorted, pairwise_singleton _ _, ?_⟩
    intro m hm m' hm'
    rw [mem_singleton.mp hm']
    exact hbehind m hm
  range m hm := by
    rcases mem_append.mp hm with hm | hm
    · exact w.range m hm
    · rw [mem_singleton.mp hm]
      exact ⟨hle, hlt⟩
  marked m hm := by
    rcases mem_append.mp hm with hm | hm
    · have hrange := w.range m hm
      have hbefore := hbehind m hm
      rw [update_of_ne (slot_ne hbefore (by omega))]
      exact w.marked m hm
    · rw [mem_singleton.mp hm, update_self]
  unmarked j hj hj' hnot := by
    have hne : j ≠ i := by
      rintro rfl
      exact hnot (j, a) (by simp) rfl
    have hslot : j % num ≠ i % num := fun h => hne (slot_injective ⟨hj, hj'⟩ ⟨hle, hlt⟩ h)
    rw [update_of_ne hslot]
    apply w.unmarked j hj hj'
    intro m hm
    exact hnot m (mem_append_left _ hm)

/-- A number without a mark is passed. -/
theorem skip (hnot : ∀ m ∈ marks, m.1 ≠ first) : Marks num buf blank (first + 1) marks where
  sorted := w.sorted
  range m hm := by
    have hrange := w.range m hm
    have hne := hnot m hm
    omega
  marked := w.marked
  unmarked i hi hi' hfree := by
    rcases lt_or_ge i (first + num) with hlt | hge
    · exact w.unmarked i (by omega) hlt hfree
    · -- the slot of the number that was passed
      obtain rfl : i = first + num := by omega
      rw [Nat.add_mod_right]
      exact w.unmarked first (le_refl _) (by omega) hnot

end

/-- The first mark is taken off its slot. -/
theorem take {a : α} {rest : List (Nat × α)} (w : Marks num buf blank first ((first, a) :: rest)) :
    Marks num (Function.update buf (first % num) blank) blank (first + 1) rest := by
  have hsorted := pairwise_cons.mp w.sorted
  have hbehind : ∀ m ∈ rest, first < m.1 := fun m hm => hsorted.1 m hm
  have hblank : Marks num (Function.update buf (first % num) blank) blank first rest :=
    { sorted := hsorted.2
      range := fun m hm => w.range m (mem_cons_of_mem _ hm)
      marked := by
        intro m hm
        have hrange := w.range m (mem_cons_of_mem _ hm)
        rw [update_of_ne (slot_ne (hbehind m hm) hrange.2).symm]
        exact w.marked m (mem_cons_of_mem _ hm)
      unmarked := by
        intro i hi hi' hfree
        by_cases hfirst : i = first
        · rw [hfirst, update_self]
        · have hslot : i % num ≠ first % num :=
            (slot_ne (lt_of_le_of_ne hi (Ne.symm hfirst)) hi').symm
          rw [update_of_ne hslot]
          apply w.unmarked i hi hi'
          intro m hm
          rcases mem_cons.mp hm with rfl | hm
          · exact Ne.symm hfirst
          · exact hfree m hm }
  exact hblank.skip fun m hm => ne_of_gt (hbehind m hm)

end Marks

/-! ## What was read so far -/

/-- A list that agrees with a longer one may be extended by its next element. -/
theorem prefix_snoc {α : Type*} {l m : List α} {a : α} (h : l <+: m) (ha : m[l.length]? = some a) :
    l ++ [a] <+: m := by
  obtain ⟨rest, rfl⟩ := h
  rw [List.getElem?_append_right (Nat.le_refl _), Nat.sub_self] at ha
  cases rest with
  | nil => cases ha
  | cons b rest =>
    cases ha
    exact ⟨rest, by rw [append_assoc]; rfl⟩

end Vcass.Core
