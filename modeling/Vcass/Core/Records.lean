import Mathlib.Data.List.Basic

/-!
# Lists of Records Whose Step Is Read from the Records

A memory holds records one after the other.  The kind and the size of a record are read from the
record itself, so that a reader finds the next record only through the one before it.  A record of
kind `stop` ends the list.

- `Records.walk`: the reader, with fuel; `Records.Walk` is what it computes (`walk_spec`).
- `Records.Lives`: a stretch of live records, as a search for a free record passes over it.
- `Walk.congr`, `Lives.congr`: what a change of the memory behind or before an offset leaves alone.
-/

namespace Vcass.Core

/-- What a reader does with a record -/
inductive RecordKind where
  | stop
  | skip
  | live

/-- A memory as a reader of records sees it: what stands at each offset, if a record starts there -/
structure Records where
  kind : Nat → RecordKind
  size : Nat → Nat
  /-- The end of the memory -/
  limit : Nat

namespace Records

/-- The offsets of the live records from `i` on -/
def walk (R : Records) : Nat → Nat → List Nat
  | 0, _ => []
  | fuel + 1, i =>
    if i < R.limit then
      match R.kind i with
      | .stop => []
      | .skip => R.walk fuel (i + R.size i)
      | .live => i :: R.walk fuel (i + R.size i)
    else []

/-- A reader that starts at `i` meets the live records `l`. -/
inductive Walk (R : Records) : Nat → List Nat → Prop where
  | off {i : Nat} : R.limit ≤ i → Walk R i []
  | stop {i : Nat} : i < R.limit → R.kind i = .stop → Walk R i []
  | skip {i : Nat} {l : List Nat} :
      i < R.limit → R.kind i = .skip → Walk R (i + R.size i) l → Walk R i l
  | live {i : Nat} {l : List Nat} :
      i < R.limit → R.kind i = .live → Walk R (i + R.size i) l → Walk R i (i :: l)

/-- From `i` on, the live records `l` stand without a gap up to `j`. -/
inductive Lives (R : Records) : Nat → List Nat → Nat → Prop where
  | nil {i : Nat} : Lives R i [] i
  | cons {i j : Nat} {l : List Nat} :
      i < R.limit → R.kind i = .live → Lives R (i + R.size i) l j → Lives R i (i :: l) j

variable {R R' : Records} {i j : Nat} {l l' : List Nat}

/-- With fuel for the bytes that are left, the reader comes to its end. -/
theorem walk_spec (hsize : ∀ k, 0 < R.size k) (fuel : Nat) (i : Nat) (hfuel : R.limit ≤ i + fuel) :
    R.Walk i (R.walk fuel i) := by
  induction fuel generalizing i with
  | zero => exact .off hfuel
  | succ fuel ih =>
    have hpos := hsize i
    have hnext : R.Walk (i + R.size i) (R.walk fuel (i + R.size i)) := ih _ (by omega)
    rw [walk]
    split
    case isFalse hoff => exact .off (by omega)
    case isTrue hin =>
      split
      case h_1 hkind => exact .stop hin hkind
      case h_2 hkind => exact .skip hin hkind hnext
      case h_3 hkind => exact .live hin hkind hnext

/-- A reader meets one list. -/
theorem Walk.unique (h : R.Walk i l) (h' : R.Walk i l') : l = l' := by
  induction h generalizing l' with
  | off hoff =>
    cases h' with
    | off _ => rfl
    | stop hin _ | skip hin _ _ | live hin _ _ => omega
  | stop hin hkind =>
    cases h' with
    | off _ | stop _ _ => rfl
    | skip _ hkind' _ | live _ hkind' _ => rw [hkind] at hkind'; cases hkind'
  | skip hin hkind _ ih =>
    cases h' with
    | off hoff => omega
    | stop _ hkind' | live _ hkind' _ => rw [hkind] at hkind'; cases hkind'
    | skip _ _ hrest => exact ih hrest
  | live hin hkind _ ih =>
    cases h' with
    | off hoff => omega
    | stop _ hkind' | skip _ hkind' _ => rw [hkind] at hkind'; cases hkind'
    | live _ _ hrest => rw [ih hrest]

/-! ## Where the records are -/

theorem Walk.le_of_mem (h : R.Walk i l) {d : Nat} (hd : d ∈ l) : i ≤ d := by
  induction h with
  | off _ | stop _ _ => cases hd
  | skip _ _ _ ih => exact Nat.le_trans (Nat.le_add_right _ _) (ih hd)
  | live _ _ _ ih =>
    rcases List.mem_cons.mp hd with rfl | hd
    · exact Nat.le_refl _
    · exact Nat.le_trans (Nat.le_add_right _ _) (ih hd)

/-- The records that a reader meets do not overlap. -/
theorem Walk.pairwise (h : R.Walk i l) : l.Pairwise fun d e => d + R.size d ≤ e := by
  induction h with
  | off _ | stop _ _ => exact .nil
  | skip _ _ _ ih => exact ih
  | live _ _ hrest ih => exact .cons (fun e he => hrest.le_of_mem he) ih

section

variable (h : R.Lives i l j)

include h

theorem Lives.le : i ≤ j := by
  induction h with
  | nil => exact Nat.le_refl _
  | cons _ _ _ ih => exact Nat.le_trans (Nat.le_add_right _ _) ih

theorem Lives.end_le_of_mem {d : Nat} (hd : d ∈ l) : d + R.size d ≤ j := by
  induction h with
  | nil => cases hd
  | cons _ _ hrest ih =>
    rcases List.mem_cons.mp hd with rfl | hd
    · exact hrest.le
    · exact ih hd

/-- A reader passes over a stretch of live records and goes on behind it. -/
theorem Lives.append (h' : R.Walk j l') : R.Walk i (l ++ l') := by
  induction h with
  | nil => exact h'
  | cons hin hkind _ ih => exact .live hin hkind (ih h')

theorem Lives.split {all : List Nat} (hall : R.Walk i all) :
    ∃ rest, all = l ++ rest ∧ R.Walk j rest := by
  induction h generalizing all with
  | nil => exact ⟨all, rfl, hall⟩
  | cons hin hkind _ ih =>
    cases hall with
    | off hoff => omega
    | stop _ hkind' | skip _ hkind' _ => rw [hkind] at hkind'; cases hkind'
    | live _ _ hrest =>
      obtain ⟨rest, rfl, hbehind⟩ := ih hrest
      exact ⟨rest, rfl, hbehind⟩

end

/-! ## Changes of the memory -/

/-- `R` and `R'` show the same record at `k`. -/
def Agree (R R' : Records) (k : Nat) : Prop :=
  R'.kind k = R.kind k ∧ R'.size k = R.size k

/-- What a reader meets depends only on the memory that is still before it. -/
theorem Walk.congr (h : R.Walk i l) (hlimit : R'.limit = R.limit)
    (hagree : ∀ k, i ≤ k → R.Agree R' k) : R'.Walk i l := by
  induction h with
  | off hoff => exact .off (by rw [hlimit]; exact hoff)
  | @stop i hin hkind =>
    exact .stop (by rw [hlimit]; exact hin) (by rw [(hagree i (Nat.le_refl i)).1]; exact hkind)
  | @skip i l hin hkind _ ih =>
    refine .skip (by rw [hlimit]; exact hin) (by rw [(hagree i (Nat.le_refl i)).1]; exact hkind) ?_
    rw [(hagree i (Nat.le_refl i)).2]
    exact ih fun k hk => hagree k (by omega)
  | @live i l hin hkind _ ih =>
    refine .live (by rw [hlimit]; exact hin) (by rw [(hagree i (Nat.le_refl i)).1]; exact hkind) ?_
    rw [(hagree i (Nat.le_refl i)).2]
    exact ih fun k hk => hagree k (by omega)

/-- A stretch of live records depends only on the records that end before it ends. -/
theorem Lives.congr (h : R.Lives i l j) (hlimit : R'.limit = R.limit)
    (hagree : ∀ k, k + R.size k ≤ j → R.Agree R' k) : R'.Lives i l j := by
  induction h with
  | nil => exact .nil
  | @cons i j l hin hkind hrest ih =>
    obtain ⟨hkind', hsize⟩ := hagree i hrest.le
    refine .cons (by rw [hlimit]; exact hin) (by rw [hkind']; exact hkind) ?_
    rw [hsize]
    exact ih hagree

/-- **Removal**: when one live record becomes one to skip and everything that does not overlap with
it stays, the reader meets the other records. -/
theorem Walk.erase (h : R.Walk i l) (hlimit : R'.limit = R.limit) {d : Nat} (hd : d ∈ l)
    (hskip : R'.kind d = .skip) (hsize : R'.size d = R.size d)
    (hagree : ∀ k, k + R.size k ≤ d ∨ d + R.size d ≤ k → R.Agree R' k) :
    R'.Walk i (l.erase d) := by
  induction h with
  | off _ | stop _ _ => cases hd
  | @skip i l hin hkind hrest ih =>
    obtain ⟨hkind', hsize'⟩ := hagree i (.inl (hrest.le_of_mem hd))
    refine .skip (by rw [hlimit]; exact hin) (by rw [hkind']; exact hkind) ?_
    rw [hsize']
    exact ih hd
  | @live i l hin hkind hrest ih =>
    -- the record is skipped from now on; a walk meets it at most once
    by_cases hid : i = d
    · subst hid
      rw [List.erase_cons_head]
      refine .skip (by rw [hlimit]; exact hin) hskip ?_
      rw [hsize]
      exact hrest.congr hlimit fun k hk => hagree k (.inr hk)
    · have hmem : d ∈ l := (List.mem_cons.mp hd).resolve_left (Ne.symm hid)
      obtain ⟨hkind', hsize'⟩ := hagree i (.inl (hrest.le_of_mem hmem))
      rw [List.erase_cons_tail (by simpa using hid)]
      refine .live (by rw [hlimit]; exact hin) (by rw [hkind']; exact hkind) ?_
      rw [hsize']
      exact ih hmem

end Records

end Vcass.Core
