import Vcass.Core.Bytes

/-!
# Copies in Pieces

A long copy is carried out as a list of shorter ones.  `Consecutive src dst len qs` says that the
pieces `qs` follow each other without a gap from `src` to `dst`, `len` bytes in all.  Then every byte
belongs to exactly one piece (`Consecutive.once`), and carrying out the pieces in order is the whole
copy, when source and destination do not overlap (`Consecutive.copyAll`).
-/

namespace Vcass.Core

/-- A copy of `size` bytes -/
structure Piece where
  src : Nat
  dst : Nat
  size : Nat

namespace Piece

/-- The memory `m` after the copy, with the bytes read from `source` -/
def deliver (q : Piece) (source m : Bytes) : Bytes :=
  copyBytes m q.dst q.size fun k => source (q.src + k)

/-- The memory after the copy -/
def copy (q : Piece) (m : Bytes) : Bytes := q.deliver m m

/-- The memory after all copies, in order -/
def copyAll (qs : List Piece) (m : Bytes) : Bytes := qs.foldl (fun m q => q.copy m) m

theorem deliver_of_outside {q : Piece} {source m : Bytes} {k : Nat}
    (h : k < q.dst ∨ q.dst + q.size ≤ k) : q.deliver source m k = m k :=
  copyBytes_outside (by omega)

theorem deliver_of_inside {q : Piece} {source m : Bytes} {k : Nat} (h : k < q.size) :
    q.deliver source m (q.dst + k) = source (q.src + k) := by
  rw [deliver, copyBytes_inside (by omega), Nat.add_sub_cancel_left]

/-- A copy of no bytes -/
theorem copy_of_empty {q : Piece} (h : q.size = 0) (m : Bytes) : q.copy m = m := by
  funext k
  exact deliver_of_outside (by omega)

/-- Byte `k` of a copy from `src` to `dst` is moved by this piece. -/
def Moves (q : Piece) (src dst k : Nat) : Prop :=
  ∃ j < q.size, q.src + j = src + k ∧ q.dst + j = dst + k

end Piece

/-- The pieces follow each other from `src` to `dst`, and have `len` bytes together. -/
def Consecutive : Nat → Nat → Nat → List Piece → Prop
  | _, _, len, [] => len = 0
  | src, dst, len, q :: qs =>
    q.src = src ∧ q.dst = dst ∧ q.size ≤ len ∧
      Consecutive (src + q.size) (dst + q.size) (len - q.size) qs

namespace Consecutive

variable {src dst len : Nat} {qs : List Piece}

/-- The pieces lie in the range of the copy. -/
theorem within (h : Consecutive src dst len qs) {q : Piece} (hq : q ∈ qs) :
    src ≤ q.src ∧ q.src + q.size ≤ src + len ∧ dst ≤ q.dst ∧ q.dst + q.size ≤ dst + len := by
  induction qs generalizing src dst len with
  | nil => cases hq
  | cons p qs ih =>
    obtain ⟨hsrc, hdst, hle, hrest⟩ := h
    rcases List.mem_cons.mp hq with rfl | hmem
    · omega
    · have hin := ih hrest hmem
      omega

/-- The pieces before a piece end before it, and those behind it begin behind it. -/
theorem apart {pre post : List Piece} {q : Piece}
    (h : Consecutive src dst len (pre ++ q :: post)) :
    (∀ p ∈ pre, p.src + p.size ≤ q.src) ∧ ∀ p ∈ post, q.src + q.size ≤ p.src := by
  induction pre generalizing src dst len with
  | nil =>
    obtain ⟨hsrc, _, _, hrest⟩ := h
    refine ⟨List.forall_mem_nil _, ?_⟩
    intro p hp
    rw [hsrc]
    exact (hrest.within hp).1
  | cons p pre ih =>
    obtain ⟨hsrc, _, _, hrest⟩ := h
    obtain ⟨hbefore, hbehind⟩ := ih hrest
    refine ⟨?_, hbehind⟩
    intro p' hp'
    rcases List.mem_cons.mp hp' with rfl | hmem
    · rw [hsrc]
      exact (hrest.within (List.mem_append_right pre List.mem_cons_self)).1
    · exact hbefore p' hmem

/-- Every byte is moved by exactly one piece. -/
theorem once (h : Consecutive src dst len qs) {k : Nat} (hk : k < len) :
    ∃ i, (∃ q : Piece, qs[i]? = some q ∧ q.Moves src dst k) ∧
      ∀ (j : Nat) (q : Piece), qs[j]? = some q → q.Moves src dst k → j = i := by
  induction qs generalizing src dst len k with
  | nil =>
    have hlen : len = 0 := h
    omega
  | cons p qs ih =>
    obtain ⟨hsrc, hdst, hle, hrest⟩ := h
    by_cases hfirst : k < p.size
    · refine ⟨0, ⟨p, rfl, k, hfirst, by omega, by omega⟩, ?_⟩
      intro j q hj hmoves
      cases j with
      | zero => rfl
      | succ j =>
        -- a later piece starts behind the first one
        have hin := hrest.within (List.mem_of_getElem? hj)
        obtain ⟨n, hn, hs, _⟩ := hmoves
        omega
    · -- the byte is one of the rest
      have hmoves_iff : ∀ q : Piece,
          q.Moves (src + p.size) (dst + p.size) (k - p.size) ↔ q.Moves src dst k := by
        intro q
        have hs : src + p.size + (k - p.size) = src + k := by omega
        have hd : dst + p.size + (k - p.size) = dst + k := by omega
        unfold Piece.Moves
        rw [hs, hd]
      obtain ⟨i, ⟨q, hi, hmoves⟩, honly⟩ := ih hrest (k := k - p.size) (by omega)
      refine ⟨i + 1, ⟨q, hi, (hmoves_iff q).mp hmoves⟩, ?_⟩
      intro j q' hj hmoves'
      cases j with
      | zero =>
        obtain rfl : p = q' := Option.some.inj hj
        obtain ⟨n, hn, hs, _⟩ := hmoves'
        omega
      | succ j => rw [honly j q' hj ((hmoves_iff q').mpr hmoves')]

/-- **The pieces carried out in order are the whole copy.** -/
theorem copyAll (h : Consecutive src dst len qs) (hapart : src + len ≤ dst ∨ dst + len ≤ src)
    (m : Bytes) : Piece.copyAll qs m = (⟨src, dst, len⟩ : Piece).copy m := by
  induction qs generalizing src dst len m with
  | nil =>
    have hlen : len = 0 := h
    exact (Piece.copy_of_empty hlen m).symm
  | cons p qs ih =>
    obtain ⟨rfl, rfl, hle, hrest⟩ := h
    have htail := ih hrest (by omega) (p.copy m)
    have hcons : Piece.copyAll (p :: qs) m = Piece.copyAll qs (p.copy m) := rfl
    rw [hcons, htail]
    funext k
    simp only [Piece.copy, Piece.deliver, copyBytes]
    -- the rest reads its sources as they were, since the first piece writes none of them
    by_cases hlow : p.dst ≤ k ∧ k < p.dst + p.size
    · rw [if_neg (by omega), if_pos hlow, if_pos (by omega)]
    · by_cases hhigh : p.dst + p.size ≤ k ∧ k < p.dst + len
      · rw [if_pos (by omega), if_neg (by omega), if_pos (by omega)]
        congr 1
        omega
      · rw [if_neg (by omega), if_neg hlow, if_neg (by omega)]

end Consecutive

end Vcass.Core
