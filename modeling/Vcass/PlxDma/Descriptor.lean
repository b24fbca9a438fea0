import Vcass.Core.Pieces
import Vcass.Core.Words
import Vcass.PlxDma.Invariant

/-!
# What the Descriptors of a Copy Say

`plx_dma_prog_memcpy_desc` cuts a copy into pieces of at most `max_xfer_size` bytes and packs each into
a descriptor of four words.  Here the descriptors are modelled word by word, as the engine reads them:

- `dw0` has the size in its low 27 bits, `PLX_DESC_INTR_ENABLE` and `PLX_DESC_VALID`;
- `dw1` has the upper halves of the addresses: the source above the destination;
- `dw2` and `dw3` have the lower words of the destination and of the source.

`DescWords.view` leads from the words to the descriptors of the channel model, and one turn of the loop
on words is one turn of `progDesc` there (`progTurn_view`).  The main result is
`descriptors_denote`: decoded again, the descriptors are the requested copy.
-/

namespace Vcass.PlxDma

open Vcass.Core Function List

/-! ## Descriptors as words -/

/-- `PLX_DESC_VALID` -/
def plxDescValid : UInt32 := 0x80000000

/-- `PLX_DESC_INTR_ENABLE` -/
def plxDescIntrEnable : UInt32 := 0x40000000

/-- `PLX_DESC_DWORD_MASK` -/
def plxDescDwordMask : UInt64 := 0xffffffff

/-- `PLX_DESC_HALF_HIGH_MASK`.  The expression `0xffff<<16` is a negative `int`, which is extended with
its sign when it meets a 64-bit address. -/
def plxDescHalfHighMask : UInt64 := 0xffffffffffff0000

/-- `struct plx_dma_desc` -/
structure DescWords where
  dw0 : UInt32
  dw1 : UInt32
  dw2 : UInt32
  dw3 : UInt32

/-- The words that `plx_dma_memcpy_desc` writes -/
def memcpyDescWords (srcPhys dstPhys size : UInt64) (flags : UInt32) (descValid : Bool) :
    DescWords where
  dw0 :=
    let dw0 := (size &&& plxDescSizeMask).toUInt32
    let dw0 := if descValid then dw0 ||| plxDescValid else dw0
    if flags ≠ 0 then dw0 ||| plxDescIntrEnable else dw0
  dw1 := (((srcPhys >>> 16) &&& plxDescHalfHighMask) ||| (dstPhys >>> 32)).toUInt32
  dw2 := (dstPhys &&& plxDescDwordMask).toUInt32
  dw3 := (srcPhys &&& plxDescDwordMask).toUInt32

namespace DescWords

variable (w : DescWords)

def size : Nat := w.dw0.toNat % 2 ^ 27

/-- The destination: the low half of `dw1` above `dw2` -/
def dst : Nat := w.dw1.toNat % 2 ^ 16 * 2 ^ 32 + w.dw2.toNat

/-- The source: the high half of `dw1` above `dw3` -/
def src : Nat := w.dw1.toNat / 2 ^ 16 * 2 ^ 32 + w.dw3.toNat

/-- `PLX_DESC_VALID` is set. -/
def valid : Bool := w.dw0.toNat.testBit 31

/-- `PLX_DESC_INTR_ENABLE` is set. -/
def intrEnable : Bool := w.dw0.toNat.testBit 30

/-- The copy that the engine carries out -/
def piece : Piece := ⟨w.src, w.dst, w.size⟩

def view : PlxDmaDesc where
  size := (w.dw0 &&& 0x7ffffff).toUInt64
  valid := w.valid
  intrEnable := w.intrEnable
  dw1 := w.dw1
  dw2 := w.dw2
  dw3 := w.dw3

end DescWords

/-! ## Decoding what was written -/

section

variable (srcPhys dstPhys size : UInt64) (flags : UInt32) (descValid : Bool)

/-- The three parts of `dw0` do not meet. -/
theorem memcpyDescWords_dw0 :
    (memcpyDescWords srcPhys dstPhys size flags descValid).dw0.toNat =
      (if descValid then 2 ^ 31 else 0) + (if flags ≠ 0 then 2 ^ 30 else 0) +
        size.toNat % 2 ^ 27 := by
  have hsize : ((size &&& plxDescSizeMask).toUInt32).toNat = size.toNat % 2 ^ 27 := by
    have hmask : plxDescSizeMask.toNat = 2 ^ 27 - 1 := rfl
    rw [UInt64.toNat_toUInt32, UInt64.toNat_and, hmask, Nat.and_two_pow_sub_one_eq_mod]
    omega
  have hvalid : plxDescValid.toNat = 2 ^ 31 := rfl
  have hintr : plxDescIntrEnable.toNat = 2 ^ 30 := rfl
  have hlt : size.toNat % 2 ^ 27 < 2 ^ 27 := Nat.mod_lt _ (by decide)
  unfold memcpyDescWords
  simp only
  cases descValid with
  | false =>
    simp only [Bool.false_eq_true, if_false]
    split
    · rw [UInt32.toNat_or, hsize, hintr, or_bit (by omega)]
      omega
    · rw [hsize]
      omega
  | true =>
    simp only [if_true]
    split
    · rw [UInt32.toNat_or, UInt32.toNat_or, hsize, hvalid, hintr]
      -- the two bits are exchanged so that each is set above the bits that are there
      rw [Nat.or_assoc, Nat.or_comm (2 ^ 31), ← Nat.or_assoc, or_bit (i := 30) (by omega),
        or_bit (by omega)]
      omega
    · rw [UInt32.toNat_or, hsize, hvalid, or_bit (by omega)]
      omega

@[simp]
theorem memcpyDescWords_size :
    (memcpyDescWords srcPhys dstPhys size flags descValid).size = size.toNat % 2 ^ 27 := by
  rw [DescWords.size, memcpyDescWords_dw0]
  split <;> split <;> omega

@[simp]
theorem memcpyDescWords_valid :
    (memcpyDescWords srcPhys dstPhys size flags descValid).valid = descValid := by
  rw [DescWords.valid, memcpyDescWords_dw0, Nat.testBit_eq_decide_div_mod_eq]
  cases descValid with
  | false =>
    simp only [Bool.false_eq_true, if_false, decide_eq_false_iff_not]
    split <;> omega
  | true =>
    simp only [if_true, decide_eq_true_iff]
    split <;> omega

@[simp]
theorem memcpyDescWords_intrEnable :
    (memcpyDescWords srcPhys dstPhys size flags descValid).intrEnable = decide (flags ≠ 0) := by
  rw [DescWords.intrEnable, memcpyDescWords_dw0, Nat.testBit_eq_decide_div_mod_eq]
  congr 1
  rw [eq_iff_iff]
  by_cases hflags : flags = 0
  · simp only [hflags, ne_eq, not_true_eq_false, if_false, iff_false]
    split <;> omega
  · simp only [ne_eq, hflags, not_false_eq_true, if_true, iff_true]
    split <;> omega

/-- The upper halves of two 48-bit addresses fill `dw1`. -/
theorem memcpyDescWords_dw1 (hsrc : srcPhys.toNat < 2 ^ 48) (hdst : dstPhys.toNat < 2 ^ 48) :
    (memcpyDescWords srcPhys dstPhys size flags descValid).dw1.toNat =
      srcPhys.toNat / 2 ^ 32 * 2 ^ 16 + dstPhys.toNat / 2 ^ 32 := by
  have hmask : plxDescHalfHighMask.toNat = 2 ^ 64 - 2 ^ 16 := rfl
  have hhigh : (srcPhys >>> 16).toNat = srcPhys.toNat / 2 ^ 16 := by
    rw [UInt64.toNat_shiftRight, Nat.shiftRight_eq_div_pow]
    rfl
  have hlow : (dstPhys >>> 32).toNat = dstPhys.toNat / 2 ^ 32 := by
    rw [UInt64.toNat_shiftRight, Nat.shiftRight_eq_div_pow]
    rfl
  have hdiv : srcPhys.toNat / 2 ^ 16 / 2 ^ 16 = srcPhys.toNat / 2 ^ 32 := by omega
  unfold memcpyDescWords
  simp only
  rw [UInt64.toNat_toUInt32, UInt64.toNat_or, UInt64.toNat_and, hmask, hhigh, hlow,
    and_high_mask (by omega) (by decide), hdiv, or_field (by omega)]
  omega

theorem memcpyDescWords_dw2 :
    (memcpyDescWords srcPhys dstPhys size flags descValid).dw2.toNat = dstPhys.toNat % 2 ^ 32 := by
  have hmask : plxDescDwordMask.toNat = 2 ^ 32 - 1 := rfl
  unfold memcpyDescWords
  simp only
  rw [UInt64.toNat_toUInt32, UInt64.toNat_and, hmask, Nat.and_two_pow_sub_one_eq_mod, Nat.mod_mod]

theorem memcpyDescWords_dw3 :
    (memcpyDescWords srcPhys dstPhys size flags descValid).dw3.toNat = srcPhys.toNat % 2 ^ 32 := by
  have hmask : plxDescDwordMask.toNat = 2 ^ 32 - 1 := rfl
  unfold memcpyDescWords
  simp only
  rw [UInt64.toNat_toUInt32, UInt64.toNat_and, hmask, Nat.and_two_pow_sub_one_eq_mod, Nat.mod_mod]

/-- **The piece of a descriptor is the one it was written for.** -/
theorem memcpyDescWords_piece (hsrc : srcPhys.toNat < 2 ^ 48) (hdst : dstPhys.toNat < 2 ^ 48)
    (hsize : size.toNat < 2 ^ 27) :
    (memcpyDescWords srcPhys dstPhys size flags descValid).piece =
      ⟨srcPhys.toNat, dstPhys.toNat, size.toNat⟩ := by
  have hdw1 := memcpyDescWords_dw1 srcPhys dstPhys size flags descValid hsrc hdst
  simp only [DescWords.piece, DescWords.src, DescWords.dst, Piece.mk.injEq, memcpyDescWords_size,
    hdw1, memcpyDescWords_dw2, memcpyDescWords_dw3]
  refine ⟨?_, ?_, Nat.mod_eq_of_lt hsize⟩
  · omega
  · omega

theorem memcpyDescWords_view :
    (memcpyDescWords srcPhys dstPhys size flags descValid).view =
      plxDmaMemcpyDesc srcPhys dstPhys size flags descValid := by
  have hword : ∀ x : UInt64, (x &&& plxDescDwordMask).toUInt32 = x.toUInt32 := by
    intro x
    have hmask : plxDescDwordMask.toNat = 2 ^ 32 - 1 := rfl
    apply UInt32.toNat_inj.mp
    rw [UInt64.toNat_toUInt32, UInt64.toNat_and, hmask, Nat.and_two_pow_sub_one_eq_mod, Nat.mod_mod,
      UInt64.toNat_toUInt32]
  simp only [DescWords.view, plxDmaMemcpyDesc, PlxDmaDesc.mk.injEq, memcpyDescWords_valid,
    memcpyDescWords_intrEnable, true_and]
  refine ⟨?_, ?_, ?_, ?_⟩
  · have hmask : (0x7ffffff : UInt32).toNat = 2 ^ 27 - 1 := rfl
    have hmask' : plxDescSizeMask.toNat = 2 ^ 27 - 1 := rfl
    have hsize := memcpyDescWords_size srcPhys dstPhys size flags descValid
    rw [DescWords.size] at hsize
    apply UInt64.toNat_inj.mp
    rw [UInt32.toNat_toUInt64, UInt32.toNat_and, UInt64.toNat_and, hmask, hmask',
      Nat.and_two_pow_sub_one_eq_mod, Nat.and_two_pow_sub_one_eq_mod, hsize]
  · -- the two masks agree in the bits that are kept
    have hmask : plxDescHalfHighMask.toNat % 2 ^ 32 = (0xffff0000 : UInt64).toNat % 2 ^ 32 := by
      decide
    apply UInt32.toNat_inj.mp
    simp only [memcpyDescWords, UInt64.toNat_toUInt32, UInt64.toNat_or, UInt64.toNat_and]
    rw [Nat.or_mod_two_pow, Nat.or_mod_two_pow, Nat.and_mod_two_pow, Nat.and_mod_two_pow, hmask]
  · exact hword dstPhys
  · exact hword srcPhys

end

/-! ## The loop -/

/-- The variables of `plx_dma_prog_memcpy_desc`, with the part of the channel that it changes -/
structure ProgState where
  descRing : Nat → DescWords
  head : Nat
  src : UInt64
  dst : UInt64
  len : UInt64
  numDesc : Int

def progTurn (flags : UInt32) (p : ProgState) : ProgState :=
  let sendLen := min p.len maxXferSize
  let left := Int.bmod (p.numDesc - 1) (2 ^ 32)
  let validDescr := decide (left ≠ 0) || decide (flags = 0)
  { descRing :=
      Function.update p.descRing p.head
        (memcpyDescWords p.src p.dst sendLen (if left ≠ 0 then 0 else flags) validDescr)
    head := if validDescr then plxDmaRingInc p.head else p.head
    src := p.src + sendLen
    dst := p.dst + sendLen
    len := p.len - sendLen
    numDesc := left }

/-- The loop, for at most `fuel` turns -/
def progLoop (flags : UInt32) : Nat → ProgState → Option ProgState
  | fuel, p =>
    if p.numDesc = 0 then some p
    else
      match fuel with
      | 0 => none
      | fuel + 1 => progLoop flags fuel (progTurn flags p)

/-- `plx_dma_avail_desc_ring_space`; `tail` and `tail'` are `last_tail` before and after the
cleanup -/
def availDescRingSpace (head tail tail' : Nat) (required : Int) : Int :=
  let count := plxDmaRingCount head tail
  let count := if count < required then plxDmaRingCount head tail' else count
  if count < required then -eNoMem else count

/-- `plx_dma_prog_memcpy_desc`: what it returns, and the channel after it -/
def plxDmaProgMemcpyDesc (fuel : Nat) (descRing : Nat → DescWords) (head tail tail' : Nat)
    (src dst len : UInt64) (flags : UInt32) : Option (Int × ProgState) :=
  let p : ProgState := ⟨descRing, head, src, dst, len, numDesc len⟩
  let ret := availDescRingSpace head tail tail' (numDesc len)
  if ret ≤ 0 then some (ret, p) else (progLoop flags fuel p).map (0, ·)

/-- The words show the state of the channel model in which the loop is about to take a turn. -/
structure ProgState.Shows (p : ProgState) (s : ChanState) (m : Memcpy) : Prop where
  preparer : s.preparer = .programming m
  ring : ∀ j, (p.descRing j).view = s.descRing j
  head : p.head = s.head
  vars : m = ⟨p.src, p.dst, p.len, m.flags, p.numDesc⟩

variable {p : ProgState}

/-- **A turn on words is a turn of the channel model**, with the increment of `head` when the
descriptor is valid. -/
theorem progTurn_view {s : ChanState} {m : Memcpy} (h : p.Shows s m) :
    ∃ m', (progDesc s m).preparer = .programming m' ∧
        (progTurn m.flags.toUInt32 p).Shows (progDesc s m) m' ∨
      (progDesc s m).preparer = .advancing m' ∧
        (progTurn m.flags.toUInt32 p).Shows
          { progDesc s m with
            head := plxDmaRingInc (progDesc s m).head, preparer := .programming m' } m' := by
  obtain ⟨src, dst, len, flags, left⟩ := m
  obtain ⟨rfl, rfl, rfl, -, rfl⟩ := Memcpy.mk.inj h.vars
  have hring : ∀ j, ((progTurn flags.toUInt32 p).descRing j).view =
      (progDesc s ⟨p.src, p.dst, p.len, flags, p.numDesc⟩).descRing j := by
    intro j
    simp only [progTurn, progDesc]
    rw [← h.head]
    -- only the descriptor at `head` is written
    by_cases hj : j = p.head
    · subst hj
      rw [update_self, update_self, memcpyDescWords_view]
    · rw [update_of_ne hj, update_of_ne hj]
      exact h.ring j
  refine ⟨⟨p.src + min p.len maxXferSize, p.dst + min p.len maxXferSize,
    p.len - min p.len maxXferSize, flags, Int.bmod (p.numDesc - 1) (2 ^ 32)⟩, ?_⟩
  by_cases hvalid : (decide (Int.bmod (p.numDesc - 1) (2 ^ 32) ≠ 0) ||
      decide (flags.toUInt32 = 0)) = true
  · refine .inr ⟨if_pos hvalid, rfl, hring, ?_, rfl⟩
    simp only [progTurn, progDesc]
    rw [if_pos hvalid, h.head]
  · refine .inl ⟨if_neg hvalid, if_neg hvalid, hring, ?_, rfl⟩
    simp only [progTurn, progDesc]
    rw [if_neg hvalid, h.head]

/-- The first turn for a transfer that needs two descriptors -/
theorem progTurn_view_start :
    ∃ (p : ProgState) (s : ChanState) (m m' : Memcpy), p.Shows s m ∧
      (progDesc s m).preparer = .advancing m' := by
  have hshows : ProgState.Shows ⟨fun _ => ⟨0, 0, 0, 0⟩, 0, 0, 0, maxXferSize + 4, 2⟩
      { chanInit with
        descRing := fun _ => DescWords.view ⟨0, 0, 0, 0⟩
        preparer := .programming ⟨0, 0, maxXferSize + 4, 1, 2⟩ } ⟨0, 0, maxXferSize + 4, 1, 2⟩ :=
    ⟨rfl, fun _ => rfl, rfl, rfl⟩
  obtain ⟨m', ⟨hp, -⟩ | ⟨hp, -⟩⟩ := progTurn_view hshows
  · cases hp
  · exact ⟨_, _, _, m', hshows, hp⟩

/-! ## What the loop writes -/

/-- The descriptors of the next `n` turns -/
def progWords (flags : UInt32) : Nat → UInt64 → UInt64 → UInt64 → List DescWords
  | 0, _, _, _ => []
  | n + 1, src, dst, len =>
    let sendLen := min len maxXferSize
    memcpyDescWords src dst sendLen (if n ≠ 0 then 0 else flags)
        (decide (n ≠ 0) || decide (flags = 0)) ::
      progWords flags n (src + sendLen) (dst + sendLen) (len - sendLen)

@[simp]
theorem length_progWords (flags : UInt32) (n : Nat) (src dst len : UInt64) :
    (progWords flags n src dst len).length = n := by
  induction n generalizing src dst len with
  | zero => rfl
  | succ n ih => rw [progWords, length_cons, ih]

theorem progLoop_eq (flags : UInt32) {n fuel : Nat} (hn : p.numDesc = n)
    (hlt : n < 2 ^ 31) (hfuel : n ≤ fuel) :
    progLoop flags fuel p = some ((progTurn flags)^[n] p) := by
  induction n generalizing fuel p with
  | zero =>
    have hzero : p.numDesc = 0 := hn
    cases fuel <;> rw [progLoop, if_pos hzero] <;> rfl
  | succ n ih =>
    cases fuel with
    | zero => exact absurd hfuel (Nat.not_succ_le_zero n)
    | succ fuel =>
      have hne : p.numDesc ≠ 0 := by omega
      have hleft : (progTurn flags p).numDesc = n := by
        simp only [progTurn]
        rw [hn, Int.bmod_eq_of_le (by omega) (by omega)]
        omega
      rw [progLoop, if_neg hne, iterate_succ_apply]
      exact ih hleft (by omega) (Nat.le_of_succ_le_succ hfuel)

/-- The ring after `n` turns -/
structure Written (flags : UInt32) (n : Nat) (p p' : ProgState) : Prop where
  slots : ∀ i w, (progWords flags n p.src p.dst p.len)[i]? = some w →
    p'.descRing ((p.head + i) % plxDmaDescRxSize) = w
  others : ∀ j, (∀ i < n, j ≠ (p.head + i) % plxDmaDescRxSize) → p'.descRing j = p.descRing j
  head : p'.head = (p.head + (if flags = 0 then n else n - 1)) % plxDmaDescRxSize

/-- **The loop writes its descriptors one after the other from `head` on.** -/
theorem written_iterate (flags : UInt32) {n : Nat} (hn : p.numDesc = n)
    (hfits : n < plxDmaDescRxSize) (hhead : p.head < plxDmaDescRxSize) :
    Written flags n p ((progTurn flags)^[n] p) := by
  induction n generalizing p with
  | zero =>
    refine ⟨?_, fun _ _ => rfl, ?_⟩
    · intro i w hw
      cases hw
    · rw [Nat.zero_sub, ite_self, Nat.add_zero, Nat.mod_eq_of_lt hhead]
      rfl
  | succ n ih =>
    have hsize : plxDmaDescRxSize = 2048 := rfl
    have hleft : Int.bmod (p.numDesc - 1) (2 ^ 32) = n := by
      rw [hn, Int.bmod_eq_of_le (by omega) (by omega)]
      omega
    have hne : (Int.bmod (p.numDesc - 1) (2 ^ 32) ≠ 0) ↔ n ≠ 0 := by omega
    have hself : p.head % plxDmaDescRxSize = p.head := Nat.mod_eq_of_lt hhead
    rw [iterate_succ_apply]
    by_cases hvalid : n ≠ 0 ∨ flags = 0
    · -- `head` moves on, and the rest is written behind the new descriptor
      have hnext : (progTurn flags p).head = (p.head + 1) % plxDmaDescRxSize := by
        simp only [progTurn, hne]
        rw [if_pos (by simpa using hvalid), ← plxDmaRingInc_mod, hself]
      obtain ⟨hslots, hothers, hhead'⟩ := ih (p := progTurn flags p) (by simp only [progTurn, hleft])
        (by omega) (by rw [hnext]; exact Nat.mod_lt _ (by decide))
      have hshift : ∀ i, ((progTurn flags p).head + i) % plxDmaDescRxSize =
          (p.head + (i + 1)) % plxDmaDescRxSize := by
        intro i
        rw [hnext, Nat.mod_add_mod]
        congr 1
        omega
      simp only [hshift] at hslots hothers
      refine ⟨?_, ?_, ?_⟩
      · intro i w hw
        cases i with
        | zero =>
          rw [hothers, Nat.add_zero, hself]
          · simp only [progTurn, update_self, hne]
            exact Option.some.inj hw
          · intro i hi
            exact slot_ne (by omega) (by omega)
        | succ i => exact hslots i w hw
      · intro j hj
        rw [hothers j (fun i hi => hj (i + 1) (by omega))]
        have hj0 : j ≠ p.head := by
          rw [← hself]
          exact hj 0 (by omega)
        exact update_of_ne hj0 ..
      · rw [hhead', hnext, Nat.mod_add_mod]
        congr 1
        split
        · omega
        · have hn0 : n ≠ 0 := by
            rcases hvalid with hn0 | hflags
            · exact hn0
            · contradiction
          omega
    · -- the last descriptor is left invalid, and `head` stays on it
      obtain ⟨hzero, hflags⟩ := not_or.mp hvalid
      obtain rfl : n = 0 := not_not.mp hzero
      refine ⟨?_, ?_, ?_⟩
      · intro i w hw
        cases i with
        | zero =>
          rw [Nat.add_zero, hself]
          simp only [progTurn, iterate_zero, id_eq, update_self, hne]
          exact Option.some.inj hw
        | succ i => cases hw
      · intro j hj
        have hj0 : j ≠ p.head := by
          rw [← hself]
          exact hj 0 (by omega)
        exact update_of_ne hj0 ..
      · rw [if_neg hflags, Nat.add_sub_cancel, Nat.add_zero, hself]
        simp only [progTurn, iterate_zero, id_eq, hne]
        rw [if_neg (by simp [hflags])]

/-! ## The pieces -/

/-- The number of descriptors for a copy of `len` bytes -/
def descNeeded (len : Nat) : Nat := if len = 0 then 1 else (len + (2 ^ 27 - 2)) / (2 ^ 27 - 1)

/-- The number is the one that the code computes, when an `int` can hold it. -/
theorem numDesc_eq {len : UInt64} (h : descNeeded len.toNat < 2 ^ 31) :
    numDesc len = descNeeded len.toNat := by
  have hmax : maxXferSize.toNat = 2 ^ 27 - 1 := rfl
  unfold descNeeded at h ⊢
  rw [numDesc]
  by_cases hzero : len = 0
  · subst hzero
    rfl
  · have hpos : len.toNat ≠ 0 := fun heq => hzero (UInt64.toNat_inj.mp heq)
    rw [if_neg hpos] at h ⊢
    -- the sum does not wrap
    have hsum : (len + maxXferSize - 1).toNat = len.toNat + (2 ^ 27 - 2) := by
      simp only [UInt64.toNat_sub, UInt64.toNat_add, UInt64.toNat_one, hmax]
      omega
    rw [if_neg hzero, UInt64.toNat_div, hsum, hmax, Int.bmod_eq_of_le (by omega) (by omega)]

theorem descNeeded_bounds {len : Nat} (h : len ≠ 0) :
    134217727 * (descNeeded len - 1) < len ∧ len ≤ 134217727 * descNeeded len := by
  have hneeded : descNeeded len = (len + (2 ^ 27 - 2)) / (2 ^ 27 - 1) := if_neg h
  omega

theorem toNat_min_maxXferSize (len : UInt64) :
    (min len maxXferSize).toNat = min len.toNat (2 ^ 27 - 1) := by
  have hmax : maxXferSize.toNat = 2 ^ 27 - 1 := rfl
  rcases lt_or_ge maxXferSize.toNat len.toNat with hlt | hle
  · have hmin : min len maxXferSize = maxXferSize :=
      if_neg fun hle => absurd (UInt64.le_iff_toNat_le.mp hle) (not_le.mpr hlt)
    rw [hmin]
    omega
  · have hmin : min len maxXferSize = len := if_pos (UInt64.le_iff_toNat_le.mpr hle)
    rw [hmin]
    omega

variable {src dst len : UInt64}

/-- **The descriptors of a copy in `n` turns are consecutive pieces**, none of them empty. -/
theorem consecutive_progWords (flags : UInt32) {n : Nat}
    (hsrc : src.toNat + len.toNat ≤ 2 ^ 48) (hdst : dst.toNat + len.toNat ≤ 2 ^ 48)
    (hmore : 134217727 * (n - 1) < len.toNat) (hle : len.toNat ≤ 134217727 * n) :
    Consecutive src.toNat dst.toNat len.toNat
        ((progWords flags n src dst len).map DescWords.piece) ∧
      ∀ w ∈ progWords flags n src dst len, 0 < w.size ∧ w.size ≤ 2 ^ 27 - 1 := by
  induction n generalizing src dst len with
  | zero => omega
  | succ n ih =>
    rw [Nat.add_sub_cancel] at hmore
    have hsend := toNat_min_maxXferSize len
    have hsrc' : (src + min len maxXferSize).toNat = src.toNat + min len.toNat (2 ^ 27 - 1) := by
      rw [UInt64.toNat_add, hsend]
      omega
    have hdst' : (dst + min len maxXferSize).toNat = dst.toNat + min len.toNat (2 ^ 27 - 1) := by
      rw [UInt64.toNat_add, hsend]
      omega
    have hlen' : (len - min len maxXferSize).toNat = len.toNat - min len.toNat (2 ^ 27 - 1) := by
      rw [UInt64.toNat_sub_of_le, hsend]
      rw [UInt64.le_iff_toNat_le, hsend]
      omega
    -- a last piece leaves nothing; otherwise the rest still needs the descriptors that are left
    have hrest : Consecutive (src + min len maxXferSize).toNat (dst + min len maxXferSize).toNat
          (len - min len maxXferSize).toNat
          ((progWords flags n (src + min len maxXferSize) (dst + min len maxXferSize)
            (len - min len maxXferSize)).map DescWords.piece) ∧
        ∀ w ∈ progWords flags n (src + min len maxXferSize) (dst + min len maxXferSize)
            (len - min len maxXferSize), 0 < w.size ∧ w.size ≤ 2 ^ 27 - 1 := by
      cases n with
      | zero =>
        have hdone : (len - min len maxXferSize).toNat = 0 := by omega
        exact ⟨hdone, forall_mem_nil _⟩
      | succ n =>
        exact ih (by omega) (by omega) (by omega) (by omega)
    rw [hsrc', hdst', hlen'] at hrest
    have hpiece := memcpyDescWords_piece src dst (min len maxXferSize)
      (if n ≠ 0 then 0 else flags) (decide (n ≠ 0) || decide (flags = 0)) (by omega) (by omega)
      (by omega)
    have hsize := memcpyDescWords_size src dst (min len maxXferSize)
      (if n ≠ 0 then 0 else flags) (decide (n ≠ 0) || decide (flags = 0))
    rw [progWords]
    simp only [map_cons, hpiece]
    refine ⟨⟨rfl, rfl, ?_, ?_⟩, ?_⟩
    · simp only [hsend]
      omega
    · simp only [hsend]
      exact hrest.1
    · intro w hw
      rcases List.mem_cons.mp hw with rfl | hw
      · rw [hsize, hsend]
        omega
      · exact hrest.2 w hw

theorem progWords_flags (flags : UInt32) {n i : Nat} {w : DescWords}
    (hw : (progWords flags n src dst len)[i]? = some w) :
    (w.intrEnable = true ↔ flags ≠ 0 ∧ i + 1 = n) ∧ (w.valid = false ↔ flags ≠ 0 ∧ i + 1 = n) := by
  induction n generalizing i src dst len with
  | zero => cases hw
  | succ n ih =>
    cases i with
    | zero =>
      obtain rfl := Option.some.inj hw
      rw [memcpyDescWords_intrEnable, memcpyDescWords_valid]
      by_cases hn : n = 0
      · subst hn
        simp
      · simp [hn]
    | succ i =>
      rw [add_right_cancel_iff]
      exact ih hw

/-! ## Main results -/

/-- **The descriptors denote a copy**: they are the pieces of the copy in order, the last one alone has
the interrupt and is left invalid, if there are flags, and carried out in order they are the
copy. -/
structure Denotes (src dst len : Nat) (flags : UInt32) (ws : List DescWords) : Prop where
  /-- an empty copy is one empty descriptor -/
  empty : len = 0 → ∃ w, ws = [w] ∧ w.size = 0
  pieces : 0 < len → Consecutive src dst len (ws.map DescWords.piece)
  sizes : 0 < len → ∀ w ∈ ws, 0 < w.size ∧ w.size ≤ 2 ^ 27 - 1
  /-- every byte belongs to one descriptor, and only to one -/
  once : ∀ k < len, ∃ i, (∃ w : DescWords, ws[i]? = some w ∧ w.piece.Moves src dst k) ∧
    ∀ (j : Nat) (w : DescWords), ws[j]? = some w → w.piece.Moves src dst k → j = i
  copies : src + len ≤ dst ∨ dst + len ≤ src → ∀ m : Bytes,
    Piece.copyAll (ws.map DescWords.piece) m = (⟨src, dst, len⟩ : Piece).copy m
  intr : ∀ (i : Nat) (w : DescWords), ws[i]? = some w →
    (w.intrEnable = true ↔ flags ≠ 0 ∧ i + 1 = ws.length)
  invalid : ∀ (i : Nat) (w : DescWords), ws[i]? = some w →
    (w.valid = false ↔ flags ≠ 0 ∧ i + 1 = ws.length)

theorem denotes_progWords (flags : UInt32)
    (hsrc : src.toNat + len.toNat ≤ 2 ^ 48) (hdst : dst.toNat + len.toNat ≤ 2 ^ 48) :
    Denotes src.toNat dst.toNat len.toNat flags
      (progWords flags (descNeeded len.toNat) src dst len) := by
  have hflags : ∀ (i : Nat) (w : DescWords),
      (progWords flags (descNeeded len.toNat) src dst len)[i]? = some w →
        (w.intrEnable = true ↔ flags ≠ 0 ∧
          i + 1 = (progWords flags (descNeeded len.toNat) src dst len).length) ∧
        (w.valid = false ↔ flags ≠ 0 ∧
          i + 1 = (progWords flags (descNeeded len.toNat) src dst len).length) := by
    intro i w hw
    rw [length_progWords]
    exact progWords_flags flags hw
  by_cases hzero : len.toNat = 0
  · -- one empty piece, which moves nothing wherever it points to
    have hempty : ∃ w : DescWords,
        progWords flags (descNeeded len.toNat) src dst len = [w] ∧ w.size = 0 := by
      have hone : descNeeded len.toNat = 0 + 1 := if_pos hzero
      rw [hone, progWords, progWords]
      refine ⟨_, rfl, ?_⟩
      rw [memcpyDescWords_size, toNat_min_maxXferSize, hzero, Nat.zero_min, Nat.zero_mod]
    refine ⟨fun _ => hempty, ?_, ?_, ?_, ?_, ?_, ?_⟩
    · exact fun hpos => absurd hzero (ne_of_gt hpos)
    · exact fun hpos => absurd hzero (ne_of_gt hpos)
    · exact fun k hk => absurd hzero (ne_of_gt (Nat.zero_lt_of_lt hk))
    · intro _ m
      obtain ⟨w, hw, hsize⟩ := hempty
      rw [hw, Piece.copy_of_empty hzero]
      exact Piece.copy_of_empty hsize m
    · exact fun i w hw => (hflags i w hw).1
    · exact fun i w hw => (hflags i w hw).2
  · obtain ⟨hmore, hle⟩ := descNeeded_bounds hzero
    obtain ⟨hcons, hsizes⟩ := consecutive_progWords flags hsrc hdst hmore hle
    refine ⟨fun heq => absurd heq hzero, fun _ => hcons, fun _ => hsizes, ?_, hcons.copyAll, ?_, ?_⟩
    · intro k hk
      obtain ⟨i, ⟨q, hq, hmoves⟩, honly⟩ := hcons.once hk
      rw [List.getElem?_map] at hq
      obtain ⟨w, hw, rfl⟩ := Option.map_eq_some_iff.mp hq
      refine ⟨i, ⟨w, hw, hmoves⟩, ?_⟩
      intro j w' hw' hmoves'
      exact honly j w'.piece (by rw [List.getElem?_map, hw']; rfl) hmoves'
    · exact fun i w hw => (hflags i w hw).1
    · exact fun i w hw => (hflags i w hw).2

/-- The descriptors from `head` on -/
def descsFrom (descRing : Nat → DescWords) (head n : Nat) : List DescWords :=
  (List.range n).map fun i => descRing ((head + i) % plxDmaDescRxSize)

theorem Written.descsFrom_eq {flags : UInt32} {n : Nat} {p p' : ProgState}
    (h : Written flags n p p') :
    descsFrom p'.descRing p.head n = progWords flags n p.src p.dst p.len := by
  apply ext_getElem?
  intro i
  by_cases hi : i < n
  · have hlt : i < (progWords flags n p.src p.dst p.len).length := by
      rw [length_progWords]
      exact hi
    rw [descsFrom, List.getElem?_map, List.getElem?_range hi, List.getElem?_eq_getElem hlt]
    exact congrArg some (h.slots i _ (List.getElem?_eq_getElem hlt))
  · rw [List.getElem?_eq_none (by simp [descsFrom]; omega),
      List.getElem?_eq_none (by rw [length_progWords]; omega)]

/-- **Descriptors denote the requested copy.**  Addresses have 48 bits, and there are enough free
descriptors, at once or after the cleanup.  Then `plx_dma_prog_memcpy_desc` returns 0, the
descriptors from `head` on denote the copy, and the others are as they were. -/
theorem descriptors_denote (descRing : Nat → DescWords) {head tail tail' : Nat}
    (hhead : head < plxDmaDescRxSize) (htail : tail < plxDmaDescRxSize)
    (htail' : tail' < plxDmaDescRxSize) {src dst len : UInt64} (flags : UInt32)
    (hsrc : src.toNat + len.toNat ≤ 2 ^ 48) (hdst : dst.toNat + len.toNat ≤ 2 ^ 48)
    (hfree : (descNeeded len.toNat : Int) ≤ plxDmaRingCount head tail ∨
      (descNeeded len.toNat : Int) ≤ plxDmaRingCount head tail') :
    ∃ p, (∀ fuel, descNeeded len.toNat ≤ fuel →
        plxDmaProgMemcpyDesc fuel descRing head tail tail' src dst len flags = some (0, p)) ∧
      Denotes src.toNat dst.toNat len.toNat flags
        (descsFrom p.descRing head (descNeeded len.toNat)) ∧
      ∀ j, (∀ i < descNeeded len.toNat, j ≠ (head + i) % plxDmaDescRxSize) →
        p.descRing j = descRing j := by
  have hsize : plxDmaDescRxSize = 2048 := rfl
  -- a count of free descriptors is below the size of the ring
  have hfits : descNeeded len.toNat < plxDmaDescRxSize := by
    unfold plxDmaRingCount at hfree
    omega
  have hpos : 0 < descNeeded len.toNat := by
    unfold descNeeded
    split <;> omega
  have hnum : numDesc len = descNeeded len.toNat := numDesc_eq (by omega)
  have hwritten := written_iterate flags (p := ⟨descRing, head, src, dst, len, numDesc len⟩) hnum
    hfits hhead
  refine ⟨_, ?_, ?_, hwritten.others⟩
  · intro fuel hfuel
    -- enough descriptors were free at the first look or, after the cleanup, at the second
    have havail : ¬ availDescRingSpace head tail tail' (numDesc len) ≤ 0 := by
      unfold availDescRingSpace
      simp only
      rw [hnum]
      split
      · split
        · omega
        · omega
      · omega
    unfold plxDmaProgMemcpyDesc
    simp only
    rw [if_neg havail, progLoop_eq flags hnum (by omega) hfuel]
    rfl
  · rw [hwritten.descsFrom_eq]
    exact denotes_progWords flags hsrc hdst

/-- Two pieces, the second of them in slot 0 -/
theorem descriptors_denote_twoPieces :
    ∃ p, plxDmaProgMemcpyDesc 2 (fun _ => ⟨0, 0, 0, 0⟩) 2047 5 5 0xfedcba980000 0x123400000000
        0x8000100 1 = some (0, p) ∧
      Denotes 0xfedcba980000 0x123400000000 0x8000100 1 (descsFrom p.descRing 2047 2) := by
  obtain ⟨p, hprog, hdenotes, _⟩ := @descriptors_denote (fun _ => ⟨0, 0, 0, 0⟩) 2047 5 5
    (by decide) (by decide) (by decide) 0xfedcba980000 0x123400000000 0x8000100 1 (by decide)
    (by decide) (by decide)
  exact ⟨p, hprog 2 (by decide), hdenotes⟩

end Vcass.PlxDma
