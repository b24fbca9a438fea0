import Vcass.Core.Kernel
import Mathlib.Algebra.Order.Ring.Nat

/-!
# The A-LUT Manager

Embeds `plx_alm.c`: the table that records which runs of A-LUT segments are in
use, how often, and for which bus address.

## Conventions

- Machine words are `Nat`; a reduction modulo `2 ^ w` stands wherever the C
  arithmetic can wrap or a store truncates.
- `u32 match = -1` is `none`.
- A `BUG_ON` that fires and a loop that does not end are both `none`.
- `ALUT_UNMAP_LAZY` is defined in the source, `DEBUG_ALM_CHECK` is not.
-/

namespace Vcass.Alut

open Vcass.Core

/-- `struct plx_alm_arr_entry`: a single entry of the A-LUT array. -/
structure PlxAlmArrEntry where
  /-- Value of the translation bits (`u64`) -/
  value : Nat := 0
  /-- Number of allocations, plus one for the lazy unmap (`u16`) -/
  counter : Nat := 0
  /-- Number of segments of the block that starts here (`u16`) -/
  segmentsCount : Nat := 0
  /-- First segment of the block this segment belongs to (`u16`) -/
  start : Nat := 0

/-- `struct plx_alm`: manager of the A-LUT array. -/
structure PlxAlm where
  /-- Number of entries (`u32`) -/
  segmentsNum : Nat
  /-- Size of a single segment (`u64`) -/
  segmentSize : Nat
  /-- The array; only indices below `segmentsNum` are allocated -/
  entries : Nat → PlxAlmArrEntry

namespace PlxAlm

def setEntry (mngr : PlxAlm) (i : Nat) (e : PlxAlmArrEntry) : PlxAlm :=
  { mngr with entries := Function.update mngr.entries i e }

/-- `clear_entries`: zero `num` entries from `idBegin` on. -/
def clearEntries (mngr : PlxAlm) (idBegin num : Nat) : PlxAlm :=
  { mngr with
    entries := fun i => if idBegin ≤ i ∧ i < idBegin + num then {} else mngr.entries i }

end PlxAlm

/-- `plx_alm_init`: sizes from the number of NTBs and the aperture, zeroed entries. -/
def plxAlmInit (numNtbs aperLen : Nat) : PlxAlm where
  segmentsNum := 256 / numNtbs
  segmentSize := aperLen / (256 / numNtbs)
  entries := fun _ => {}

/-- `plx_alm_del_entry`.  The second component is what the out-parameters are set
to, when they are set: the first segment and the length of a freed block. -/
def plxAlmDelEntry (mngr : PlxAlm) (segmentId : Nat) :
    Option (PlxAlm × Option (Nat × Nat)) :=
  let startId := (mngr.entries segmentId).start
  let e := mngr.entries startId
  if e.counter = 0 then
    none -- BUG_ON(mngr->entries[start_id].counter == 0)
  else if e.counter - 1 = 0 then
    some (mngr.clearEntries startId e.segmentsCount, some (startId, e.segmentsCount))
  else
    some (mngr.setEntry startId { e with counter := e.counter - 1 }, none)

/-- One iteration of the loop of `plx_alm_cleanup_unused_entry`. -/
def cleanupStep (acc : PlxAlm × Nat) (i : Nat) : Option (PlxAlm × Nat) :=
  -- with lazy unmap a counter of 1 means that the entry is not used
  if (acc.1.entries i).counter = 1 then
    (plxAlmDelEntry acc.1 i).map fun r => (r.1, acc.2 + 1)
  else
    some acc

/-- `plx_alm_cleanup_unused_entry`: free every unused block, count them. -/
def plxAlmCleanupUnusedEntry (mngr : PlxAlm) : Option (PlxAlm × Nat) :=
  (List.range mngr.segmentsNum).foldlM cleanupStep (mngr, 0)

/-- `addr & ~translation_mask` of `plx_alm_add_entry` and `plx_add_a_lut_entry`. -/
def addrMasked (mngr : PlxAlm) (addr : Nat) : Nat :=
  addr &&& (2 ^ 64 - 1 - (mngr.segmentSize - 1))

/-- `addr & translation_mask`. -/
def offsetInSegment (mngr : PlxAlm) (addr : Nat) : Nat :=
  addr &&& (mngr.segmentSize - 1)

/-- `(u32)DIV_ROUND_UP(offset_in_segment + size, mngr->segment_size)`, in `u64`. -/
def segmentsFor (mngr : PlxAlm) (addr size : Nat) : Nat :=
  (((offsetInSegment mngr addr + size) % 2 ^ 64 + mngr.segmentSize - 1) % 2 ^ 64
    / mngr.segmentSize) % 2 ^ 32

/-- The search loop of `plx_alm_add_entry`: `match` and `idx` when it is left.

A free entry extends the run of free slots; the first run of `segments` free
slots becomes the match, but the search goes on, because a block that already
contains the range is preferred. -/
def searchMatch (mngr : PlxAlm) (masked segments : Nat) :
    (fuel i freeSlots : Nat) → Option Nat → Option (Option Nat × Nat)
  | 0, _, _, _ => none
  | fuel + 1, i, freeSlots, mtch =>
    if i < mngr.segmentsNum then
      let e := mngr.entries i
      if e.counter = 0 then
        match mtch with
        | none =>
          searchMatch mngr masked segments fuel (i + 1) (freeSlots + 1)
            (if freeSlots + 1 = segments then some (i + 1 - segments) else none)
        | some m => searchMatch mngr masked segments fuel (i + 1) freeSlots (some m)
      else
        let idx := (masked - e.value) / mngr.segmentSize
        if e.value ≤ masked ∧ idx < mngr.segmentsNum ∧ idx + segments ≤ e.segmentsCount then
          some (some i, idx)
        else
          searchMatch mngr masked segments fuel (i + e.segmentsCount) 0 mtch
    else
      some (mtch, 0)

/-- The stores of `plx_alm_add_entry` once `match` is known, and its `rc`. -/
def enterMatch (mngr : PlxAlm) (masked segments mtch : Nat) : PlxAlm × Int :=
  let e := mngr.entries mtch
  if e.counter = 0 then
    let entered : PlxAlm :=
      { mngr with
        entries := fun i =>
          let old := if i = mtch
            then { mngr.entries i with value := masked, segmentsCount := segments % 2 ^ 16 }
            else mngr.entries i
          if mtch ≤ i ∧ i < mtch + segments then { old with start := mtch % 2 ^ 16 } else old }
    -- for lazy unmap a counter of 1 keeps the block, so the first use counts 2
    (entered.setEntry mtch { entered.entries mtch with counter := 2 }, 0)
  else
    (mngr.setEntry mtch { e with counter := (e.counter + 1) % 2 ^ 16 }, -eExist)

/-- What `plx_alm_add_entry` returns; the out-parameters matter when `rc` is `0`
or `-EEXIST`. -/
structure AddResult where
  /-- Return code -/
  rc : Int
  /-- `*out_segment_id` (`u32`) -/
  segmentId : Nat := 0
  /-- `*out_segments_num` (`u32`) -/
  segmentsNum : Nat := 0

/-- `plx_alm_add_entry` with a bound on the depth of its recursion. -/
def plxAlmAddEntryRec : (depth : Nat) → PlxAlm → (addr size : Nat) →
    Option (PlxAlm × AddResult)
  | 0, _, _, _ => none
  | depth + 1, mngr, addr, size =>
    let masked := addrMasked mngr addr
    let segments := segmentsFor mngr addr size
    if size = 0 ∨ (mngr.segmentSize * mngr.segmentsNum) % 2 ^ 64 < size then
      some (mngr, { rc := -eNoMem })
    else do
      let (mtch, idx) ← searchMatch mngr masked segments (mngr.segmentsNum + 1) 0 0 none
      match mtch with
      | some m =>
        let (mngr', rc) := enterMatch mngr masked segments m
        return (mngr', { rc := rc, segmentId := (m + idx) % 2 ^ 32, segmentsNum := segments })
      | none =>
        let (mngr', nums) ← plxAlmCleanupUnusedEntry mngr
        if nums ≠ 0 then
          plxAlmAddEntryRec depth mngr' addr size
        else
          return (mngr', { rc := -eNoMem })

/-- `plx_alm_add_entry`.  Each recursive call follows a cleanup that freed a block,
so `segmentsNum + 1` calls are enough. -/
def plxAlmAddEntry (mngr : PlxAlm) (addr size : Nat) : Option (PlxAlm × AddResult) :=
  plxAlmAddEntryRec (mngr.segmentsNum + 1) mngr addr size

end Vcass.Alut
