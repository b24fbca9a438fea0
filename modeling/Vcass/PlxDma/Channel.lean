import Mathlib.Data.Nat.Bitwise
import Vcass.Core.Kernel
import Vcass.Core.Ring
import Vcass.Core.System

/-!
# A Channel of the PLX DMA Engine

`plx_dma.c` keeps a ring of descriptors for the DMA engine of the PLX chip.  Four parties use it:

- a client programs descriptors in `plx_dma_prep_memcpy_lock`, which leaves the last one invalid
  and `prep_lock` taken;
- `plx_dma_tx_submit_unlock` gives the transaction its cookie, makes the last descriptor valid and
  releases `prep_lock`;
- the engine carries out valid descriptors in ring order and clears `PLX_DESC_VALID`;
- `plx_dma_cleanup` walks over finished descriptors, reports cookies, calls callbacks and moves
  `last_tail`.  The interrupt thread runs it, and so does a client that finds the ring full.

The parties interleave at every access to what they share.
-/

namespace Vcass.PlxDma

open Vcass.Core

/-! ## Descriptors -/

/-- `PLX_DMA_DESC_RX_SIZE` -/
def plxDmaDescRxSize : Nat := 2048

/-- `PLX_DESC_SIZE_MASK` -/
def plxDescSizeMask : UInt64 := 0x7ffffff

/-- `max_xfer_size`, as `plx_dma_probe` sets it -/
def maxXferSize : UInt64 := plxDescSizeMask

/-- `struct plx_dma_desc`, with the parts of `dw0` as fields -/
structure PlxDmaDesc where
  size : UInt64
  /-- `PLX_DESC_VALID` -/
  valid : Bool
  /-- `PLX_DESC_INTR_ENABLE` -/
  intrEnable : Bool
  dw1 : UInt32
  dw2 : UInt32
  dw3 : UInt32

/-- What `plx_dma_memcpy_desc` writes -/
def plxDmaMemcpyDesc (srcPhys dstPhys size : UInt64) (flags : UInt32) (descValid : Bool) :
    PlxDmaDesc where
  size := size &&& plxDescSizeMask
  valid := descValid
  intrEnable := decide (flags ≠ 0)
  dw1 := (((srcPhys >>> 16) &&& (0xffff0000 : UInt64)) ||| (dstPhys >>> 32)).toUInt32
  dw2 := dstPhys.toUInt32
  dw3 := srcPhys.toUInt32

/-- `plx_dma_ring_inc` -/
def plxDmaRingInc (val : Nat) : Nat := (val + 1) &&& (plxDmaDescRxSize - 1)

/-- `plx_dma_ring_dec` -/
def plxDmaRingDec (val : Nat) : Nat := if val ≠ 0 then val - 1 else plxDmaDescRxSize - 1

/-- `plx_dma_ring_count`: the number of free descriptors -/
def plxDmaRingCount (head tail : Nat) : Int :=
  (if tail ≤ head then (tail : Int) + (plxDmaDescRxSize - head) else (tail : Int) - head) - 1

/-- `num_desc` of `plx_dma_prog_memcpy_desc`: `DIV_ROUND_UP` on `size_t`, stored in an `int` -/
def numDesc (len : UInt64) : Int :=
  if len = 0 then 1 else Int.bmod ((len + maxXferSize - 1) / maxXferSize).toNat (2 ^ 32)

/-! ## Transactions -/

/-- `DMA_MIN_COOKIE` -/
def dmaMinCookie : Int := 1

/-- The part of `struct dma_async_tx_descriptor` that the driver uses; `cookie = 0` when the
descriptor is not in use.  A callback is named by its `callback_param`. -/
structure TxDescriptor where
  cookie : Int
  callback : Option Nat
  /-- an `enum`, 32 bits wide -/
  flags : UInt32

/-- The next value of `chan->cookie` -/
def nextCookie (cookie : Int) : Int :=
  let next := Int.bmod (cookie + 1) (2 ^ 32)
  if next < dmaMinCookie then dmaMinCookie else next

/-- A submitted transaction, for the history.  Its descriptors are those published after the
transaction before it, up to number `last`. -/
structure Transaction where
  cookie : Int
  callback : Option Nat
  last : Nat

/-! ## The state of a channel -/

/-- The variables of `plx_dma_prog_memcpy_desc`; `flags` as `plx_dma_prep_memcpy_lock` got them -/
structure Memcpy where
  src : UInt64
  dst : UInt64
  len : UInt64
  flags : UInt64
  numDesc : Int
deriving DecidableEq

/-- The holder of `prep_lock`, between two accesses -/
inductive Preparer where
  | idle
  /-- in `plx_dma_avail_desc_ring_space` -/
  | counting (m : Memcpy)
  /-- before or in its call of `plx_dma_cleanup` -/
  | cleaning (m : Memcpy)
  | recounting (m : Memcpy)
  /-- at the head of the loop of `plx_dma_prog_memcpy_desc` -/
  | programming (m : Memcpy)
  /-- a valid descriptor is written, `head` not yet incremented -/
  | advancing (m : Memcpy)
  /-- `plx_dma_prep_memcpy_lock` returned this element of `tx_array` -/
  | prepared (idx : Nat)
  /-- in `plx_dma_tx_submit_unlock`: the cookie is set -/
  | submitted (idx : Nat)
  /-- in `plx_dma_tx_submit_unlock`: the last descriptor is valid, `head` not yet incremented -/
  | published (idx : Nat)
deriving DecidableEq

/-- Who called `plx_dma_cleanup` -/
inductive Caller where
  | irqThread
  | preparer

/-- The holder of `cleanup_lock`.  `again`: the descriptor was seen valid once, and is read again
after the register access. -/
inductive Cleaner where
  | idle
  | scanning (caller : Caller) (again : Bool) (lastTail cachedHead : Nat)

/-- A call of `plx_dma_prep_memcpy_lock` that returned `NULL`: `head` and the ring at the call and at
the return -/
structure Failure where
  headBefore : Nat
  headAfter : Nat
  ringBefore : Nat → PlxDmaDesc
  ringAfter : Nat → PlxDmaDesc

/-- A channel.  From `published` on the fields are history. -/
structure ChanState where
  head : Nat
  lastTail : Nat
  descRing : Nat → PlxDmaDesc
  txArray : Nat → TxDescriptor
  /-- `chan->cookie` -/
  cookie : Int
  completedCookie : Int
  preparer : Preparer
  cleaner : Cleaner
  /-- the descriptor that the engine looks at next -/
  hwNext : Nat
  /-- the `BUG_ON` of `plx_dma_cleanup` was hit -/
  bug : Bool
  /-- the descriptors made valid, in order -/
  published : List PlxDmaDesc
  /-- the descriptors whose valid bit the engine cleared, in order -/
  executed : List PlxDmaDesc
  /-- the number of descriptors that the cleanups have passed -/
  cleaned : Nat
  /-- the number of descriptors that `last_tail` has passed -/
  released : Nat
  submitted : List Transaction
  /-- the values given to `completed_cookie` -/
  reported : List Int
  /-- the callbacks called -/
  called : List Nat
  /-- `head` and the ring when `prep_lock` was taken last -/
  callHead : Nat
  callRing : Nat → PlxDmaDesc
  failures : List Failure

/-! ## Programming descriptors -/

/-- `allocate_tx` -/
def allocateTx (s : ChanState) (flags : UInt64) : ChanState :=
  let idx := if flags ≠ 0 then s.head else plxDmaRingDec s.head
  { s with
    txArray := Function.update s.txArray idx { s.txArray idx with flags := flags.toUInt32 }
    preparer := .prepared idx }

/-- The end of `plx_dma_prep_memcpy_lock`, with what `plx_dma_prog_memcpy_desc` returned -/
def prepReturn (s : ChanState) (m : Memcpy) (result : Int) : ChanState :=
  if 0 ≤ result then allocateTx s m.flags
  else
    { s with
      preparer := .idle
      failures := s.failures ++ [⟨s.callHead, s.head, s.callRing, s.descRing⟩] }

/-- `plx_dma_prog_memcpy_desc` with what `plx_dma_avail_desc_ring_space` returned -/
def progWithSpace (s : ChanState) (m : Memcpy) (ret : Int) : ChanState :=
  if ret ≤ 0 then prepReturn s m ret else { s with preparer := .programming m }

/-- The next turn of the loop of `plx_dma_prog_memcpy_desc`, up to the increment of `head` -/
def progDesc (s : ChanState) (m : Memcpy) : ChanState :=
  let sendLen := min m.len maxXferSize
  let left := Int.bmod (m.numDesc - 1) (2 ^ 32)
  -- the parameter `flags` of the function is an `int`
  let flags := m.flags.toUInt32
  let validDescr := decide (left ≠ 0) || decide (flags = 0)
  let desc := plxDmaMemcpyDesc m.src m.dst sendLen (if left ≠ 0 then 0 else flags) validDescr
  let m' : Memcpy := ⟨m.src + sendLen, m.dst + sendLen, m.len - sendLen, m.flags, left⟩
  { s with
    descRing := Function.update s.descRing s.head desc
    published := if validDescr then s.published ++ [desc] else s.published
    preparer := if validDescr then .advancing m' else .programming m' }

/-- `plx_dma_valid_desc` on the descriptor at `head` -/
def validDesc (s : ChanState) (idx : Nat) : ChanState :=
  let desc := { s.descRing s.head with valid := true }
  { s with
    descRing := Function.update s.descRing s.head desc
    published := s.published ++ [desc]
    preparer := .published idx }

/-! ## Cleaning up -/

/-- `plx_dma_cleanup` takes `cleanup_lock`. -/
def cleanupStart (s : ChanState) (caller : Caller) : Option ChanState :=
  match s.cleaner with
  | .idle => some { s with cleaner := .scanning caller false s.lastTail s.head }
  | .scanning _ _ _ _ => none

/-- What `plx_dma_cleanup` does with the transaction of a finished descriptor -/
def completeTx (s : ChanState) (lastTail : Nat) : ChanState :=
  let tx := s.txArray lastTail
  if tx.cookie = 0 then s
  else if tx.cookie < dmaMinCookie then { s with bug := true }
  else
    { s with
      completedCookie := tx.cookie
      txArray := Function.update s.txArray lastTail { tx with cookie := 0, callback := none }
      reported := s.reported ++ [tx.cookie]
      called := s.called ++ tx.callback.toList }

/-- `plx_dma_cleanup` passes a finished descriptor. -/
def cleanupPass (s : ChanState) (caller : Caller) (lastTail cachedHead : Nat) : ChanState :=
  { completeTx s lastTail with
    cleaner := .scanning caller false (plxDmaRingInc lastTail) cachedHead
    cleaned := s.cleaned + 1 }

/-- `plx_dma_cleanup` stores `last_tail` and returns. -/
def cleanupEnd (s : ChanState) (caller : Caller) (lastTail : Nat) : ChanState :=
  { s with
    lastTail := lastTail
    cleaner := .idle
    released := s.cleaned
    preparer :=
      match caller, s.preparer with
      | .preparer, .cleaning m => .recounting m
      | _, p => p }

/-- The next step of a running `plx_dma_cleanup` -/
def cleanupStep (s : ChanState) : Option ChanState :=
  match s.cleaner with
  | .idle => none
  | .scanning caller again lastTail cachedHead =>
    if lastTail = cachedHead then some (cleanupEnd s caller lastTail)
    else if (s.descRing lastTail).valid then
      if again then some (cleanupEnd s caller lastTail)
      else some { s with cleaner := .scanning caller true lastTail cachedHead }
    else some (cleanupPass s caller lastTail cachedHead)

/-! ## The system -/

/-- `plx_dma_prep_memcpy_lock` takes `prep_lock`. -/
def plxDmaPrepMemcpyLock (s : ChanState) (dmaDest dmaSrc len flags : UInt64) : Option ChanState :=
  match s.preparer with
  | .idle =>
    some
      { s with
        preparer := .counting ⟨dmaSrc, dmaDest, len, flags, numDesc len⟩
        callHead := s.head
        callRing := s.descRing }
  | _ => none

/-- The next step of the holder of `prep_lock`, who waits for the client while a transaction is
prepared and not submitted -/
def preparerStep (s : ChanState) : Option ChanState :=
  match s.preparer with
  | .idle | .prepared _ => none
  | .counting m =>
    let count := plxDmaRingCount s.head s.lastTail
    if count < m.numDesc then some { s with preparer := .cleaning m }
    else some (progWithSpace s m count)
  | .cleaning _ => cleanupStart s .preparer
  | .recounting m =>
    -- the second count, after the cleanup
    let count := plxDmaRingCount s.head s.lastTail
    some (progWithSpace s m (if count < m.numDesc then -eNoMem else count))
  | .programming m => some (if m.numDesc = 0 then prepReturn s m 0 else progDesc s m)
  | .advancing m => some { s with head := plxDmaRingInc s.head, preparer := .programming m }
  | .submitted idx =>
    some (if (s.txArray idx).flags ≠ 0 then validDesc s idx else { s with preparer := .idle })
  | .published idx =>
    some
      { s with
        head := plxDmaRingInc s.head
        txArray := Function.update s.txArray idx { s.txArray idx with flags := 0 }
        preparer := .idle }

/-- The client sets the callback, if it wants one, and calls `plx_dma_tx_submit_unlock`, which sets
the cookie. -/
def plxDmaTxSubmitUnlock (s : ChanState) (callback : Option Nat) : Option ChanState :=
  match s.preparer with
  | .prepared idx =>
    let tx := s.txArray idx
    let cookie := nextCookie s.cookie
    let last := if tx.flags ≠ 0 then s.published.length else s.published.length - 1
    some
      { s with
        cookie := cookie
        txArray :=
          Function.update s.txArray idx
            { tx with cookie := cookie, callback := callback.or tx.callback }
        preparer := .submitted idx
        submitted := s.submitted ++ [⟨cookie, callback, last⟩] }
  | _ => none

/-- The engine finishes the next descriptor. -/
def hardwareStep (s : ChanState) : Option ChanState :=
  let desc := s.descRing s.hwNext
  if desc.valid then
    some
      { s with
        descRing := Function.update s.descRing s.hwNext { desc with valid := false }
        hwNext := plxDmaRingInc s.hwNext
        executed := s.executed ++ [desc] }
  else none

inductive ChanAct where
  | prep (dmaDest dmaSrc len flags : UInt64)
  | preparer
  | txSubmit (callback : Option Nat)
  | hardware
  /-- the interrupt thread or `plx_dma_tx_status` calls `plx_dma_cleanup` -/
  | cleanup
  | cleaner

def chanStep (s : ChanState) (a : ChanAct) : Option ChanState :=
  match a with
  | .prep dmaDest dmaSrc len flags => plxDmaPrepMemcpyLock s dmaDest dmaSrc len flags
  | .preparer => preparerStep s
  | .txSubmit callback => plxDmaTxSubmitUnlock s callback
  | .hardware => hardwareStep s
  | .cleanup => cleanupStart s .irqThread
  | .cleaner => cleanupStep s

/-- The channel after `plx_dma_chan_init`: the ring and `tx_array` are zeroed. -/
def chanInit : ChanState where
  head := 0
  lastTail := 0
  descRing := fun _ => ⟨0, false, false, 0, 0, 0⟩
  txArray := fun _ => ⟨0, none, 0⟩
  cookie := dmaMinCookie
  completedCookie := dmaMinCookie
  preparer := .idle
  cleaner := .idle
  hwNext := 0
  bug := false
  published := []
  executed := []
  cleaned := 0
  released := 0
  submitted := []
  reported := []
  called := []
  callHead := 0
  callRing := fun _ => ⟨0, false, false, 0, 0, 0⟩
  failures := []

/-- The channel with all its parties -/
def chanSystem : System ChanState ChanAct where
  Init s := s = chanInit
  step := chanStep

end Vcass.PlxDma
