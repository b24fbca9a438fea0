import Vcass.Vop.TransferCallback

/-!
# The Path of a Packet Through `transfer`

`sync_descriptors_read_task_step` takes an item and a chain of the local transmit queue and calls
`transfer`.  There the packet is read (`transfer_read`), a receive chain is fetched (`transfer_wait`)
and the item is written or handed over.  `TransferRing` models what happens from there on and lets
reading and fetching succeed at once.  Here the two are steps of their own, with their error exits:

- `transfer_read` accepts chains of two descriptors only.  For any other chain `transfer` calls
  `transfer_done`, although no receive chain has been fetched yet.
- `transfer_wait` is repeated until there is a receive chain; while the device is ready it has no
  other exit.

The places where the kernel would stop are recorded: the store through a null `kvec_to` in
`transfer_done`, `BUG_ON(item->id != …)` in `transfer` and `BUG_ON(item->tx != 0)` in
`transfer_dma_send`.
-/

namespace Vcass.Vop

open Vcass.Core

/-- Where the read task is with the item that it holds -/
inductive ReadPhase where
  /-- waiting for a chain of the transmit queue -/
  | fetch
  /-- in `transfer`, before `transfer_read`; `chain` are the lengths of the descriptors in `k_from` -/
  | read (chain : List Nat)
  /-- before the next call of `transfer_wait` -/
  | wait

/-- Why the kernel stops -/
inductive Crash where
  /-- `item->kvec_to->flags = 0` with `kvec_to` null -/
  | nullKvecTo
  /-- `BUG_ON(item->id != (ring->counter_dma_send & VOP_RING_SIZE_MASK))` -/
  | wrongId
  /-- `BUG_ON(item->tx != 0)` -/
  | txInUse
deriving DecidableEq

structure PathState where
  ring : BuffersDmaRing
  phase : ReadPhase
  crash : Option Crash
  /-- History: the heads that were taken from the transmit queue -/
  got : List Nat

/-! ## The read task -/

/-- The loop of `transfer_read`: the item, and whether the chain is accepted.  With a writing task
the data is copied to the item's own buffer. -/
def transferReadItem (writeInThread : Bool) (chain : List Nat) (item : BufferDmaItem) :
    BufferDmaItem × Bool :=
  match chain with
  | [header, size] =>
    ({ item with
      dataSize := if writeInThread then min size vopIntDmaBufSize else size
      bytesRead := item.bytesRead + header + size }, true)
  | _ => (item, false)

/-- The end of `transfer_read`, which is reached in any case: data that was copied is given back to
the transmit queue. -/
def putSource (s : BuffersDmaRing) (id : Nat) : BuffersDmaRing :=
  match (s.items id).headFrom with
  | some head =>
    if (s.items id).vringhTx then
      { s.setItem id { s.items id with headFrom := none } with
        put := s.put ++ [(head, (s.items id).bytesRead)] }
    else s
  | none => s

/-- `vop_common_get_descriptors` finds a chain in the transmit queue. -/
def pathGetDescriptors (s : PathState) (head : Nat) (chain : List Nat) : Option PathState :=
  match s.ring.reader, s.phase with
  | .holding id, .fetch =>
    let item := s.ring.items id
    if item.headFrom = none ∧ item.vringhTx = false ∧ chain ≠ [] then
      some { s with
        ring := s.ring.setItem id { item with headFrom := some head, vringhTx := true }
        phase := .read chain
        got := s.got ++ [head] }
    else none
  | _, _ => none

/-- `transfer_read`, and `transfer_done` when it fails -/
def pathRead (writeInThread : Bool) (s : PathState) : Option PathState :=
  match s.ring.reader, s.phase with
  | .holding id, .read chain =>
    let (item, ok) := transferReadItem writeInThread chain (s.ring.items id)
    let ring := s.ring.setItem id item
    let ring := if writeInThread then putSource ring id else ring
    if ok then some { s with ring := ring, phase := .wait }
    else
      match transferDone ring id false with
      | some ring => some { s with ring := { ring with reader := .idle } }
      | none => some { s with ring := ring, crash := some .nullKvecTo }
  | _, _ => none

/-- One round of the loop around `transfer_wait`, with the receive chain if there is one, and what
`transfer` does then -/
def pathWait (writeInThread : Bool) (s : PathState) (kvec : Option (Nat × List Nat)) :
    Option PathState :=
  match s.ring.reader, s.phase with
  | .holding id, .wait =>
    match kvec with
    -- `-EBUSY`
    | none => some s
    | some (head, kvecs) =>
      let ring := s.ring.setItem id
        { s.ring.items id with kvecTo := some kvecs, headTo := some head }
      if writeInThread then
        if id = ringIndex ring.counterDmaSend then
          some { s with ring :=
            { ring with counterDmaSend := nextCounter ring.counterDmaSend, reader := .idle } }
        else some { s with crash := some .wrongId }
      else
        some { s with ring :=
          { ring with reader := .writing, writer := .start id, picked := ring.picked + 1 } }
  | _, _ => none

/-! ## The other parties -/

/-- Steps of `TransferRing` that the read task makes before `transfer_write` -/
def RingAct.ofReader : RingAct → Bool
  | .getRead | .transfer _ => true
  | _ => false

/-- The stop that a step of the writing task or of the callback runs into -/
def crashOf (s : BuffersDmaRing) : RingAct → Option Crash
  | .finishFailed =>
    match s.writer with
    | .failed id => if (s.items id).kvecTo = none then some .nullKvecTo else none
    | _ => none
  | .submit _ =>
    match s.writer with
    | .armed id => if (s.items id).tx ≠ none then some .txInUse else none
    | _ => none
  | .turn =>
    match s.callback with
    | some c =>
      if c.indDmaNext ≠ c.indDmaEnd ∧ (s.items c.indDmaNext).jiffies ≠ 0 ∧
          (s.items c.indDmaNext).kvecTo = none then
        some .nullKvecTo
      else none
    | none => none
  | _ => none

/-- A step of the writing task, of the DMA engine or of its callback -/
def pathRing (writeInThread : Bool) (s : PathState) (a : RingAct) : Option PathState :=
  if a.ofReader then none
  else
    match ringStep writeInThread s.ring a with
    | some ring => some { s with ring := ring }
    | none => (crashOf s.ring a).map fun c => { s with crash := some c }

/-! ## The system -/

inductive PathAct where
  | getRead
  /-- a chain of the transmit queue: its head and the lengths of its descriptors -/
  | getDescriptors (head : Nat) (chain : List Nat)
  | read
  /-- `transfer_wait`; the receive chain is its head and the lengths of its descriptors -/
  | wait (kvec : Option (Nat × List Nat))
  | ring (a : RingAct)

/-- One step; nothing happens after the kernel has stopped. -/
def pathStep (writeInThread : Bool) (s : PathState) (a : PathAct) : Option PathState :=
  if s.crash = none then
    match a with
    | .getRead => (bufferDmaRingGetRead s.ring).map fun ring => { s with ring := ring, phase := .fetch }
    | .getDescriptors head chain => pathGetDescriptors s head chain
    | .read => pathRead writeInThread s
    | .wait kvec => pathWait writeInThread s kvec
    | .ring a => pathRing writeInThread s a
  else none

def PathState.initial : PathState where
  ring := .init
  phase := .fetch
  crash := none
  got := []

def pathSystem (writeInThread : Bool) : System PathState PathAct where
  Init s := s = .initial
  step := pathStep writeInThread

/-! ## The property -/

/-- The heads of transmit chains that the items hold -/
def BuffersDmaRing.heldHeads (s : BuffersDmaRing) : List Nat :=
  (List.range vopRingSize).filterMap fun id => (s.items id).headFrom

/-- The error paths respect the life cycle of the items. -/
structure TransfersOk (s : PathState) : Prop where
  /-- `transfer_done` never meets a null `kvec_to`, and no check of the path fails. -/
  noCrash : s.crash = none
  /-- Each head that was taken was given back once, or is held by one item and was not given back. -/
  heads : s.got.Perm (s.ring.put.map Prod.fst ++ s.ring.heldHeads)
  /-- A free item holds no head. -/
  free : ∀ id, (s.ring.items id).statusReady = true → (s.ring.items id).headFrom = none
  /-- An item that is not free is under way in its use: it is held by the read task, waits for being
  written, is being written, or its DMA or callback is not finished. -/
  busy : ∀ id, (s.ring.items id).statusReady = false →
    (id, (s.ring.items id).use) ∈ s.ring.held
  /-- An item that is not free is in a use that no `transfer_done` has finished and whose callback has
  not returned. -/
  ended : ∀ id, (s.ring.items id).statusReady = false →
    (s.ring.items id).use ∉ s.ring.finishedUses ∧ (s.ring.items id).use ∉ s.ring.returned

end Vcass.Vop
