import Mathlib.Algebra.Order.Ring.Nat
import Vcass.Core.System

/-!
# The Ring of Transfer Items

`vop_common.c`: the 512 items through which packets go from the local transmit queue to the
peer's receive buffers.  The parties are

- the read task, which takes the next free item (`buffer_dma_ring_get_read`), reads the
  descriptors (`transfer_read`, `transfer_wait`) and writes the item itself or hands it over;
- the writing task (`sync_descriptors_dma_task`), which submits one DMA for each item it was
  handed (`transfer_write`), and finishes the item at once when that fails;
- the DMA engine, which completes the submitted descriptors in order;
- `transfer_done_callback`, which does not finish the item it is called for, but sweeps from
  `counter_done_transfer` up to that item and finishes every item with a time stamp.

The device stays ready, and `transfer_read` and `transfer_wait` succeed.
-/

namespace Vcass.Vop

open Vcass.Core

/-- `VOP_RING_SIZE` -/
def vopRingSize : Nat := 512

/-- `SEND_ALIGN_OVERHEAD_SIZE`: `DMA_MAX_OFFSET + PLX_DMA_ALIGN_BYTES` -/
def sendAlignOverheadSize : Nat := 127 + 64

/-- `VOP_INT_DMA_BUF_SIZE` -/
def vopIntDmaBufSize : Nat := 65536

/-! ## Items -/

/-- `struct buffer_dma_item`.  A head of `USHRT_MAX` and a null pointer are `none`; `kvecTo`
are the lengths of the receive descriptors, `tx` the number of the submitted DMA
descriptor.  `use` is history: how often an item was taken before. -/
structure BufferDmaItem where
  statusReady : Bool
  dataSize : Nat
  remapped : Bool
  jiffies : Nat
  vringhTx : Bool
  headFrom : Option Nat
  bytesRead : Nat
  kvecTo : Option (List Nat)
  headTo : Option Nat
  bytesWritten : Nat
  tx : Option Nat
  use : Nat

/-- What `buffer_dma_ring_item_reset` leaves in an item -/
def BufferDmaItem.reset (item : BufferDmaItem) : BufferDmaItem :=
  { statusReady := true
    dataSize := 0
    remapped := false
    jiffies := 0
    vringhTx := false
    headFrom := none
    bytesRead := 0
    kvecTo := none
    headTo := none
    bytesWritten := 0
    tx := none
    use := item.use }

/-- The descriptors that `transfer_read` and `transfer_wait` find for an item: the transmit
chain with the sizes of its two buffers, and the receive chain. -/
structure Descriptors where
  headFrom : Nat
  headerSize : Nat
  srcSize : Nat
  headTo : Nat
  kvecs : List Nat
deriving DecidableEq

/-- A submitted DMA descriptor with its callback parameter; `callback` is cleared when the
item is reset while the descriptor is out.  `use` is history. -/
structure DmaTx where
  number : Nat
  id : Nat
  callback : Bool
  use : Nat

/-! ## State -/

inductive Reader where
  | idle
  | holding (id : Nat)
  /-- inside `transfer_write`, when there is no writing task -/
  | writing
deriving DecidableEq

/-- Where `transfer_write` is -/
inductive Writer where
  | idle
  | start (id : Nat)
  /-- the time stamp is set, the DMA not yet submitted -/
  | armed (id : Nat)
  /-- before the `transfer_done` of a failed write -/
  | failed (id : Nat)
deriving DecidableEq

/-- The locals of a running `transfer_done_callback` -/
structure Callback where
  id : Nat
  indDmaNext : Nat
  indDmaEnd : Nat
  use : Nat

/-- One call of `transfer_done` (history): the use it finished, whether the callback made the
call, and whether the DMA of that use had completed. -/
structure Finish where
  use : Nat
  byCallback : Bool
  dmaDone : Bool

/-- `struct buffers_dma_ring` with its tasks.  The counters are 16 bits wide.  The last six
fields are history. -/
structure BuffersDmaRing where
  items : Nat → BufferDmaItem
  indicatorRcv : Nat
  counterDmaSend : Nat
  counterDoneTransfer : Nat
  reader : Reader
  writer : Writer
  counterDmaLast : Nat
  /-- Submitted and not completed, oldest first -/
  dma : List DmaTx
  /-- Completed, with the callback still to be delivered -/
  completed : List DmaTx
  callback : Option Callback
  /-- What `vop_kvec_used` posted: head and length -/
  used : List (Nat × Nat)
  /-- What `put_descriptors` gave back: head and length -/
  put : List (Nat × Nat)
  taken : Nat
  picked : Nat
  submitted : Nat
  completedUses : List Nat
  finishes : List Finish
  returned : List Nat

def BuffersDmaRing.setItem (s : BuffersDmaRing) (id : Nat) (item : BufferDmaItem) :
    BuffersDmaRing :=
  { s with items := Function.update s.items id item }

/-- `ring->indicator_rcv & VOP_RING_SIZE_MASK` and the like -/
def ringIndex (counter : Nat) : Nat := counter % vopRingSize

/-- A 16-bit counter, one further -/
def nextCounter (counter : Nat) : Nat := (counter + 1) % 2 ^ 16

/-! ## Finishing an item -/

def DmaTx.disable (number : Nat) (tx : DmaTx) : DmaTx :=
  if tx.number = number then { tx with callback := false } else tx

/-- `buffer_dma_ring_item_reset` -/
def bufferDmaRingItemReset (s : BuffersDmaRing) (id : Nat) : BuffersDmaRing :=
  let s := match (s.items id).tx with
    | none => s
    | some number =>
      { s with
        dma := s.dma.map (DmaTx.disable number)
        completed := s.completed.map (DmaTx.disable number) }
  s.setItem id (s.items id).reset

/-- What `transfer_done` posts for an item that is in use -/
def postItem (s : BuffersDmaRing) (item : BufferDmaItem) : BuffersDmaRing :=
  let s := match item.headTo with
    | none => s
    | some head => { s with used := s.used ++ [(head, item.bytesWritten)] }
  match item.headFrom with
  | none => s
  | some head =>
    if item.vringhTx then { s with put := s.put ++ [(head, item.bytesRead)] } else s

/-- `transfer_done`; the write through a null `kvec_to` is a crash. -/
def transferDone (s : BuffersDmaRing) (id : Nat) (byCallback : Bool) : Option BuffersDmaRing :=
  let item := s.items id
  let s := if item.statusReady then s else postItem s item
  match item.kvecTo with
  | none => none
  | some _ =>
    some { bufferDmaRingItemReset s id with
      finishes := s.finishes ++ [⟨item.use, byCallback, decide (item.use ∈ s.completedUses)⟩] }

/-! ## The read task -/

/-- `buffer_dma_ring_get_read`, called when the read task has no item -/
def bufferDmaRingGetRead (s : BuffersDmaRing) : Option BuffersDmaRing :=
  let id := ringIndex s.indicatorRcv
  let item := s.items id
  if s.reader ≠ .idle ∨ item.statusReady = false then
    none
  else
    some { s.setItem id { item with statusReady := false, use := s.taken } with
      indicatorRcv := nextCounter s.indicatorRcv
      reader := .holding id
      taken := s.taken + 1 }

/-- The item after `transfer_read` and `transfer_wait`.  Without a writing task the data is
sent from where it lies; otherwise it is copied into the item's own buffer and the
transmit chain is given back at once. -/
def transferRead (writeInThread : Bool) (d : Descriptors) (item : BufferDmaItem) :
    BufferDmaItem :=
  { item with
    dataSize := if writeInThread then min d.srcSize vopIntDmaBufSize else d.srcSize
    vringhTx := true
    headFrom := if writeInThread then none else some d.headFrom
    bytesRead := item.bytesRead + d.headerSize + d.srcSize
    kvecTo := some d.kvecs
    headTo := some d.headTo }

/-- `transfer`, up to the call of `transfer_write` or to the handing over -/
def transfer (writeInThread : Bool) (s : BuffersDmaRing) (d : Descriptors) :
    Option BuffersDmaRing :=
  match s.reader with
  | .holding id =>
    let item := transferRead writeInThread d (s.items id)
    let s := s.setItem id item
    if writeInThread then
      -- BUG_ON(item->id != (ring->counter_dma_send & VOP_RING_SIZE_MASK))
      if id = ringIndex s.counterDmaSend then
        some { s with
          put := s.put ++ [(d.headFrom, item.bytesRead)]
          counterDmaSend := nextCounter s.counterDmaSend
          reader := .idle }
      else none
    else
      some { s with reader := .writing, writer := .start id, picked := s.picked + 1 }
  | _ => none

/-! ## The writing task -/

/-- The loop of `sync_descriptors_dma_task` takes the next item. -/
def syncDescriptorsDmaTask (writeInThread : Bool) (s : BuffersDmaRing) : Option BuffersDmaRing :=
  if writeInThread = false ∨ s.writer ≠ .idle ∨ s.counterDmaLast = s.counterDmaSend then
    none
  else
    let id := ringIndex s.counterDmaLast
    if (s.items id).statusReady then
      some { s with counterDmaLast := nextCounter s.counterDmaLast, picked := s.picked + 1 }
    else
      some { s with writer := .start id, picked := s.picked + 1 }

/-- The task goes on behind `transfer_write`. -/
def writeReturns (writeInThread : Bool) (s : BuffersDmaRing) : BuffersDmaRing :=
  if writeInThread then
    { s with writer := .idle, counterDmaLast := nextCounter s.counterDmaLast }
  else
    { s with writer := .idle, reader := .idle }

/-- `get_time_jiff_not_zero` -/
def getTimeJiffNotZero (jiffies : Nat) : Nat :=
  if jiffies = 0 then 2 ^ 64 - 1 else jiffies

/-- `transfer_write` up to the submission: the item, and whether the write goes on -/
def prepareWrite (ioremap : Bool) (jiffies : Nat) (item : BufferDmaItem) :
    BufferDmaItem × Bool :=
  match item.kvecTo with
  | some [header, size] =>
    let item := { item with bytesWritten := item.bytesWritten + header }
    if size < item.dataSize + sendAlignOverheadSize then
      ({ item with bytesWritten := 0 }, false)
    else
      let item := { item with bytesWritten := item.bytesWritten + item.dataSize }
      if ioremap then
        ({ item with remapped := true, jiffies := getTimeJiffNotZero jiffies }, true)
      else
        (item, false)
  | _ => (item, false)

/-- `transfer_write` up to the time stamp in `transfer_dma_send` -/
def transferWrite (s : BuffersDmaRing) (ioremap : Bool) (jiffies : Nat) : Option BuffersDmaRing :=
  match s.writer with
  | .start id =>
    let (item, ok) := prepareWrite ioremap jiffies (s.items id)
    some { s.setItem id item with writer := if ok then .armed id else .failed id }
  | _ => none

/-- The submission in `transfer_dma_send` -/
def transferDmaSend (writeInThread : Bool) (s : BuffersDmaRing) (ok : Bool) :
    Option BuffersDmaRing :=
  match s.writer with
  | .armed id =>
    let item := s.items id
    -- BUG_ON(item->tx != 0)
    if item.tx ≠ none then
      none
    else if ok then
      some (writeReturns writeInThread { s.setItem id { item with tx := some s.submitted } with
        dma := s.dma ++ [⟨s.submitted, id, true, item.use⟩]
        submitted := s.submitted + 1 })
    else
      some { s.setItem id { item with jiffies := 0 } with writer := .failed id }
  | _ => none

/-- `transfer_done` after a failed `transfer_write` -/
def finishFailed (writeInThread : Bool) (s : BuffersDmaRing) : Option BuffersDmaRing :=
  match s.writer with
  | .failed id => (transferDone s id false).map (writeReturns writeInThread)
  | _ => none

/-! ## The DMA engine and its callback -/

def dmaComplete (s : BuffersDmaRing) : Option BuffersDmaRing :=
  match s.dma with
  | [] => none
  | tx :: rest =>
    some { s with
      dma := rest
      completed := s.completed ++ [tx]
      completedUses := s.completedUses ++ [tx.use] }

/-- `transfer_done_callback` is called for the oldest completed descriptor. -/
def transferDoneCallback (s : BuffersDmaRing) : Option BuffersDmaRing :=
  match s.callback, s.completed with
  | none, tx :: rest =>
    if tx.callback then
      some { s.setItem tx.id { s.items tx.id with tx := none } with
        completed := rest
        callback := some
          { id := tx.id
            indDmaNext := ringIndex s.counterDoneTransfer
            indDmaEnd := ringIndex (tx.id + 1)
            use := tx.use } }
    else
      some { s with completed := rest }
  | _, _ => none

def callbackTurn (s : BuffersDmaRing) : Option BuffersDmaRing :=
  match s.callback with
  | none => none
  | some c =>
    if c.indDmaNext = c.indDmaEnd then
      none
    else
      let id := c.indDmaNext
      let item := s.items id
      let done := if item.jiffies ≠ 0 then
          transferDone (s.setItem id { item with jiffies := 0 }) id true
        else some s
      done.map fun s =>
        { s with
          callback := some { c with indDmaNext := ringIndex (id + 1) }
          counterDoneTransfer := nextCounter s.counterDoneTransfer }

def callbackReturn (s : BuffersDmaRing) : Option BuffersDmaRing :=
  match s.callback with
  | none => none
  | some c =>
    if c.indDmaNext = c.indDmaEnd then
      some { s with callback := none, returned := s.returned ++ [c.use] }
    else none

/-! ## The system -/

/-- A step, with what the environment answers in it -/
inductive RingAct where
  | getRead
  | transfer (d : Descriptors)
  | pick
  | write (ioremap : Bool) (jiffies : Nat)
  | submit (ok : Bool)
  | finishFailed
  | complete
  | callback
  | turn
  | return
deriving DecidableEq

def ringStep (writeInThread : Bool) (s : BuffersDmaRing) : RingAct → Option BuffersDmaRing
  | .getRead => bufferDmaRingGetRead s
  | .transfer d => Vop.transfer writeInThread s d
  | .pick => syncDescriptorsDmaTask writeInThread s
  | .write ioremap jiffies => transferWrite s ioremap jiffies
  | .submit ok => transferDmaSend writeInThread s ok
  | .finishFailed => Vop.finishFailed writeInThread s
  | .complete => dmaComplete s
  | .callback => transferDoneCallback s
  | .turn => callbackTurn s
  | .return => callbackReturn s

/-- A reset item that was never taken -/
def BufferDmaItem.fresh : BufferDmaItem :=
  { statusReady := true, dataSize := 0, remapped := false, jiffies := 0, vringhTx := false,
    headFrom := none, bytesRead := 0, kvecTo := none, headTo := none, bytesWritten := 0,
    tx := none, use := 0 }

/-- `buffer_dma_ring_init` -/
def BuffersDmaRing.init : BuffersDmaRing :=
  { items := fun _ => BufferDmaItem.fresh
    indicatorRcv := 0
    counterDmaSend := 0
    counterDoneTransfer := 0
    reader := .idle
    writer := .idle
    counterDmaLast := 0
    dma := []
    completed := []
    callback := none
    used := []
    put := []
    taken := 0
    picked := 0
    submitted := 0
    completedUses := []
    finishes := []
    returned := [] }

/-- The runs of the ring -/
def ringSystem (writeInThread : Bool) : System BuffersDmaRing RingAct where
  Init s := s = BuffersDmaRing.init
  step := ringStep writeInThread

/-! ## What a step does -/

/-- What `transfer_done` does with an item that has no descriptor out: only the item, the
posted heads and the history change. -/
structure Finished (s : BuffersDmaRing) (id : Nat) (byCallback : Bool) (s' : BuffersDmaRing) :
    Prop where
  items : s'.items = Function.update s.items id (s.items id).reset
  finishes : s'.finishes = s.finishes ++
    [⟨(s.items id).use, byCallback, decide ((s.items id).use ∈ s.completedUses)⟩]
  counters : s'.indicatorRcv = s.indicatorRcv ∧ s'.counterDmaSend = s.counterDmaSend ∧
    s'.counterDoneTransfer = s.counterDoneTransfer ∧ s'.counterDmaLast = s.counterDmaLast
  reader : s'.reader = s.reader
  writer : s'.writer = s.writer
  dma : s'.dma = s.dma
  completed : s'.completed = s.completed
  callback : s'.callback = s.callback
  taken : s'.taken = s.taken
  picked : s'.picked = s.picked
  completedUses : s'.completedUses = s.completedUses
  returned : s'.returned = s.returned

theorem postItem_eq (s : BuffersDmaRing) (item : BufferDmaItem) :
    ∃ used put, postItem s item = { s with used := used, put := put } := by
  unfold postItem
  cases item.headTo with
  | none =>
    cases item.headFrom with
    | none => exact ⟨_, _, rfl⟩
    | some head =>
      dsimp only
      split <;> exact ⟨_, _, rfl⟩
  | some headTo =>
    cases item.headFrom with
    | none => exact ⟨_, _, rfl⟩
    | some head =>
      dsimp only
      split <;> exact ⟨_, _, rfl⟩

theorem transferDone_finished {s s' : BuffersDmaRing} {id : Nat} {byCallback : Bool}
    (htx : (s.items id).tx = none) (h : transferDone s id byCallback = some s') :
    Finished s id byCallback s' := by
  have hpost : ∃ used put, (if (s.items id).statusReady then s else postItem s (s.items id)) =
      { s with used := used, put := put } := by
    split
    · exact ⟨_, _, rfl⟩
    · exact postItem_eq s _
  obtain ⟨used, put, hpost⟩ := hpost
  simp only [transferDone] at h
  rw [hpost] at h
  cases hk : (s.items id).kvecTo with
  | none => simp [hk] at h
  | some kvecs =>
    simp only [hk, Option.some.injEq] at h
    subst h
    constructor <;> simp [bufferDmaRingItemReset, htx, BuffersDmaRing.setItem]

inductive RingStep (writeInThread : Bool) (s : BuffersDmaRing) :
    RingAct → BuffersDmaRing → Prop where
  | getRead (idle : s.reader = .idle)
      (ready : (s.items (ringIndex s.indicatorRcv)).statusReady = true) :
      RingStep writeInThread s .getRead
        { s.setItem (ringIndex s.indicatorRcv)
            { s.items (ringIndex s.indicatorRcv) with statusReady := false, use := s.taken } with
          indicatorRcv := nextCounter s.indicatorRcv
          reader := .holding (ringIndex s.indicatorRcv)
          taken := s.taken + 1 }
  | handOver {id : Nat} {d : Descriptors} {put : List (Nat × Nat)}
      (held : s.reader = .holding id) (thread : writeInThread = true)
      (id_eq : id = ringIndex s.counterDmaSend) :
      RingStep writeInThread s (.transfer d)
        { s.setItem id (transferRead writeInThread d (s.items id)) with
          put := put
          counterDmaSend := nextCounter s.counterDmaSend
          reader := .idle }
  | writeSelf {id : Nat} {d : Descriptors} (held : s.reader = .holding id)
      (direct : writeInThread = false) :
      RingStep writeInThread s (.transfer d)
        { s.setItem id (transferRead writeInThread d (s.items id)) with
          reader := .writing
          writer := .start id
          picked := s.picked + 1 }
  | skip (thread : writeInThread = true) (idle : s.writer = .idle)
      (more : s.counterDmaLast ≠ s.counterDmaSend)
      (ready : (s.items (ringIndex s.counterDmaLast)).statusReady = true) :
      RingStep writeInThread s .pick
        { s with counterDmaLast := nextCounter s.counterDmaLast, picked := s.picked + 1 }
  | pick (thread : writeInThread = true) (idle : s.writer = .idle)
      (more : s.counterDmaLast ≠ s.counterDmaSend)
      (busy : (s.items (ringIndex s.counterDmaLast)).statusReady = false) :
      RingStep writeInThread s .pick
        { s with writer := .start (ringIndex s.counterDmaLast), picked := s.picked + 1 }
  | write {id jiffies : Nat} {ioremap ok : Bool} {item : BufferDmaItem}
      (at_start : s.writer = .start id)
      (prepared : prepareWrite ioremap jiffies (s.items id) = (item, ok)) :
      RingStep writeInThread s (.write ioremap jiffies)
        { s.setItem id item with writer := if ok then .armed id else .failed id }
  | submit {id : Nat} (at_armed : s.writer = .armed id) (free : (s.items id).tx = none) :
      RingStep writeInThread s (.submit true)
        (writeReturns writeInThread
          { s.setItem id { s.items id with tx := some s.submitted } with
            dma := s.dma ++ [⟨s.submitted, id, true, (s.items id).use⟩]
            submitted := s.submitted + 1 })
  | submitFailed {id : Nat} (at_armed : s.writer = .armed id) :
      RingStep writeInThread s (.submit false)
        { s.setItem id { s.items id with jiffies := 0 } with writer := .failed id }
  | finishFailed {id : Nat} {s₁ : BuffersDmaRing} (at_failed : s.writer = .failed id)
      (done : transferDone s id false = some s₁) :
      RingStep writeInThread s .finishFailed (writeReturns writeInThread s₁)
  | complete {tx : DmaTx} {rest : List DmaTx} (dma : s.dma = tx :: rest) :
      RingStep writeInThread s .complete
        { s with
          dma := rest
          completed := s.completed ++ [tx]
          completedUses := s.completedUses ++ [tx.use] }
  | callback {tx : DmaTx} {rest : List DmaTx} (none : s.callback = none)
      (completed : s.completed = tx :: rest) (enabled : tx.callback = true) :
      RingStep writeInThread s .callback
        { s.setItem tx.id { s.items tx.id with tx := Option.none } with
          completed := rest
          callback := some ⟨tx.id, ringIndex s.counterDoneTransfer, ringIndex (tx.id + 1), tx.use⟩ }
  | noCallback {tx : DmaTx} {rest : List DmaTx} (none : s.callback = none)
      (completed : s.completed = tx :: rest) (disabled : tx.callback = false) :
      RingStep writeInThread s .callback { s with completed := rest }
  | turnDone {c : Callback} {s₁ : BuffersDmaRing} (running : s.callback = some c)
      (more : c.indDmaNext ≠ c.indDmaEnd) (started : (s.items c.indDmaNext).jiffies ≠ 0)
      (done : transferDone (s.setItem c.indDmaNext { s.items c.indDmaNext with jiffies := 0 })
        c.indDmaNext true = some s₁) :
      RingStep writeInThread s .turn
        { s₁ with
          callback := some { c with indDmaNext := ringIndex (c.indDmaNext + 1) }
          counterDoneTransfer := nextCounter s₁.counterDoneTransfer }
  | turnSkip {c : Callback} (running : s.callback = some c)
      (more : c.indDmaNext ≠ c.indDmaEnd) (idle : (s.items c.indDmaNext).jiffies = 0) :
      RingStep writeInThread s .turn
        { s with
          callback := some { c with indDmaNext := ringIndex (c.indDmaNext + 1) }
          counterDoneTransfer := nextCounter s.counterDoneTransfer }
  | return {c : Callback} (running : s.callback = some c) (last : c.indDmaNext = c.indDmaEnd) :
      RingStep writeInThread s .return
        { s with callback := none, returned := s.returned ++ [c.use] }

theorem ringStep_cases {writeInThread : Bool} {s s' : BuffersDmaRing} {a : RingAct}
    (h : ringStep writeInThread s a = some s') : RingStep writeInThread s a s' := by
  cases a with
  | getRead =>
    simp only [ringStep, bufferDmaRingGetRead] at h
    split at h <;> rename_i hcond
    · cases h
    · simp only [not_or, not_not, Bool.not_eq_false] at hcond
      cases h
      exact .getRead hcond.1 hcond.2
  | transfer d =>
    simp only [ringStep, Vop.transfer] at h
    split at h <;> rename_i hreader
    · split at h <;> rename_i hthread
      · split at h <;> rename_i hid
        · cases h
          exact .handOver hreader hthread hid
        · cases h
      · cases h
        exact .writeSelf hreader (Bool.not_eq_true _ ▸ hthread)
    · cases h
  | pick =>
    simp only [ringStep, syncDescriptorsDmaTask] at h
    split at h <;> rename_i hcond
    · cases h
    · simp only [not_or, not_not, Bool.not_eq_false] at hcond
      obtain ⟨hthread, hidle, hmore⟩ := hcond
      split at h <;> rename_i hready
      · cases h
        exact .skip hthread hidle hmore hready
      · cases h
        exact .pick hthread hidle hmore (Bool.not_eq_true _ ▸ hready)
  | write ioremap jiffies =>
    simp only [ringStep, transferWrite] at h
    split at h <;> rename_i hwriter
    · cases h
      exact .write hwriter rfl
    · cases h
  | submit ok =>
    simp only [ringStep, transferDmaSend] at h
    split at h <;> rename_i hwriter
    · split at h <;> rename_i htx
      · cases h
      · split at h <;> rename_i hok
        · cases h
          subst hok
          exact .submit hwriter (not_not.mp htx)
        · cases h
          rw [Bool.not_eq_true] at hok
          subst hok
          exact .submitFailed hwriter
    · cases h
  | finishFailed =>
    simp only [ringStep, Vop.finishFailed] at h
    split at h <;> rename_i hwriter
    · obtain ⟨s₁, hdone, rfl⟩ := Option.map_eq_some_iff.mp h
      exact .finishFailed hwriter hdone
    · cases h
  | complete =>
    simp only [ringStep, dmaComplete] at h
    split at h <;> rename_i hdma
    · cases h
    · cases h
      exact .complete hdma
  | callback =>
    simp only [ringStep, transferDoneCallback] at h
    split at h <;> rename_i hnone hcompleted
    · split at h <;> rename_i hcallback
      · cases h
        exact .callback hnone hcompleted hcallback
      · cases h
        exact .noCallback hnone hcompleted (Bool.not_eq_true _ ▸ hcallback)
    · cases h
  | turn =>
    simp only [ringStep, callbackTurn] at h
    split at h <;> rename_i hrunning
    · cases h
    · split at h <;> rename_i hmore
      · cases h
      · obtain ⟨s₁, hdone, rfl⟩ := Option.map_eq_some_iff.mp h
        split at hdone <;> rename_i hstarted
        · exact .turnDone hrunning hmore hstarted hdone
        · cases hdone
          exact .turnSkip hrunning hmore (not_not.mp hstarted)
  | «return» =>
    simp only [ringStep, callbackReturn] at h
    split at h <;> rename_i hrunning
    · cases h
    · split at h <;> rename_i hlast
      · cases h
        exact .return hrunning hlast
      · cases h

end Vcass.Vop
