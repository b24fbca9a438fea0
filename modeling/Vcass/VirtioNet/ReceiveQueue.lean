import Mathlib.Data.UInt
import Vcass.Core.Kernel
import Vcass.Core.System

/-!
# A Receive Queue of the Network Driver

`vca_virtio_net.c` in its small-buffer mode, without mergeable buffers and without `big_packets`.  A
receive queue posts buffers of three sizes: a few `BIG` ones, some `JUMBO` ones, and normal ones for
the rest.  Three counters say how many are posted.  They are changed in different functions:
`add_recvbuf_small` counts up the two kinds of large buffers and `try_fill_recv` all buffers,
`receive_buf` and `virtnet_poll` count them down.

The functions run one at a time on a queue.  Their loops are steps of `receiveSystem`, so that the
answers of the allocator, of the virtqueue and of the device are chosen anew at every turn.
-/

namespace Vcass.VirtioNet

open Vcass.Core

/-- `ETH_HLEN` -/
def ethHlen : Nat := 14

/-- `size_type` of `struct skb_vnet_hdr` -/
inductive SizeType where
  | normal
  | jumbo
  | big
deriving DecidableEq

/-- A posted `skb`: the size type in its control block, and the descriptors it takes in the
virtqueue -/
structure RecvBuf where
  sizeType : SizeType
  descs : Nat
deriving DecidableEq

/-- `struct receive_queue`, with the buffers in its virtqueue and `num_free` of the virtqueue -/
structure ReceiveQueue where
  num : UInt32
  max : UInt32
  numBig : UInt32
  maxBig : UInt32
  numJumbo : UInt32
  maxJumbo : UInt32
  posted : List RecvBuf
  numFree : Nat
deriving DecidableEq

/-! ## Posting buffers -/

/-- What the kernel and the virtqueue answer while a buffer is added -/
structure AddAnswer where
  /-- `__netdev_alloc_skb_ip_align` succeeds -/
  skb : Bool
  /-- what `skb_to_sgvec` returns -/
  numSg : Int
  /-- the virtqueue is broken -/
  broken : Bool
  /-- the virtqueue uses an indirect table -/
  indirect : Bool
  /-- `vring_map_sg` fails -/
  mapFails : Bool

/-- The number of descriptors that a buffer of two vectors takes -/
def AddAnswer.descs (e : AddAnswer) : Nat := if e.indirect then 1 else 2

/-- `vca_virtqueue_add_inbuf` -/
def vcaVirtqueueAddInbuf (rq : ReceiveQueue) (sizeType : SizeType) (e : AddAnswer) :
    ReceiveQueue × Int :=
  if e.broken then (rq, -eIo)
  else if rq.numFree < e.descs then (rq, -eNoSpc)
  else if e.mapFails then (rq, -eNoMem)
  else
    ({ rq with posted := rq.posted ++ [⟨sizeType, e.descs⟩], numFree := rq.numFree - e.descs }, 0)

/-- The size of buffer that `add_recvbuf_small` chooses -/
def ReceiveQueue.nextSize (rq : ReceiveQueue) : SizeType :=
  if rq.numBig < rq.maxBig then .big
  else if rq.numJumbo < rq.maxJumbo then .jumbo
  else .normal

def ReceiveQueue.countUp (rq : ReceiveQueue) : SizeType → ReceiveQueue
  | .big => { rq with numBig := rq.numBig + 1 }
  | .jumbo => { rq with numJumbo := rq.numJumbo + 1 }
  | .normal => rq

/-- `add_recvbuf_small` -/
def addRecvbufSmall (rq : ReceiveQueue) (e : AddAnswer) : ReceiveQueue × Int :=
  if !e.skb then (rq, -eNoMem)
  else if e.numSg = 0 then (rq, -eIo)
  else if e.numSg < 0 then (rq, e.numSg)
  else
    let (rq', err) := vcaVirtqueueAddInbuf rq rq.nextSize e
    if err < 0 then (rq', err) else (rq'.countUp rq.nextSize, err)

/-! ## Receiving buffers -/

/-- `receive_buf`, as far as it counts: a short packet is freed before its size type is looked at. -/
def receiveBuf (rq : ReceiveQueue) (hdrLen : Nat) (buf : RecvBuf) (len : UInt32) : ReceiveQueue :=
  if len.toNat < hdrLen + ethHlen then rq
  else
    match buf.sizeType with
    | .big => { rq with numBig := rq.numBig - 1 }
    | .jumbo => { rq with numJumbo := rq.numJumbo - 1 }
    | .normal => rq

/-- `vca_virtqueue_get_buf` takes the buffer from the virtqueue and frees its descriptors. -/
def vcaVirtqueueGetBuf (rq : ReceiveQueue) (i : Nat) (buf : RecvBuf) : ReceiveQueue :=
  { rq with posted := rq.posted.eraseIdx i, numFree := rq.numFree + buf.descs }

/-- The condition of `virtnet_poll` for a refill, in unsigned arithmetic -/
def ReceiveQueue.refill (rq : ReceiveQueue) : Bool :=
  decide (4 * rq.numBig < 3 * rq.maxBig) || decide (4 * rq.numJumbo < 3 * rq.maxJumbo) ||
    decide (4 * (rq.num - rq.maxBig - rq.maxJumbo) < 3 * (rq.max - rq.maxBig - rq.maxJumbo))

/-! ## The functions as steps -/

/-- A poll that has received some of its budget -/
structure Poll where
  budget : Nat
  received : Nat
deriving DecidableEq

/-- Where the function that runs on the queue is -/
inductive Phase where
  | idle
  /-- in the loop of `try_fill_recv`, called by `virtnet_poll` or by someone else -/
  | filling (caller : Option Poll)
  /-- in the loop of `virtnet_poll` -/
  | polling (p : Poll)
  /-- in `virtnet_poll`, after the refill -/
  | refilled (p : Poll)
deriving DecidableEq

/-- A queue in use.  `completed` is history: the size types of the buffers received, and the lengths
that the peer posted for them. -/
structure ReceiveState where
  rq : ReceiveQueue
  /-- `vi->hdr_len` -/
  hdrLen : Nat
  phase : Phase
  completed : List (SizeType × UInt32)

inductive ReceiveAct where
  /-- `virtnet_open`, `refill_work` or `virtnet_probe` calls `try_fill_recv` -/
  | fill
  /-- the next turn of the loop of `try_fill_recv` -/
  | add (e : AddAnswer)
  /-- `virtnet_poll` is called -/
  | poll (budget : Nat)
  /-- `vca_virtqueue_get_buf` returns this one of the posted buffers -/
  | get (i : Nat) (len : UInt32)
  /-- the loop of `virtnet_poll` ends, without a buffer or without budget -/
  | stop
  /-- `virtnet_poll` returns, or polls again when more buffers have come in -/
  | finish (again : Bool)

/-- The end of `try_fill_recv` -/
def fillEnd (s : ReceiveState) (rq : ReceiveQueue) (caller : Option Poll) : ReceiveState :=
  { s with
    rq := if rq.num > rq.max then { rq with max := rq.num } else rq
    phase :=
      match caller with
      | none => .idle
      | some p => .refilled p }

/-- One turn of the loop of `try_fill_recv` -/
def fillTurn (s : ReceiveState) (caller : Option Poll) (e : AddAnswer) : ReceiveState :=
  let (rq, err) := addRecvbufSmall s.rq e
  if err ≠ 0 then fillEnd s rq caller
  else
    let rq := { rq with num := rq.num + 1 }
    if rq.numFree ≠ 0 then { s with rq := rq } else fillEnd s rq caller

def receiveStep (s : ReceiveState) (a : ReceiveAct) : Option ReceiveState :=
  match a, s.phase with
  | .fill, .idle => some { s with phase := .filling none }
  | .add e, .filling caller => some (fillTurn s caller e)
  | .poll budget, .idle => some { s with phase := .polling ⟨budget, 0⟩ }
  | .get i len, .polling p =>
    if p.received < p.budget then
      (s.rq.posted[i]?).map fun buf =>
        let rq := receiveBuf (vcaVirtqueueGetBuf s.rq i buf) s.hdrLen buf len
        { s with
          rq := { rq with num := rq.num - 1 }
          phase := .polling { p with received := p.received + 1 }
          completed := s.completed ++ [(buf.sizeType, len)] }
    else none
  | .stop, .polling p =>
    some { s with phase := if s.rq.refill then .filling (some p) else .refilled p }
  | .finish again, .refilled p =>
    some { s with phase := if again && decide (p.received < p.budget) then .polling p else .idle }
  | _, _ => none

/-- The queue as `virtnet_probe` sets it up: `num_free` entries, and at most `num_packets_big` and
`num_packets_jumbo` large buffers -/
def probe (numFree : UInt16) (numPacketsBig numPacketsJumbo : UInt32) : ReceiveQueue where
  num := 0
  max := 0
  numBig := 0
  maxBig := min (numFree.toUInt32 / 2 / 6) numPacketsBig
  numJumbo := 0
  maxJumbo := min (numFree.toUInt32 / 2 / 3) numPacketsJumbo
  posted := []
  numFree := numFree.toNat

/-- A receive queue in use -/
def receiveSystem : System ReceiveState ReceiveAct where
  Init s := ∃ numFree numPacketsBig numPacketsJumbo hdrLen,
    s = ⟨probe numFree numPacketsBig numPacketsJumbo, hdrLen, .idle, []⟩
  step := receiveStep

end Vcass.VirtioNet
