import Vcass.Core.System

/-!
# The Rings of Receive Buffers

`vop_kvec_buff.c`: one host tells its peer about the receive chains of its local queue through
`KVEC_BUF_NUM` available rings, and the peer returns them through one used ring.  The parties are

- the poster (`vop_kvec_buf_update`), which stores the two descriptors of each chain
  (`vop_kvec_put`) and publishes the counters now and then (`vop_kvec_buff_update_idx`);
- the fetcher (`vop_kvec_get`) on the other host, which recovers a chain as the adjacent slots
  with one head, and clears the heads it has read;
- the completer (`vop_kvec_used`), which returns a fetched chain with the number of bytes written;
- the consumer (`vop_kvec_buf_consume`), which gives the chain back to the local queue.

Every access to shared memory is a step of its own.  The device stays ready and mapped, and
nobody cancels a request, but the fetcher keeps its branch for cancelled slots.
-/

namespace Vcass.Vop

open Vcass.Core

/-- `KVEC_BUF_NUM` -/
def kvecBufNum : Nat := 3

theorem kvecBufNum_pos : 0 < kvecBufNum := by decide

/-- `DMA_ALIGN_OVERHEAD_SIZE`: `DMA_MAX_OFFSET + PLX_DMA_ALIGN_BYTES` -/
def dmaAlignOverheadSize : Nat := 127 + 64

/-- `MTU_DEFAULT` -/
def mtuDefault : Nat := 1518 + dmaAlignOverheadSize

/-- `MTU_JUMBO` -/
def mtuJumbo : Nat := 9018 + dmaAlignOverheadSize

/-- `MTU_MAX` -/
def mtuMax : Nat := 65540 + dmaAlignOverheadSize

/-- `KVEC_INDEX_UPDATE_PERIOD` -/
def kvecIndexUpdatePeriod : Nat := 16

/-- `VOP_KVEC_FLAG_IN_USE` -/
def vopKvecFlagInUse : UInt8 := 1

/-- `VOP_KVEC_FLAG_CANCELLED` -/
def vopKvecFlagCancelled : UInt8 := 2

/-- The available ring that fits a data size; `none` is `-EDOM`. -/
def getRingIdWrite (size : Nat) : Option (Fin kvecBufNum) :=
  if size < mtuDefault then
    none
  else if size < mtuJumbo then
    some ⟨0, by decide⟩
  else if size < mtuMax then
    some ⟨1, by decide⟩
  else
    some ⟨2, by decide⟩

/-! ## Counters -/

/-- Store in a `u16` -/
def u16 (n : Nat) : Nat := n % 65536

/-- `KVEC_COUNTER_EQ` -/
def kvecCounterEq (cnt1 cnt2 size : Nat) : Prop :=
  cnt1 % (2 * size) = cnt2 % (2 * size)

instance (cnt1 cnt2 size : Nat) : Decidable (kvecCounterEq cnt1 cnt2 size) :=
  inferInstanceAs (Decidable (_ = _))

/-- `KVEC_COUNTER_ADD` -/
def kvecCounterAdd (cnt val size : Nat) : Nat := (cnt + val) % (2 * size)

/-- `KVEC_COUNTER_TO_IDX` -/
def kvecCounterToIdx (cnt size : Nat) : Nat := cnt % size

/-! ## Shared memory -/

/-- `struct kvec` -/
structure Kvec where
  iovBase : Nat
  iovLen : Nat

/-- `struct vop_peer_kvec` -/
structure PeerKvec where
  iov : Kvec
  head : Nat
  flags : UInt8

/-- `struct vop_peer_used_kiov` -/
structure PeerUsedKiov where
  len : Nat
  head : Nat

/-- A receive chain: its head and its descriptors -/
structure Chain where
  head : Nat
  iovs : List Kvec

/-- What a successful `vop_kvec_get` leaves in the item; `kvecTo` is the index of the slot it
points to, and `iovs` are the descriptors found there at that moment. -/
structure Fetched where
  kvecBuffId : Fin kvecBufNum
  headTo : Nat
  numKvecsTo : Nat
  kvecTo : Nat
  iovs : List Kvec

def Fetched.chain (item : Fetched) : Chain := ⟨item.headTo, item.iovs⟩

/-- `struct vop_kvec_ring` on both hosts.  `putCnt` is the poster's `last_cnt`, `cnt` the
published counter, `lastCnt` the fetcher's `last_cnt`.  The last four fields are history:
the chains put, the slots stored, the number of chains published and the items fetched. -/
structure KvecRing where
  putCnt : Nat
  cnt : Nat
  lastCnt : Nat
  buf : Nat → PeerKvec
  sendMaxSizeLocal : Nat
  sendMaxSize : Nat
  putLog : List Chain
  storedLog : List PeerKvec
  published : Nat
  gotLog : List Fetched

/-- `struct vop_used_kiov_ring` on both hosts.  `usedCnt` is the completer's `last_cnt`, `cnt`
the published counter, `lastCnt` the consumer's `last_cnt`.  The logs are history: what
`vop_kvec_used` posted and what `vop_kvec_buf_consume` completed. -/
structure UsedKiovRing where
  usedCnt : Nat
  cnt : Nat
  lastCnt : Nat
  buf : Nat → PeerUsedKiov
  usedLog : List PeerUsedKiov
  consumedLog : List PeerUsedKiov

/-! ## Parties -/

/-- `vop_kvec_buf_update`, with its locals `cnt_size` and `cnt_total` -/
inductive Poster where
  | idle
  /-- at the head of the loop over the local queue -/
  | fetching (cntSize : Fin kvecBufNum → Nat) (cntTotal : Nat)
  /-- in the `memcpy_toio` of `vop_kvec_put`, with the slots still to be stored from `idx` on -/
  | storing (id : Fin kvecBufNum) (idx : Nat) (slots : List PeerKvec)
      (cntSize : Fin kvecBufNum → Nat) (cntTotal : Nat)
  /-- in `vop_kvec_buff_update_idx`, before ring `id`; `again` unless the loop is over -/
  | publishing (id : Nat) (cntSize : Fin kvecBufNum → Nat) (cntTotal : Nat) (again : Bool)

/-- `vop_kvec_get`, under its mutex -/
inductive Fetcher where
  | idle
  /-- in the loop that skips cancelled slots -/
  | skipping (id : Fin kvecBufNum)
  /-- before the test whether the ring is empty -/
  | checking (id : Fin kvecBufNum)
  /-- before it reads the published counter once more -/
  | nonempty (id : Fin kvecBufNum)
  /-- in the loop over adjacent slots -/
  | adjacent (id : Fin kvecBufNum) (availCnt first num nextIdx head : Nat)

/-- `vop_kvec_used`, under its lock -/
inductive Completer where
  | idle
  /-- the slot is stored, the counter not yet published -/
  | stored

/-- `vop_kvec_buf_consume` -/
inductive Consumer where
  | idle
  /-- the chain is completed, the counter not yet advanced -/
  | completed

/-- The rings and the parties.  `items` are the fetched items that were not yet passed to
`vop_kvec_used`; `outstanding` is history: the heads put and not yet completed. -/
structure KvecState where
  rings : Fin kvecBufNum → KvecRing
  usedRing : UsedKiovRing
  poster : Poster
  fetcher : Fetcher
  completer : Completer
  consumer : Consumer
  items : List Fetched
  outstanding : List Nat

def KvecState.setRing (s : KvecState) (id : Fin kvecBufNum) (ring : KvecRing) : KvecState :=
  { s with rings := Function.update s.rings id ring }

/-! ## The poster -/

/-- The entries that `vop_kvec_put` prepares -/
def peerKvecs (head : Nat) (wiov : List Kvec) : List PeerKvec :=
  (wiov.take 2).map fun iov => ⟨iov, head, 0⟩

/-- The data size of a chain: the length of its second descriptor -/
def chainSize (wiov : List Kvec) : Nat :=
  match wiov with
  | _ :: data :: _ => data.iovLen
  | _ => 0

/-- Lower `send_max_size` to the size of a chain. -/
def KvecRing.limit (ring : KvecRing) (size : Nat) : KvecRing :=
  if ring.sendMaxSizeLocal = 0 ∨ size < ring.sendMaxSizeLocal then
    { ring with sendMaxSizeLocal := size, sendMaxSize := size }
  else
    ring

/-- `vop_kvec_put` up to its `memcpy_toio`; a chain that is too small is dropped. -/
def vopKvecPut (num : Nat) (s : KvecState) (head : Nat) (wiov : List Kvec)
    (cntSize : Fin kvecBufNum → Nat) (cntTotal : Nat) : KvecState :=
  match getRingIdWrite (chainSize wiov) with
  | none => s
  | some id =>
    let ring := (s.rings id).limit (chainSize wiov)
    let idx := u16 (kvecCounterToIdx ring.putCnt num)
    { s.setRing id
        { ring with
          putCnt := u16 (kvecCounterAdd ring.putCnt 2 num)
          putLog := ring.putLog ++ [⟨head, wiov.take 2⟩] } with
      poster := .storing id idx (peerKvecs head wiov) cntSize cntTotal
      outstanding := head :: s.outstanding }

def storeSlot (s : KvecState) (id : Fin kvecBufNum) (idx : Nat) (slot : PeerKvec)
    (rest : List PeerKvec) (cntSize : Fin kvecBufNum → Nat) (cntTotal : Nat) : KvecState :=
  let ring := s.rings id
  { s.setRing id
      { ring with
        buf := Function.update ring.buf idx slot
        storedLog := ring.storedLog ++ [slot] } with
    poster := .storing id (idx + 1) rest cntSize cntTotal }

/-- After `vop_kvec_put` has returned: count the chain, publish now and then. -/
def countChain (id : Fin kvecBufNum) (cntSize : Fin kvecBufNum → Nat) (cntTotal : Nat) : Poster :=
  let cntSize := Function.update cntSize id (cntSize id + 1)
  let cntTotal := cntTotal + 1
  if cntTotal % kvecIndexUpdatePeriod = 0 ∧ cntTotal ≠ 0 then
    .publishing 0 cntSize cntTotal true
  else
    .fetching cntSize cntTotal

/-- `vop_kvec_buff_update_idx` for one ring -/
def vopKvecBuffUpdateIdx (s : KvecState) (id : Fin kvecBufNum)
    (cntSize : Fin kvecBufNum → Nat) (cntTotal : Nat) (again : Bool) : KvecState :=
  let ring := s.rings id
  -- only rings that have got a chain since the last time
  if cntSize id ≠ 0 then
    { s.setRing id { ring with cnt := ring.putCnt, published := ring.putLog.length } with
      poster := .publishing (id + 1) (Function.update cntSize id 0) cntTotal again }
  else
    { s with poster := .publishing (id + 1) cntSize cntTotal again }

/-- One step of `vop_kvec_buf_update` inside its calls -/
def posterStep (s : KvecState) : Option KvecState :=
  match s.poster with
  | .storing id idx (slot :: rest) cntSize cntTotal =>
    some (storeSlot s id idx slot rest cntSize cntTotal)
  | .storing id _ [] cntSize cntTotal =>
    some { s with poster := countChain id cntSize cntTotal }
  | .publishing id cntSize cntTotal again =>
    if h : id < kvecBufNum then
      some (vopKvecBuffUpdateIdx s ⟨id, h⟩ cntSize cntTotal again)
    else if again then
      some { s with poster := .fetching cntSize cntTotal }
    else
      some { s with poster := .idle }
  | _ => none

/-! ## The fetcher -/

/-- One turn of the loop that skips cancelled slots -/
def skipCancelled (num : Nat) (s : KvecState) (id : Fin kvecBufNum) : KvecState :=
  let ring := s.rings id
  let curIdx := u16 (kvecCounterToIdx ring.lastCnt num)
  if ring.lastCnt ≠ ring.cnt ∧ (ring.buf curIdx).flags &&& vopKvecFlagCancelled ≠ 0 then
    s.setRing id
      { ring with
        buf := Function.update ring.buf curIdx { ring.buf curIdx with flags := 0, head := 0 }
        lastCnt := u16 (kvecCounterAdd ring.lastCnt 1 num) }
  else
    { s with fetcher := .checking id }

def KvecRing.clearHead (ring : KvecRing) (idx : Nat) : KvecRing :=
  { ring with buf := Function.update ring.buf idx { ring.buf idx with head := 0 } }

/-- Read the published counter and the first slot. -/
def readFirst (num : Nat) (s : KvecState) (id : Fin kvecBufNum) : KvecState :=
  let ring := s.rings id
  let first := u16 (ring.lastCnt % num)
  { s.setRing id (ring.clearHead first) with
    fetcher := .adjacent id ring.cnt first 1 (u16 (kvecCounterToIdx (ring.lastCnt + 1) num))
      (ring.buf first).head }

/-- Mark the first slot of an item as used and move past its slots. -/
def KvecRing.take (num : Nat) (ring : KvecRing) (item : Fetched) : KvecRing :=
  { ring with
    buf := Function.update ring.buf item.kvecTo
      { ring.buf item.kvecTo with flags := vopKvecFlagInUse }
    lastCnt := u16 (kvecCounterAdd ring.lastCnt item.numKvecsTo num)
    gotLog := ring.gotLog ++ [item] }

/-- A get returns with the `cnt` slots from `first` on. -/
def finishGet (num : Nat) (s : KvecState) (id : Fin kvecBufNum) (first cnt head : Nat) :
    KvecState :=
  let item : Fetched :=
    -- the slots are taken as neighbours in memory
    ⟨id, head, cnt, first, (List.range cnt).map fun i => ((s.rings id).buf (first + i)).iov⟩
  { s.setRing id ((s.rings id).take num item) with
    fetcher := .idle
    items := s.items ++ [item] }

def readAdjacent (num : Nat) (s : KvecState) (id : Fin kvecBufNum)
    (availCnt first cnt nextIdx head : Nat) : KvecState :=
  let ring := s.rings id
  -- the slots of a chain are recognised by their head, as far as they are published
  if ¬ kvecCounterEq (ring.lastCnt + cnt) availCnt num ∧ head = (ring.buf nextIdx).head ∧
      cnt < num then
    { s.setRing id (ring.clearHead nextIdx) with
      fetcher := .adjacent id availCnt first (u16 (cnt + 1))
        (u16 (kvecCounterToIdx (nextIdx + 1) num)) head }
  else
    finishGet num s id first cnt head

/-- One step of `vop_kvec_get` -/
def fetcherStep (num : Nat) (s : KvecState) : Option KvecState :=
  match s.fetcher with
  | .idle => none
  | .skipping id => some (skipCancelled num s id)
  | .checking id =>
    -- `-EAGAIN` when the ring is empty
    if (s.rings id).lastCnt = (s.rings id).cnt then
      some { s with fetcher := .idle }
    else
      some { s with fetcher := .nonempty id }
  | .nonempty id => some (readFirst num s id)
  | .adjacent id availCnt first cnt nextIdx head =>
    some (readAdjacent num s id availCnt first cnt nextIdx head)

/-! ## The completer and the consumer -/

/-- `vop_kvec_used` for a fetched item, up to the stored slot -/
def vopKvecUsed (num : Nat) (s : KvecState) (k : Nat) (item : Fetched) (bytesWritten : Nat) :
    KvecState :=
  let ring := s.usedRing
  let usedKiov : PeerUsedKiov := ⟨bytesWritten, item.headTo⟩
  { s with
    usedRing :=
      { ring with
        buf := Function.update ring.buf (u16 (kvecCounterToIdx ring.usedCnt num)) usedKiov
        usedLog := ring.usedLog ++ [usedKiov] }
    completer := .stored
    items := s.items.eraseIdx k }

/-- The rest of `vop_kvec_used`: publish the counter. -/
def publishUsed (num : Nat) (s : KvecState) : KvecState :=
  let ring := s.usedRing
  let usedCnt := u16 (kvecCounterAdd ring.usedCnt 1 num)
  { s with usedRing := { ring with usedCnt := usedCnt, cnt := usedCnt }, completer := .idle }

/-- One turn of `vop_kvec_buf_consume`, up to `vca_vringh_complete_kern` -/
def vopKvecBufConsume (num : Nat) (s : KvecState) : KvecState :=
  let ring := s.usedRing
  let kiov := ring.buf (kvecCounterToIdx ring.lastCnt num)
  { s with
    usedRing := { ring with consumedLog := ring.consumedLog ++ [kiov] }
    consumer := .completed
    outstanding := s.outstanding.erase kiov.head }

/-- The rest of the turn: advance the counter. -/
def advanceConsumed (num : Nat) (s : KvecState) : KvecState :=
  let ring := s.usedRing
  { s with
    usedRing := { ring with lastCnt := u16 (kvecCounterAdd ring.lastCnt 1 num) }
    consumer := .idle }

/-! ## The system -/

/-- The actions: calls with their arguments, and steps inside a call -/
inductive KvecAct where
  | update
  /-- the local queue had the chain `wiov` with this head -/
  | put (head : Nat) (wiov : List Kvec)
  /-- the local queue was empty -/
  | queueEmpty
  | poster
  | get (id : Fin kvecBufNum)
  | fetcher
  /-- pass the `k`-th of the fetched items to `vop_kvec_used` -/
  | used (k : Nat) (bytesWritten : Nat)
  | completer
  | consume
  | consumer

def kvecStep (num : Nat) (s : KvecState) (a : KvecAct) : Option KvecState :=
  match a with
  | .update =>
    match s.poster with
    | .idle => some { s with poster := .fetching (fun _ => 0) 0 }
    | _ => none
  | .put head wiov =>
    match s.poster with
    | .fetching cntSize cntTotal => some (vopKvecPut num s head wiov cntSize cntTotal)
    | _ => none
  | .queueEmpty =>
    match s.poster with
    | .fetching cntSize cntTotal =>
      some { s with poster := .publishing 0 cntSize cntTotal false }
    | _ => none
  | .poster => posterStep s
  | .get id =>
    match s.fetcher with
    | .idle => some { s with fetcher := .skipping id }
    | _ => none
  | .fetcher => fetcherStep num s
  | .used k bytesWritten =>
    match s.completer, s.items[k]? with
    | .idle, some item => some (vopKvecUsed num s k item bytesWritten)
    | _, _ => none
  | .completer =>
    match s.completer with
    | .stored => some (publishUsed num s)
    | .idle => none
  | .consume =>
    match s.consumer with
    | .idle =>
      if s.usedRing.cnt ≠ s.usedRing.lastCnt then
        some (vopKvecBufConsume num s)
      else
        none
    | .completed => none
  | .consumer =>
    match s.consumer with
    | .completed => some (advanceConsumed num s)
    | .idle => none

/-- The rings after `vop_kvec_buff_init` and `vop_kvec_map_buf`: zeroed pages -/
def KvecState.initial : KvecState where
  rings _ :=
    { putCnt := 0
      cnt := 0
      lastCnt := 0
      buf := fun _ => ⟨⟨0, 0⟩, 0, 0⟩
      sendMaxSizeLocal := 0
      sendMaxSize := 0
      putLog := []
      storedLog := []
      published := 0
      gotLog := [] }
  usedRing :=
    { usedCnt := 0
      cnt := 0
      lastCnt := 0
      buf := fun _ => ⟨0, 0⟩
      usedLog := []
      consumedLog := [] }
  poster := .idle
  fetcher := .idle
  completer := .idle
  consumer := .idle
  items := []
  outstanding := []

/-- The rings of `num` slots -/
def kvecSystem (num : Nat) : System KvecState KvecAct where
  Init s := s = KvecState.initial
  step := kvecStep num

/-- What the local queue promises: a chain has two descriptors and a size that some ring takes;
a head is not posted again before it was completed, and no more than `num / 2` chains are
outstanding. -/
def ChainOk (num : Nat) (s : KvecState) (a : KvecAct) (_ : KvecState) : Prop :=
  match a with
  | .put head wiov =>
    wiov.length = 2 ∧ (getRingIdWrite (chainSize wiov)).isSome ∧ head ∉ s.outstanding ∧
      s.outstanding.length < num / 2
  | _ => True

instance (num : Nat) (s : KvecState) (a : KvecAct) (s' : KvecState) :
    Decidable (ChainOk num s a s') :=
  match a with
  | .put head wiov =>
    inferInstanceAs (Decidable (wiov.length = 2 ∧ (getRingIdWrite (chainSize wiov)).isSome ∧
      head ∉ s.outstanding ∧ s.outstanding.length < num / 2))
  | .update | .queueEmpty | .poster | .get _ | .fetcher | .used _ _ | .completer | .consume
  | .consumer => .isTrue trivial

end Vcass.Vop
