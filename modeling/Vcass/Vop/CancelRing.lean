import Vcass.Vop.KvecRing

/-!
# Cancelling a Receive Request

The peer that posts receive chains into an available ring may ask to have one back: it writes the
slot of the request into the header, and `vop_kvec_check_cancel` answers.  A request that was not
fetched is marked with `VOP_KVEC_FLAG_CANCELLED`, and `vop_kvec_get` skips it; for one that is being
written the routine waits until `VOP_KVEC_FLAG_IN_USE` is cleared.

One available ring is modelled, with

- the poster: `vop_kvec_put` and `vop_kvec_buff_update_idx`, and the completion of used chains;
- the fetcher: `vop_kvec_get`, under the mutex of the ring;
- the items that hold a fetched chain: `transfer_write`, the completion of the DMA, and the two steps
  of `transfer_done`, `vop_kvec_used` and clearing the flags of the slot;
- the canceller: `vop_kvec_check_cancel`, which reads the window of the ring before it takes the
  mutex.

The descriptors of a chain stand for its buffers; a slot carries the number of the chain whose
descriptors it has.  A counter of the code is smaller than `2 * num` (`KVEC_COUNTER_ADD`), and a `u16`
holds it for every size of a queue.
-/

namespace Vcass.Vop

open Vcass.Core

/-! ## The state -/

/-- `struct vop_peer_kvec`: the head, the two flags, and the chain whose descriptor it holds -/
structure CancelSlot where
  head : Nat
  inUse : Bool
  cancelled : Bool
  chain : Option Nat

/-- How far the transfer of a fetched chain has got -/
inductive ItemPhase where
  /-- before `transfer_write` -/
  | fetched
  /-- the DMA into the buffers of a chain is under way -/
  | writing (target : Option Nat)
  /-- the DMA is over, or was not started -/
  | written
  /-- `transfer_done` has called `vop_kvec_used` and not yet cleared the flags -/
  | used
deriving DecidableEq

/-- `struct buffer_dma_item` with a fetched chain: `slot` is where `kvec_to` points to. -/
structure CancelItem where
  chain : Option Nat
  slot : Nat
  numKvecsTo : Nat
  phase : ItemPhase
deriving DecidableEq

/-- `vop_kvec_get` -/
inductive GetPhase where
  | idle
  /-- in the loop that skips cancelled slots -/
  | skipping
  /-- before the test whether the ring is empty -/
  | checking
  /-- before the first slot is read -/
  | nonempty
deriving DecidableEq

/-- `vop_kvec_check_cancel`.  `named` is history: the chain that was published and not completed, and
whose first slot the request named, when the request was read. -/
inductive CancelPhase where
  | idle
  /-- before `idx_start` is read -/
  | start (request : Nat) (named : Option Nat)
  /-- before `idx_end` is read -/
  | stop (request : Nat) (named : Option Nat) (idxStart : Nat)
  /-- before the tests of the request -/
  | check (request : Nat) (named : Option Nat) (idxStart idxEnd : Nat)
  /-- before the mutex is taken -/
  | lock (request : Nat) (named : Option Nat) (idxStart idxEnd : Nat)
  /-- waiting for the end of a transfer -/
  | wait (request : Nat) (named : Option Nat)
  /-- in a loop that never ends, with the mutex -/
  | hung
deriving DecidableEq

/-- One available ring and its parties.  Chain `k` is the `k`-th one put; it has the slots `2 * k` and
`2 * k + 1`, counted without end. -/
structure CancelRing where
  buf : Nat → CancelSlot
  /-- the poster's `last_cnt` -/
  putCnt : Nat
  cnt : Nat
  /-- the fetcher's `last_cnt` -/
  lastCnt : Nat
  fetcher : GetPhase
  items : List CancelItem
  /-- the used ring: chains that were returned and are not yet completed -/
  usedRing : List Nat
  canceller : CancelPhase
  /-- history: the heads of the chains put -/
  heads : List Nat
  /-- history: the number of chains published -/
  published : Nat
  /-- history: the number of slots that the fetcher has passed -/
  passed : Nat
  /-- history: the chains put and not yet completed -/
  outstanding : List Nat
  /-- history: the chains of the slots that requests have named -/
  requested : List Nat
  /-- history: the chains of the slots that the fetcher has skipped -/
  skipped : List Nat
  /-- history: the chains named by requests that were answered with `VOP_REQUEST_CANCEL_OK` -/
  confirmed : List Nat

namespace CancelRing

variable (num : Nat) (s : CancelRing)

def setSlot (j : Nat) (slot : CancelSlot) : CancelRing :=
  { s with buf := Function.update s.buf j slot }

/-! ## The poster -/

/-- `vop_kvec_put` of a chain with two descriptors -/
def put (head : Nat) : CancelRing :=
  let idx := kvecCounterToIdx s.putCnt num
  let slot : CancelSlot := ⟨head, false, false, some s.heads.length⟩
  { s with
    buf := Function.update (Function.update s.buf idx slot) (idx + 1) slot
    putCnt := kvecCounterAdd s.putCnt 2 num
    heads := s.heads ++ [head]
    outstanding := s.heads.length :: s.outstanding }

/-- `vop_kvec_buff_update_idx` -/
def publish : CancelRing :=
  { s with cnt := s.putCnt, published := s.heads.length }

/-- One turn of `vop_kvec_buf_consume` -/
def consume : Option CancelRing :=
  match s.usedRing with
  | [] => none
  | k :: rest => some { s with usedRing := rest, outstanding := s.outstanding.erase k }

/-! ## The fetcher -/

/-- One turn of the loop that skips cancelled slots -/
def skip : CancelRing :=
  let curIdx := kvecCounterToIdx s.lastCnt num
  if s.lastCnt ≠ s.cnt ∧ (s.buf curIdx).cancelled = true then
    { s.setSlot curIdx { s.buf curIdx with head := 0, inUse := false, cancelled := false } with
      lastCnt := kvecCounterAdd s.lastCnt 1 num
      passed := s.passed + 1
      skipped := s.skipped ++ (s.buf curIdx).chain.toList }
  else
    { s with fetcher := .checking }

/-- The loop over adjacent slots with one head: clear the heads and count the slots.  The count ends
the loop before the fuel does. -/
def adjacent (lastCnt availCnt head : Nat) :
    Nat → (Nat → CancelSlot) → Nat → Nat → (Nat → CancelSlot) × Nat
  | 0, buf, cnt, _ => (buf, cnt)
  | fuel + 1, buf, cnt, nextIdx =>
    if ¬ kvecCounterEq (lastCnt + cnt) availCnt num ∧ head = (buf nextIdx).head ∧ cnt < num then
      adjacent lastCnt availCnt head fuel
        (Function.update buf nextIdx { buf nextIdx with head := 0 }) (cnt + 1)
        (kvecCounterToIdx (nextIdx + 1) num)
    else
      (buf, cnt)

/-- Fetch the chain at the fetcher's position. -/
def fetch : CancelRing :=
  let first := s.lastCnt % num
  let head := (s.buf first).head
  let buf := Function.update s.buf first { s.buf first with head := 0 }
  let (buf, cnt) :=
    adjacent num s.lastCnt s.cnt head num buf 1 (kvecCounterToIdx (s.lastCnt + 1) num)
  { s with
    buf := Function.update buf first { buf first with inUse := true, cancelled := false }
    lastCnt := kvecCounterAdd s.lastCnt cnt num
    passed := s.passed + cnt
    fetcher := .idle
    items := s.items ++ [⟨(s.buf first).chain, first, cnt, .fetched⟩] }

/-- One step of `vop_kvec_get` -/
def get : Option CancelRing :=
  match s.fetcher with
  | .idle => if s.canceller = .hung then none else some { s with fetcher := .skipping }
  | .skipping => some (s.skip num)
  | .checking =>
    if s.lastCnt = s.cnt then some { s with fetcher := .idle } else some { s with fetcher := .nonempty }
  | .nonempty => some (s.fetch num)

/-! ## The items -/

/-- `transfer_write`; `ok` when the buffer is large enough, can be mapped, and the DMA can be
started -/
def transferWrite (item : CancelItem) (ok : Bool) : ItemPhase :=
  if item.numKvecsTo = 2 ∧ ok = true then .writing (s.buf (item.slot + 1)).chain else .written

/-- The next step of the transfer of item `i` -/
def transfer (i : Nat) (ok : Bool) : Option CancelRing :=
  match s.items[i]? with
  | none => none
  | some item =>
    match item.phase with
    | .fetched => some { s with items := s.items.set i { item with phase := s.transferWrite item ok } }
    | .writing _ => some { s with items := s.items.set i { item with phase := .written } }
    | .written =>
      -- `vop_kvec_used`
      some { s with
        items := s.items.set i { item with phase := .used }
        usedRing := s.usedRing ++ item.chain.toList }
    | .used =>
      -- `item->kvec_to->flags = 0`
      some { s.setSlot item.slot { s.buf item.slot with inUse := false, cancelled := false } with
        items := s.items.eraseIdx i }

/-! ## The canceller -/

/-- The window test of `vop_kvec_check_cancel` -/
def cancelWindow (idxStart idxEnd idx : Nat) : Prop :=
  idxStart = idxEnd ∨ (idxStart < idxEnd ∧ idxStart ≤ idx ∧ idx ≤ idxEnd) ∨
    (idxEnd < idxStart ∧ (idx ≤ idxStart ∨ idxEnd ≤ idx))

instance (idxStart idxEnd idx : Nat) : Decidable (cancelWindow idxStart idxEnd idx) :=
  inferInstanceAs (Decidable (_ ∨ _))

/-- The loop that marks the slots that follow the request, and whether it ends.  The heads do not
change, so that a loop which comes round to the request goes on for ever. -/
def markLoop (head idxStart idxEnd : Nat) :
    Nat → (Nat → CancelSlot) → Nat → (Nat → CancelSlot) × Bool
  | fuel, buf, idx =>
    if (buf idx).head = head ∧ cancelWindow idxStart idxEnd idx then
      match fuel with
      | 0 => (buf, false)
      | fuel + 1 =>
        markLoop head idxStart idxEnd fuel
          (Function.update buf idx { buf idx with cancelled := true })
          (kvecCounterToIdx (idx + 1) num)
    else
      (buf, true)

/-- Mark the request and the slots after it. -/
def mark (request idxStart idxEnd : Nat) : (Nat → CancelSlot) × Bool :=
  let slot := s.buf request
  markLoop num slot.head idxStart idxEnd num
    (Function.update s.buf request { slot with cancelled := true })
    (kvecCounterToIdx (request + 1) num)

/-- The answer `VOP_REQUEST_CANCEL_OK` -/
def confirm (named : Option Nat) : CancelRing :=
  { s with canceller := .idle, confirmed := s.confirmed ++ named.toList }

/-- The chain that a request names, as the peer sees it -/
def namedChain (request : Nat) : Option Nat :=
  match (s.buf request).chain with
  | none => none
  | some k =>
    if 2 * k % num = request ∧ k < s.published ∧ k ∈ s.outstanding then some k else none

/-- One step of `vop_kvec_check_cancel`; every other answer than `VOP_REQUEST_CANCEL_OK` ends it
without a trace. -/
def checkCancel : Option CancelRing :=
  match s.canceller with
  | .idle | .hung => none
  | .start request named =>
    some { s with canceller := .stop request named (kvecCounterToIdx s.lastCnt num) }
  | .stop request named idxStart =>
    some { s with canceller := .check request named idxStart (kvecCounterToIdx s.cnt num) }
  | .check request named idxStart idxEnd =>
    if num ≤ request ∨ s.lastCnt = s.cnt then some { s with canceller := .idle }
    else some { s with canceller := .lock request named idxStart idxEnd }
  | .lock request named idxStart idxEnd =>
    -- the mutex is free when no get is under way
    if s.fetcher ≠ .idle then none
    else if (s.buf request).inUse then some { s with canceller := .wait request named }
    else
      let marked := s.mark num request idxStart idxEnd
      let s' :=
        { s with buf := marked.1, requested := s.requested ++ (s.buf request).chain.toList }
      if marked.2 then some (s'.confirm named) else some { s' with canceller := .hung }
  | .wait request named =>
    if (s.buf request).inUse then none else some (s.confirm named)

end CancelRing

/-! ## The system -/

inductive CancelAct where
  | put (head : Nat)
  | publish
  | consume
  | get
  /-- the next step of the transfer of an item -/
  | transfer (i : Nat) (ok : Bool)
  /-- the peer has written a request, and `vop_kvec_check_cancel` reads it -/
  | request (idx : Nat)
  | cancel
  /-- the wait for the end of a transfer ends without it -/
  | cancelTimeout

def cancelStep (num : Nat) (s : CancelRing) : CancelAct → Option CancelRing
  | .put head => some (s.put num head)
  | .publish => some s.publish
  | .consume => s.consume
  | .get => s.get num
  | .transfer i ok => s.transfer i ok
  | .request idx =>
    match s.canceller with
    | .idle => some { s with canceller := .start idx (s.namedChain num idx) }
    | _ => none
  | .cancel => s.checkCancel num
  | .cancelTimeout =>
    match s.canceller with
    | .wait _ _ => some { s with canceller := .idle }
    | _ => none

/-- The ring after `vop_kvec_buff_init` -/
def CancelRing.initial : CancelRing where
  buf := fun _ => ⟨0, false, false, none⟩
  putCnt := 0
  cnt := 0
  lastCnt := 0
  fetcher := .idle
  items := []
  usedRing := []
  canceller := .idle
  heads := []
  published := 0
  passed := 0
  outstanding := []
  requested := []
  skipped := []
  confirmed := []

/-- A ring of `num` slots -/
def cancelSystem (num : Nat) : System CancelRing CancelAct where
  Init s := s = .initial
  step := cancelStep num

/-- What the queue of the poster promises: a head is not put again before it was completed, and no
more than `num / 2` chains of two descriptors are outstanding. -/
def QueueOk (num : Nat) (s : CancelRing) (a : CancelAct) (_ : CancelRing) : Prop :=
  match a with
  | .put head =>
    (∀ k ∈ s.outstanding, s.heads[k]? ≠ some head) ∧ s.outstanding.length < num / 2
  | _ => True

instance (num : Nat) (s : CancelRing) (a : CancelAct) (s' : CancelRing) :
    Decidable (QueueOk num s a s') :=
  match a with
  | .put _ => inferInstanceAs (Decidable (_ ∧ _))
  | .publish | .consume | .get | .transfer _ _ | .request _ | .cancel | .cancelTimeout =>
    .isTrue trivial

/-! ## What a step can do -/

namespace CancelRing

variable (num : Nat) (s : CancelRing)

/-- The steps of `vop_kvec_get` that leave the slots alone -/
inductive Looks : GetPhase → Prop where
  | start : Looks .skipping
  | stop (phase : s.fetcher = .skipping) (unmarked : ¬ (s.lastCnt ≠ s.cnt ∧
      (s.buf (kvecCounterToIdx s.lastCnt num)).cancelled = true)) : Looks .checking
  | empty : Looks .idle
  | nonempty (phase : s.fetcher = .checking) (more : s.lastCnt ≠ s.cnt) : Looks .nonempty

/-- The next phase of an item, and what it puts into the used ring -/
inductive Moves (item : CancelItem) : ItemPhase → List Nat → Prop where
  | write (ok : Bool) (phase : item.phase = .fetched) : Moves item (s.transferWrite item ok) []
  | written {target : Option Nat} (phase : item.phase = .writing target) : Moves item .written []
  | used (phase : item.phase = .written) : Moves item .used item.chain.toList

/-- The steps of `vop_kvec_check_cancel` that change nothing but its own phase -/
inductive Asks : CancelAct → CancelPhase → Prop where
  | request (idx : Nat) : Asks (.request idx) (.start idx (s.namedChain num idx))
  | start {request : Nat} {named : Option Nat} (phase : s.canceller = .start request named) :
      Asks .cancel (.stop request named (kvecCounterToIdx s.lastCnt num))
  | stop {request : Nat} {named : Option Nat} {idxStart : Nat}
      (phase : s.canceller = .stop request named idxStart) :
      Asks .cancel (.check request named idxStart (kvecCounterToIdx s.cnt num))
  | check {request : Nat} {named : Option Nat} {idxStart idxEnd : Nat}
      (phase : s.canceller = .check request named idxStart idxEnd) :
      Asks .cancel (.lock request named idxStart idxEnd)
  | wait {request : Nat} {named : Option Nat} {idxStart idxEnd : Nat}
      (phase : s.canceller = .lock request named idxStart idxEnd)
      (inUse : (s.buf request).inUse = true) : Asks .cancel (.wait request named)
  | giveUp (a : CancelAct) : Asks a .idle

/-- **What a step can do** -/
inductive Step : CancelAct → CancelRing → Prop where
  | put (head : Nat) : Step (.put head) (s.put num head)
  | publish : Step .publish s.publish
  | consume {k : Nat} {rest : List Nat} (used : s.usedRing = k :: rest) :
      Step .consume { s with usedRing := rest, outstanding := s.outstanding.erase k }
  | look {phase : GetPhase} (looks : s.Looks num phase) : Step .get { s with fetcher := phase }
  | skip (phase : s.fetcher = .skipping) (more : s.lastCnt ≠ s.cnt)
      (marked : (s.buf (kvecCounterToIdx s.lastCnt num)).cancelled = true) :
      Step .get (s.skip num)
  | fetch (phase : s.fetcher = .nonempty) : Step .get (s.fetch num)
  | move {i : Nat} {ok : Bool} {item : CancelItem} {phase : ItemPhase} {back : List Nat}
      (get : s.items[i]? = some item) (moves : s.Moves item phase back) :
      Step (.transfer i ok)
        { s with
          items := s.items.set i { item with phase := phase }
          usedRing := s.usedRing ++ back }
  | clear {i : Nat} {ok : Bool} {item : CancelItem} (get : s.items[i]? = some item)
      (used : item.phase = .used) :
      Step (.transfer i ok)
        { s.setSlot item.slot { s.buf item.slot with inUse := false, cancelled := false } with
          items := s.items.eraseIdx i }
  | ask {a : CancelAct} {phase : CancelPhase} (asks : s.Asks num a phase) :
      Step a { s with canceller := phase }
  | mark {request : Nat} {named : Option Nat} {idxStart idxEnd : Nat} {phase : CancelPhase}
      {told : List Nat} (lock : s.canceller = .lock request named idxStart idxEnd)
      (idle : s.fetcher = .idle) (unused : (s.buf request).inUse = false)
      (ends : phase = .idle ∧ told = named.toList ∨ phase = .hung ∧ told = []) :
      Step .cancel
        { s with
          buf := (s.mark num request idxStart idxEnd).1
          requested := s.requested ++ (s.buf request).chain.toList
          canceller := phase
          confirmed := s.confirmed ++ told }
  | waited {request : Nat} {named : Option Nat} (wait : s.canceller = .wait request named)
      (unused : (s.buf request).inUse = false) : Step .cancel (s.confirm named)

variable {num s} {s' : CancelRing}

theorem Moves.chain_eq {item : CancelItem} {phase : ItemPhase} {back : List Nat}
    (h : s.Moves item phase back) : ∀ k ∈ back, item.chain = some k := by
  intro k hk
  cases h with
  | write | written => cases hk
  | used => exact Option.mem_toList.mp hk

theorem get_cases (h : s.get num = some s') : s.Step num .get s' := by
  unfold get at h
  split at h
  case h_1 =>
    split at h
    · cases h
    · cases h
      exact .look .start
  case h_2 hphase =>
    cases h
    by_cases hskip : s.lastCnt ≠ s.cnt ∧ (s.buf (kvecCounterToIdx s.lastCnt num)).cancelled = true
    · exact .skip hphase hskip.1 hskip.2
    · have hstop : s.skip num = { s with fetcher := .checking } := by
        unfold skip
        exact if_neg hskip
      rw [hstop]
      exact .look (.stop hphase hskip)
  case h_3 hphase =>
    split at h
    · cases h
      exact .look .empty
    · rename_i hmore
      cases h
      exact .look (.nonempty hphase hmore)
  case h_4 hphase =>
    cases h
    exact .fetch hphase

theorem transfer_cases {i : Nat} {ok : Bool} (h : s.transfer i ok = some s') :
    s.Step num (.transfer i ok) s' := by
  unfold transfer at h
  split at h
  case h_1 => cases h
  case h_2 item hget =>
    have hmove {phase back} (h : s.Moves item phase back) : s.Step num (.transfer i ok) _ :=
      .move hget h
    split at h
    case h_1 hphase =>
      cases h
      have := hmove (.write ok hphase)
      simpa using this
    case h_2 hphase =>
      cases h
      have := hmove (.written hphase)
      simpa using this
    case h_3 hphase =>
      cases h
      exact hmove (.used hphase)
    case h_4 hphase =>
      cases h
      exact .clear hget hphase

theorem checkCancel_cases (h : s.checkCancel num = some s') : s.Step num .cancel s' := by
  unfold checkCancel at h
  split at h
  case h_1 | h_2 => cases h
  case h_3 hphase =>
    cases h
    exact .ask (.start hphase)
  case h_4 hphase =>
    cases h
    exact .ask (.stop hphase)
  case h_5 hphase =>
    split at h
    · cases h
      exact .ask (.giveUp _)
    · cases h
      exact .ask (.check hphase)
  case h_6 hphase =>
    split at h
    · cases h
    · rename_i hidle
      split at h
      · rename_i huse
        cases h
        exact .ask (.wait hphase huse)
      · rename_i huse
        simp only at h
        split at h
        · cases h
          exact .mark hphase (not_not.mp hidle) (by simpa using huse) (.inl ⟨rfl, rfl⟩)
        · cases h
          simpa using Step.mark hphase (not_not.mp hidle) (by simpa using huse) (.inr ⟨rfl, rfl⟩)
  case h_7 hphase =>
    split at h
    · cases h
    · rename_i huse
      cases h
      exact .waited hphase (by simpa using huse)

end CancelRing

theorem cancelStep_cases {num : Nat} {s s' : CancelRing} {a : CancelAct}
    (h : cancelStep num s a = some s') : s.Step num a s' := by
  cases a with
  | put head =>
    cases h
    exact .put head
  | publish =>
    cases h
    exact .publish
  | consume =>
    simp only [cancelStep, CancelRing.consume] at h
    split at h
    · cases h
    · rename_i hused
      cases h
      exact .consume hused
  | get => exact CancelRing.get_cases h
  | transfer i ok => exact CancelRing.transfer_cases h
  | request idx =>
    simp only [cancelStep] at h
    split at h
    · cases h
      exact .ask (.request idx)
    · cases h
  | cancel => exact CancelRing.checkCancel_cases h
  | cancelTimeout =>
    simp only [cancelStep] at h
    split at h
    · cases h
      exact .ask (.giveUp _)
    · cases h

end Vcass.Vop
