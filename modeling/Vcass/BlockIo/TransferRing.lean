import Vcass.BlockIo.Backend
import Vcass.Vcablk.Framing
import Vcass.Vcablk.LockFreePool

/-!
# The Transfer Ring of the Backend

Three parties of `vcablk_bcknd_disk.c` pass transfer buffers around.  The request thread takes a
buffer from `transfer_buffer_pool` and submits it to the DMA engine; `vca_bcknd_callback_dma` puts
it into `transfer_ring`; the transfer thread completes it and gives it back to the pool.

The pool hands out one buffer less than the ring has slots.  A buffer is back in the pool before
its slot is released, so a slot more than there are buffers outside may count as taken, and the
ring is never full for all that: `TransferInv` counts the buffers in the hands of each party.
-/

namespace Vcass.BlockIo.TransferRing

open Vcass.Core Vcass.Vcablk Multiset List

/-! ## The three parties -/

/-- The request thread, in `vcablk_bcknd_get_transfer_param` or with a buffer -/
inductive RequestThread where
  | popping
  | holds (item : Nat)

/-- `vca_bcknd_callback_dma` between two accesses to the ring -/
inductive DmaCallback where
  | idle
  | called (item : Nat)
  | addRead (item lastAdd : Nat)
  | usedRead (item lastAdd lastUsed : Nat)
  /-- the slot is written, `last_add` not yet -/
  | slotWritten (item lastAdd : Nat)

/-- `vcablk_bcknd_disk_make_transfer_thread` between two accesses to the ring or the pool -/
inductive TransferThread where
  | waiting
  | nonEmpty
  | slotRead (item : Nat)
  /-- in `vcablk_pool_push` -/
  | pushing (item : Nat)
  | completed

/-- The pool, the ring and the parties.  `enqueued`, `processed` and `dropped` are history:
the items put into the ring, completed by the transfer thread, and lost to a full ring. -/
structure TransferState where
  pool : PoolState
  request : RequestThread
  /-- handed to the DMA engine, without a callback so far -/
  submitted : List Nat
  callback : DmaCallback
  lastAdd : Nat
  lastUsed : Nat
  elems : Nat → Nat
  thread : TransferThread
  /-- `last_used` of the transfer thread -/
  threadLastUsed : Nat
  enqueued : List Nat
  processed : List Nat
  dropped : List Nat

inductive TransferAct where
  /-- an access of `vcablk_pool_pop` by the request thread -/
  | pop
  /-- the DMA engine accepts the buffer -/
  | submit
  /-- the media read or the submission fails and the request is given up -/
  | fail
  | callback
  | thread

/-- `vca_bcknd_callback_dma`, called for the transfer submitted first -/
def callbackStep (s : TransferState) : Option TransferState :=
  match s.callback with
  | .idle =>
    match s.submitted with
    | [] => none
    | item :: rest => some { s with submitted := rest, callback := .called item }
  | .called item => some { s with callback := .addRead item s.lastAdd }
  | .addRead item lastAdd => some { s with callback := .usedRead item lastAdd s.lastUsed }
  | .usedRead item lastAdd lastUsed =>
    if vcaRbBuffFull lastAdd lastUsed transferRingSize then
      some { s with callback := .idle, dropped := s.dropped ++ [item] }
    else
      some
        { s with
          elems := Function.update s.elems (vcaRbCounterToIdx lastAdd transferRingSize) item
          callback := .slotWritten item lastAdd }
  | .slotWritten item lastAdd =>
    some
      { s with
        lastAdd := vcaRbCounterAdd lastAdd 1 transferRingSize
        callback := .idle
        enqueued := s.enqueued ++ [item] }

/-- `vcablk_bcknd_disk_make_transfer_thread` with `vca_bcknd_complete_transfer` -/
def threadStep (s : TransferState) : Option TransferState :=
  match s.thread with
  | .waiting =>
    if s.lastAdd ≠ s.threadLastUsed then some { s with thread := .nonEmpty } else some s
  | .nonEmpty =>
    some
      { s with
        thread :=
          .slotRead (s.elems (vcaRbCounterToIdx s.threadLastUsed transferRingSize)) }
  | .slotRead item =>
    (pushCall s.pool item).map fun pool => { s with pool := pool, thread := .pushing item }
  | .pushing item =>
    (pushStep s.pool).map fun pool =>
      if pool.push = .idle then
        { s with pool := pool, thread := .completed, processed := s.processed ++ [item] }
      else
        { s with pool := pool }
  | .completed =>
    some
      { s with
        thread := .waiting
        threadLastUsed := vcaRbCounterAdd s.threadLastUsed 1 transferRingSize
        lastUsed := vcaRbCounterAdd s.threadLastUsed 1 transferRingSize }

def transferStep (s : TransferState) (a : TransferAct) : Option TransferState :=
  match a with
  | .pop =>
    match s.request with
    | .popping =>
      some
        { s with
          pool := popStep false s.pool
          request := (s.pool.pop.ret.map RequestThread.holds).getD .popping }
    | .holds _ => none
  | .submit =>
    match s.request with
    | .popping => none
    | .holds item => some { s with request := .popping, submitted := s.submitted ++ [item] }
  | .fail =>
    match s.request with
    | .popping => none
    | .holds _ => some { s with request := .popping }
  | .callback => callbackStep s
  | .thread => threadStep s

/-- The ring and the pool of a disk -/
def transferSystem : System TransferState TransferAct where
  Init s := ∃ pool elems, vcablkPoolInitChecked (transferRingSize - 1) = some pool ∧
    s = ⟨⟨pool, .idle, .idle, [], [], []⟩, .popping, [], .idle, 0, 0, elems, .waiting, 0, [], [], []⟩
  step := transferStep

/-! ## Who holds which buffer -/

def RequestThread.items : RequestThread → List Nat
  | .popping => []
  | .holds item => [item]

def DmaCallback.items : DmaCallback → List Nat
  | .idle => []
  | .called item | .addRead item _ | .usedRead item _ _ | .slotWritten item _ => [item]

/-- What stands in the slot that the callback has not yet published -/
def DmaCallback.written : DmaCallback → List Nat
  | .slotWritten item _ => [item]
  | .idle | .called _ | .addRead _ _ | .usedRead _ _ _ => []

namespace TransferState

variable (s : TransferState)

/-- The items of the ring that the transfer thread has not completed -/
def pending : List Nat := s.enqueued.drop s.processed.length

/-- The number of slots released: the last item is completed before its slot is released. -/
def used : Nat :=
  match s.thread with
  | .completed => s.processed.length - 1
  | .waiting | .nonEmpty | .slotRead _ | .pushing _ => s.processed.length

/-- All buffers in the hands of a party -/
def held : Multiset Nat :=
  (s.request.items : Multiset Nat) + (s.submitted : Multiset Nat) +
    (s.callback.items : Multiset Nat) + (s.pending : Multiset Nat)

end TransferState

def CallbackOk (s : TransferState) : Prop :=
  match s.callback with
  | .idle | .called _ => True
  | .addRead _ lastAdd => lastAdd = s.lastAdd
  | .usedRead _ lastAdd lastUsed =>
    lastAdd = s.lastAdd ∧ ∃ used ≤ s.used, s.enqueued.length < used + transferRingSize ∧
      lastUsed = used % (2 * transferRingSize)
  | .slotWritten _ lastAdd => lastAdd = s.lastAdd

/-- What the transfer thread has read and done -/
def ThreadOk (s : TransferState) : Prop :=
  match s.thread with
  | .waiting => s.pool.push = .idle
  | .nonEmpty => s.pool.push = .idle ∧ s.processed.length < s.enqueued.length
  | .slotRead item => s.pool.push = .idle ∧ s.enqueued[s.processed.length]? = some item
  | .pushing item =>
    s.pool.push.elements = [item] ∧ s.enqueued[s.processed.length]? = some item
  | .completed => s.pool.push = .idle ∧ 0 < s.processed.length

/-- **The parties share the buffers that the pool handed out, and the ring holds what was put into
it.** -/
structure TransferInv (s : TransferState) : Prop where
  pool : ∃ free, PoolInv (transferRingSize - 1) s.pool free
  held : s.held ≤ (s.pool.out : Multiset Nat) + (s.pool.push.elements : Multiset Nat)
  processed : s.processed <+: s.enqueued
  lastAdd : s.lastAdd = s.enqueued.length % (2 * transferRingSize)
  lastUsed : s.lastUsed = s.used % (2 * transferRingSize)
  threadLastUsed : s.threadLastUsed = s.lastUsed
  window : Window transferRingSize s.elems (s.enqueued ++ s.callback.written) s.used
  dropped : s.dropped = []
  callback : CallbackOk s
  thread : ThreadOk s

theorem ringSize_pow : transferRingSize = 2 ^ 4 := rfl

namespace TransferInv

variable {s : TransferState} (inv : TransferInv s)

include inv

theorem processed_le : s.processed.length ≤ s.enqueued.length :=
  inv.processed.length_le

theorem used_le : s.used ≤ s.enqueued.length := by
  have := inv.processed_le
  unfold TransferState.used
  split <;> omega

omit inv in
theorem processed_le_used (s : TransferState) : s.processed.length ≤ s.used + 1 := by
  unfold TransferState.used
  split <;> omega

/-- **There is room for the item of the callback**: it is not one of those in the ring, and only
one more slot counts as taken. -/
theorem room (item : Nat) (hitem : s.callback.items = [item]) :
    s.enqueued.length < s.used + transferRingSize := by
  obtain ⟨free, pool⟩ := inv.pool
  have hout := pool.out_le
  have hcard := card_le_card inv.held
  unfold TransferState.held TransferState.pending at hcard
  simp only [card_add, coe_card, hitem, length_singleton, length_drop]
    at hcard
  have := processed_le_used s
  have := inv.processed_le
  have : transferRingSize = 16 := rfl
  omega

/-! ## The request thread -/

theorem pop (hrequest : s.request = .popping) :
    TransferInv
      { s with
        pool := popStep false s.pool
        request := (s.pool.pop.ret.map RequestThread.holds).getD .popping } := by
  obtain ⟨free, pool⟩ := inv.pool
  have hpush := popStep_push false s.pool
  have hheld := inv.held
  unfold TransferState.held at hheld
  rw [hrequest] at hheld
  -- a pop that has not returned leaves the request thread where it is
  have hitems : ((s.pool.pop.ret.map RequestThread.holds).getD .popping).items =
      s.pool.pop.ret.toList := by
    cases s.pool.pop.ret with
    | none => rfl
    | some item => rfl
  refine
    { inv with
      pool := pool.popStep
      held := ?_
      callback := inv.callback
      thread := ?_ }
  · show (((s.pool.pop.ret.map RequestThread.holds).getD .popping).items : Multiset Nat) +
      (s.submitted : Multiset Nat) + (s.callback.items : Multiset Nat) + (s.pending : Multiset Nat) ≤ _
    rw [popStep_out, hpush, hitems, ← coe_add]
    calc (s.pool.pop.ret.toList : Multiset Nat) + s.submitted + s.callback.items + s.pending
        = (RequestThread.popping.items : Multiset Nat) + s.submitted + s.callback.items + s.pending +
            s.pool.pop.ret.toList := by
          show _ = (([] : List Nat) : Multiset Nat) + _ + _ + _ + _
          rw [coe_nil, zero_add]
          ac_rfl
      _ ≤ (s.pool.out : Multiset Nat) + s.pool.push.elements + s.pool.pop.ret.toList :=
          add_le_add_left hheld _
      _ = _ := by ac_rfl
  · have hthread := inv.thread
    unfold ThreadOk at hthread ⊢
    dsimp only
    rw [hpush]
    exact hthread

variable {item : Nat}

theorem submit (hrequest : s.request = .holds item) :
    TransferInv { s with request := .popping, submitted := s.submitted ++ [item] } where
  __ := inv
  held := by
    have hheld := inv.held
    unfold TransferState.held at hheld ⊢
    rw [hrequest] at hheld
    refine le_of_eq_of_le ?_ hheld
    show (([] : List Nat) : Multiset Nat) + ((s.submitted ++ [item] : List Nat) : Multiset Nat) +
        s.callback.items + s.pending =
      (([item] : List Nat) : Multiset Nat) + s.submitted + s.callback.items + s.pending
    rw [← coe_add, coe_nil, zero_add]
    ac_rfl
  callback := inv.callback
  thread := inv.thread

theorem fail (hrequest : s.request = .holds item) :
    TransferInv { s with request := .popping } where
  __ := inv
  held := by
    have hheld := inv.held
    unfold TransferState.held at hheld ⊢
    rw [hrequest] at hheld
    refine le_trans ?_ hheld
    show (([] : List Nat) : Multiset Nat) + s.submitted + s.callback.items + s.pending ≤ _
    rw [coe_nil]
    gcongr
    exact zero_le _
  callback := inv.callback
  thread := inv.thread

/-! ## The callback -/

theorem callback_called {rest : List Nat}
    (hcallback : s.callback = .idle) (hsubmitted : s.submitted = item :: rest) :
    TransferInv { s with submitted := rest, callback := .called item } where
  __ := inv
  held := by
    have hheld := inv.held
    unfold TransferState.held at hheld ⊢
    rw [hcallback, hsubmitted] at hheld
    -- the buffer goes from the submitted ones to the callback
    refine le_of_eq_of_le ?_ hheld
    show s.request.items + (rest : Multiset Nat) + (([item] : List Nat) : Multiset Nat) + s.pending =
      s.request.items + ((item :: rest : List Nat) : Multiset Nat) + (([] : List Nat) : Multiset Nat) +
        s.pending
    rw [← cons_coe item rest, ← singleton_add, coe_singleton,
      coe_nil, add_zero]
    ac_rfl
  window := by
    have hwindow := inv.window
    rw [hcallback] at hwindow
    exact hwindow
  callback := trivial
  thread := inv.thread

theorem callback_read {c : DmaCallback} (hitems : c.items = s.callback.items)
    (hwritten : c.written = s.callback.written) (hok : CallbackOk { s with callback := c }) :
    TransferInv { s with callback := c } where
  __ := inv
  held := by
    have hheld := inv.held
    unfold TransferState.held at hheld ⊢
    rw [← hitems] at hheld
    exact hheld
  window := by
    have hwindow := inv.window
    rw [← hwritten] at hwindow
    exact hwindow
  callback := hok
  thread := inv.thread

variable {item lastAdd lastUsed : Nat}

/-- **The ring is not full for the callback.** -/
theorem not_full (hcallback : s.callback = .usedRead item lastAdd lastUsed) :
    ¬ vcaRbBuffFull lastAdd lastUsed transferRingSize := by
  have hok := inv.callback
  unfold CallbackOk at hok
  rw [hcallback] at hok
  obtain ⟨rfl, used, hused, hroom, rfl⟩ := hok
  have hle := inv.used_le
  rw [inv.lastAdd, rbCounter_full ringSize_pow (by omega) hroom.le]
  exact hroom.ne

theorem callback_write (hcallback : s.callback = .usedRead item lastAdd lastUsed) :
    TransferInv
      { s with
        elems := Function.update s.elems (vcaRbCounterToIdx lastAdd transferRingSize) item
        callback := .slotWritten item lastAdd } := by
  have hok := inv.callback
  unfold CallbackOk at hok
  rw [hcallback] at hok
  obtain ⟨rfl, -⟩ := hok
  have hheld := inv.held
  have hwindow := inv.window
  have hroom := inv.room item (by rw [hcallback]; rfl)
  unfold TransferState.held at hheld
  rw [hcallback] at hheld hwindow
  refine
    { inv with
      held := hheld
      window := ?_
      callback := rfl
      thread := inv.thread }
  -- the slot that is written is the one behind the last entry
  have hpush := hwindow.push (by simpa [DmaCallback.written] using hroom) item
  simp only [DmaCallback.written, append_nil] at hpush
  rw [inv.lastAdd, rbCounter_idx ringSize_pow]
  exact hpush

theorem callback_publish {item lastAdd : Nat}
    (hcallback : s.callback = .slotWritten item lastAdd) :
    TransferInv
      { s with
        lastAdd := vcaRbCounterAdd lastAdd 1 transferRingSize
        callback := .idle
        enqueued := s.enqueued ++ [item] } := by
  have hok := inv.callback
  unfold CallbackOk at hok
  rw [hcallback] at hok
  obtain rfl := hok
  have hheld := inv.held
  have hwindow := inv.window
  unfold TransferState.held at hheld
  rw [hcallback] at hheld hwindow
  have hpending : (s.enqueued ++ [item]).drop s.processed.length = s.pending ++ [item] :=
    drop_append_of_le_length inv.processed_le
  refine
    { inv with
      held := ?_
      processed := inv.processed.trans (prefix_append ..)
      lastAdd := ?_
      window := by
        show Window _ _ (s.enqueued ++ [item] ++ []) _
        rw [append_nil]
        exact hwindow
      callback := trivial
      thread := ?_ }
  · refine le_of_eq_of_le ?_ hheld
    show s.request.items + (s.submitted : Multiset Nat) + (([] : List Nat) : Multiset Nat) +
        (((s.enqueued ++ [item]).drop s.processed.length : List Nat) : Multiset Nat) =
      s.request.items + s.submitted + (([item] : List Nat) : Multiset Nat) + s.pending
    rw [hpending, ← coe_add, coe_nil, add_zero]
    ac_rfl
  · show vcaRbCounterAdd s.lastAdd 1 transferRingSize = _
    rw [inv.lastAdd, rbCounter_add ringSize_pow, length_append]
    rfl
  · -- what the transfer thread knows of the ring stays true when the ring grows
    have hthread := inv.thread
    unfold ThreadOk at hthread ⊢
    cases hphase : s.thread with rw [hphase] at hthread
    | nonEmpty => exact ⟨hthread.1, by rw [length_append]; exact Nat.lt_add_right _ hthread.2⟩
    | slotRead other | pushing other =>
      refine ⟨hthread.1, ?_⟩
      obtain ⟨hlt, -⟩ := List.getElem?_eq_some_iff.mp hthread.2
      rw [List.getElem?_append_left hlt]
      exact hthread.2
    | waiting | completed => exact hthread

/-- **A step of the callback** -/
theorem callbackStep {s' : TransferState} (h : callbackStep s = some s') : TransferInv s' := by
  unfold TransferRing.callbackStep at h
  cases hcallback : s.callback with rw [hcallback] at h
  | idle =>
    cases hsubmitted : s.submitted with simp only [hsubmitted] at h
    | nil => cases h
    | cons item rest =>
      cases h
      exact inv.callback_called hcallback hsubmitted
  | called item =>
    cases h
    apply inv.callback_read
    · rw [hcallback]
      rfl
    · rw [hcallback]
      rfl
    · rfl
  | addRead item lastAdd =>
    cases h
    have hok := inv.callback
    unfold CallbackOk at hok
    rw [hcallback] at hok
    -- the thread may free slots after this read, which only makes more room
    have hroom := inv.room item (by rw [hcallback]; rfl)
    apply inv.callback_read
    · rw [hcallback]
      rfl
    · rw [hcallback]
      rfl
    · exact ⟨hok, s.used, Nat.le_refl _, hroom, inv.lastUsed⟩
  | usedRead item lastAdd lastUsed =>
    dsimp only at h
    rw [if_neg (inv.not_full hcallback)] at h
    cases h
    exact inv.callback_write hcallback
  | slotWritten item lastAdd =>
    cases h
    exact inv.callback_publish hcallback

/-! ## The transfer thread -/

theorem thread_read {t : TransferThread}
    (hused : { s with thread := t }.used = s.used) (hok : ThreadOk { s with thread := t }) :
    TransferInv { s with thread := t } where
  __ := inv
  lastUsed := by
    rw [hused]
    exact inv.lastUsed
  window := by
    rw [hused]
    exact inv.window
  callback := by
    have hcallback := inv.callback
    unfold CallbackOk at hcallback ⊢
    rw [hused]
    exact hcallback
  thread := hok

theorem thread_slot (hthread : s.thread = .nonEmpty) :
    s.enqueued[s.processed.length]? =
      some (s.elems (vcaRbCounterToIdx s.threadLastUsed transferRingSize)) := by
  have hok := inv.thread
  unfold ThreadOk at hok
  rw [hthread] at hok
  have hused : s.used = s.processed.length := by
    unfold TransferState.used
    rw [hthread]
  have hget := List.getElem?_eq_getElem hok.2
  have hslot : (s.enqueued ++ s.callback.written)[s.processed.length]? =
      some s.enqueued[s.processed.length] := by
    rw [List.getElem?_append_left hok.2]
    exact hget
  rw [hget, inv.threadLastUsed, inv.lastUsed, rbCounter_idx ringSize_pow, hused,
    inv.window.read hused.le hslot]

theorem slotRead_out (hthread : s.thread = .slotRead item) :
    s.pool.push = .idle ∧ item ∈ s.pool.out := by
  have hok := inv.thread
  unfold ThreadOk at hok
  rw [hthread] at hok
  refine ⟨hok.1, ?_⟩
  have hheld := inv.held
  unfold TransferState.held at hheld
  rw [hok.1] at hheld
  have hpending : item ∈ s.pending := by
    unfold TransferState.pending
    apply mem_of_getElem? (i := 0)
    rw [List.getElem?_drop]
    exact hok.2
  have hmem := mem_of_le hheld
    (mem_add.mpr (.inr (mem_coe.mpr hpending)))
  simpa [PoolPush.elements] using hmem

variable {pool : PoolState}

theorem thread_call (hthread : s.thread = .slotRead item) (hcall : pushCall s.pool item = some pool) :
    TransferInv { s with pool := pool, thread := .pushing item } := by
  have hok := inv.thread
  unfold ThreadOk at hok
  rw [hthread] at hok
  have hused : s.used = s.processed.length := by
    unfold TransferState.used
    rw [hthread]
  obtain ⟨hidle, hout⟩ := inv.slotRead_out hthread
  -- the buffer of the slot is out of the pool, so that the call is not a `BUG_ON`
  obtain ⟨free, hpool⟩ := inv.pool
  have hpool' := hpool.pushCall hcall
  unfold pushCall at hcall
  rw [if_pos ⟨hidle, hout⟩] at hcall
  cases hcall
  have hheld := inv.held
  have hcallback := inv.callback
  have hwindow := inv.window
  have hlastUsed := inv.lastUsed
  unfold CallbackOk at hcallback
  rw [hused] at hcallback hwindow hlastUsed
  rw [hidle] at hheld
  refine
    { inv with
      pool := ⟨free, hpool'⟩
      held := ?_
      lastUsed := hlastUsed
      window := hwindow
      callback := hcallback
      thread := ⟨rfl, hok.2⟩ }
  refine le_of_le_of_eq hheld ?_
  rw [← coe_eq_coe.mpr (perm_cons_erase hout).symm, ← cons_coe,
    ← singleton_add]
  show _ + _ + (([] : List Nat) : Multiset Nat) = _ + (([item] : List Nat) : Multiset Nat)
  rw [coe_nil, add_zero, coe_singleton, add_comm]

theorem thread_push (hthread : s.thread = .pushing item) (hstep : pushStep s.pool = some pool)
    (hbusy : pool.push ≠ .idle) :
    TransferInv { s with pool := pool } := by
  obtain ⟨free, hpool⟩ := inv.pool
  obtain ⟨free', hpool'⟩ := hpool.pushStep hstep
  obtain ⟨hout, hpush⟩ := pushStep_elements hstep
  -- the pushed element is handed over only by the last step
  have helements : pool.push.elements = s.pool.push.elements := by
    rcases hpush with hpush | hpush | hpush
    · exact absurd hpush hbusy
    · exact absurd hpush hpool'.not_bug
    · exact hpush.2
  have hok := inv.thread
  unfold ThreadOk at hok
  rw [hthread] at hok
  refine
    { inv with
      pool := ⟨free', hpool'⟩
      held := ?_
      callback := inv.callback
      thread := ?_ }
  · show _ ≤ (pool.out : Multiset Nat) + (pool.push.elements : Multiset Nat)
    rw [hout, helements]
    exact inv.held
  · unfold ThreadOk
    dsimp only
    rw [hthread]
    exact ⟨helements.trans hok.1, hok.2⟩

theorem thread_pushed (hthread : s.thread = .pushing item) (hstep : pushStep s.pool = some pool)
    (hidle : pool.push = .idle) :
    TransferInv
      { s with pool := pool, thread := .completed, processed := s.processed ++ [item] } := by
  obtain ⟨free, hpool⟩ := inv.pool
  obtain ⟨hout, -⟩ := pushStep_elements hstep
  have hok := inv.thread
  unfold ThreadOk at hok
  rw [hthread] at hok
  have hused : s.used = (s.processed ++ [item]).length - 1 := by
    unfold TransferState.used
    rw [hthread, length_append]
    rfl
  -- the item leaves the ring and the hands of push
  have hpending : s.pending = item :: s.enqueued.drop (s.processed ++ [item]).length := by
    unfold TransferState.pending
    obtain ⟨hlt, hget⟩ := List.getElem?_eq_some_iff.mp hok.2
    rw [drop_eq_getElem_cons hlt, hget, length_append]
    rfl
  have hheld := inv.held
  have hcallback := inv.callback
  have hwindow := inv.window
  have hlastUsed := inv.lastUsed
  unfold CallbackOk at hcallback
  rw [hused] at hcallback hwindow hlastUsed
  unfold TransferState.held at hheld
  rw [hpending, hok.1] at hheld
  refine
    { inv with
      pool := hpool.pushStep hstep
      held := ?_
      processed := prefix_snoc inv.processed hok.2
      lastUsed := hlastUsed
      window := hwindow
      callback := hcallback
      thread := ⟨hidle, by simp⟩ }
  show s.request.items + (s.submitted : Multiset Nat) + s.callback.items +
      ((s.enqueued.drop (s.processed ++ [item]).length : List Nat) : Multiset Nat) ≤
    (pool.out : Multiset Nat) + (pool.push.elements : Multiset Nat)
  rw [hout, hidle]
  show _ ≤ _ + (([] : List Nat) : Multiset Nat)
  rw [← cons_coe, add_cons, coe_singleton, add_comm (s.pool.out : Multiset Nat),
    singleton_add, cons_le_cons_iff] at hheld
  rw [coe_nil, add_zero]
  exact hheld

theorem thread_release (hthread : s.thread = .completed) :
    TransferInv
      { s with
        thread := .waiting
        threadLastUsed := vcaRbCounterAdd s.threadLastUsed 1 transferRingSize
        lastUsed := vcaRbCounterAdd s.threadLastUsed 1 transferRingSize } := by
  have hok := inv.thread
  unfold ThreadOk at hok
  rw [hthread] at hok
  -- the slot is given back after its buffer, and then counts as used
  have hused : s.processed.length = s.used + 1 := by
    unfold TransferState.used
    rw [hthread]
    exact (Nat.sub_add_cancel hok.2).symm
  have hle : s.used ≤ s.processed.length := by omega
  refine
    { inv with
      lastUsed := ?_
      threadLastUsed := rfl
      window := inv.window.advance hle
      callback := ?_
      thread := hok.1 }
  · show vcaRbCounterAdd _ _ _ = s.processed.length % _
    rw [inv.threadLastUsed, inv.lastUsed, rbCounter_add ringSize_pow, hused]
  · have hcallback := inv.callback
    unfold CallbackOk at hcallback ⊢
    cases hphase : s.callback with rw [hphase] at hcallback
    | usedRead item lastAdd lastUsed =>
      obtain ⟨hadd, used, hle, hroom, hlast⟩ := hcallback
      refine ⟨hadd, used, ?_, hroom, hlast⟩
      show used ≤ s.processed.length
      omega
    | idle | called item | addRead item lastAdd | slotWritten item lastAdd => exact hcallback

/-- **A step of the transfer thread** -/
theorem threadStep {s' : TransferState} (h : threadStep s = some s') : TransferInv s' := by
  have hok := inv.thread
  unfold ThreadOk at hok
  unfold TransferRing.threadStep at h
  cases hthread : s.thread with rw [hthread] at h hok
  | waiting =>
    have hused : s.used = s.processed.length := by
      unfold TransferState.used
      rw [hthread]
    dsimp only at h
    split at h
    case isTrue hne =>
      cases h
      refine inv.thread_read (t := .nonEmpty) hused.symm ?_
      -- the counters differ, so that an entry was enqueued
      refine ⟨hok, lt_of_le_of_ne inv.processed_le ?_⟩
      rw [inv.lastAdd, inv.threadLastUsed, inv.lastUsed, hused] at hne
      exact fun heq => hne (by rw [heq])
    case isFalse =>
      cases h
      exact inv
  | nonEmpty =>
    cases h
    apply inv.thread_read
    · unfold TransferState.used
      rw [hthread]
    · exact ⟨hok.1, inv.thread_slot hthread⟩
  | slotRead item =>
    obtain ⟨pool, hcall, rfl⟩ := Option.map_eq_some_iff.mp h
    exact inv.thread_call hthread hcall
  | pushing item =>
    obtain ⟨pool, hstep, rfl⟩ := Option.map_eq_some_iff.mp h
    split
    case isTrue hidle => exact inv.thread_pushed hthread hstep hidle
    case isFalse hbusy =>
      rw [← hthread]
      exact inv.thread_push hthread hstep hbusy
  | completed =>
    cases h
    exact inv.thread_release hthread

/-- The transfer thread never gets stuck: what it gives back is out, and no `BUG_ON` fires. -/
theorem threadStep_isSome : (TransferRing.threadStep s).isSome := by
  have hok := inv.thread
  unfold ThreadOk at hok
  unfold TransferRing.threadStep
  cases hthread : s.thread with rw [hthread] at hok
  | waiting =>
    dsimp only
    split
    · rfl
    · rfl
  | slotRead item =>
    dsimp only
    unfold pushCall
    rw [if_pos (inv.slotRead_out hthread)]
    rfl
  | pushing item =>
    dsimp only
    rw [Option.isSome_map]
    obtain ⟨free, hpool⟩ := inv.pool
    have hbug := hpool.not_bug
    have helements := hok.1
    unfold pushStep
    -- the push has its element in hand until it is done
    cases hpush : s.pool.push with rw [hpush] at helements hbug
    | idle => cases helements
    | bug => exact absurd rfl hbug
    | called idx =>
      dsimp only
      split
      · rfl
      · rfl
    | checked idx | zeroed idx | tailRead idx tail | linked idx => rfl
  | nonEmpty | completed => rfl

end TransferInv

/-! ## Every interleaving -/

theorem transferInv_of_reachable {s : TransferState} (h : transferSystem.Reachable s) :
    TransferInv s := by
  apply h.invariant
  · rintro s ⟨pool, elems, hpool, rfl⟩
    exact
      { pool := ⟨_, PoolInv.init ⟨pool, hpool, rfl⟩⟩
        held := zero_le _
        processed := prefix_rfl
        lastAdd := rfl
        lastUsed := rfl
        threadLastUsed := rfl
        window := Window.empty _ elems
        dropped := rfl
        callback := trivial
        thread := rfl }
  · intro s a s' inv hstep
    cases a with
    | pop =>
      cases hrequest : s.request with simp only [transferSystem, transferStep, hrequest] at hstep
      | popping =>
        cases hstep
        exact inv.pop hrequest
      | holds item => cases hstep
    | submit =>
      cases hrequest : s.request with simp only [transferSystem, transferStep, hrequest] at hstep
      | popping => cases hstep
      | holds item =>
        cases hstep
        exact inv.submit hrequest
    | fail =>
      cases hrequest : s.request with simp only [transferSystem, transferStep, hrequest] at hstep
      | popping => cases hstep
      | holds item =>
        cases hstep
        exact inv.fail hrequest
    | callback => exact inv.callbackStep hstep
    | thread => exact inv.threadStep hstep

/-- **The transfer ring is never full.**  The test of `vca_bcknd_callback_dma` is never true and no
item is lost; an item stays in its slot until it is processed; the items are processed once
each, in order, and all of them by the time the transfer thread finds the ring empty; and the
transfer thread is never stuck. -/
theorem transfer_ring_never_full {s : TransferState} (h : transferSystem.Reachable s) :
    (∀ item lastAdd lastUsed, s.callback = .usedRead item lastAdd lastUsed →
      ¬ vcaRbBuffFull lastAdd lastUsed transferRingSize) ∧
    s.dropped = [] ∧
    (∀ i item, s.processed.length ≤ i → s.enqueued[i]? = some item →
      s.elems (i % transferRingSize) = item) ∧
    s.processed <+: s.enqueued ∧
    (s.thread = .waiting → s.lastAdd = s.threadLastUsed → s.processed = s.enqueued) ∧
    (threadStep s).isSome := by
  have inv := transferInv_of_reachable h
  refine ⟨?_, inv.dropped, ?_, inv.processed, ?_, inv.threadStep_isSome⟩
  · intro item lastAdd lastUsed hcallback
    exact inv.not_full hcallback
  · intro i item hi hitem
    -- a slot keeps its entry until the thread has worked it off
    have hused : s.used ≤ s.processed.length := by
      unfold TransferState.used
      split <;> omega
    obtain ⟨hlt, -⟩ := List.getElem?_eq_some_iff.mp hitem
    apply inv.window.read (hused.trans hi)
    rw [List.getElem?_append_left hlt]
    exact hitem
  · intro hthread hempty
    have hused : s.used = s.processed.length := by
      unfold TransferState.used
      rw [hthread]
    have hfits := inv.window.fits
    rw [List.length_append] at hfits
    have hsize : transferRingSize = 16 := rfl
    rw [inv.lastAdd, inv.threadLastUsed, inv.lastUsed] at hempty
    -- the counters are equal within one lap
    have heq := (counter_eq_iff inv.used_le (by omega)).mp hempty.symm
    exact inv.processed.eq_of_length (hused ▸ heq)

/-- Two buffers are submitted; the first one is processed while the callback of the second runs. -/
def twoTransfers : List TransferAct :=
  List.flatten
    [ List.replicate 7 .pop, [.submit], List.replicate 5 .callback, List.replicate 7 .pop, [.submit],
      List.replicate 4 .thread, List.replicate 5 .callback, List.replicate 5 .thread ]

theorem transfer_ring_never_full_twoTransfers :
    ∃ s, transferSystem.Reachable s ∧ s.enqueued = [0, 1] ∧ s.processed = [0] ∧
      s.elems (1 % transferRingSize) = 1 := by
  have hinit : transferSystem.Reachable
      ⟨⟨vcablkPoolInit 15, .idle, .idle, [], [], []⟩, .popping, [], .idle, 0, 0, fun _ => 0, .waiting,
        0, [], [], []⟩ := .init ⟨_, _, rfl, rfl⟩
  have hrun : (transferSystem.run
      ⟨⟨vcablkPoolInit 15, .idle, .idle, [], [], []⟩, .popping, [], .idle, 0, 0, fun _ => 0, .waiting,
        0, [], [], []⟩ twoTransfers).map (fun s => (s.enqueued, s.processed)) =
      some ([0, 1], [0]) := by decide +kernel
  obtain ⟨s, hs, hobs⟩ := Option.map_eq_some_iff.mp hrun
  obtain ⟨henqueued, hprocessed⟩ := Prod.mk.inj hobs
  have hreach := System.reachable_of_run hinit twoTransfers hs
  refine ⟨s, hreach, henqueued, hprocessed, ?_⟩
  apply (transfer_ring_never_full hreach).2.2.1
  · rw [hprocessed]
    exact Nat.le_refl 1
  · rw [henqueued]
    rfl

end Vcass.BlockIo.TransferRing
