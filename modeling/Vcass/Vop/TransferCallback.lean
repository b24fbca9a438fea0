import Mathlib.Data.List.Nodup
import Vcass.Vop.TransferRing

/-!
# When the Callback Finishes the Right Item

`transfer_done_callback` decides by the time stamp of each item between
`counter_done_transfer` and its own item what to finish.  An item that failed does not
advance the counter, so after enough failures the sweep starts behind the ring's end: it is
empty, or it meets items that were taken again in the meantime.

While no callback starts with an empty sweep and none meets another started item, every
finish by the callback comes after the item's own DMA, and each use is finished exactly once
by the time its callback returns.
-/

namespace Vcass.Vop

open Vcass.Core Function List BuffersDmaRing BufferDmaItem Writer Descriptors

/-! ## The queue of items in use -/

/-- The item that `transfer_write` works on -/
def Writer.item : Writer → Option Nat
  | .idle => none
  | .start id => some id
  | .armed id => some id
  | .failed id => some id

/-- 1 while `transfer_write` works on an item that is still counted by `counter_dma_last` -/
def Writer.busy (w : Writer) : Nat := if w.item = none then 0 else 1

/-- 1 while the read task holds an item -/
def Reader.held : Reader → Nat
  | .holding _ => 1
  | _ => 0

namespace BuffersDmaRing

/-- Items whose DMA was submitted and that are not finished, with their use, oldest first.
The item of a running callback counts until the sweep is at its end. -/
def unfinished (s : BuffersDmaRing) : List (Nat × Nat) :=
  (match s.callback with
    | some c => if c.indDmaNext = c.indDmaEnd then [] else [(c.id, c.use)]
    | none => []) ++ (s.completed ++ s.dma).map fun tx => (tx.id, tx.use)

def writing (s : BuffersDmaRing) : List (Nat × Nat) :=
  match s.writer.item with
  | none => []
  | some id => [(id, (s.items id).use)]

/-- Items that were taken and not picked for writing yet -/
def waiting (s : BuffersDmaRing) : List (Nat × Nat) :=
  (List.range' s.picked (s.taken - s.picked)).map fun use => (ringIndex use, use)

/-- All items in use, oldest first -/
def held (s : BuffersDmaRing) : List (Nat × Nat) := s.unfinished ++ s.writing ++ s.waiting

/-- The item is in this use. -/
structure InUse (s : BuffersDmaRing) (x : Nat × Nat) : Prop where
  id_eq : x.1 = ringIndex x.2
  busy : (s.items x.1).statusReady = false
  use_eq : (s.items x.1).use = x.2

end BuffersDmaRing

/-- The queue of items in use, and what is known about each -/
structure ItemsOk (s : BuffersDmaRing) : Prop where
  inUse : ∀ x ∈ s.held, s.InUse x
  nodup : (s.held.map Prod.fst).Nodup
  lt : ∀ x ∈ s.held, x.2 < s.taken
  started : ∀ x ∈ s.unfinished, (s.items x.1).jiffies ≠ 0
  armed : ∀ id, s.writer = .armed id → (s.items id).jiffies ≠ 0
  callbacks : ∀ tx ∈ s.completed ++ s.dma, tx.callback = true
  txs : ∀ id, (∀ tx ∈ s.completed ++ s.dma, tx.id ≠ id) → (s.items id).tx = none

structure CountersOk (writeInThread : Bool) (s : BuffersDmaRing) : Prop where
  received : s.indicatorRcv = s.taken % 2 ^ 16
  holding : ∀ id, s.reader = .holding id → 0 < s.taken ∧ id = ringIndex (s.taken - 1)
  thread : writeInThread = true → s.counterDmaSend = (s.taken - s.reader.held) % 2 ^ 16 ∧
    s.picked ≤ s.taken - s.reader.held ∧
    s.counterDmaLast = (s.picked - s.writer.busy) % 2 ^ 16 ∧ s.writer.busy ≤ s.picked
  direct : writeInThread = false → s.picked + s.reader.held = s.taken ∧
    (s.reader = .writing ∨ s.writer = .idle)

def BuffersDmaRing.finishedUses (s : BuffersDmaRing) : List Nat := s.finishes.map (·.use)

structure CallbackOk (s : BuffersDmaRing) (c : Callback) : Prop where
  completed : c.use ∈ s.completedUses
  id_lt : c.id < vopRingSize
  next_lt : c.indDmaNext < vopRingSize
  end_eq : c.indDmaEnd = ringIndex (c.id + 1)
  finished : c.indDmaNext = c.indDmaEnd → c.use ∈ s.finishedUses

structure FinishesOk (s : BuffersDmaRing) : Prop where
  completed : ∀ tx ∈ s.completed, tx.use ∈ s.completedUses
  callback : ∀ c, s.callback = some c → CallbackOk s c
  fresh : ∀ x ∈ s.held, x.2 ∉ s.finishedUses
  lt : ∀ use ∈ s.finishedUses, use < s.taken
  nodup : s.finishedUses.Nodup
  byCallback : ∀ f ∈ s.finishes, f.byCallback = true → f.dmaDone = true
  returned : ∀ use ∈ s.returned, use ∈ s.finishedUses

/-! ## The condition -/

/-- The callback starts with a sweep that is not empty, and meets no started item but its
own. -/
def SweepsOwn (s : BuffersDmaRing) (a : RingAct) (_ : BuffersDmaRing) : Prop :=
  match a with
  | .callback => ∀ tx ∈ s.completed.head?, ringIndex s.counterDoneTransfer ≠ ringIndex (tx.id + 1)
  | .turn => ∀ c ∈ s.callback, c.indDmaNext = c.id ∨ (s.items c.indDmaNext).jiffies = 0
  | _ => True

instance (s : BuffersDmaRing) (a : RingAct) (s' : BuffersDmaRing) : Decidable (SweepsOwn s a s') :=
  match a with
  | .callback => inferInstanceAs (Decidable (∀ tx ∈ s.completed.head?, _))
  | .turn => inferInstanceAs (Decidable (∀ c ∈ s.callback, _))
  | .getRead | .transfer _ | .pick | .write _ _ | .submit _ | .finishFailed | .complete
  | .return => inferInstanceAs (Decidable True)

/-! ## How the queue moves -/

/-- What a step does to the queue of items in use. -/
inductive QueueStep (s s' : BuffersDmaRing) : Prop where
  /-- nothing -/
  | keep (held : s'.held = s.held) (taken : s'.taken = s.taken) (finishes : s'.finishes = s.finishes)
      (items : ∀ id, (s'.items id).statusReady = (s.items id).statusReady ∧
        (s'.items id).use = (s.items id).use)
  /-- a free item is added at the end -/
  | take (held : s'.held = s.held ++ [(ringIndex s.taken, s.taken)]) (taken : s'.taken = s.taken + 1)
      (finishes : s'.finishes = s.finishes)
      (free : (s.items (ringIndex s.taken)).statusReady = true)
      (new : s'.InUse (ringIndex s.taken, s.taken))
      (items : ∀ id, id ≠ ringIndex s.taken → s'.items id = s.items id)
  /-- an item is finished -/
  | finish (x : Nat × Nat) (pre post : List (Nat × Nat)) (f : Finish)
      (held : s.held = pre ++ x :: post) (held' : s'.held = pre ++ post) (taken : s'.taken = s.taken)
      (finishes : s'.finishes = s.finishes ++ [f]) (use : f.use = x.2)
      (own : f.byCallback = true → f.dmaDone = true)
      (items : ∀ id, id ≠ x.1 → s'.items id = s.items id)

section

variable {s s' : BuffersDmaRing}

theorem ItemsOk.use_ne (ok : ItemsOk s) {x y : Nat × Nat} (hx : x ∈ s.held) (hy : y ∈ s.held)
    (hne : x.1 ≠ y.1) : x.2 ≠ y.2 := by
  intro heq
  apply hne
  rw [(ok.inUse x hx).id_eq, (ok.inUse y hy).id_eq, heq]

theorem ItemsOk.rest (ok : ItemsOk s) {x y : Nat × Nat} {pre post : List (Nat × Nat)}
    (held : s.held = pre ++ x :: post) (hy : y ∈ pre ++ post) : y ∈ s.held ∧ y.1 ≠ x.1 := by
  have hnodup := ok.nodup
  rw [held, map_append, map_cons, nodup_middle, ← map_append] at hnodup
  constructor
  · rw [held]
    simp only [mem_append, mem_cons] at hy ⊢
    exact hy.imp_right Or.inr
  · intro heq
    exact (nodup_cons.mp hnodup).1 (heq ▸ mem_map_of_mem hy)

theorem QueueStep.items_ok (q : QueueStep s s') (ok : ItemsOk s) :
    (∀ x ∈ s'.held, s'.InUse x) ∧ (s'.held.map Prod.fst).Nodup ∧ ∀ x ∈ s'.held, x.2 < s'.taken := by
  cases q with
  | keep held taken _ items =>
    rw [held, taken]
    refine ⟨fun x hx => ?_, ok.nodup, ok.lt⟩
    have huse := ok.inUse x hx
    exact ⟨huse.id_eq, (items x.1).1.trans huse.busy, (items x.1).2.trans huse.use_eq⟩
  | take held taken _ free new items =>
    -- a busy item is not the free one that is taken
    have hne : ∀ x ∈ s.held, x.1 ≠ ringIndex s.taken := by
      intro x hx heq
      have hbusy := (ok.inUse x hx).busy
      rw [heq, free] at hbusy
      cases hbusy
    rw [held, taken]
    refine ⟨?_, ?_, ?_⟩
    · intro x hx
      rcases mem_append.mp hx with hx | hx
      · have huse := ok.inUse x hx
        exact ⟨huse.id_eq, by rw [items _ (hne x hx)]; exact huse.busy,
          by rw [items _ (hne x hx)]; exact huse.use_eq⟩
      · rw [mem_singleton.mp hx]
        exact new
    · simp only [map_append, map_cons, map_nil]
      refine ok.nodup.append (nodup_singleton _) ?_
      intro id hid hid'
      obtain ⟨x, hx, rfl⟩ := mem_map.mp hid
      exact hne x hx (mem_singleton.mp hid')
    · intro x hx
      rcases mem_append.mp hx with hx | hx
      · exact Nat.lt_succ_of_lt (ok.lt x hx)
      · rw [mem_singleton.mp hx]
        exact Nat.lt_succ_self _
  | finish x pre post f held held' taken _ _ _ items =>
    -- each item is in the queue once, so that finishing one leaves the others as they are
    have hnodup := ok.nodup
    rw [held, map_append, map_cons, nodup_middle, ← map_append] at hnodup
    rw [held', taken]
    refine ⟨fun y hy => ?_, (nodup_cons.mp hnodup).2, fun y hy => ok.lt y (ok.rest held hy).1⟩
    obtain ⟨hmem, hne⟩ := ok.rest held hy
    have huse := ok.inUse y hmem
    exact ⟨huse.id_eq, by rw [items _ hne]; exact huse.busy, by rw [items _ hne]; exact huse.use_eq⟩

theorem QueueStep.finishes_ok (q : QueueStep s s') (ok : ItemsOk s) (fin : FinishesOk s) :
    (∀ x ∈ s'.held, x.2 ∉ s'.finishedUses) ∧ (∀ use ∈ s'.finishedUses, use < s'.taken) ∧
      s'.finishedUses.Nodup ∧ (∀ f ∈ s'.finishes, f.byCallback = true → f.dmaDone = true) ∧
      ∀ use ∈ s.finishedUses, use ∈ s'.finishedUses := by
  have hsame : s'.finishes = s.finishes → s'.finishedUses = s.finishedUses := by
    intro finishes
    rw [finishedUses, finishes]
    rfl
  cases q with
  | keep held taken finishes _ =>
    rw [hsame finishes, held, taken, finishes]
    exact ⟨fin.fresh, fin.lt, fin.nodup, fin.byCallback, fun _ h => h⟩
  | take held taken finishes _ _ _ =>
    rw [hsame finishes, held, taken, finishes]
    refine ⟨?_, fun use h => Nat.lt_succ_of_lt (fin.lt use h), fin.nodup, fin.byCallback,
      fun _ h => h⟩
    intro x hx
    rcases mem_append.mp hx with hx | hx
    · exact fin.fresh x hx
    · rw [mem_singleton.mp hx]
      -- the new use has the number `taken`, which no finished use has
      exact fun h => Nat.lt_irrefl _ (fin.lt _ h)
  | finish x pre post f held held' taken finishes use own items =>
    have hfin : s'.finishedUses = s.finishedUses ++ [x.2] := by
      rw [finishedUses, finishes, map_append, map_singleton, use]
      rfl
    have hx : x ∈ s.held := by
      rw [held]
      exact mem_append_right _ mem_cons_self
    rw [hfin, held', taken, finishes]
    refine ⟨?_, ?_, ?_, ?_, fun _ h => mem_append_left _ h⟩
    · intro y hy hmem
      obtain ⟨hy', hne⟩ := ok.rest held hy
      rcases mem_append.mp hmem with hmem | hmem
      · exact fin.fresh y hy' hmem
      · -- two items in use have different uses
        exact ok.use_ne hy' hx hne (mem_singleton.mp hmem)
    · intro u hu
      rcases mem_append.mp hu with hu | hu
      · exact fin.lt u hu
      · rw [mem_singleton.mp hu]
        exact ok.lt x hx
    · refine fin.nodup.append (nodup_singleton _) ?_
      intro u hu hu'
      rw [mem_singleton.mp hu'] at hu
      exact fin.fresh x hx hu
    · intro g hg
      rcases mem_append.mp hg with hg | hg
      · exact fin.byCallback g hg
      · rw [mem_singleton.mp hg]
        exact own

end

/-! ## Facts about the queue -/

section

variable {s : BuffersDmaRing} {writeInThread : Bool}

theorem ringIndex_lt (n : Nat) : ringIndex n < vopRingSize := Nat.mod_lt _ (by decide)

theorem ringIndex_counter (n : Nat) : ringIndex (n % 2 ^ 16) = ringIndex n := by
  simp only [ringIndex, vopRingSize]
  omega

variable {x : Nat × Nat}

theorem unfinished_subset (hx : x ∈ s.unfinished) : x ∈ s.held :=
  mem_append_left _ (mem_append_left _ hx)

theorem tx_unfinished {tx : DmaTx} (h : tx ∈ s.completed ++ s.dma) :
    (tx.id, tx.use) ∈ s.unfinished :=
  mem_append_right _ (mem_map.mpr ⟨tx, h, rfl⟩)

variable {id : Nat}

theorem writing_subset (h : s.writer.item = some id) : (id, (s.items id).use) ∈ s.held := by
  refine mem_append_left _ (mem_append_right _ ?_)
  simp [writing, h]

theorem ItemsOk.writing_ne (ok : ItemsOk s) (h : s.writer.item = some id) :
    ∀ x ∈ s.unfinished, x.1 ≠ id := by
  intro x hx heq
  have hnodup := ok.nodup
  simp only [held, map_append, writing, h, map_cons,
    map_nil] at hnodup
  have hdisjoint := (nodup_append.mp (nodup_append.mp hnodup).1).2.2
  exact hdisjoint x.1 (mem_map_of_mem hx) id (mem_singleton.mpr rfl) heq

theorem ItemsOk.writing_tx (ok : ItemsOk s) (h : s.writer.item = some id) :
    (s.items id).tx = none :=
  ok.txs id fun tx htx => ok.writing_ne h (tx.id, tx.use) (tx_unfinished htx)

theorem ItemsOk.free_ne (ok : ItemsOk s) (hfree : (s.items id).statusReady = true)
    (hx : x ∈ s.held) : x.1 ≠ id := by
  intro heq
  have hbusy := (ok.inUse x hx).busy
  rw [heq, hfree] at hbusy
  cases hbusy

theorem waiting_cons (h : s.picked < s.taken) :
    s.waiting = (ringIndex s.picked, s.picked) ::
      (List.range' (s.picked + 1) (s.taken - (s.picked + 1))).map fun u => (ringIndex u, u) := by
  have hlen : s.taken - s.picked = (s.taken - (s.picked + 1)) + 1 := by omega
  rw [waiting, hlen, List.range'_succ, map_cons]

theorem next_held (h : s.picked < s.taken) : (ringIndex s.picked, s.picked) ∈ s.held := by
  refine mem_append_right _ ?_
  rw [waiting_cons h]
  exact mem_cons_self

theorem CountersOk.picked_le (c : CountersOk writeInThread s) : s.picked ≤ s.taken := by
  cases h : writeInThread with
  | true =>
    have hthread := (c.thread h).2.1
    omega
  | false =>
    have hdirect := (c.direct h).1
    omega

theorem CountersOk.next (c : CountersOk writeInThread s) (thread : writeInThread = true)
    (idle : s.writer = .idle) (more : s.counterDmaLast ≠ s.counterDmaSend) :
    ringIndex s.counterDmaLast = ringIndex s.picked ∧ s.picked < s.taken := by
  obtain ⟨hsend, hle, hlast, -⟩ := c.thread thread
  simp only [idle, busy, item, if_true, Nat.sub_zero] at hlast
  refine ⟨by rw [hlast, ringIndex_counter], ?_⟩
  -- equal counts would give equal counters
  rcases Nat.lt_or_eq_of_le hle with hlt | heq
  · omega
  · rw [heq] at hlast
    exact absurd (hlast.trans hsend.symm) more

theorem CountersOk.not_ready (c : CountersOk writeInThread s) (ok : ItemsOk s)
    (thread : writeInThread = true) (idle : s.writer = .idle)
    (more : s.counterDmaLast ≠ s.counterDmaSend) :
    (s.items (ringIndex s.counterDmaLast)).statusReady ≠ true := by
  obtain ⟨hindex, hlt⟩ := c.next thread idle more
  intro ready
  exact absurd hindex.symm (ok.free_ne ready (next_held hlt))

theorem ItemsOk.enabled (ok : ItemsOk s) {tx : DmaTx} {rest : List DmaTx}
    (completed : s.completed = tx :: rest) : tx.callback ≠ false := by
  rw [ok.callbacks tx (by simp [completed])]
  exact Bool.noConfusion

variable {c : Callback}

section

variable (running : s.callback = some c)

include running

theorem unfinished_running (more : c.indDmaNext ≠ c.indDmaEnd) :
    s.unfinished = (c.id, c.use) :: (s.completed ++ s.dma).map fun tx => (tx.id, tx.use) := by
  simp [unfinished, running, more]

theorem running_mem (more : c.indDmaNext ≠ c.indDmaEnd) : (c.id, c.use) ∈ s.unfinished := by
  rw [unfinished_running running more]
  exact mem_cons_self

theorem unfinished_advance
    (more : c.indDmaNext ≠ c.indDmaEnd) {next counter : Nat} (hx : x ∈ unfinished
      { s with
        callback := some { c with indDmaNext := next }, counterDoneTransfer := counter }) :
    x ∈ s.unfinished := by
  rw [unfinished_running running more]
  rcases mem_append.mp hx with hx | hx
  · dsimp only at hx
    split at hx
    · cases hx
    · exact mem_cons.mpr (.inl (mem_singleton.mp hx))
  · exact mem_cons_of_mem _ hx

theorem ItemsOk.running_ne (ok : ItemsOk s)
    (more : c.indDmaNext ≠ c.indDmaEnd) : ∀ tx ∈ s.completed ++ s.dma, tx.id ≠ c.id := by
  intro tx htx heq
  have hnodup := ok.nodup
  simp only [held, unfinished_running running more, map_cons,
    cons_append] at hnodup
  apply (nodup_cons.mp hnodup).1
  rw [← heq]
  refine mem_map.mpr ⟨(tx.id, tx.use), ?_, rfl⟩
  exact mem_append_left _ (mem_append_left _ (mem_map.mpr ⟨tx, htx, rfl⟩))

end

/-! ### Finished items -/

variable {id : Nat} {byCallback : Bool} {s₁ : BuffersDmaRing}

theorem Finished.others (d : Finished s id byCallback s₁) {i : Nat} (hi : i ≠ id) :
    s₁.items i = s.items i := by
  rw [d.items, update_of_ne hi]

theorem Finished.unfinished (d : Finished s id byCallback s₁) : s₁.unfinished = s.unfinished := by
  simp only [BuffersDmaRing.unfinished, d.callback, d.completed, d.dma]

theorem ItemsOk.failed (ok : ItemsOk s) (at_failed : s.writer = .failed id)
    (done : transferDone s id false = some s₁) :
    s.writer.item = some id ∧ Finished s id false s₁ := by
  have hwriter : s.writer.item = some id := by
    rw [at_failed]
    rfl
  exact ⟨hwriter, transferDone_finished (ok.writing_tx hwriter) done⟩

/-- The callback finishes its own item; the time stamp that it clears before is no part of what is
left of the item. -/
theorem ItemsOk.turn (ok : ItemsOk s) {s' : BuffersDmaRing}
    (guard : SweepsOwn s .turn s') (running : s.callback = some c)
    (more : c.indDmaNext ≠ c.indDmaEnd) (started : (s.items c.indDmaNext).jiffies ≠ 0)
    (done : transferDone (s.setItem c.indDmaNext { s.items c.indDmaNext with jiffies := 0 })
      c.indDmaNext true = some s₁) : c.indDmaNext = c.id ∧ Finished s c.id true s₁ := by
  -- the condition on the sweep: an item before the callback's own was not started
  have hown : c.indDmaNext = c.id := (guard c (by simp [running])).resolve_right started
  refine ⟨hown, ?_⟩
  rw [hown] at done
  have htx := ok.txs c.id (ok.running_ne running more)
  have d := transferDone_finished (by simpa [setItem] using htx) done
  constructor
  case items => simpa [setItem, BufferDmaItem.reset] using d.items
  case finishes => simpa [setItem] using d.finishes
  all_goals first
    | exact d.counters | exact d.reader | exact d.writer | exact d.dma | exact d.completed
    | exact d.callback | exact d.taken | exact d.picked | exact d.completedUses | exact d.returned

theorem Finished.unfinished_turned (d : Finished s c.id true s₁)
    (hend : c.indDmaEnd = ringIndex (c.id + 1)) (counter : Nat) :
    BuffersDmaRing.unfinished
      { s₁ with
        callback := some { c with indDmaNext := ringIndex (c.id + 1) }
        counterDoneTransfer := counter } =
      (s.completed ++ s.dma).map fun tx => (tx.id, tx.use) := by
  simp [BuffersDmaRing.unfinished, d.completed, d.dma, hend]

end

/-! ## Every step moves the queue -/

section

variable {s s' : BuffersDmaRing} {a : RingAct} {writeInThread : Bool}

theorem prepareWrite_keeps (ioremap : Bool) (jiffies : Nat) (item : BufferDmaItem) :
    (prepareWrite ioremap jiffies item).1.statusReady = item.statusReady ∧
      (prepareWrite ioremap jiffies item).1.use = item.use ∧
      (prepareWrite ioremap jiffies item).1.tx = item.tx ∧
      ((prepareWrite ioremap jiffies item).2 = true →
        (prepareWrite ioremap jiffies item).1.jiffies ≠ 0) := by
  unfold prepareWrite
  split
  · dsimp only
    split
    · simp
    · split
      · refine ⟨rfl, rfl, rfl, fun _ => ?_⟩
        simp only [getTimeJiffNotZero]
        split <;> omega
      · simp
  · simp

theorem update_keeps (id : Nat) (item : BufferDmaItem)
    (hready : item.statusReady = (s.items id).statusReady) (huse : item.use = (s.items id).use) :
    ∀ i, (update s.items id item i).statusReady = (s.items i).statusReady ∧
      (update s.items id item i).use = (s.items i).use := by
  intro i
  by_cases hi : i = id
  · subst hi
    simp [hready, huse]
  · simp [update_of_ne hi]

section

variable (writeInThread : Bool) (s : BuffersDmaRing)

@[simp]
theorem writeReturns_items : (writeReturns writeInThread s).items = s.items := by
  unfold writeReturns
  split <;> rfl

@[simp]
theorem writeReturns_writer : (writeReturns writeInThread s).writer = .idle := by
  unfold writeReturns
  split <;> rfl

@[simp]
theorem writeReturns_unfinished : (writeReturns writeInThread s).unfinished = s.unfinished := by
  unfold writeReturns
  split <;> rfl

@[simp]
theorem writeReturns_counts : (writeReturns writeInThread s).picked = s.picked ∧
    (writeReturns writeInThread s).taken = s.taken := by
  unfold writeReturns
  split <;> exact ⟨rfl, rfl⟩

@[simp]
theorem writeReturns_txs : (writeReturns writeInThread s).completed = s.completed ∧
    (writeReturns writeInThread s).dma = s.dma ∧
    (writeReturns writeInThread s).callback = s.callback := by
  unfold writeReturns
  split <;> exact ⟨rfl, rfl, rfl⟩

@[simp]
theorem writeReturns_history : (writeReturns writeInThread s).finishes = s.finishes ∧
    (writeReturns writeInThread s).completedUses = s.completedUses ∧
    (writeReturns writeInThread s).returned = s.returned := by
  unfold writeReturns
  split <;> exact ⟨rfl, rfl, rfl⟩

end

theorem writing_congr (hwriter : s'.writer.item = s.writer.item)
    (huse : ∀ id, s.writer.item = some id → (s'.items id).use = (s.items id).use) :
    s'.writing = s.writing := by
  unfold writing
  rw [hwriter]
  cases hw : s.writer.item with
  | none => rfl
  | some id => simp [huse id hw]

theorem held_congr (hun : s'.unfinished = s.unfinished) (hwriter : s'.writer.item = s.writer.item)
    (huse : ∀ id, s.writer.item = some id → (s'.items id).use = (s.items id).use)
    (hpicked : s'.picked = s.picked) (htaken : s'.taken = s.taken) : s'.held = s.held := by
  simp only [held, waiting, hun, writing_congr hwriter huse, hpicked,
    htaken]

theorem held_take (hun : s'.unfinished = s.unfinished) (hwriter : s'.writer.item = s.writer.item)
    (huse : ∀ id, s.writer.item = some id → (s'.items id).use = (s.items id).use)
    (hpicked : s'.picked = s.picked) (htaken : s'.taken = s.taken + 1) (hle : s.picked ≤ s.taken) :
    s'.held = s.held ++ [(ringIndex s.taken, s.taken)] := by
  have hlen : s.taken + 1 - s.picked = (s.taken - s.picked) + 1 := by omega
  have hlast : s.picked + (s.taken - s.picked) = s.taken := by omega
  simp only [held, waiting, hun, writing_congr hwriter huse, hpicked,
    htaken, hlen, List.range'_concat, Nat.one_mul, hlast, map_append, map_cons,
    map_nil, append_assoc]

theorem held_pick (hun : s'.unfinished = s.unfinished) (hidle : s.writer.item = none)
    (hwriter : s'.writer.item = some (ringIndex s.picked))
    (huse : (s'.items (ringIndex s.picked)).use = s.picked) (hpicked : s'.picked = s.picked + 1)
    (htaken : s'.taken = s.taken) (hlt : s.picked < s.taken) : s'.held = s.held := by
  have hheld : s.held = s.unfinished ++ (ringIndex s.picked, s.picked) ::
      (List.range' (s.picked + 1) (s.taken - (s.picked + 1))).map fun u => (ringIndex u, u) := by
    simp only [held, waiting_cons hlt, writing, hidle,
      append_nil]
  rw [hheld]
  simp only [held, hun, writing, hwriter, huse,
    waiting, hpicked, htaken, append_assoc, cons_append, nil_append]

theorem held_submit (id : Nat) (hun : s'.unfinished = s.unfinished ++ [(id, (s.items id).use)])
    (hwriter : s.writer.item = some id) (hidle : s'.writer.item = none)
    (hpicked : s'.picked = s.picked) (htaken : s'.taken = s.taken) : s'.held = s.held := by
  simp only [held, hun, writing, hidle, hwriter,
    waiting, hpicked, htaken, append_assoc, nil_append]

theorem held_drop {id : Nat} (hun : s'.unfinished = s.unfinished)
    (hwriter : s.writer.item = some id) (hidle : s'.writer.item = none)
    (hpicked : s'.picked = s.picked) (htaken : s'.taken = s.taken) :
    s.held = s.unfinished ++ (id, (s.items id).use) :: s.waiting ∧
      s'.held = s.unfinished ++ s.waiting := by
  constructor
  · simp only [held, writing, hwriter, append_assoc,
      cons_append, nil_append]
  · simp only [held, hun, writing, hidle, waiting,
      hpicked, htaken, append_nil]

theorem held_finish {c c' : Callback} (running : s.callback = some c)
    (more : c.indDmaNext ≠ c.indDmaEnd) (running' : s'.callback = some c')
    (last : c'.indDmaNext = c'.indDmaEnd) (hcompleted : s'.completed = s.completed)
    (hdma : s'.dma = s.dma) (hwriter : s'.writer.item = s.writer.item)
    (huse : ∀ id, s.writer.item = some id → (s'.items id).use = (s.items id).use)
    (hpicked : s'.picked = s.picked) (htaken : s'.taken = s.taken) :
    s.held = (c.id, c.use) :: s'.held := by
  have hun : s'.unfinished = (s.completed ++ s.dma).map fun tx => (tx.id, tx.use) := by
    simp [unfinished, running', last, hcompleted, hdma]
  simp only [held, waiting, unfinished_running running more, hun,
    writing_congr hwriter huse, hpicked, htaken, cons_append]

theorem ringIndex_succ_inj {i j : Nat} (hi : i < vopRingSize) (hj : j < vopRingSize)
    (h : ringIndex (i + 1) = ringIndex (j + 1)) : i = j := by
  simp only [ringIndex, vopRingSize] at h hi hj
  omega

/-- **How the queue moves**, when the callback meets no other started item. -/
theorem RingStep.queue (h : RingStep writeInThread s a s') (ok : ItemsOk s)
    (cnt : CountersOk writeInThread s) (fin : FinishesOk s) (guard : SweepsOwn s a s') :
    QueueStep s s' := by
  cases h with
  | getRead idle ready =>
    have hindex : ringIndex s.indicatorRcv = ringIndex s.taken := by
      rw [cnt.received, ringIndex_counter]
    rw [hindex] at ready ⊢
    refine .take (held_take rfl rfl ?_ rfl rfl cnt.picked_le) rfl rfl ready
      ⟨rfl, by simp [setItem], by simp [setItem]⟩
      fun id hid => update_of_ne hid _ _
    intro id hid
    -- the item that is taken is free, and the one being written is not
    have hne : id ≠ ringIndex s.taken := ok.free_ne ready (writing_subset hid)
    simp [setItem, update_of_ne hne]
  | @handOver id d put held thread id_eq =>
    have hkeep := update_keeps (s := s) id (transferRead writeInThread d (s.items id)) rfl rfl
    exact .keep (held_congr rfl rfl (fun i _ => (hkeep i).2) rfl rfl) rfl rfl hkeep
  | @writeSelf id d held direct =>
    have hkeep := update_keeps (s := s) id (transferRead writeInThread d (s.items id)) rfl rfl
    obtain ⟨hcount, hwriter⟩ := cnt.direct direct
    rw [held] at hcount hwriter
    have hidle := hwriter.resolve_left (by simp)
    -- without write threads the held item is the only one not yet picked
    have hcount' : s.picked + 1 = s.taken := hcount
    have hlt : s.picked < s.taken := by omega
    have hid : id = ringIndex s.picked := by
      rw [(cnt.holding id held).2, ← hcount', Nat.add_sub_cancel]
    have huse := (ok.inUse _ (next_held hlt)).use_eq
    subst hid
    exact .keep (held_pick rfl (by rw [hidle]; rfl) rfl ((hkeep _).2.trans huse) rfl rfl hlt) rfl rfl
      hkeep
  | skip thread idle more ready =>
    exact absurd ready (cnt.not_ready ok thread idle more)
  | pick thread idle more busy =>
    obtain ⟨hindex, hlt⟩ := cnt.next thread idle more
    refine .keep (held_pick rfl (by rw [idle]; rfl) ?_ (ok.inUse _ (next_held hlt)).use_eq rfl rfl hlt)
      rfl rfl fun _ => ⟨rfl, rfl⟩
    rw [hindex]
    rfl
  | @write id jiffies ioremap okay item at_start prepared =>
    -- the write only leads to `armed` or `failed`; the item stays the one being written
    have hitem := prepareWrite_keeps ioremap jiffies (s.items id)
    rw [prepared] at hitem
    have hkeep := update_keeps (s := s) id item hitem.1 hitem.2.1
    refine .keep (held_congr rfl ?_ (fun i _ => (hkeep i).2) rfl rfl) rfl rfl hkeep
    rw [at_start]
    cases okay <;> rfl
  | @submit id at_armed free =>
    -- the item moves from the writing task to the DMA engine, which are neighbours in the queue
    have hkeep := update_keeps (s := s) id { s.items id with tx := some s.submitted } rfl rfl
    refine .keep (held_submit id ?_ (by rw [at_armed]; rfl) (by rw [writeReturns_writer]; rfl)
      (writeReturns_counts ..).1 (writeReturns_counts ..).2) (writeReturns_counts ..).2
      (writeReturns_history ..).1 ?_
    · rw [writeReturns_unfinished]
      simp [unfinished, setItem]
    · rw [writeReturns_items]
      exact hkeep
  | @submitFailed id at_armed =>
    have hkeep := update_keeps (s := s) id { s.items id with jiffies := 0 } rfl rfl
    refine .keep (held_congr rfl ?_ (fun i _ => (hkeep i).2) rfl rfl) rfl rfl hkeep
    rw [at_armed]
    rfl
  | @finishFailed id s₁ at_failed done =>
    obtain ⟨hwriter, d⟩ := ok.failed at_failed done
    obtain ⟨hpicked, htaken⟩ := writeReturns_counts writeInThread s₁
    have hun : (writeReturns writeInThread s₁).unfinished = s.unfinished :=
      (writeReturns_unfinished ..).trans d.unfinished
    obtain ⟨hheld, hheld'⟩ := held_drop hun hwriter
      (by rw [writeReturns_writer]; rfl) (hpicked.trans d.picked) (htaken.trans d.taken)
    refine .finish (id, (s.items id).use) _ _ _ hheld hheld' (htaken.trans d.taken)
      ((writeReturns_history ..).1.trans d.finishes) rfl (by simp) ?_
    intro i hi
    rw [writeReturns_items]
    exact d.others hi
  | complete dma =>
    refine .keep (held_congr ?_ rfl (fun _ _ => rfl) rfl rfl) rfl rfl fun _ => ⟨rfl, rfl⟩
    simp [unfinished, dma]
  | @callback tx rest none completed enabled =>
    have hkeep := update_keeps (s := s) tx.id { s.items tx.id with tx := Option.none } rfl rfl
    -- by the condition the sweep of the callback is not empty, so that its item stays unfinished
    have hne := guard tx (by simp [completed])
    refine .keep (held_congr ?_ rfl (fun i _ => (hkeep i).2) rfl rfl) rfl rfl hkeep
    simp [unfinished, none, completed, hne, setItem]
  | @noCallback tx rest none completed disabled =>
    exact absurd disabled (ok.enabled completed)
  | @turnDone c s₁ running more started done =>
    obtain ⟨hown, d⟩ := ok.turn guard running more started done
    have hmem := running_mem running more
    have huse : (s.items c.id).use = c.use := (ok.inUse _ (unfinished_subset hmem)).use_eq
    rw [hown]
    have hheld : s.held = (c.id, c.use) :: BuffersDmaRing.held { s₁ with
        callback := some { c with indDmaNext := ringIndex (c.id + 1) }
        counterDoneTransfer := nextCounter s₁.counterDoneTransfer } := by
      refine held_finish running more rfl (fin.callback c running).end_eq.symm d.completed d.dma
        ?_ ?_ d.picked d.taken
      · exact congrArg item d.writer
      · intro id hid
        exact congrArg BufferDmaItem.use (d.others (ok.writing_ne hid _ hmem).symm)
    refine .finish (c.id, c.use) [] _ _ hheld rfl d.taken d.finishes huse ?_ fun i hi => d.others hi
    intro _
    simpa [huse] using (fin.callback c running).completed
  | @turnSkip c running more idle =>
    have hok := fin.callback c running
    -- the callback's own item has a time stamp, so the one that is skipped is another
    have hne : c.indDmaNext ≠ c.id := by
      intro heq
      exact ok.started _ (running_mem running more) (heq ▸ idle)
    have hnext : ringIndex (c.indDmaNext + 1) ≠ c.indDmaEnd := by
      rw [hok.end_eq]
      exact fun heq => hne (ringIndex_succ_inj hok.next_lt hok.id_lt heq)
    refine .keep (held_congr ?_ rfl (fun _ _ => rfl) rfl rfl) rfl rfl fun _ => ⟨rfl, rfl⟩
    simp [unfinished, running, more, hnext]
  | @«return» c running last =>
    refine .keep (held_congr ?_ rfl (fun _ _ => rfl) rfl rfl) rfl rfl fun _ => ⟨rfl, rfl⟩
    simp [unfinished, running, last]

theorem update_jiffies {id : Nat} {item : BufferDmaItem}
    (h : item.jiffies = (s.items id).jiffies) (i : Nat) :
    (update s.items id item i).jiffies = (s.items i).jiffies := by
  by_cases hi : i = id
  · subst hi
    simp [h]
  · rw [update_of_ne hi]

theorem RingStep.started (h : RingStep writeInThread s a s') (ok : ItemsOk s)
    (fin : FinishesOk s) (guard : SweepsOwn s a s') :
    ∀ x ∈ s'.unfinished, (s'.items x.1).jiffies ≠ 0 := by
  -- an item that is not unfinished may be overwritten
  have other : ∀ {id : Nat} {item : BufferDmaItem}, (∀ x ∈ s.unfinished, x.1 ≠ id) →
      ∀ x ∈ s.unfinished, (update s.items id item x.1).jiffies ≠ 0 := by
    intro id item hne x hx
    rw [update_of_ne (hne x hx)]
    exact ok.started x hx
  cases h with
  | getRead idle ready => exact other fun x hx => ok.free_ne ready (unfinished_subset hx)
  | handOver | writeSelf =>
    intro x hx
    exact (update_jiffies (by rfl) x.1).trans_ne (ok.started x hx)
  | skip | pick => exact ok.started
  | @write id jiffies ioremap okay item at_start prepared =>
    exact other (ok.writing_ne (show s.writer.item = some id by rw [at_start]; rfl))
  | @submit id at_armed free =>
    intro x hx
    rw [writeReturns_items]
    refine (update_jiffies (by rfl) x.1).trans_ne ?_
    rw [writeReturns_unfinished] at hx
    -- the submitted item was armed, and so had its time stamp
    have hx' : x ∈ s.unfinished ∨ x = (id, (s.items id).use) := by
      simpa [unfinished, setItem, or_assoc] using hx
    rcases hx' with hx | rfl
    · exact ok.started x hx
    · exact ok.armed id at_armed
  | @submitFailed id at_armed =>
    exact other (ok.writing_ne (show s.writer.item = some id by rw [at_armed]; rfl))
  | @finishFailed id s₁ at_failed done =>
    obtain ⟨hwriter, d⟩ := ok.failed at_failed done
    intro x hx
    rw [writeReturns_unfinished, d.unfinished] at hx
    rw [writeReturns_items, d.others (ok.writing_ne hwriter x hx)]
    exact ok.started x hx
  | complete dma =>
    intro x hx
    refine ok.started x ?_
    simpa [unfinished, dma] using hx
  | @callback tx rest none completed enabled =>
    have hne := guard tx (by simp [completed])
    intro x hx
    refine (update_jiffies (by rfl) x.1).trans_ne (ok.started x ?_)
    simpa [unfinished, none, completed, hne, setItem] using hx
  | noCallback none completed disabled => exact absurd disabled (ok.enabled completed)
  | @turnDone c s₁ running more started done =>
    obtain ⟨hown, d⟩ := ok.turn guard running more started done
    rw [hown]
    intro x hx
    rw [d.unfinished_turned (fin.callback c running).end_eq] at hx
    obtain ⟨tx, htx, rfl⟩ := mem_map.mp hx
    show (s₁.items tx.id).jiffies ≠ 0
    rw [d.others (ok.running_ne running more tx htx)]
    exact ok.started _ (tx_unfinished htx)
  | turnSkip running more idle => exact fun x hx => ok.started x (unfinished_advance running more hx)
  | «return» running last =>
    intro x hx
    refine ok.started x ?_
    simpa [unfinished, running, last] using hx

theorem RingStep.armed (h : RingStep writeInThread s a s') (ok : ItemsOk s)
    (guard : SweepsOwn s a s') : ∀ id, s'.writer = .armed id → (s'.items id).jiffies ≠ 0 := by
  have hitem : ∀ {id : Nat}, s.writer = .armed id → s.writer.item = some id := by
    intro id hid
    rw [hid]
    rfl
  cases h with
  | getRead idle ready =>
    intro id hid
    -- the item that is taken was free, so it is not the armed one
    have hne := ok.free_ne ready (writing_subset (hitem hid))
    show (update s.items _ _ id).jiffies ≠ 0
    rw [update_of_ne hne]
    exact ok.armed id hid
  | handOver | callback =>
    intro id hid
    exact (update_jiffies (by rfl) id).trans_ne (ok.armed id hid)
  | writeSelf | pick | submitFailed =>
    intro id hid
    cases hid
  | @write id jiffies ioremap okay item at_start prepared =>
    intro i hi
    have hstamp := (prepareWrite_keeps ioremap jiffies (s.items id)).2.2.2
    rw [prepared] at hstamp
    cases okay with
    | false => cases hi
    | true =>
      cases hi
      simpa [setItem] using hstamp rfl
  | submit | finishFailed =>
    intro i hi
    rw [writeReturns_writer] at hi
    cases hi
  | @turnDone c s₁ running more started done =>
    obtain ⟨-, d⟩ := ok.turn guard running more started done
    intro id hid
    have hid' : s.writer = .armed id := d.writer.symm.trans hid
    show (s₁.items id).jiffies ≠ 0
    -- the callback resets its own item, not the one being written
    rw [d.others (ok.writing_ne (hitem hid') _ (running_mem running more)).symm]
    exact ok.armed id hid'
  | skip | complete | noCallback | turnSkip | «return» => exact ok.armed

theorem RingStep.descriptors (h : RingStep writeInThread s a s') (ok : ItemsOk s)
    (guard : SweepsOwn s a s') : (∀ tx ∈ s'.completed ++ s'.dma, tx.callback = true) ∧
      ∀ id, (∀ tx ∈ s'.completed ++ s'.dma, tx.id ≠ id) → (s'.items id).tx = none := by
  have keep : ∀ {id : Nat} {item : BufferDmaItem} (i : Nat), item.tx = (s.items id).tx →
      (s.items i).tx = none → (update s.items id item i).tx = none := by
    intro id item i htx hi
    by_cases heq : i = id
    · subst heq
      simpa [htx] using hi
    · rwa [update_of_ne heq]
  -- a finished item has no descriptor any more
  have freed : ∀ {id : Nat} {byCallback : Bool} {s₁ : BuffersDmaRing},
      Finished s id byCallback s₁ → (∀ tx ∈ s₁.completed ++ s₁.dma, tx.callback = true) ∧
        ∀ i, (∀ tx ∈ s₁.completed ++ s₁.dma, tx.id ≠ i) → (s₁.items i).tx = none := by
    intro id _ s₁ d
    rw [d.completed, d.dma, d.items]
    refine ⟨ok.callbacks, fun i hi => ?_⟩
    by_cases heq : i = id
    · subst heq
      simp [BufferDmaItem.reset]
    · rw [update_of_ne heq]
      exact ok.txs i hi
  cases h with
  | getRead | handOver | writeSelf | submitFailed =>
    exact ⟨ok.callbacks, fun i hi => keep i rfl (ok.txs i hi)⟩
  | skip | pick | turnSkip | «return» => exact ⟨ok.callbacks, ok.txs⟩
  | @write id jiffies ioremap okay item at_start prepared =>
    have hitem := (prepareWrite_keeps ioremap jiffies (s.items id)).2.2.1
    rw [prepared] at hitem
    exact ⟨ok.callbacks, fun i hi => keep i hitem (ok.txs i hi)⟩
  | @submit id at_armed free =>
    rw [(writeReturns_txs ..).1, (writeReturns_txs ..).2.1, writeReturns_items]
    refine ⟨?_, fun i hi => ?_⟩
    · intro tx htx
      rw [← append_assoc] at htx
      rcases mem_append.mp htx with htx | htx
      · exact ok.callbacks tx htx
      · rw [mem_singleton.mp htx]
    · have hne : i ≠ id := fun heq => hi ⟨s.submitted, id, true, (s.items id).use⟩ (by simp) heq.symm
      show (update s.items _ _ i).tx = none
      rw [update_of_ne hne]
      refine ok.txs i fun tx htx => hi tx ?_
      rw [← append_assoc]
      exact mem_append_left _ htx
  | @finishFailed id s₁ at_failed done =>
    obtain ⟨-, d⟩ := ok.failed at_failed done
    rw [(writeReturns_txs ..).1, (writeReturns_txs ..).2.1, writeReturns_items]
    exact freed d
  | complete dma =>
    refine ⟨fun tx htx => ok.callbacks tx ?_, fun i hi => ok.txs i fun tx htx => hi tx ?_⟩
    · simpa [dma, or_assoc] using htx
    · simpa [dma, or_assoc] using htx
  | @callback tx rest none completed enabled =>
    refine ⟨fun t ht => ok.callbacks t ?_, fun i hi => ?_⟩
    · rw [completed]
      exact mem_cons_of_mem _ ht
    · by_cases heq : i = tx.id
      · subst heq
        simp [setItem]
      · show (update s.items _ _ i).tx = Option.none
        rw [update_of_ne heq]
        refine ok.txs i fun t ht => ?_
        rw [completed] at ht
        rcases mem_cons.mp ht with rfl | ht
        · exact fun h => heq h.symm
        · exact hi t ht
  | @noCallback tx rest none completed disabled =>
    exact absurd disabled (ok.enabled completed)
  | @turnDone c s₁ running more started done =>
    have hfreed := freed (ok.turn guard running more started done).2
    exact hfreed

theorem nextCounter_mod (n : Nat) : nextCounter (n % 2 ^ 16) = (n + 1) % 2 ^ 16 := by
  simp only [nextCounter]
  omega

/-- `transfer_write` returns: the writing task counts the item, the read task is free again. -/
theorem CountersOk.writeReturns (cnt : CountersOk writeInThread s) {id : Nat}
    (hwriter : s.writer.item = some id) (hcounters : s'.indicatorRcv = s.indicatorRcv ∧
      s'.counterDmaSend = s.counterDmaSend ∧ s'.counterDmaLast = s.counterDmaLast)
    (hreader : s'.reader = s.reader) (htaken : s'.taken = s.taken) (hpicked : s'.picked = s.picked) :
    CountersOk writeInThread (Vop.writeReturns writeInThread s') := by
  obtain ⟨hrcv, hsend, hlast⟩ := hcounters
  have hbusy : s.writer.busy = 1 := by simp [busy, hwriter]
  cases hthread : writeInThread with
  | true =>
    -- the writing task counts the item that it had picked
    obtain ⟨h₁, h₂, h₃, h₄⟩ := cnt.thread hthread
    rw [hbusy] at h₃ h₄
    refine ⟨?_, ?_, fun _ => ⟨?_, ?_, ?_, Nat.zero_le _⟩, by simp⟩
    · show s'.indicatorRcv = s'.taken % 2 ^ 16
      rw [hrcv, htaken]
      exact cnt.received
    · show ∀ i, s'.reader = .holding i → 0 < s'.taken ∧ i = ringIndex (s'.taken - 1)
      rw [hreader, htaken]
      exact cnt.holding
    · show s'.counterDmaSend = (s'.taken - s'.reader.held) % 2 ^ 16
      rw [hsend, htaken, hreader, h₁]
    · show s'.picked ≤ s'.taken - s'.reader.held
      rw [hpicked, htaken, hreader]
      exact h₂
    · show nextCounter s'.counterDmaLast = s'.picked % 2 ^ 16
      rw [hlast, hpicked, h₃, nextCounter_mod, Nat.sub_add_cancel h₄]
  | false =>
    obtain ⟨h₁, h₂⟩ := cnt.direct hthread
    -- without write threads the read task itself was writing
    have hwriting : s.reader = .writing := h₂.resolve_right (by
      intro hidle
      rw [hidle] at hwriter
      cases hwriter)
    rw [hwriting] at h₁
    refine ⟨?_, fun i hi => (by cases hi), by simp, fun _ => ⟨?_, Or.inr rfl⟩⟩
    · show s'.indicatorRcv = s'.taken % 2 ^ 16
      rw [hrcv, htaken]
      exact cnt.received
    · show s'.picked + 0 = s'.taken
      rw [hpicked, htaken]
      exact h₁

theorem CountersOk.same (cnt : CountersOk writeInThread s)
    (hcounters : s'.indicatorRcv = s.indicatorRcv ∧ s'.counterDmaSend = s.counterDmaSend ∧
      s'.counterDmaLast = s.counterDmaLast)
    (hreader : s'.reader = s.reader) (hwriter : s'.writer.busy = s.writer.busy)
    (hidle : s.writer = .idle → s'.writer = .idle)
    (htaken : s'.taken = s.taken) (hpicked : s'.picked = s.picked) : CountersOk writeInThread s' := by
  obtain ⟨hrcv, hsend, hlast⟩ := hcounters
  refine ⟨?_, ?_, ?_, ?_⟩
  · rw [hrcv, htaken]
    exact cnt.received
  · rw [hreader, htaken]
    exact cnt.holding
  · rw [hsend, htaken, hreader, hpicked, hlast, hwriter]
    exact cnt.thread
  · rw [hpicked, hreader, htaken]
    exact fun h => ⟨(cnt.direct h).1, (cnt.direct h).2.imp_right hidle⟩

theorem RingStep.counters (h : RingStep writeInThread s a s') (ok : ItemsOk s)
    (cnt : CountersOk writeInThread s) (guard : SweepsOwn s a s') :
    CountersOk writeInThread s' := by
  cases h with
  | getRead idle ready =>
    have hindex : ringIndex s.indicatorRcv = ringIndex s.taken := by
      rw [cnt.received, ringIndex_counter]
    refine ⟨?_, ?_, ?_, ?_⟩
    · show nextCounter s.indicatorRcv = (s.taken + 1) % 2 ^ 16
      rw [cnt.received, nextCounter_mod]
    · intro id hid
      cases hid
      exact ⟨Nat.succ_pos _, hindex⟩
    · intro hthread
      have hc := cnt.thread hthread
      rw [idle] at hc
      exact hc
    · intro hdirect
      have hc := cnt.direct hdirect
      rw [idle] at hc
      refine ⟨?_, Or.inr (hc.2.resolve_left (by simp))⟩
      show s.picked + 1 = s.taken + 1
      rw [show s.picked = s.taken from hc.1]
  | @handOver id d put held thread id_eq =>
    obtain ⟨hpos, -⟩ := cnt.holding id held
    obtain ⟨h₁, h₂, h₃⟩ := cnt.thread thread
    rw [held] at h₁ h₂
    simp only [Reader.held] at h₁ h₂
    refine ⟨cnt.received, fun i hi => (by cases hi), fun _ => ⟨?_, ?_, h₃⟩, fun h => ?_⟩
    · show nextCounter s.counterDmaSend = s.taken % 2 ^ 16
      rw [h₁, nextCounter_mod, Nat.sub_add_cancel hpos]
    · show s.picked ≤ s.taken
      omega
    · rw [thread] at h
      cases h
  | @writeSelf id d held direct =>
    have hc := cnt.direct direct
    rw [held] at hc
    refine ⟨cnt.received, fun i hi => (by cases hi), fun h => ?_, fun _ => ⟨?_, Or.inl rfl⟩⟩
    · rw [direct] at h
      cases h
    · exact hc.1
  | skip thread idle more ready =>
    exact absurd ready (cnt.not_ready ok thread idle more)
  | pick thread idle more busy =>
    obtain ⟨h₁, h₂, h₃, -⟩ := cnt.thread thread
    -- the counters differ, and they count what is handed over and what was picked
    have hlt : s.picked < s.taken - s.reader.held := by
      refine Nat.lt_of_le_of_ne h₂ fun heq => more ?_
      rw [h₁, ← heq]
      simpa [idle, Writer.busy, Writer.item] using h₃
    refine ⟨cnt.received, cnt.holding, fun _ => ⟨h₁, hlt, ?_, Nat.succ_pos _⟩, fun h => ?_⟩
    · simpa [idle, Writer.busy, Writer.item] using h₃
    · rw [thread] at h
      cases h
  | @write id jiffies ioremap okay item at_start prepared =>
    refine cnt.same ⟨rfl, rfl, rfl⟩ rfl ?_ ?_ rfl rfl
    · rw [at_start]
      cases okay <;> rfl
    · intro h
      rw [at_start] at h
      cases h
  | @submit id at_armed free =>
    exact cnt.writeReturns (show s.writer.item = some id by rw [at_armed]; rfl) ⟨rfl, rfl, rfl⟩
      rfl rfl rfl
  | submitFailed at_armed =>
    refine cnt.same ⟨rfl, rfl, rfl⟩ rfl ?_ ?_ rfl rfl
    · rw [at_armed]
      rfl
    · intro h
      rw [at_armed] at h
      cases h
  | @finishFailed id s₁ at_failed done =>
    obtain ⟨hwriter, d⟩ := ok.failed at_failed done
    exact cnt.writeReturns hwriter
      ⟨d.counters.1, d.counters.2.1, d.counters.2.2.2⟩ d.reader d.taken d.picked
  | complete | callback | noCallback | turnSkip | «return» =>
    exact cnt.same ⟨rfl, rfl, rfl⟩ rfl rfl (fun h => h) rfl rfl
  | @turnDone c s₁ running more started done =>
    obtain ⟨-, d⟩ := ok.turn guard running more started done
    exact cnt.same ⟨d.counters.1, d.counters.2.1, d.counters.2.2.2⟩ d.reader
      (congrArg Writer.busy d.writer) (fun h => d.writer.trans h) d.taken d.picked

theorem RingStep.finishes (h : RingStep writeInThread s a s') (ok : ItemsOk s)
    (fin : FinishesOk s) (guard : SweepsOwn s a s')
    (hmono : ∀ use ∈ s.finishedUses, use ∈ s'.finishedUses) :
    (∀ tx ∈ s'.completed, tx.use ∈ s'.completedUses) ∧
      (∀ c, s'.callback = some c → CallbackOk s' c) ∧ ∀ use ∈ s'.returned, use ∈ s'.finishedUses := by
  have same : ∀ {c : Callback}, s.callback = some c → s'.completedUses = s.completedUses →
      CallbackOk s' c := by
    intro c hc hcompl
    have hok := fin.callback c hc
    exact ⟨hcompl ▸ hok.completed, hok.id_lt, hok.next_lt, hok.end_eq,
      fun h => hmono _ (hok.finished h)⟩
  cases h with
  | @complete tx rest dma =>
    refine ⟨?_, ?_, fin.returned⟩
    · intro t ht
      rcases mem_append.mp ht with ht | ht
      · exact mem_append_left _ (fin.completed t ht)
      · rw [mem_singleton.mp ht]
        exact mem_append_right _ (mem_singleton.mpr rfl)
    · intro c hc
      have hok := fin.callback c hc
      exact ⟨mem_append_left _ hok.completed, hok.id_lt, hok.next_lt, hok.end_eq, hok.finished⟩
  | @callback tx rest none completed enabled =>
    have hne := guard tx (by simp [completed])
    refine ⟨fun t ht => fin.completed t (by rw [completed]; exact mem_cons_of_mem _ ht), ?_,
      fin.returned⟩
    intro c hc
    cases hc
    have hmem := tx_unfinished (show tx ∈ s.completed ++ s.dma by simp [completed])
    refine ⟨fin.completed tx (by simp [completed]), ?_, ringIndex_lt _, rfl,
      fun h => absurd h hne⟩
    have hid : tx.id = ringIndex tx.use := (ok.inUse _ (unfinished_subset hmem)).id_eq
    show tx.id < vopRingSize
    rw [hid]
    exact ringIndex_lt _
  | @noCallback tx rest none completed disabled =>
    refine ⟨fun t ht => fin.completed t (by rw [completed]; exact mem_cons_of_mem _ ht),
      fun c hc => ?_, fin.returned⟩
    rw [show s.callback = _ from hc] at none
    cases none
  | @turnDone c s₁ running more started done =>
    obtain ⟨-, d⟩ := ok.turn guard running more started done
    have hok := fin.callback c running
    have huse := (ok.inUse _ (unfinished_subset (running_mem running more))).use_eq
    refine ⟨?_, ?_, ?_⟩
    · show ∀ tx ∈ s₁.completed, tx.use ∈ s₁.completedUses
      rw [d.completed, d.completedUses]
      exact fin.completed
    · intro c' hc'
      cases hc'
      refine ⟨?_, hok.id_lt, ringIndex_lt _, hok.end_eq, fun _ => ?_⟩
      · show c.use ∈ s₁.completedUses
        rw [d.completedUses]
        exact hok.completed
      · show c.use ∈ s₁.finishes.map (·.use)
        rw [d.finishes]
        simp [huse]
    · intro use huse
      refine hmono use (fin.returned use ?_)
      exact d.returned ▸ huse
  | @turnSkip c running more idle =>
    have hok := fin.callback c running
    refine ⟨fin.completed, ?_, fin.returned⟩
    intro c' hc'
    cases hc'
    refine ⟨hok.completed, hok.id_lt, ringIndex_lt _, hok.end_eq, fun heq => ?_⟩
    -- the sweep ends only behind its own item, which is started
    exfalso
    have heq' : ringIndex (c.indDmaNext + 1) = ringIndex (c.id + 1) := heq.trans hok.end_eq
    have hid := ringIndex_succ_inj hok.next_lt hok.id_lt heq'
    exact ok.started _ (running_mem running more) (hid ▸ idle)
  | @«return» c running last =>
    refine ⟨fin.completed, fun c' hc' => (by cases hc'), ?_⟩
    intro use huse
    rcases mem_append.mp huse with huse | huse
    · exact fin.returned use huse
    · rw [mem_singleton.mp huse]
      exact (fin.callback c running).finished last
  | @submit id at_armed free =>
    rw [(writeReturns_txs ..).1, (writeReturns_txs ..).2.2, (writeReturns_history ..).2.1,
      (writeReturns_history ..).2.2]
    exact ⟨fin.completed, fun c hc => same hc (writeReturns_history ..).2.1,
      fun use h => hmono use (fin.returned use h)⟩
  | @finishFailed id s₁ at_failed done =>
    obtain ⟨-, d⟩ := ok.failed at_failed done
    obtain ⟨hcompleted, -, hcallback⟩ := writeReturns_txs writeInThread s₁
    obtain ⟨-, huses, hreturned⟩ := writeReturns_history writeInThread s₁
    rw [hcompleted, huses, hcallback, hreturned, d.completed, d.completedUses, d.callback, d.returned]
    exact ⟨fin.completed, fun c hc => same hc (huses.trans d.completedUses),
      fun use h => hmono use (fin.returned use h)⟩
  | _ => exact ⟨fin.completed, fun c hc => same hc rfl, fun use h => hmono use (fin.returned use h)⟩

end

/-! ## Runs -/

/-- What holds in every state while the callback meets no other started item -/
structure RingInv (writeInThread : Bool) (s : BuffersDmaRing) : Prop where
  items : ItemsOk s
  counters : CountersOk writeInThread s
  finishes : FinishesOk s

theorem RingInv.init (writeInThread : Bool) : RingInv writeInThread init where
  items := by
    constructor <;> simp [BuffersDmaRing.init, held, unfinished,
      writing, waiting, item, BufferDmaItem.fresh]
  counters := by
    constructor <;> simp [BuffersDmaRing.init, Reader.held, busy, item]
  finishes := by
    constructor <;> simp [BuffersDmaRing.init, held, unfinished,
      writing, waiting, item, finishedUses]

/-- **One step** keeps the invariant. -/
theorem RingInv.step {writeInThread : Bool} {s s' : BuffersDmaRing} {a : RingAct}
    (inv : RingInv writeInThread s) (guard : SweepsOwn s a s') (h : RingStep writeInThread s a s') :
    RingInv writeInThread s' := by
  have q := h.queue inv.items inv.counters inv.finishes guard
  obtain ⟨hinUse, hnodup, hlt⟩ := q.items_ok inv.items
  obtain ⟨hfresh, hfin, hfinNodup, hby, hmono⟩ := q.finishes_ok inv.items inv.finishes
  obtain ⟨hcallbacks, htxs⟩ := h.descriptors inv.items guard
  obtain ⟨hcompleted, hcallback, hreturned⟩ := h.finishes inv.items inv.finishes guard hmono
  exact
    { items := ⟨hinUse, hnodup, hlt, h.started inv.items inv.finishes guard, h.armed inv.items guard,
        hcallbacks, htxs⟩
      counters := h.counters inv.items inv.counters guard
      finishes := ⟨hcompleted, hcallback, hfresh, hfin, hfinNodup, hby, hreturned⟩ }

theorem ringInv_of_reachBy {writeInThread : Bool} {s : BuffersDmaRing}
    (h : (ringSystem writeInThread).ReachBy SweepsOwn s) : RingInv writeInThread s := by
  refine System.ReachBy.invariant (I := RingInv writeInThread) ?_ ?_ h
  · rintro s rfl
    exact RingInv.init writeInThread
  · intro s a s' inv guard hstep
    exact inv.step guard (ringStep_cases hstep)

/-- The callback finishes an item only after the DMA of its use has completed, and a use whose
callback has returned is finished exactly once. -/
structure FinishesOwnDma (s : BuffersDmaRing) : Prop where
  afterDma : ∀ f ∈ s.finishes, f.byCallback = true → f.dmaDone = true
  once : ∀ use ∈ s.returned, s.finishedUses.count use = 1

/-- **Items finish after their own DMA**, in every run in which no callback starts with an
empty sweep or meets another started item. -/
theorem finishesOwnDma_of_sweepsOwn (writeInThread : Bool) {s : BuffersDmaRing}
    (h : (ringSystem writeInThread).ReachBy SweepsOwn s) : FinishesOwnDma s where
  afterDma := (ringInv_of_reachBy h).finishes.byCallback
  once := by
    intro use huse
    have fin := (ringInv_of_reachBy h).finishes
    exact List.count_eq_one_of_mem fin.nodup (fin.returned use huse)

/-- A packet of 1000 bytes for a receive buffer of 2000 -/
def Descriptors.sample : Descriptors :=
  { headFrom := 0, headerSize := 12, srcSize := 1000, headTo := 0, kvecs := [12, 2000] }

/-- A packet is sent, from the free item to the return of its callback, which sweeps over `skipped`
items. -/
def sendSample (skipped : Nat) : List RingAct :=
  [.getRead, .transfer Descriptors.sample, .write true 1, .submit true, .complete, .callback] ++
    List.replicate skipped .turn ++ [.turn, .return]

/-- The receive buffer is too small for the packet. -/
def refuseSample : List RingAct :=
  [.getRead, .transfer { Descriptors.sample with kvecs := [12, 500] }, .write true 1, .finishFailed]

/-- A refused packet and then one that is sent -/
theorem finishesOwnDma_one_packet :
    ∃ s, FinishesOwnDma s ∧ s.returned = [1] ∧ s.used = [(0, 0), (0, 1012)] := by
  have hobs : ((ringSystem false).runBy SweepsOwn BuffersDmaRing.init
      (refuseSample ++ sendSample 1)).map (fun s => (s.returned, s.used)) =
      some ([1], [(0, 0), (0, 1012)]) := by decide +kernel
  obtain ⟨s, hreach, hseen⟩ := System.exists_reachBy hobs rfl
  obtain ⟨hreturned, hused⟩ := Prod.mk.inj hseen
  exact ⟨s, finishesOwnDma_of_sweepsOwn false hreach, hreturned, hused⟩

/-! ## An empty sweep -/

/-- The ring after the first `n` packets have failed to be mapped -/
def BuffersDmaRing.afterFailures (n : Nat) (finishes : List Finish) : BuffersDmaRing :=
  { BuffersDmaRing.init with
    items := fun id => { BufferDmaItem.fresh with use := if id < n then id else 0 }
    indicatorRcv := n
    used := List.replicate n (0, 1012)
    put := List.replicate n (0, 1012)
    taken := n
    picked := n
    finishes := finishes }

theorem update_afterFailures (n : Nat) :
    update (fun id => (⟨true, 0, false, 0, false, none, 0, none, none, 0, none,
        if id < n then id else 0⟩ : BufferDmaItem)) n
      ⟨true, 0, false, 0, false, none, 0, none, none, 0, none, n⟩ =
      fun id => ⟨true, 0, false, 0, false, none, 0, none, none, 0, none,
        if id < n + 1 then id else 0⟩ := by
  funext id
  by_cases hid : id = n
  · subst hid
    simp
  · have hiff : id < n ↔ id < n + 1 := by omega
    simp [update_of_ne hid, hiff]

theorem run_failure (n : Nat) (hn : n < vopRingSize) (finishes : List Finish) :
    (ringSystem false).run (afterFailures n finishes)
      [.getRead, .transfer sample, .write false 1, .finishFailed] =
      some (afterFailures (n + 1) (finishes ++ [⟨n, false, false⟩])) := by
  have hindex : ringIndex n = n := Nat.mod_eq_of_lt hn
  have hcounter : nextCounter n = n + 1 := by
    simp only [nextCounter, vopRingSize] at hn ⊢
    omega
  simp [System.run, ringSystem, ringStep, bufferDmaRingGetRead, afterFailures,
    BuffersDmaRing.init, hindex, hcounter, setItem, Vop.transfer,
    transferRead, transferWrite, prepareWrite, Vop.finishFailed, transferDone, postItem,
    bufferDmaRingItemReset, Vop.writeReturns, sample, sendAlignOverheadSize,
    fresh, reset, update_afterFailures, replicate_succ']

theorem reachable_afterFailures : ∀ n, n ≤ vopRingSize → ∃ finishes,
    finishes.map Finish.use = List.range n ∧
      (ringSystem false).Reachable (afterFailures n finishes) := by
  intro n
  induction n with
  | zero =>
    intro _
    refine ⟨[], rfl, .init ?_⟩
    simp [ringSystem, afterFailures, BuffersDmaRing.init, fresh]
  | succ n ih =>
    intro hn
    obtain ⟨finishes, huses, hreach⟩ := ih (by omega)
    exact ⟨_, by simp [huses, range_succ],
      System.reachable_of_run hreach _ (run_failure n hn finishes)⟩

/-- A packet that is sent through the last item of the ring: the sweep of its callback is
empty. -/
theorem run_last (n : Nat) (hn : n < vopRingSize) (hlast : ringIndex (n + 1) = 0)
    (finishes : List Finish) :
    ∃ s, (ringSystem false).run (afterFailures n finishes)
      [.getRead, .transfer sample, .write true 1, .submit true, .complete, .callback,
        .return] = some s ∧ s.finishes = finishes ∧ s.returned = [n] := by
  have hindex : ringIndex n = n := Nat.mod_eq_of_lt hn
  have hfirst : ringIndex 0 = 0 := rfl
  simp [System.run, ringSystem, ringStep, bufferDmaRingGetRead, afterFailures,
    BuffersDmaRing.init, hindex, hfirst, hlast, setItem, Vop.transfer, transferRead,
    transferWrite, prepareWrite, transferDmaSend, Vop.writeReturns, dmaComplete,
    transferDoneCallback, callbackReturn, sample, sendAlignOverheadSize,
    fresh]

/-- After 511 packets that could not be mapped, the next one is sent.  `counter_done_transfer`
is still 0 and its item is the last of the ring, so the item is never finished. -/
theorem empty_sweep : ∃ s, (ringSystem false).Reachable s ∧ ¬ FinishesOwnDma s := by
  obtain ⟨finishes, huses, hreach⟩ := reachable_afterFailures 511 (by decide)
  obtain ⟨s, hrun, hfinishes, hreturned⟩ := run_last 511 (by decide) (by decide) finishes
  refine ⟨s, System.reachable_of_run hreach _ hrun, fun h => ?_⟩
  have honce := h.once 511 (by simp [hreturned])
  rw [BuffersDmaRing.finishedUses, hfinishes, huses, List.count_eq_zero_of_not_mem (by simp)]
    at honce
  cases honce

end Vcass.Vop
