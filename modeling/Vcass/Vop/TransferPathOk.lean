import Vcass.Vop.TransferPath
import Vcass.Vop.UsedLength

/-!
# Error Paths of a Transfer

A transmit chain with any other number of descriptors than two makes `transfer_read` fail, and the
`transfer_done` that follows stores through `kvec_to`, which is null until a receive chain has been
fetched (`odd_chain_crashes`).

- `transfersOk_of_proper`: in every run in which all transmit chains have two descriptors and each
  callback sweeps its own item only (the condition of `TransferCallback`), no stop is reached, each
  head is given back once, and an item that is not free is under way.

The queue of items in use and its invariant `RingInv` are those of `TransferCallback`; here they are
carried through the additional steps.  Two facts are new: who holds the head of a transmit chain
(`Balanced`) and which items have a receive chain (`CustodyOk`).
-/

namespace Vcass.Vop

open Vcass.Core Function List BuffersDmaRing BufferDmaItem

/-! ## The condition -/

/-- A transmit chain has two descriptors, and the callback finishes its own item. -/
def Proper (s : PathState) : PathAct → Prop
  | .getDescriptors _ chain => chain.length = 2
  | .ring a => SweepsOwn s.ring a s.ring
  | _ => True

instance (s : PathState) : ∀ a, Decidable (Proper s a)
  | .getDescriptors _ chain => inferInstanceAs (Decidable (chain.length = 2))
  | .ring a => inferInstanceAs (Decidable (SweepsOwn s.ring a s.ring))
  | .getRead | .read | .wait _ => inferInstanceAs (Decidable True)

/-! ## Values held at the places of a range -/

section

variable {α : Type*} {f : Nat → Option α} {n id : Nat} {a : α}

theorem filterMap_update_some (hid : id < n) (hnone : f id = none) :
    ((List.range n).filterMap (update f id (some a))).Perm
      (a :: (List.range n).filterMap f) := by
  obtain ⟨pre, post, hrange⟩ := append_of_mem (mem_range.mpr hid)
  have hnodup : (pre ++ id :: post).Nodup := hrange ▸ nodup_range
  have hnotin : id ∉ pre ++ post := (nodup_cons.mp (nodup_middle.mp hnodup)).1
  have hkeep : ∀ l : List Nat, id ∉ l →
      l.filterMap (update f id (some a)) = l.filterMap f := by
    intro l hl
    refine filterMap_congr fun i hi => update_of_ne ?_ _ _
    rintro rfl
    exact hl hi
  have hpre := hkeep pre fun h => hnotin (mem_append_left _ h)
  have hpost := hkeep post fun h => hnotin (mem_append_right _ h)
  rw [hrange, filterMap_append, filterMap_append, hpre,
    filterMap_cons_some (update_self _ _ _), hpost, filterMap_cons_none hnone]
  exact perm_middle

theorem filterMap_update_none (hid : id < n) (hsome : f id = some a) :
    ((List.range n).filterMap f).Perm
      (a :: (List.range n).filterMap (update f id none)) := by
  have hback : update (update f id none) id (some a) = f := by
    rw [update_idem, ← hsome, update_eq_self]
  have hperm := filterMap_update_some (a := a) hid (update_self id none f)
  rw [hback] at hperm
  exact hperm

end

/-! ## Steps that leave the use of an item alone -/

/-- Both items are at the same point of the same use. -/
structure BufferDmaItem.SameUse (item' item : BufferDmaItem) : Prop where
  statusReady : item'.statusReady = item.statusReady
  use : item'.use = item.use
  jiffies : item'.jiffies = item.jiffies
  tx : item'.tx = item.tx

section

variable {s : BuffersDmaRing} {writeInThread : Bool} {id : Nat} {item : BufferDmaItem}
  {put : List (Nat × Nat)}

theorem sameUse_update (h : item.SameUse (s.items id)) (i : Nat) :
    (update s.items id item i).SameUse (s.items i) := by
  by_cases hi : i = id
  · subst hi
    rw [update_self]
    exact h
  · rw [update_of_ne hi]
    exact ⟨rfl, rfl, rfl, rfl⟩

theorem held_touch (h : item.SameUse (s.items id)) :
    held { s.setItem id item with put := put } = s.held :=
  held_congr rfl rfl (fun i _ => (sameUse_update h i).use) rfl rfl

theorem RingInv.touch (inv : RingInv writeInThread s) (h : item.SameUse (s.items id)) :
    RingInv writeInThread { s.setItem id item with put := put } where
  items := by
    have hitem := sameUse_update h
    have ok := inv.items
    constructor
    case inUse =>
      rw [held_touch h]
      intro x hx
      have huse := ok.inUse x hx
      exact ⟨huse.id_eq, (hitem x.1).statusReady.trans huse.busy, (hitem x.1).use.trans huse.use_eq⟩
    case nodup => rw [held_touch h]; exact ok.nodup
    case lt => rw [held_touch h]; exact ok.lt
    case started => exact fun x hx => (hitem x.1).jiffies.trans_ne (ok.started x hx)
    case armed => exact fun i hi => (hitem i).jiffies.trans_ne (ok.armed i hi)
    case callbacks => exact ok.callbacks
    case txs => exact fun i hi => (hitem i).tx.trans (ok.txs i hi)
  counters :=
    ⟨inv.counters.received, inv.counters.holding, inv.counters.thread, inv.counters.direct⟩
  finishes := by
    have fin := inv.finishes
    constructor
    case completed => exact fin.completed
    case callback =>
      intro c hc
      have hok := fin.callback c hc
      exact ⟨hok.completed, hok.id_lt, hok.next_lt, hok.end_eq, hok.finished⟩
    case fresh => rw [held_touch h]; exact fin.fresh
    case lt => exact fin.lt
    case nodup => exact fin.nodup
    case byCallback => exact fin.byCallback
    case returned => exact fin.returned

end

/-! ## Who holds what -/

structure CustodyOk (s : BuffersDmaRing) : Prop where
  free : ∀ id, (s.items id).statusReady = true →
    (s.items id).headFrom = none ∧ (s.items id).vringhTx = false
  owner : ∀ id, (s.items id).headFrom ≠ none → (s.items id).vringhTx = true
  busy : ∀ id, (s.items id).statusReady = false → (id, (s.items id).use) ∈ s.held
  /-- Behind `transfer` an item has a receive chain. -/
  fetched : ∀ x ∈ s.held, s.reader ≠ .holding x.1 → (s.items x.1).kvecTo ≠ none

/-- The heads that were taken are those that were given back and those that items hold. -/
def Balanced (got : List Nat) (s : BuffersDmaRing) : Prop :=
  got.Perm (s.put.map Prod.fst ++ s.heldHeads)

/-- Both items hold the same. -/
structure BufferDmaItem.SameCustody (item' item : BufferDmaItem) : Prop where
  statusReady : item'.statusReady = item.statusReady
  use : item'.use = item.use
  headFrom : item'.headFrom = item.headFrom
  vringhTx : item'.vringhTx = item.vringhTx
  kvecTo : item'.kvecTo = item.kvecTo

/-- What `put_descriptors` gives back for an item -/
def BufferDmaItem.source (item : BufferDmaItem) : List (Nat × Nat) :=
  match item.headFrom with
  | some head => if item.vringhTx then [(head, item.bytesRead)] else []
  | none => []

/-- Nothing changes hands. -/
structure Quiet (s s' : BuffersDmaRing) : Prop where
  items : ∀ id, (s'.items id).SameCustody (s.items id)
  put : s'.put = s.put
  finishes : s'.finishes = s.finishes
  taken : s'.taken = s.taken
  reader : ∀ id, s.reader = .holding id → s'.reader = .holding id

/-- The item is finished: its head is given back, and it is free. -/
structure Freed (s : BuffersDmaRing) (id : Nat) (s' : BuffersDmaRing) : Prop where
  item : s'.items id = (s.items id).reset
  others : ∀ i, i ≠ id → s'.items i = s.items i
  put : s'.put = s.put ++ (s.items id).source
  finishes : s'.finishes.length = s.finishes.length + 1
  taken : s'.taken = s.taken
  reader : ∀ id, s.reader = .holding id → s'.reader = .holding id

section

variable {s s' : BuffersDmaRing} {a : RingAct} {writeInThread : Bool} {id : Nat} {got : List Nat}
  {item : BufferDmaItem}

theorem sameCustody_update (h : item.SameCustody (s.items id)) (i : Nat) :
    (update s.items id item i).SameCustody (s.items i) := by
  by_cases hi : i = id
  · subst hi
    rw [update_self]
    exact h
  · rw [update_of_ne hi]
    exact ⟨rfl, rfl, rfl, rfl, rfl⟩

theorem heldHeads_update (hitems : s'.items = update s.items id item) :
    s'.heldHeads = (List.range vopRingSize).filterMap
      (update (fun i => (s.items i).headFrom) id item.headFrom) := by
  rw [heldHeads, hitems]
  refine filterMap_congr fun i _ => ?_
  exact apply_update (fun _ x => x.headFrom) s.items id item i

theorem ItemsOk.id_lt (ok : ItemsOk s) {x : Nat × Nat} (hx : x ∈ s.held) : x.1 < vopRingSize := by
  rw [(ok.inUse x hx).id_eq]
  exact ringIndex_lt _

theorem QueueStep.held_eq (q : QueueStep s s') (hfin : s'.finishes = s.finishes)
    (htaken : s'.taken = s.taken) : s'.held = s.held := by
  cases q with
  | keep held _ _ _ => exact held
  | take _ taken _ _ _ _ => omega
  | finish _ _ _ _ _ _ _ finishes _ _ _ =>
    rw [hfin] at finishes
    exact absurd finishes (by simp)

theorem QueueStep.of_taken (q : QueueStep s s') (htaken : s'.taken = s.taken + 1) :
    s'.held = s.held ++ [(ringIndex s.taken, s.taken)] ∧
      s'.InUse (ringIndex s.taken, s.taken) ∧
      ∀ i, i ≠ ringIndex s.taken → s'.items i = s.items i := by
  cases q with
  | keep _ taken _ _ => omega
  | take held _ _ _ new items => exact ⟨held, new, items⟩
  | finish _ _ _ _ _ _ taken _ _ _ _ => omega

theorem QueueStep.held_freed (q : QueueStep s s') (h : Freed s id s')
    (hbusy : (s.items id).statusReady = false) :
    ∃ use pre post, s.held = pre ++ (id, use) :: post ∧ s'.held = pre ++ post := by
  cases q with
  | keep _ _ finishes _ =>
    have hlen := h.finishes
    rw [finishes] at hlen
    omega
  | take _ taken _ _ _ _ =>
    have htaken := h.taken
    omega
  | finish x pre post _ held held' _ _ _ _ items =>
    -- only the finished item becomes free
    have hx : id = x.1 := by
      by_contra hne
      have hsame := items id hne
      rw [h.item] at hsame
      have hready : (s.items id).statusReady = true := by
        rw [← hsame]
        rfl
      rw [hbusy] at hready
      cases hready
    subst hx
    exact ⟨x.2, pre, post, held, held'⟩

/-! ### How custody moves -/

theorem CustodyOk.quiet (c : CustodyOk s) (h : Quiet s s') (hheld : s'.held = s.held) :
    CustodyOk s' where
  free i hi := by
    have hitem := h.items i
    rw [hitem.headFrom, hitem.vringhTx]
    exact c.free i (hitem.statusReady.symm.trans hi)
  owner i hi := by
    have hitem := h.items i
    rw [hitem.vringhTx]
    exact c.owner i fun hnone => hi (hitem.headFrom.trans hnone)
  busy i hi := by
    have hitem := h.items i
    rw [hheld, hitem.use]
    exact c.busy i (hitem.statusReady.symm.trans hi)
  fetched x hx hreader := by
    rw [hheld] at hx
    rw [(h.items x.1).kvecTo]
    exact c.fetched x hx fun hold => hreader (h.reader x.1 hold)

theorem CustodyOk.freed (c : CustodyOk s) (ok : ItemsOk s) (h : Freed s id s') {use : Nat}
    {pre post : List (Nat × Nat)} (hheld : s.held = pre ++ (id, use) :: post)
    (hheld' : s'.held = pre ++ post) : CustodyOk s' := by
  have hready : (s'.items id).statusReady = true := by
    rw [h.item]
    rfl
  constructor
  case free =>
    intro i hi
    by_cases heq : i = id
    · subst heq
      rw [h.item]
      exact ⟨rfl, rfl⟩
    · rw [h.others i heq] at hi ⊢
      exact c.free i hi
  case owner =>
    intro i hi
    by_cases heq : i = id
    · subst heq
      rw [h.item] at hi
      exact absurd rfl hi
    · rw [h.others i heq] at hi ⊢
      exact c.owner i hi
  case busy =>
    intro i hi
    by_cases heq : i = id
    · subst heq
      rw [hready] at hi
      cases hi
    · rw [h.others i heq] at hi ⊢
      have hmem := c.busy i hi
      rw [hheld] at hmem
      rw [hheld']
      rcases mem_append.mp hmem with hmem | hmem
      · exact mem_append_left _ hmem
      · rcases mem_cons.mp hmem with hfirst | hmem
        · exact absurd (congrArg Prod.fst hfirst) heq
        · exact mem_append_right _ hmem
  case fetched =>
    intro x hx hreader
    rw [hheld'] at hx
    -- an item is in the queue once, so that the others keep what was fetched for them
    obtain ⟨hmem, hne⟩ := ok.rest hheld hx
    rw [h.others x.1 hne]
    exact c.fetched x hmem fun hold => hreader (h.reader x.1 hold)

theorem Balanced.congr (hb : Balanced got s) (hput : s'.put = s.put)
    (hheads : ∀ i, (s'.items i).headFrom = (s.items i).headFrom) : Balanced got s' := by
  have hheld : s'.heldHeads = s.heldHeads := filterMap_congr fun i _ => hheads i
  rw [Balanced, hput, hheld]
  exact hb

theorem Balanced.give (hb : Balanced got s) (hid : id < vopRingSize)
    (howner : (s.items id).headFrom ≠ none → (s.items id).vringhTx = true)
    (hitems : s'.items = update s.items id item) (hnone : item.headFrom = none)
    (hput : s'.put = s.put ++ (s.items id).source) : Balanced got s' := by
  rw [Balanced, heldHeads_update hitems, hput, hnone]
  cases hhead : (s.items id).headFrom with
  | none =>
    have hsource : (s.items id).source = [] := by simp only [source, hhead]
    have hsame : update (fun i => (s.items i).headFrom) id none =
        fun i => (s.items i).headFrom := by
      rw [← hhead]
      exact update_eq_self _ _
    rw [hsource, append_nil, hsame]
    exact hb
  | some head =>
    have htx : (s.items id).vringhTx = true := howner (by rw [hhead]; simp)
    have hsource : (s.items id).source = [(head, (s.items id).bytesRead)] := by
      simp only [source, hhead, htx, if_true]
    have htake := filterMap_update_none (f := fun i => (s.items i).headFrom) hid hhead
    rw [hsource, map_append, append_assoc, map_singleton, singleton_append]
    exact hb.trans (htake.append_left _)

theorem Balanced.take (hb : Balanced got s) (hid : id < vopRingSize)
    {head : Nat} (hnone : (s.items id).headFrom = none)
    (hitems : s'.items = update s.items id item) (hhead : item.headFrom = some head)
    (hput : s'.put = s.put) : Balanced (got ++ [head]) s' := by
  have htake := filterMap_update_some (f := fun i => (s.items i).headFrom) (a := head) hid hnone
  rw [Balanced, heldHeads_update hitems, hput, hhead]
  refine (hb.append_right [head]).trans ?_
  rw [append_assoc]
  exact ((perm_append_singleton head _).trans htake.symm).append_left _

/-! ### The steps of the other parties -/

theorem prepareWrite_custody (ioremap : Bool) (jiffies : Nat) (item : BufferDmaItem) :
    (prepareWrite ioremap jiffies item).1.SameCustody item := by
  unfold prepareWrite
  split
  · dsimp only
    split
    · exact ⟨rfl, rfl, rfl, rfl, rfl⟩
    · split
      · exact ⟨rfl, rfl, rfl, rfl, rfl⟩
      · exact ⟨rfl, rfl, rfl, rfl, rfl⟩
  · exact ⟨rfl, rfl, rfl, rfl, rfl⟩

theorem transferDone_put {byCallback : Bool} (hbusy : (s.items id).statusReady = false)
    (h : transferDone s id byCallback = some s') : s'.put = s.put ++ (s.items id).source := by
  have hpost : (postItem s (s.items id)).put = s.put ++ (s.items id).source := by
    unfold postItem source
    -- the used entry is posted only for an item with both heads
    cases (s.items id).headTo <;> cases (s.items id).headFrom
    · exact (append_nil _).symm
    · dsimp only
      split
      · rfl
      · exact (append_nil _).symm
    · exact (append_nil _).symm
    · dsimp only
      split
      · rfl
      · exact (append_nil _).symm
  have hreset : ∀ s₁ : BuffersDmaRing, (bufferDmaRingItemReset s₁ id).put = s₁.put := by
    intro s₁
    unfold bufferDmaRingItemReset
    cases (s₁.items id).tx <;> rfl
  simp only [transferDone, hbusy] at h
  cases hk : (s.items id).kvecTo with
  | none => simp [hk] at h
  | some kvecs =>
    simp only [hk, Option.some.injEq] at h
    rw [← h]
    exact (hreset _).trans hpost

/-- When `transfer_write` returns, the read task does not let go of an item that it reads. -/
theorem writeReturns_holding (cnt : CountersOk writeInThread s) (hwriter : s.writer.item ≠ none)
    (hreader : s'.reader = s.reader) {i : Nat} (h : s.reader = .holding i) :
    (writeReturns writeInThread s').reader = .holding i := by
  cases hthread : writeInThread with
  | true => exact hreader.trans h
  | false =>
    rcases (cnt.direct hthread).2 with hwriting | hidle
    · rw [h] at hwriting
      cases hwriting
    · rw [hidle] at hwriter
      exact absurd rfl hwriter

theorem writeReturns_put : (writeReturns writeInThread s).put = s.put := by
  unfold writeReturns
  split <;> rfl

/-- **What the other parties do**: nothing changes hands, or an item is finished. -/
theorem RingStep.custody (h : RingStep writeInThread s a s') (hother : a.ofReader = false)
    (inv : RingInv writeInThread s) (guard : SweepsOwn s a s') :
    Quiet s s' ∨ ∃ id, (s.items id).statusReady = false ∧ Freed s id s' := by
  have ok := inv.items
  cases h with
  | getRead | handOver | writeSelf => cases hother
  | @write id jiffies ioremap okay item at_start prepared =>
    have hitem := prepareWrite_custody ioremap jiffies (s.items id)
    rw [prepared] at hitem
    exact .inl ⟨sameCustody_update hitem, rfl, rfl, rfl, fun _ h => h⟩
  | @submit id at_armed free =>
    have hwriter : s.writer.item ≠ none := by
      rw [at_armed]
      simp [Writer.item]
    refine .inl ⟨?_, writeReturns_put, (writeReturns_history ..).1, (writeReturns_counts ..).2,
      fun i hi => ?_⟩
    · rw [writeReturns_items]
      exact sameCustody_update ⟨rfl, rfl, rfl, rfl, rfl⟩
    · refine writeReturns_holding inv.counters hwriter ?_ hi
      rfl
  | @submitFailed id at_armed =>
    exact .inl ⟨sameCustody_update ⟨rfl, rfl, rfl, rfl, rfl⟩, rfl, rfl, rfl, fun _ h => h⟩
  | @finishFailed id s₁ at_failed done =>
    obtain ⟨hwriter, d⟩ := ok.failed at_failed done
    have hbusy := (ok.inUse _ (writing_subset hwriter)).busy
    refine .inr ⟨id, hbusy, ?_⟩
    constructor
    case item => rw [writeReturns_items, d.items, update_self]
    case others =>
      intro i hi
      rw [writeReturns_items, d.others hi]
    case put => rw [writeReturns_put, transferDone_put hbusy done]
    case finishes =>
      rw [(writeReturns_history ..).1, d.finishes, length_append, length_singleton]
    case taken => exact (writeReturns_counts ..).2.trans d.taken
    case reader =>
      intro i hi
      exact writeReturns_holding inv.counters (by rw [hwriter]; simp) d.reader hi
  | callback none completed enabled =>
    exact .inl ⟨sameCustody_update ⟨rfl, rfl, rfl, rfl, rfl⟩, rfl, rfl, rfl, fun _ h => h⟩
  | @turnDone c s₁ running more started done =>
    obtain ⟨hown, d⟩ := ok.turn guard running more started done
    have hbusy : (s.items c.id).statusReady = false :=
      (ok.inUse _ (unfinished_subset (running_mem running more))).busy
    rw [hown] at done ⊢
    -- the time stamp is cleared before `transfer_done`, which does not look at it
    have hitem : (s.setItem c.id { s.items c.id with jiffies := 0 }).items c.id =
        { s.items c.id with jiffies := 0 } := update_self _ _ _
    have hput := transferDone_put (by rw [hitem]; exact hbusy) done
    refine .inr ⟨c.id, hbusy, ?_⟩
    constructor
    case item =>
      show s₁.items c.id = _
      rw [d.items, update_self]
    case others => exact fun i hi => d.others hi
    case put =>
      rw [hitem] at hput
      exact hput
    case finishes =>
      show s₁.finishes.length = _
      rw [d.finishes, length_append, length_singleton]
    case taken => exact d.taken
    case reader => exact fun i hi => d.reader.trans hi
  | skip | pick | complete | noCallback | turnSkip | «return» =>
    exact .inl ⟨fun _ => ⟨rfl, rfl, rfl, rfl, rfl⟩, rfl, rfl, rfl, fun _ h => h⟩

/-! ### The item that the read task holds -/

theorem RingInv.holding_ne (inv : RingInv writeInThread s) (h : s.reader = .holding id)
    {x : Nat × Nat} (hx : x ∈ s.unfinished ++ s.writing) : x.1 ≠ id := by
  obtain ⟨hwriting, hunfinished⟩ := inv.items.waits_alone (inv.counters.holding_waits h)
  rintro rfl
  rcases mem_append.mp hx with hx | hx
  · exact hunfinished x.2 hx
  · unfold writing at hx
    split at hx
    case h_1 => cases hx
    case h_2 i hi =>
      rw [mem_singleton.mp hx] at hwriting
      exact hwriting hi

theorem RingInv.holding_busy (inv : RingInv writeInThread s) (h : s.reader = .holding id) :
    (s.items id).statusReady = false ∧ id < vopRingSize := by
  obtain ⟨use, hmem⟩ := waits_mem (inv.counters.holding_waits h)
  have hheld : (id, use) ∈ s.held := mem_append_right _ hmem
  exact ⟨(inv.items.inUse _ hheld).busy, inv.items.id_lt hheld⟩

theorem RingInv.holding_send (inv : RingInv writeInThread s) (hthread : writeInThread = true)
    (h : s.reader = .holding id) : id = ringIndex s.counterDmaSend := by
  obtain ⟨hsend, -⟩ := inv.counters.thread hthread
  rw [hsend, ringIndex_counter, h]
  exact (inv.counters.holding id h).2

/-- **No stop** for the writing task and the callback -/
theorem crashOf_eq_none (inv : RingInv writeInThread s) (c : CustodyOk s)
    (guard : SweepsOwn s a s) : crashOf s a = none := by
  -- everything past the read task has been fetched
  have hkvec : ∀ x ∈ s.unfinished ++ s.writing, (s.items x.1).kvecTo ≠ none := by
    intro x hx
    refine c.fetched x (mem_append_left _ hx) fun hold => ?_
    exact inv.holding_ne hold hx rfl
  cases a with
  | finishFailed =>
    simp only [crashOf]
    split
    case h_2 => rfl
    case h_1 id hfailed =>
      refine if_neg (hkvec (id, (s.items id).use) (mem_append_right _ ?_))
      simp [writing, hfailed, Writer.item]
  | submit ok =>
    simp only [crashOf]
    split
    case h_2 => rfl
    case h_1 id harmed =>
      refine if_neg (not_not.mpr (inv.items.writing_tx ?_))
      rw [harmed]
      rfl
  | turn =>
    simp only [crashOf]
    split
    case h_2 => rfl
    case h_1 cb hrunning =>
      refine if_neg ?_
      rintro ⟨hmore, hstarted, hnone⟩
      -- the callback finishes its own item, which is among the unfinished ones
      have hown : cb.indDmaNext = cb.id := (guard cb (by simp [hrunning])).resolve_right hstarted
      rw [hown] at hnone
      exact hkvec (cb.id, cb.use) (mem_append_left _ (running_mem hrunning hmore)) hnone
  | _ => rfl

theorem CustodyOk.touch (c : CustodyOk s)
    (hitems : s'.items = update s.items id item) (hheld : s'.held = s.held)
    (hreader : s.reader = .holding id) (hbusy : (s.items id).statusReady = false)
    (h : item.SameUse (s.items id)) (howner : item.headFrom ≠ none → item.vringhTx = true)
    (hkvec : s'.reader = .holding id ∨ item.kvecTo ≠ none) : CustodyOk s' := by
  have hself : s'.items id = item := by rw [hitems, update_self]
  have hother : ∀ i, i ≠ id → s'.items i = s.items i := by
    intro i hi
    rw [hitems, update_of_ne hi]
  have hsame : ∀ i, (s'.items i).SameUse (s.items i) := by
    rw [hitems]
    exact sameUse_update h
  constructor
  case free =>
    intro i hi
    have hready := (hsame i).statusReady.symm.trans hi
    -- the item at hand is busy
    have hne : i ≠ id := by
      rintro rfl
      rw [hbusy] at hready
      cases hready
    rw [hother i hne]
    exact c.free i hready
  case owner =>
    intro i
    by_cases heq : i = id
    · subst heq
      rw [hself]
      exact howner
    · rw [hother i heq]
      exact c.owner i
  case busy =>
    intro i hi
    rw [hheld, (hsame i).use]
    exact c.busy i ((hsame i).statusReady.symm.trans hi)
  case fetched =>
    rw [hheld]
    intro x hx hread
    by_cases heq : x.1 = id
    · rw [heq] at hread ⊢
      rw [hself]
      exact hkvec.resolve_left hread
    · rw [hother x.1 heq]
      refine c.fetched x hx fun hold => ?_
      rw [hreader] at hold
      cases hold
      exact heq rfl

theorem RingStep.custody_getRead (h : RingStep writeInThread s .getRead s')
    (inv : RingInv writeInThread s) (c : CustodyOk s) (hb : Balanced got s) :
    CustodyOk s' ∧ Balanced got s' := by
  have q := h.queue inv.items inv.counters inv.finishes trivial
  cases h with
  | getRead idle ready =>
    have hindex : ringIndex s.indicatorRcv = ringIndex s.taken := by
      rw [inv.counters.received, ringIndex_counter]
    rw [hindex] at ready q ⊢
    obtain ⟨hheld, hnew, hothers⟩ := q.of_taken rfl
    -- a free item holds no head, so that taking it moves nothing
    obtain ⟨hhead, htx⟩ := c.free _ ready
    have hself : update s.items (ringIndex s.taken)
        { s.items (ringIndex s.taken) with statusReady := false, use := s.taken }
        (ringIndex s.taken) =
        { s.items (ringIndex s.taken) with statusReady := false, use := s.taken } :=
      update_self _ _ _
    refine ⟨⟨?_, ?_, ?_, ?_⟩, ?_⟩
    · intro i hi
      by_cases heq : i = ringIndex s.taken
      · subst heq
        rw [hnew.busy] at hi
        cases hi
      · rw [hothers i heq] at hi ⊢
        exact c.free i hi
    · intro i hi
      by_cases heq : i = ringIndex s.taken
      · subst heq
        rw [show items _ _ = _ from hself] at hi
        exact absurd hhead hi
      · rw [hothers i heq] at hi ⊢
        exact c.owner i hi
    · intro i hi
      rw [hheld]
      by_cases heq : i = ringIndex s.taken
      · subst heq
        rw [hnew.use_eq]
        exact mem_append_right _ (mem_singleton.mpr rfl)
      · rw [hothers i heq] at hi ⊢
        exact mem_append_left _ (c.busy i hi)
    · intro x hx hreader
      rw [hheld] at hx
      rcases mem_append.mp hx with hx | hx
      · rw [hothers x.1 (inv.items.free_ne ready hx)]
        exact c.fetched x hx (by rw [idle]; simp)
      · rw [mem_singleton.mp hx] at hreader
        exact absurd rfl hreader
    · refine hb.congr rfl fun i => ?_
      by_cases heq : i = ringIndex s.taken
      · subst heq
        rw [show items _ _ = _ from hself]
      · rw [hothers i heq]

end

/-! ## The steps of the read task -/

section

variable {s : BuffersDmaRing} {writeInThread : Bool} {id : Nat} {got : List Nat}
  {item : BufferDmaItem}

/-- What the steps of the path keep of the ring -/
structure RingKept (writeInThread : Bool) (got : List Nat) (s : BuffersDmaRing) : Prop where
  inv : RingInv writeInThread s
  custody : CustodyOk s
  balanced : Balanced got s

theorem RingKept.touch (k : RingKept writeInThread got s) (hreader : s.reader = .holding id)
    (h : item.SameUse (s.items id)) (hhead : item.headFrom = (s.items id).headFrom)
    (htx : item.vringhTx = (s.items id).vringhTx) :
    RingKept writeInThread got (s.setItem id item) where
  inv := k.inv.touch h
  custody := by
    obtain ⟨hbusy, -⟩ := k.inv.holding_busy hreader
    refine k.custody.touch rfl (held_touch h) hreader hbusy h ?_ (.inl hreader)
    rw [hhead, htx]
    exact k.custody.owner id
  balanced := by
    refine k.balanced.congr rfl fun i => ?_
    by_cases hi : i = id
    · subst hi
      exact (congrArg headFrom (update_self _ _ _)).trans hhead
    · exact congrArg headFrom (update_of_ne hi _ _)

/-- `transfer_read` gives a copied chain back. -/
theorem RingKept.putSource (k : RingKept writeInThread got s) (hreader : s.reader = .holding id) :
    RingKept writeInThread got (putSource s id) := by
  obtain ⟨hbusy, hlt⟩ := k.inv.holding_busy hreader
  unfold Vop.putSource
  split
  case h_2 => exact k
  case h_1 head hhead =>
    have htx : (s.items id).vringhTx = true := k.custody.owner id (by rw [hhead]; simp)
    have hsame : { s.items id with headFrom := none }.SameUse (s.items id) := ⟨rfl, rfl, rfl, rfl⟩
    rw [if_pos htx]
    constructor
    case inv => exact k.inv.touch hsame
    case custody =>
      refine k.custody.touch rfl (held_touch hsame) hreader hbusy hsame ?_ (.inl hreader)
      intro hne
      exact absurd rfl hne
    case balanced =>
      refine k.balanced.give hlt (k.custody.owner id) rfl rfl ?_
      simp only [source, hhead, htx, if_true]

theorem RingKept.transferred (k : RingKept writeInThread got s) (hreader : s.reader = .holding id)
    (h : item.SameUse (s.items id)) (hhead : item.headFrom = (s.items id).headFrom)
    (htx : item.vringhTx = (s.items id).vringhTx) (hkvec : item.kvecTo ≠ none)
    {d : Descriptors} {s₁ s' : BuffersDmaRing} (hstep : RingStep writeInThread s (.transfer d) s₁)
    (hs₁ : s₁.items id = transferRead writeInThread d (s.items id))
    (hfin : s₁.finishes = s.finishes) (htaken : s₁.taken = s.taken)
    (hs' : s' = { s₁.setItem id item with put := s.put })
    (hitems : s'.items = update s.items id item) : RingKept writeInThread got s' := by
  obtain ⟨hbusy, -⟩ := k.inv.holding_busy hreader
  have hsame : item.SameUse (s₁.items id) := by
    rw [hs₁]
    exact ⟨h.statusReady, h.use, h.jiffies, h.tx⟩
  have hheld : s'.held = s.held := by
    have q := hstep.queue k.inv.items k.inv.counters k.inv.finishes trivial
    rw [hs', held_touch hsame, q.held_eq hfin htaken]
  constructor
  case inv =>
    have hguard : SweepsOwn s (.transfer d) s₁ := trivial
    rw [hs']
    exact (k.inv.step hguard hstep).touch hsame
  case custody =>
    refine k.custody.touch hitems hheld hreader hbusy h ?_ (.inr hkvec)
    rw [hhead, htx]
    exact k.custody.owner id
  case balanced =>
    have hput : s'.put = s.put := by rw [hs']
    refine k.balanced.congr hput fun i => ?_
    rw [hitems]
    by_cases hi : i = id
    · subst hi
      rw [update_self, hhead]
    · rw [update_of_ne hi]

end

/-! ## The invariant of the path -/

/-- What holds in every state of a proper run -/
structure PathInv (writeInThread : Bool) (s : PathState) : Prop where
  noCrash : s.crash = none
  kept : RingKept writeInThread s.got s.ring
  chain : ∀ chain, s.phase = .read chain → chain.length = 2

namespace PathInv

variable {s s' : PathState} {writeInThread : Bool} (inv : PathInv writeInThread s)

include inv

theorem getRead (h : pathStep writeInThread s .getRead = some s') : PathInv writeInThread s' := by
  rw [pathStep, if_pos inv.noCrash] at h
  obtain ⟨ring, hring, rfl⟩ := Option.map_eq_some_iff.mp h
  have hstep : RingStep writeInThread s.ring .getRead ring := ringStep_cases hring
  obtain ⟨hcustody, hbalanced⟩ :=
    hstep.custody_getRead inv.kept.inv inv.kept.custody inv.kept.balanced
  have hguard : SweepsOwn s.ring .getRead ring := trivial
  exact ⟨inv.noCrash, ⟨inv.kept.inv.step hguard hstep, hcustody, hbalanced⟩,
    fun _ hphase => nomatch hphase⟩

theorem getDescriptors {head : Nat} {chain : List Nat}
    (hchain : chain.length = 2)
    (h : pathStep writeInThread s (.getDescriptors head chain) = some s') :
    PathInv writeInThread s' := by
  rw [pathStep, if_pos inv.noCrash] at h
  simp only [pathGetDescriptors] at h
  split at h
  case h_2 => cases h
  case h_1 id hreader hphase =>
    split at h
    case isFalse => cases h
    case isTrue hempty =>
      cases h
      obtain ⟨hbusy, hlt⟩ := inv.kept.inv.holding_busy hreader
      have hsame : { s.ring.items id with headFrom := some head, vringhTx := true }.SameUse
          (s.ring.items id) := ⟨rfl, rfl, rfl, rfl⟩
      refine ⟨inv.noCrash, ⟨inv.kept.inv.touch hsame, ?_, ?_⟩, ?_⟩
      · exact inv.kept.custody.touch rfl (held_touch hsame) hreader hbusy hsame (fun _ => rfl)
          (.inl hreader)
      · exact inv.kept.balanced.take hlt hempty.1 rfl rfl rfl
      · intro c hc
        cases hc
        exact hchain

theorem read (h : pathStep writeInThread s .read = some s') : PathInv writeInThread s' := by
  rw [pathStep, if_pos inv.noCrash] at h
  simp only [pathRead] at h
  split at h
  case h_2 => cases h
  case h_1 id chain hreader hphase =>
    obtain ⟨header, size, rfl⟩ := length_eq_two.mp (inv.chain chain hphase)
    simp only [transferReadItem, if_true] at h
    cases h
    refine ⟨inv.noCrash, ?_, fun _ hphase => nomatch hphase⟩
    -- both lengths are read; the head goes back only if the data was copied
    cases writeInThread with
    | true =>
      show RingKept true s.got (putSource (s.ring.setItem id _) id)
      refine RingKept.putSource (inv.kept.touch hreader ?_ ?_ ?_) hreader
      · exact ⟨rfl, rfl, rfl, rfl⟩
      · rfl
      · rfl
    | false =>
      show RingKept false s.got (s.ring.setItem id _)
      refine inv.kept.touch hreader ?_ ?_ ?_
      · exact ⟨rfl, rfl, rfl, rfl⟩
      · rfl
      · rfl

theorem wait {kvec : Option (Nat × List Nat)}
    (h : pathStep writeInThread s (.wait kvec) = some s') : PathInv writeInThread s' := by
  rw [pathStep, if_pos inv.noCrash] at h
  simp only [pathWait] at h
  split at h
  case h_2 => cases h
  case h_1 id hreader hphase =>
    split at h
    case h_1 =>
      cases h
      exact inv
    case h_2 head kvecs =>
      let d : Descriptors := ⟨0, 0, 0, 0, []⟩
      have hsame : { s.ring.items id with kvecTo := some kvecs, headTo := some head }.SameUse
          (s.ring.items id) := ⟨rfl, rfl, rfl, rfl⟩
      split at h
      case isTrue hthread =>
        have hid : id = ringIndex s.ring.counterDmaSend := inv.kept.inv.holding_send hthread hreader
        split at h
        case isFalse hne => exact absurd hid hne
        case isTrue =>
          cases h
          have hstep : RingStep writeInThread s.ring (.transfer d)
              { s.ring.setItem id (transferRead writeInThread d (s.ring.items id)) with
                put := s.ring.put
                counterDmaSend := nextCounter s.ring.counterDmaSend
                reader := .idle } := .handOver hreader hthread hid
          refine ⟨inv.noCrash, ?_, inv.chain⟩
          refine inv.kept.transferred hreader hsame rfl rfl (by simp) hstep
            (update_self _ _ _) rfl rfl ?_ rfl
          simp only [setItem, update_idem]
      case isFalse hdirect =>
        cases h
        have hstep : RingStep writeInThread s.ring (.transfer d)
            { s.ring.setItem id (transferRead writeInThread d (s.ring.items id)) with
              reader := .writing
              writer := .start id
              picked := s.ring.picked + 1 } :=
          .writeSelf hreader (Bool.not_eq_true _ ▸ hdirect)
        refine ⟨inv.noCrash, ?_, inv.chain⟩
        refine inv.kept.transferred hreader hsame rfl rfl (by simp) hstep
          (update_self _ _ _) rfl rfl ?_ rfl
        simp only [setItem, update_idem]

theorem ring {a : RingAct} (guard : SweepsOwn s.ring a s.ring)
    (h : pathStep writeInThread s (.ring a) = some s') : PathInv writeInThread s' := by
  have hnone := crashOf_eq_none inv.kept.inv inv.kept.custody guard
  rw [pathStep, if_pos inv.noCrash] at h
  simp only [pathRing, hnone] at h
  split at h
  case isTrue => cases h
  case isFalse hother =>
    split at h
    case h_2 => cases h
    case h_1 ring hring =>
      cases h
      have hstep := ringStep_cases hring
      have hguard : SweepsOwn s.ring a ring := guard
      have hinv := inv.kept.inv.step hguard hstep
      have q := hstep.queue inv.kept.inv.items inv.kept.inv.counters inv.kept.inv.finishes hguard
      refine ⟨inv.noCrash, ?_, inv.chain⟩
      rcases hstep.custody (Bool.not_eq_true _ ▸ hother) inv.kept.inv hguard with
        hquiet | ⟨id, hbusy, hfreed⟩
      · exact ⟨hinv, inv.kept.custody.quiet hquiet (q.held_eq hquiet.finishes hquiet.taken),
          inv.kept.balanced.congr hquiet.put fun i => (hquiet.items i).headFrom⟩
      · obtain ⟨use, pre, post, hheld, hheld'⟩ := q.held_freed hfreed hbusy
        have hlt : id < vopRingSize :=
          inv.kept.inv.items.id_lt (x := (id, use)) (by rw [hheld]; simp)
        have hitems : ring.items = update s.ring.items id (s.ring.items id).reset := by
          funext i
          by_cases hi : i = id
          · subst hi
            rw [hfreed.item, update_self]
          · rw [hfreed.others i hi, update_of_ne hi]
        exact ⟨hinv, inv.kept.custody.freed inv.kept.inv.items hfreed hheld hheld',
          inv.kept.balanced.give hlt (inv.kept.custody.owner id) hitems rfl hfreed.put⟩

/-- **One step** of a proper run keeps the invariant. -/
theorem step {a : PathAct} (guard : Proper s a)
    (h : pathStep writeInThread s a = some s') : PathInv writeInThread s' := by
  cases a with
  | getRead => exact inv.getRead h
  | getDescriptors head chain => exact inv.getDescriptors guard h
  | read => exact inv.read h
  | wait kvec => exact inv.wait h
  | ring a => exact inv.ring guard h

omit inv in
theorem initial (writeInThread : Bool) : PathInv writeInThread .initial where
  noCrash := rfl
  kept := by
    refine ⟨RingInv.init writeInThread, ⟨?_, ?_, ?_, ?_⟩, ?_⟩
    · exact fun _ _ => ⟨rfl, rfl⟩
    · exact fun _ hne => absurd rfl hne
    · exact fun _ hbusy => nomatch hbusy
    · exact fun _ hx => nomatch hx
    · have hheads : PathState.initial.ring.heldHeads = [] :=
        filterMap_eq_nil_iff.mpr fun _ _ => rfl
      rw [Balanced, hheads]
      exact .nil
  chain _ hphase := nomatch hphase

theorem transfersOk : TransfersOk s where
  noCrash := inv.noCrash
  heads := inv.kept.balanced
  free id hid := (inv.kept.custody.free id hid).1
  busy := inv.kept.custody.busy
  ended id hid := by
    have hfresh := inv.kept.inv.finishes.fresh _ (inv.kept.custody.busy id hid)
    exact ⟨hfresh, fun hret => hfresh (inv.kept.inv.finishes.returned _ hret)⟩

end PathInv

/-- **Error paths**: in every run in which the transmit chains have two descriptors and each callback
sweeps its own item only, the life cycle of the items is respected. -/
theorem transfersOk_of_proper (writeInThread : Bool) {s : PathState}
    (h : (pathSystem writeInThread).ReachBy (fun s a _ => Proper s a) s) : TransfersOk s := by
  have hinv : PathInv writeInThread s := by
    refine h.invariant ?_ ?_
    · rintro s rfl
      exact PathInv.initial writeInThread
    · intro s a s' hinv guard hstep
      exact hinv.step guard hstep
  exact hinv.transfersOk

/-- One packet is sent, the next one meets a receive chain that `transfer_write` refuses. -/
theorem transfersOk_of_proper_secondFails :
    ∃ s, TransfersOk s ∧ s.got = [7, 8] ∧ s.ring.put.map Prod.fst = [7, 8] ∧
      s.ring.finishedUses = [0, 1] := by
  let acts : List PathAct :=
    [.getRead, .getDescriptors 7 [12, 1000], .read, .wait none, .wait (some (3, [12, 2000])),
      .ring .pick, .ring (.write true 1), .ring (.submit true), .ring .complete, .ring .callback,
      .ring .turn, .ring .return,
      .getRead, .getDescriptors 8 [12, 1000], .read, .wait (some (4, [12])),
      .ring .pick, .ring (.write true 1), .ring .finishFailed]
  have hobs : ((pathSystem true).runBy (fun s a _ => Proper s a) .initial acts).map
      (fun s => (s.got, s.ring.put.map Prod.fst, s.ring.finishedUses)) =
      some ([7, 8], [7, 8], [0, 1]) := by
    decide +kernel
  obtain ⟨s, hreach, hs⟩ := System.exists_reachBy hobs rfl
  simp only [Prod.mk.injEq] at hs
  exact ⟨s, transfersOk_of_proper true hreach, hs⟩

/-! ## A chain that is not accepted -/

/-- **Defect**: in both modes a transmit chain of one descriptor makes `transfer_done` store through
a null `kvec_to`. -/
theorem odd_chain_crashes :
    (∃ s, (pathSystem true).Reachable s ∧ s.crash = some .nullKvecTo ∧ ¬ TransfersOk s) ∧
      ∃ s, (pathSystem false).Reachable s ∧ s.crash = some .nullKvecTo ∧ ¬ TransfersOk s := by
  let acts : List PathAct := [.getRead, .getDescriptors 7 [1000], .read]
  have hrun : ∀ writeInThread : Bool, ∃ s, (pathSystem writeInThread).Reachable s ∧
      s.crash = some .nullKvecTo ∧ ¬ TransfersOk s := by
    intro writeInThread
    have hobs : ((pathSystem writeInThread).run .initial acts).map PathState.crash =
        some (some .nullKvecTo) := by
      cases writeInThread <;> decide +kernel
    obtain ⟨s, hreach, hcrash⟩ := System.exists_reachable hobs rfl
    refine ⟨s, hreach, hcrash, fun hok => ?_⟩
    rw [hok.noCrash] at hcrash
    cases hcrash
  exact ⟨hrun true, hrun false⟩

end Vcass.Vop
