import Mathlib.Algebra.Order.Group.Multiset
import Vcass.Core.System
import Vcass.Vcablk.Pool

/-!
# The Pool without Locks

`vcablk_pool_pop` and `vcablk_pool_push` by two threads at once, one access to `head`, `tail` or a
`next_free` at a time.  The pool is a queue of free elements all the same: `PoolInv` relates the
cells to that queue in every intermediate state.  It holds because the element at `tail` is never
handed out, so that the popping thread never follows a link that the pushing thread has still to
write.
-/

namespace Vcass.Vcablk

open Vcass.Core Function Multiset List

/-! ## The two threads -/

/-- `vcablk_pool_init`, which refuses too many elements -/
def vcablkPoolInitChecked (num : Nat) : Option VcablkPool :=
  if vcablkPoolUsed ≤ num ∨ vcablkPoolUsed ≤ num + 1 then none else some (vcablkPoolInit num)

/-- `vcablk_pool_pop` between two accesses -/
inductive PoolPop where
  | idle
  /-- the first operand of the test is read -/
  | headRead (head : Nat)
  /-- the test found an element -/
  | available
  | itemRead (item : Nat)
  | idRead (item id : Nat)
  | nextRead (item id next : Nat)
  /-- `head` is moved, the mark not yet set -/
  | headWritten (item id : Nat)
  /-- about to return an element with its number, or `NULL` -/
  | done (ret : Option (Nat × Nat))
deriving DecidableEq

/-- `vcablk_pool_push` of element `idx` between two accesses -/
inductive PoolPush where
  | idle
  | called (idx : Nat)
  | checked (idx : Nat)
  | zeroed (idx : Nat)
  | tailRead (idx tail : Nat)
  | linked (idx : Nat)
  /-- a `BUG_ON` fired -/
  | bug
deriving DecidableEq

/-- The pool with its two threads.  `out` are the elements that pop returned and push was not
called with; `returned` and `pushed` are history. -/
structure PoolState where
  pool : VcablkPool
  pop : PoolPop
  push : PoolPush
  out : List Nat
  returned : List Nat
  pushed : List Nat

/-- The next access of `vcablk_pool_pop`; `getId` says whether the caller asks for the number. -/
def popStep (getId : Bool) (s : PoolState) : PoolState :=
  match s.pop with
  | .idle => { s with pop := .headRead s.pool.head }
  | .headRead head =>
    if head ≠ s.pool.tail then { s with pop := .available } else { s with pop := .done none }
  | .available => { s with pop := .itemRead s.pool.head }
  | .itemRead item =>
    if getId then
      { s with pop := .idRead item s.pool.head }
    else
      { s with pop := .nextRead item item (s.pool.nextFree item) }
  | .idRead item id => { s with pop := .nextRead item id (s.pool.nextFree item) }
  | .nextRead item id next =>
    { s with pool := { s.pool with head := next }, pop := .headWritten item id }
  | .headWritten item id =>
    { s with
      pool := { s.pool with nextFree := Function.update s.pool.nextFree item vcablkPoolUsed }
      pop := .done (some (item, id)) }
  | .done none => { s with pop := .idle }
  | .done (some (item, id)) =>
    { s with pop := .idle, out := s.out ++ [item], returned := s.returned ++ [id] }

/-- A call of `vcablk_pool_push` with an element that is out -/
def pushCall (s : PoolState) (idx : Nat) : Option PoolState :=
  if s.push = .idle ∧ idx ∈ s.out then
    some { s with push := .called idx, out := s.out.erase idx }
  else
    none

/-- The next access of `vcablk_pool_push` -/
def pushStep (s : PoolState) : Option PoolState :=
  match s.push with
  | .idle | .bug => none
  | .called idx =>
    if s.pool.nextFree idx ≠ vcablkPoolUsed ∨ s.pool.num ≤ idx then
      some { s with push := .bug }
    else
      some { s with push := .checked idx }
  | .checked idx =>
    some
      { s with
        pool := { s.pool with nextFree := Function.update s.pool.nextFree idx 0 }
        push := .zeroed idx }
  | .zeroed idx => some { s with push := .tailRead idx s.pool.tail }
  | .tailRead idx tail =>
    some
      { s with
        pool := { s.pool with nextFree := Function.update s.pool.nextFree tail idx }
        push := .linked idx }
  | .linked idx =>
    some
      { s with
        pool := { s.pool with tail := idx }
        push := .idle
        pushed := s.pushed ++ [idx] }

inductive PoolAct where
  | pop (getId : Bool)
  | pushCall (idx : Nat)
  | push

def poolStep (s : PoolState) (a : PoolAct) : Option PoolState :=
  match a with
  | .pop getId => some (popStep getId s)
  | .pushCall idx => pushCall s idx
  | .push => pushStep s

/-- A pool for `num` elements with its two threads -/
def poolSystem (num : Nat) : System PoolState PoolAct where
  Init s := ∃ pool, vcablkPoolInitChecked num = some pool ∧ s = ⟨pool, .idle, .idle, [], [], []⟩
  step := poolStep

/-! ## The queue behind the cells -/

/-- The element that pop has taken from the queue and not yet returned -/
def PoolPop.elements : PoolPop → List Nat
  | .headWritten item _ | .done (some (item, _)) => [item]
  | .idle | .headRead _ | .available | .itemRead _ | .idRead _ _ | .nextRead _ _ _ | .done none => []

/-- The element that push is called with and that is not yet in the queue -/
def PoolPush.elements : PoolPush → List Nat
  | .called idx | .checked idx | .zeroed idx | .tailRead idx _ | .linked idx => [idx]
  | .idle | .bug => []

def PopOk (s : PoolState) (free : List Nat) : Prop :=
  match s.pop with
  | .idle | .done none => True
  | .headRead head => head = s.pool.head
  | .available => 2 ≤ free.length
  | .itemRead item => item = s.pool.head ∧ 2 ≤ free.length
  | .idRead item id => item = s.pool.head ∧ id = item ∧ 2 ≤ free.length
  | .nextRead item id next => id = item ∧ ∃ rest, free = item :: next :: rest
  | .headWritten item id => id = item
  | .done (some (item, id)) => id = item ∧ s.pool.nextFree item = vcablkPoolUsed

def PushOk (s : PoolState) : Prop :=
  match s.push with
  | .idle => True
  | .bug => False
  | .called idx | .checked idx => s.pool.nextFree idx = vcablkPoolUsed
  | .zeroed idx => s.pool.nextFree idx ≠ vcablkPoolUsed
  | .tailRead idx tail => s.pool.nextFree idx ≠ vcablkPoolUsed ∧ tail = s.pool.tail
  | .linked idx => s.pool.nextFree idx ≠ vcablkPoolUsed ∧ s.pool.nextFree s.pool.tail = idx

/-- **The cells spell the queue `free` of free elements.** -/
structure PoolInv (num : Nat) (s : PoolState) (free : List Nat) : Prop where
  num_eq : s.pool.num = num + 1
  bound : num + 1 < vcablkPoolUsed
  /-- Every element is in one place -/
  places : (free : Multiset Nat) + (s.pop.elements : Multiset Nat) + (s.out : Multiset Nat) +
    (s.push.elements : Multiset Nat) = (List.range (num + 1) : Multiset Nat)
  /-- The elements leave the queue in the order in which they came -/
  fifo : s.returned ++ s.pop.elements ++ free = List.range (num + 1) ++ s.pushed
  head : free.head? = some s.pool.head
  tail : free.getLast? = some s.pool.tail
  linked : free.IsChain fun i j => s.pool.nextFree i = j
  tailFree : s.pool.nextFree s.pool.tail ≠ vcablkPoolUsed
  marked : ∀ i ∈ s.out, s.pool.nextFree i = vcablkPoolUsed
  pop : PopOk s free
  push : PushOk s

namespace PoolInv

variable {num : Nat} {s : PoolState} {free : List Nat} (inv : PoolInv num s free)

include inv

theorem nodup :
    ((free : Multiset Nat) + (s.pop.elements : Multiset Nat) + (s.out : Multiset Nat) +
      (s.push.elements : Multiset Nat)).Nodup := by
  rw [inv.places]
  exact coe_nodup.mpr nodup_range

theorem free_nodup : free.Nodup := by
  have h := inv.nodup
  rw [add_assoc, add_assoc] at h
  exact coe_nodup.mp (nodup_add.mp h).1

variable {i : Nat}

theorem pop_elements (hi : i ∈ s.pop.elements) : i ∉ free ∧ i ∉ s.out ∧ i ∉ s.push.elements := by
  have h := inv.nodup
  rw [add_right_comm (free : Multiset Nat), add_right_comm _ (s.pop.elements : Multiset Nat)] at h
  have hnot := fun hj => disjoint_left.mp (nodup_add.mp h).2.2 hj
    (mem_coe.mpr hi)
  simp only [mem_add, mem_coe] at hnot
  exact ⟨fun hj => hnot (.inl (.inl hj)), fun hj => hnot (.inl (.inr hj)), fun hj => hnot (.inr hj)⟩

theorem push_elements (hi : i ∈ s.push.elements) :
    i ∉ free ∧ i ∉ s.pop.elements ∧ i ∉ s.out ∧ i < num + 1 := by
  have hnot := fun hj => disjoint_left.mp (nodup_add.mp inv.nodup).2.2 hj
    (mem_coe.mpr hi)
  simp only [mem_add, mem_coe] at hnot
  refine ⟨fun hj => hnot (.inl (.inl hj)), fun hj => hnot (.inl (.inr hj)), fun hj => hnot (.inr hj),
    ?_⟩
  have hmem : i ∈ (List.range (num + 1) : Multiset Nat) := by
    rw [← inv.places]
    exact mem_add.mpr (.inr (mem_coe.mpr hi))
  exact List.mem_range.mp (mem_coe.mp hmem)

theorem free_not_out (hi : i ∈ free) : i ∉ s.out := by
  have h := (nodup_add.mp inv.nodup).1
  have hnot := disjoint_left.mp (nodup_add.mp h).2.2
    (mem_add.mpr (.inl (mem_coe.mpr hi)))
  exact fun hj => hnot (mem_coe.mpr hj)

theorem free_lt (hi : i ∈ free) : i < num + 1 := by
  have hmem : i ∈ (List.range (num + 1) : Multiset Nat) := by
    rw [← inv.places]
    simp only [mem_add, mem_coe]
    exact .inl (.inl (.inl hi))
  exact List.mem_range.mp (mem_coe.mp hmem)

theorem mem_of_lt (hi : i < num + 1) :
    i ∈ free ∨ i ∈ s.pop.elements ∨ i ∈ s.out ∨ i ∈ s.push.elements := by
  have hmem : i ∈ (List.range (num + 1) : Multiset Nat) :=
    mem_coe.mpr (List.mem_range.mpr hi)
  rw [← inv.places] at hmem
  simpa only [mem_add, mem_coe, or_assoc] using hmem

theorem length :
    free.length + s.pop.elements.length + s.out.length + s.push.elements.length = num + 1 := by
  have hcard := congrArg Multiset.card inv.places
  simpa only [card_add, coe_card, length_range] using hcard

theorem tail_mem : s.pool.tail ∈ free := mem_of_getLast? inv.tail

theorem linked_update {k : Nat} (v : Nat)
    (hk : k ∉ free ∨ k = s.pool.tail) :
    free.IsChain fun i j => update s.pool.nextFree k v i = j := by
  obtain ⟨before, hbefore⟩ := List.getLast?_eq_some_iff.mp inv.tail
  have hlinked := inv.linked
  have hnodup := inv.free_nodup
  rw [hbefore] at hlinked hnodup hk ⊢
  apply links_update v hlinked
  intro hmem
  rcases hk with hk | hk
  · exact hk (mem_append_left _ hmem)
  · exact (List.nodup_append.mp hnodup).2.2 _ hmem _ mem_cons_self hk

end PoolInv

variable {free : List Nat} {s s' : PoolState}

theorem PopOk.frame (h : PopOk s free) (hpop : s'.pop = s.pop)
    (hhead : s'.pool.head = s.pool.head)
    (hcell : ∀ i ∈ s.pop.elements, s'.pool.nextFree i = s.pool.nextFree i) : PopOk s' free := by
  unfold PopOk at h ⊢
  rw [hpop, hhead]
  cases hphase : s.pop with
  | done ret =>
    rw [hphase] at h hcell
    cases ret with
    | none => exact h
    | some ret => exact ⟨h.1, (hcell _ mem_cons_self).trans h.2⟩
  | _ =>
    rw [hphase] at h
    exact h

variable {s : PoolState}

theorem PopOk.append (h : PopOk s free) (idx : Nat) : PopOk s (free ++ [idx]) := by
  unfold PopOk at h ⊢
  have hlen : free.length ≤ (free ++ [idx]).length := by simp
  cases hphase : s.pop with rw [hphase] at h
  | available => exact h.trans hlen
  | itemRead item => exact ⟨h.1, h.2.trans hlen⟩
  | idRead item id => exact ⟨h.1, h.2.1, h.2.2.trans hlen⟩
  | nextRead item id next =>
    obtain ⟨hid, rest, rfl⟩ := h
    exact ⟨hid, rest ++ [idx], rfl⟩
  | done ret =>
    cases ret with
    | none => exact h
    | some ret => exact h
  | idle | headRead head | headWritten item id => exact h

theorem PushOk.frame (h : PushOk s) (hpush : s'.push = s.push)
    (htail : s'.pool.tail = s.pool.tail)
    (hcell : ∀ i ∈ s.push.elements, s'.pool.nextFree i = s.pool.nextFree i)
    (hlast : s'.pool.nextFree s.pool.tail = s.pool.nextFree s.pool.tail) : PushOk s' := by
  unfold PushOk at h ⊢
  rw [hpush, htail, hlast]
  cases hphase : s.push with
  | idle => trivial
  | bug =>
    rw [hphase] at h
    exact h
  | _ =>
    rw [hphase] at h hcell
    have hidx := hcell _ mem_cons_self
    simpa only [hidx] using h

namespace PoolInv

variable {num : Nat} {s : PoolState} {free : List Nat} (inv : PoolInv num s free)

include inv

/-! ## Steps of pop -/

section

variable {getId : Bool}

theorem pop_read {p : PoolPop} (hel : p.elements = s.pop.elements)
    (hok : PopOk { s with pop := p } free) : PoolInv num { s with pop := p } free where
  __ := inv
  places := by
    show _ + (p.elements : Multiset Nat) + _ + _ = _
    rw [hel]
    exact inv.places
  fifo := by
    show _ ++ p.elements ++ _ = _
    rw [hel]
    exact inv.fifo
  pop := hok
  push := inv.push

/-- The write of `head` takes the first element from the queue. -/
theorem pop_head {item id next : Nat}
    (hphase : s.pop = .nextRead item id next) :
    ∃ free', PoolInv num (popStep getId s) free' := by
  have hpop := inv.pop
  unfold PopOk at hpop
  rw [hphase] at hpop
  obtain ⟨hid, rest, rfl⟩ := hpop
  have hplaces := inv.places
  have hfifo := inv.fifo
  rw [hphase] at hplaces hfifo
  refine ⟨next :: rest, ?_⟩
  unfold popStep
  rw [hphase]
  refine
    { inv with
      places := ?_
      fifo := ?_
      head := rfl
      tail := ?_
      linked := (List.isChain_cons_cons.mp inv.linked).2
      pop := hid
      push := inv.push }
  · rw [← hplaces]
    show ((next :: rest : List Nat) : Multiset Nat) + ([item] : List Nat) + (s.out : Multiset Nat) +
        (s.push.elements : Multiset Nat) =
      ((item :: next :: rest : List Nat) : Multiset Nat) + ([] : List Nat) + _ + _
    rw [← cons_coe item (next :: rest), ← singleton_add, coe_singleton,
      coe_nil, add_zero]
    ac_rfl
  · rw [← hfifo]
    show _ ++ [item] ++ next :: rest = _ ++ [] ++ item :: next :: rest
    simp
  · rw [← inv.tail, List.getLast?_cons_cons]

theorem pop_mark {item id : Nat}
    (hphase : s.pop = .headWritten item id) : PoolInv num (popStep getId s) free := by
  have hpop := inv.pop
  unfold PopOk at hpop
  rw [hphase] at hpop
  have hmem : item ∈ s.pop.elements := by
    rw [hphase]
    exact mem_cons_self
  obtain ⟨hfree, hout, hpush⟩ := inv.pop_elements hmem
  have htail : s.pool.tail ≠ item := fun heq => hfree (heq ▸ inv.tail_mem)
  have hplaces := inv.places
  have hfifo := inv.fifo
  rw [hphase] at hplaces hfifo
  unfold popStep
  rw [hphase]
  refine
    { inv with
      places := hplaces
      fifo := hfifo
      linked := inv.linked_update _ (.inl hfree)
      tailFree := ?_
      marked := ?_
      pop := ⟨hpop, update_self ..⟩
      push := ?_ }
  · show update _ _ _ _ ≠ _
    rw [update_of_ne htail]
    exact inv.tailFree
  · intro i hi
    show update _ _ _ _ = _
    rw [update_of_ne (ne_of_mem_of_not_mem hi hout)]
    exact inv.marked i hi
  · refine inv.push.frame rfl rfl ?_ (update_of_ne htail ..)
    intro i hi
    exact update_of_ne (ne_of_mem_of_not_mem hi hpush) ..

theorem pop_return {item id : Nat}
    (hphase : s.pop = .done (some (item, id))) : PoolInv num (popStep getId s) free := by
  have hpop := inv.pop
  unfold PopOk at hpop
  rw [hphase] at hpop
  obtain ⟨rfl, hmark⟩ := hpop
  have hplaces := inv.places
  have hfifo := inv.fifo
  rw [hphase] at hplaces hfifo
  unfold popStep
  rw [hphase]
  refine
    { inv with
      places := ?_
      fifo := ?_
      marked := ?_
      pop := trivial
      push := inv.push }
  · rw [← hplaces]
    show _ + (([] : List Nat) : Multiset Nat) + ((s.out ++ [id] : List Nat) : Multiset Nat) + _ =
      _ + (([id] : List Nat) : Multiset Nat) + _ + _
    rw [← coe_add, coe_nil, add_zero]
    ac_rfl
  · rw [← hfifo]
    show _ ++ [id] ++ [] ++ _ = _ ++ [id] ++ _
    rw [append_nil]
  · intro i hi
    rcases List.mem_append.mp hi with hi | hi
    · exact inv.marked i hi
    · rw [List.mem_singleton.mp hi]
      exact hmark

/-- When the test finds `head` at `tail`, only the unusable element is free. -/
theorem free_of_head_eq_tail (heq : s.pool.head = s.pool.tail) : free.length = 1 := by
  cases free with
  | nil => cases inv.head
  | cons i rest =>
    cases rest with
    | nil => rfl
    | cons j rest =>
      -- the last element would be the first one
      have hhead : i = s.pool.head := Option.some.inj inv.head
      have htail := inv.tail
      rw [List.getLast?_cons_cons, ← heq, ← hhead] at htail
      exact absurd (mem_of_getLast? htail) (List.nodup_cons.mp inv.free_nodup).1

/-- When the test finds `head` before `tail`, an element can be handed out. -/
theorem free_of_head_ne_tail (hne : s.pool.head ≠ s.pool.tail) : 2 ≤ free.length := by
  have hhead := inv.head
  have htail := inv.tail
  cases free with
  | nil => cases hhead
  | cons i rest =>
    cases rest with
    | nil => exact absurd (Option.some.inj (hhead.symm.trans htail)) hne
    | cons j rest => exact Nat.le_add_left 2 rest.length

theorem second {item : Nat} (hitem : item = s.pool.head)
    (hlen : 2 ≤ free.length) : ∃ rest, free = item :: s.pool.nextFree item :: rest := by
  match free, hlen with
  | i :: j :: rest, _ =>
    have hhead : i = s.pool.head := Option.some.inj inv.head
    have hlink := (List.isChain_cons_cons.mp inv.linked).1
    rw [hitem, ← hhead]
    exact ⟨rest, by rw [hlink]⟩

/-- **Every access of pop keeps the cells in step with a queue.** -/
theorem popStep : ∃ free', PoolInv num (popStep getId s) free' := by
  have hpop := inv.pop
  unfold PopOk at hpop
  cases hphase : s.pop with rw [hphase] at hpop
  | nextRead item id next => exact inv.pop_head hphase
  | headWritten item id => exact ⟨free, inv.pop_mark hphase⟩
  | done ret =>
    cases ret with
    | none =>
      unfold Vcablk.popStep
      rw [hphase]
      exact ⟨free, inv.pop_read (by rw [hphase]; rfl) trivial⟩
    | some ret => exact ⟨free, inv.pop_return hphase⟩
  | headRead head =>
    unfold Vcablk.popStep
    rw [hphase]
    refine ⟨free, ?_⟩
    dsimp only
    split
    · rename_i hne
      exact inv.pop_read (by rw [hphase]; rfl) (inv.free_of_head_ne_tail (hpop ▸ hne))
    · exact inv.pop_read (by rw [hphase]; rfl) trivial
  | itemRead item =>
    unfold Vcablk.popStep
    rw [hphase]
    refine ⟨free, ?_⟩
    dsimp only
    split
    · exact inv.pop_read (by rw [hphase]; rfl) ⟨hpop.1, hpop.1.symm, hpop.2⟩
    · exact inv.pop_read (by rw [hphase]; rfl) ⟨rfl, inv.second hpop.1 hpop.2⟩
  | idRead item id =>
    unfold Vcablk.popStep
    rw [hphase]
    exact ⟨free, inv.pop_read (by rw [hphase]; rfl) ⟨hpop.2.1, inv.second hpop.1 hpop.2.2⟩⟩
  | idle =>
    unfold Vcablk.popStep
    rw [hphase]
    exact ⟨free, inv.pop_read (by rw [hphase]; rfl) rfl⟩
  | available =>
    unfold Vcablk.popStep
    rw [hphase]
    exact ⟨free, inv.pop_read (by rw [hphase]; rfl) ⟨rfl, hpop⟩⟩

end

/-! ## Steps of push -/

theorem push_read {p : PoolPush} (hel : p.elements = s.push.elements)
    (hok : PushOk { s with push := p }) : PoolInv num { s with push := p } free where
  __ := inv
  places := by
    show _ + _ + _ + (p.elements : Multiset Nat) = _
    rw [hel]
    exact inv.places
  pop := inv.pop
  push := hok

theorem pushCall {s' : PoolState} {idx : Nat}
    (h : pushCall s idx = some s') : PoolInv num s' free := by
  unfold Vcablk.pushCall at h
  split at h
  case isFalse => cases h
  case isTrue hcall =>
    cases h
    have hplaces := inv.places
    rw [hcall.1] at hplaces
    refine
      { inv with
        places := ?_
        marked := fun i hi => inv.marked i (mem_of_mem_erase hi)
        pop := inv.pop
        push := inv.marked idx hcall.2 }
    rw [← hplaces, ← coe_eq_coe.mpr (perm_cons_erase hcall.2).symm,
      ← cons_coe, ← singleton_add]
    show _ + _ + _ + (([idx] : List Nat) : Multiset Nat) = _ + (([] : List Nat) : Multiset Nat)
    rw [coe_nil, add_zero, coe_singleton]
    ac_rfl

/-- A write of push to the cell `k`, which is its own or the last of the queue. -/
theorem push_write {k v : Nat} {p : PoolPush}
    (hel : p.elements = s.push.elements) (hk : k ∈ s.push.elements ∨ k = s.pool.tail)
    (htail : k = s.pool.tail → v ≠ vcablkPoolUsed)
    (hok : PushOk
      { s with pool := { s.pool with nextFree := update s.pool.nextFree k v }, push := p }) :
    PoolInv num
      { s with pool := { s.pool with nextFree := update s.pool.nextFree k v }, push := p }
      free := by
  -- no cell of the elements outside is written
  have hother : ∀ i, i ∈ s.pop.elements ∨ i ∈ s.out → i ≠ k := by
    rintro i hi rfl
    rcases hk with hk | hk
    · obtain ⟨-, hnot, hout, -⟩ := inv.push_elements hk
      exact hi.elim hnot hout
    · have hmem : i ∈ free := hk ▸ inv.tail_mem
      exact hi.elim (fun hi => (inv.pop_elements hi).1 hmem) (inv.free_not_out hmem)
  refine
    { inv with
      places := ?_
      linked := inv.linked_update _ ?_
      tailFree := ?_
      marked := ?_
      pop := ?_
      push := hok }
  · show _ + _ + _ + (p.elements : Multiset Nat) = _
    rw [hel]
    exact inv.places
  · exact hk.imp (fun hk => (inv.push_elements hk).1) id
  · show update _ _ _ _ ≠ _
    by_cases hlast : s.pool.tail = k
    · rw [hlast, update_self]
      exact htail hlast.symm
    · rw [update_of_ne hlast]
      exact inv.tailFree
  · intro i hi
    show update _ _ _ _ = _
    rw [update_of_ne (hother i (.inr hi))]
    exact inv.marked i hi
  · refine inv.pop.frame rfl rfl ?_
    intro i hi
    exact update_of_ne (hother i (.inl hi)) ..

/-- The write of `tail` makes the element of push the last of the queue. -/
theorem push_tail {idx : Nat} (hphase : s.push = .linked idx) :
    PoolInv num
      { s with
        pool := { s.pool with tail := idx }
        push := .idle
        pushed := s.pushed ++ [idx] }
      (free ++ [idx]) := by
  have hpush := inv.push
  unfold PushOk at hpush
  rw [hphase] at hpush
  have hplaces := inv.places
  rw [hphase] at hplaces
  refine
    { inv with
      places := ?_
      fifo := ?_
      head := ?_
      tail := List.getLast?_concat
      linked := ?_
      tailFree := hpush.1
      pop := (inv.pop.append idx).frame rfl rfl fun _ _ => rfl
      push := trivial }
  · rw [← hplaces, ← coe_add]
    show _ + _ + _ + _ + (([] : List Nat) : Multiset Nat) =
      _ + _ + _ + (([idx] : List Nat) : Multiset Nat)
    rw [coe_nil, add_zero]
    ac_rfl
  · rw [← append_assoc, inv.fifo, append_assoc]
  · rw [List.head?_append, inv.head]
    rfl
  · refine List.isChain_append.mpr ⟨inv.linked, isChain_singleton _, ?_⟩
    intro i hi j hj
    cases hj
    cases inv.tail.symm.trans hi
    exact hpush.2

/-- **Every access of push keeps the cells in step with a queue.** -/
theorem pushStep {s' : PoolState} (h : pushStep s = some s') : ∃ free', PoolInv num s' free' := by
  have hpush := inv.push
  unfold PushOk at hpush
  unfold Vcablk.pushStep at h
  cases hphase : s.push with rw [hphase] at h hpush
  | idle | bug => cases h
  | called idx =>
    -- neither check fires
    have hmem : idx ∈ s.push.elements := by
      rw [hphase]
      exact mem_cons_self
    have hlt := (inv.push_elements hmem).2.2.2
    rw [← inv.num_eq] at hlt
    dsimp only at h
    rw [if_neg (not_or.mpr ⟨not_not_intro hpush, not_le.mpr hlt⟩)] at h
    cases h
    exact ⟨free, inv.push_read (by rw [hphase]; rfl) hpush⟩
  | checked idx =>
    cases h
    have hmem : idx ∈ s.push.elements := by
      rw [hphase]
      exact mem_cons_self
    have hzero : (0 : Nat) ≠ vcablkPoolUsed := by decide
    refine ⟨free, inv.push_write (by rw [hphase]; rfl) (.inl hmem) (fun _ => hzero) ?_⟩
    show update _ _ _ _ ≠ _
    rw [update_self]
    exact hzero
  | zeroed idx =>
    cases h
    exact ⟨free, inv.push_read (by rw [hphase]; rfl) ⟨hpush, rfl⟩⟩
  | tailRead idx tail =>
    cases h
    obtain ⟨hidx, rfl⟩ := hpush
    have hmem : idx ∈ s.push.elements := by
      rw [hphase]
      exact mem_cons_self
    obtain ⟨hfree, -, -, hlt⟩ := inv.push_elements hmem
    have hbound := inv.bound
    have hne : idx ≠ s.pool.tail := fun heq => hfree (heq ▸ inv.tail_mem)
    refine ⟨free, inv.push_write (by rw [hphase]; rfl) (.inr rfl) (fun _ => by omega) ⟨?_, ?_⟩⟩
    · show update _ _ _ _ ≠ _
      rw [update_of_ne hne]
      exact hidx
    · exact update_self ..
  | linked idx =>
    cases h
    exact ⟨free ++ [idx], inv.push_tail hphase⟩

end PoolInv

/-! ## Every interleaving -/

variable {num : Nat}

theorem PoolInv.init (h : (poolSystem num).Init s) : PoolInv num s (List.range (num + 1)) := by
  obtain ⟨pool, hinit, rfl⟩ := h
  unfold vcablkPoolInitChecked at hinit
  split at hinit
  case isTrue => cases hinit
  case isFalse hnum =>
    cases hinit
    obtain ⟨hlt, hlt'⟩ := not_or.mp hnum
    have hrep := Represents.init (not_le.mp hlt)
    exact
      { num_eq := rfl
        bound := not_le.mp hlt'
        places := by simp [PoolPop.elements, PoolPush.elements]
        fifo := by simp [PoolPop.elements]
        head := hrep.head
        tail := hrep.tail
        linked := hrep.linked
        tailFree := hrep.tail_free
        marked := by simp
        pop := trivial
        push := trivial }

theorem poolInv_of_reachable (h : (poolSystem num).Reachable s) : ∃ free, PoolInv num s free := by
  apply h.invariant
  · intro s hs
    exact ⟨_, PoolInv.init hs⟩
  · rintro s a s' ⟨free, inv⟩ hstep
    cases a with
    | pop getId =>
      cases hstep
      exact inv.popStep
    | pushCall idx => exact ⟨free, inv.pushCall hstep⟩
    | push => exact inv.pushStep hstep

theorem PoolInv.not_bug (inv : PoolInv num s free) : s.push ≠ .bug := by
  intro hbug
  have hpush := inv.push
  unfold PushOk at hpush
  rw [hbug] at hpush
  exact hpush

/-! ## What the accesses do to the elements -/

/-- The element that pop is about to return -/
def PoolPop.ret : PoolPop → Option Nat
  | .done (some (item, _)) => some item
  | _ => none

theorem popStep_out (getId : Bool) (s : PoolState) :
    (popStep getId s).out = s.out ++ s.pop.ret.toList := by
  unfold popStep
  cases s.pop with
  | headRead head =>
    dsimp only
    split
    · simp [PoolPop.ret]
    · simp [PoolPop.ret]
  | itemRead item =>
    cases getId with
    | true => simp [PoolPop.ret]
    | false => simp [PoolPop.ret]
  | done ret =>
    cases ret with
    | none => simp [PoolPop.ret]
    | some ret => rfl
  | _ => simp [PoolPop.ret]

theorem popStep_push (getId : Bool) (s : PoolState) : (popStep getId s).push = s.push := by
  unfold popStep
  cases s.pop with
  | headRead head =>
    dsimp only
    split
    · rfl
    · rfl
  | itemRead item =>
    cases getId with
    | true => rfl
    | false => rfl
  | done ret =>
    cases ret with
    | none => rfl
    | some ret => rfl
  | _ => rfl

theorem pushStep_elements (h : pushStep s = some s') :
    s'.out = s.out ∧
      (s'.push = .idle ∨ s'.push = .bug ∨
        s'.push ≠ .idle ∧ s'.push.elements = s.push.elements) := by
  unfold pushStep at h
  cases hphase : s.push with rw [hphase] at h
  | idle | bug => cases h
  | called idx =>
    dsimp only at h
    split at h
    · cases h
      exact ⟨rfl, .inr (.inl rfl)⟩
    · cases h
      exact ⟨rfl, .inr (.inr ⟨PoolPush.noConfusion, rfl⟩)⟩
  | checked idx | zeroed idx | tailRead idx tail =>
    cases h
    exact ⟨rfl, .inr (.inr ⟨PoolPush.noConfusion, rfl⟩)⟩
  | linked idx =>
    cases h
    exact ⟨rfl, .inl rfl⟩

/-- At most `num` elements are handed out. -/
theorem PoolInv.out_le (inv : PoolInv num s free) :
    s.out.length + s.push.elements.length ≤ num := by
  have hlength := inv.length
  have hpos : 0 < free.length := by
    cases free with
    | nil => cases inv.head
    | cons i rest => exact Nat.succ_pos _
  omega

theorem PoolInv.represents (inv : PoolInv num s free)
    (hpop : s.pop = .idle) (hpush : s.push = .idle) : Represents s.pool free where
  nodup := inv.free_nodup
  lt i hi := inv.num_eq ▸ inv.free_lt hi
  num_le := inv.num_eq ▸ inv.bound.le
  head := inv.head
  tail := inv.tail
  linked := inv.linked
  tail_free := inv.tailFree
  used i hi hfree := by
    rw [inv.num_eq] at hi
    have hmem := inv.mem_of_lt hi
    rw [hpop, hpush] at hmem
    simp only [PoolPop.elements, PoolPush.elements, not_mem_nil, or_false, false_or] at hmem
    exact inv.marked i (hmem.resolve_left hfree)

/-- Pop finds nothing only when its two reads see `head` at `tail`. -/
theorem popStep_null {getId : Bool} (h : (popStep getId s).pop = .done none) :
    ∃ head, s.pop = .headRead head ∧ head = s.pool.tail := by
  unfold popStep at h
  cases hphase : s.pop with simp only [hphase] at h
  | headRead head =>
    refine ⟨head, rfl, ?_⟩
    by_contra hne
    rw [if_pos hne] at h
    cases h
  | done ret =>
    cases ret with
    | none => cases h
    | some ret => cases h
  | itemRead item =>
    split at h
    · cases h
    · cases h
  | _ => cases h

/-- **The pool is a queue of free elements that starts with all of them in order.**  Pop returns
the element that has been free longest, which is not out; it finds nothing only when `num`
elements are out or a push is in progress; no `BUG_ON` of push fires; and between operations
`vcablk_pool_get_by_id` knows the elements that are out. -/
theorem pool_is_queue {num : Nat} {s : PoolState} (h : (poolSystem num).Reachable s) :
    s.returned <+: List.range (num + 1) ++ s.pushed ∧
    (∀ item id, s.pop = .done (some (item, id)) →
      id = item ∧ s.returned ++ [id] <+: List.range (num + 1) ++ s.pushed ∧
      item ∉ s.out ∧ item ∉ s.push.elements) ∧
    (∀ getId, (popStep getId s).pop = .done none → s.out.length = num ∨ s.push ≠ .idle) ∧
    s.push ≠ .bug ∧
    (s.pop = .idle → s.push = .idle → ∀ i, vcablkPoolGetById s.pool i ↔ i ∈ s.out) := by
  obtain ⟨free, inv⟩ := poolInv_of_reachable h
  refine ⟨?_, ?_, ?_, ?_, ?_⟩
  · rw [← inv.fifo, List.append_assoc]
    exact List.prefix_append ..
  · intro item id hphase
    have hpop := inv.pop
    have hfifo := inv.fifo
    unfold PopOk at hpop
    rw [hphase] at hpop hfifo
    have hplace := inv.pop_elements (i := item) (by rw [hphase]; exact List.mem_cons_self)
    obtain ⟨rfl, -⟩ := hpop
    refine ⟨rfl, ?_, hplace.2⟩
    rw [← hfifo]
    exact List.prefix_append ..
  · intro getId hnull
    obtain ⟨head, hphase, htail⟩ := popStep_null hnull
    have hpop := inv.pop
    have hlength := inv.length
    unfold PopOk at hpop
    rw [hphase] at hpop hlength
    -- pop finds nothing: only one element is left, or push has not linked its own yet
    have hfree := inv.free_of_head_eq_tail (hpop.symm.trans htail)
    by_cases hpush : s.push = .idle
    · rw [hpush, hfree] at hlength
      simp only [PoolPop.elements, PoolPush.elements, List.length_nil] at hlength
      exact .inl (by omega)
    · exact .inr hpush
  · exact inv.not_bug
  · intro hpop hpush i
    constructor
    · intro hget
      have hrep := inv.represents hpop hpush
      have hfree := (hrep.getById_iff hget.1).mp hget
      have hmem := inv.mem_of_lt (inv.num_eq ▸ hget.1)
      rw [hpop, hpush] at hmem
      simp only [PoolPop.elements, PoolPush.elements, List.not_mem_nil, or_false, false_or] at hmem
      exact hmem.resolve_left hfree
    · intro hout
      refine ⟨?_, inv.marked i hout⟩
      have hmem : i ∈ (List.range (num + 1) : Multiset Nat) := by
        rw [← inv.places]
        simp only [Multiset.mem_add, Multiset.mem_coe]
        exact .inl (.inr hout)
      rw [inv.num_eq]
      exact List.mem_range.mp (Multiset.mem_coe.mp hmem)

/-- A pool of one element: pop takes element 0 and looks for another one while push gives 0 back. -/
def popDuringPush : List PoolAct :=
  List.replicate 8 (PoolAct.pop true) ++
    [PoolAct.pushCall 0, .push, .push, .push, .pop false, .push, .push] ++
    List.replicate 6 (PoolAct.pop false)

theorem pool_is_queue_popDuringPush :
    ∃ s, (poolSystem 1).Reachable s ∧ s.returned = [0, 1] ∧ s.pushed = [0] ∧
      vcablkPoolGetById s.pool 1 ∧ ¬ vcablkPoolGetById s.pool 0 := by
  have hrun : ((poolSystem 1).run ⟨vcablkPoolInit 1, .idle, .idle, [], [], []⟩ popDuringPush).map
      (fun s => (s.pop, s.push, s.out, s.returned, s.pushed)) =
        some (.idle, .idle, [1], [0, 1], [0]) := by decide +kernel
  obtain ⟨s, hreach, hobs⟩ := System.exists_reachable hrun ⟨_, rfl, rfl⟩
  simp only [Prod.mk.injEq] at hobs
  obtain ⟨hpop, hpush, hout, hreturned, hpushed⟩ := hobs
  have hget := (pool_is_queue hreach).2.2.2.2 hpop hpush
  rw [hout] at hget
  have hfree : 0 ∉ [1] := by decide
  exact ⟨s, hreach, hreturned, hpushed, (hget 1).mpr List.mem_cons_self, (hget 0).not.mpr hfree⟩

end Vcass.Vcablk
