import Mathlib.Algebra.BigOperators.Group.List.Basic
import Mathlib.Algebra.Order.BigOperators.Group.List
import Mathlib.Algebra.Order.Ring.Nat
import Mathlib.Data.List.Range
import Mathlib.Data.Nat.Find
import Vcass.Core.Kernel

/-!
# Mapping Scatter-Gather Lists

`vca_virtio_ring.c`: before the buffers of a request are added to a virtqueue, `vring_map_sg` maps all
entries of its lists for DMA.  When a mapping fails, the entries that were mapped before shall be
unmapped again: `_dma_map_sg` does so for the list it works on, and `vring_map_sg` for the lists before
it.

The roll-back of `_dma_map_sg` does not leave its loop.  The loop goes on behind the entry that
failed, so that later entries are mapped and never unmapped, and another failure unmaps all entries
before it once more.  Besides, `vring_map_sg` sets the end of the first list to the number of all
entries whenever there is one list for either direction, also when there are other lists.  The first
list then runs on into what lies behind it.  That may be another list of the request, whose entries
are mapped twice, and whose own end may be lost.

`vringMapSg_allOrNothing_iff`: **the mapping is all or nothing exactly when the first failure is at
the last entry of its list, the roll-back finds the mappings of the lists before it again, and without
a failure the first list was not prolonged**.  Lists that share no entry are found again
(`foundAgain_of_apart`).

Lists are arrays, and entries are told apart by their place in memory.
-/

namespace Vcass.VirtioRing

open Vcass.Core List

/-! ## Requests -/

/-- `enum dma_data_direction` -/
inductive DmaDataDirection where
  | toDevice
  | fromDevice

/-- The lists of a request: how many there are for each direction, the place of the first entry of list
`n` and the number of its entries, and by place the end marks and the lengths of all entries in
memory.  A single list may come with any end marks, others end at a mark. -/
structure MapRequest where
  outSgs : Nat
  inSgs : Nat
  start : Nat → Nat
  nents : Nat → Nat
  nents_pos : ∀ n, 0 < nents n
  isLast : Nat → Bool
  length : Nat → Nat
  ends : outSgs + inSgs ≠ 1 → ∀ n < outSgs + inSgs, ∀ k < nents n,
    (isLast (start n + k) = true ↔ k + 1 = nents n)

/-- `sg_terminate_arr`, on the end marks -/
def sgTerminateArr (isLast : Nat → Bool) (first num : Nat) : Nat → Bool := fun p =>
  if first ≤ p ∧ p < first + num then p + 1 = first + num else isLast p

/-- `sg_nents`, with a bound on the number of entries -/
def sgNentsFrom (isLast : Nat → Bool) : Nat → Nat → Nat
  | 0, _ => 0
  | fuel + 1, p => if isLast p then 1 else sgNentsFrom isLast fuel (p + 1) + 1

namespace MapRequest

variable (req : MapRequest)

def sgs : Nat := req.outSgs + req.inSgs

/-- `total_sg` -/
def totalSg : Nat := ((List.range req.sgs).map req.nents).sum

/-- The end marks after both calls of `sg_terminate_arr`, which are for `sgs[0]` -/
def marks : Nat → Bool :=
  let isLast :=
    if req.outSgs = 1 then sgTerminateArr req.isLast (req.start 0) req.totalSg else req.isLast
  if req.inSgs = 1 then sgTerminateArr isLast (req.start 0) req.totalSg else isLast

/-- `sg_nents(sgs[n])`.  A list whose end mark is gone ends with the first one, `total_sg` entries
behind the start of that (`marks_sgNents`). -/
def sgNents (n : Nat) : Nat :=
  sgNentsFrom req.marks (req.nents n + req.totalSg) (req.start n)

/-- The place of entry `k` of list `n` -/
def place (n k : Nat) : Nat := req.start n + k

/-- The direction of list `n` -/
def dir (n : Nat) : DmaDataDirection := if n < req.outSgs then .toDevice else .fromDevice

def entries : List Nat :=
  (List.range req.sgs).flatMap fun n => (List.range (req.nents n)).map (req.place n)

end MapRequest

/-! ## The functions -/

/-- The arguments of a `dma_unmap_single`, and of a `dma_map_single` with its result -/
structure Mapping where
  dir : DmaDataDirection
  addr : Nat
  len : Nat

/-- The field `dma_address` of all entries, the number of calls of `dma_map_single`, those that
succeeded (by place and by mapping), and the calls of `dma_unmap_single` -/
structure DmaState where
  dmaAddress : Nat → Nat
  calls : Nat
  entries : List Nat
  mapped : List Mapping
  unmapped : List Mapping

section

variable (req : MapRequest) (answers : Nat → Nat)

/-- `dma_map_single` for entry `s` of list `n`, stored in its `dma_address`; `answers` are the results
of all calls, 0 for a failure. -/
def mapEntry (n s : Nat) (st : DmaState) : DmaState :=
  let addr := answers st.calls
  let p := req.place n s
  { dmaAddress := Function.update st.dmaAddress p addr
    calls := st.calls + 1
    entries := if addr = 0 then st.entries else st.entries ++ [p]
    mapped := if addr = 0 then st.mapped else st.mapped ++ [⟨req.dir n, addr, req.length p⟩]
    unmapped := st.unmapped }

/-- What `dma_unmap_single` gets for entry `s` of list `n` -/
def DmaState.mapping (st : DmaState) (n s : Nat) : Mapping :=
  ⟨req.dir n, st.dmaAddress (req.place n s), req.length (req.place n s)⟩

/-- A loop of `dma_unmap_single` from the cursor `s` on: the state and the cursor behind it -/
def unmapLoop (n : Nat) : Nat → Nat → DmaState → DmaState × Nat
  | 0, s, st => (st, s)
  | turns + 1, s, st =>
    unmapLoop n turns (s + 1) { st with unmapped := st.unmapped ++ [st.mapping req n s] }

/-- The loop of `_dma_map_sg`, with `turns` turns left, its counter, its cursor and `ret`.  The
roll-back moves the cursor of the loop. -/
def mapLoop (n : Nat) : Nat → Nat → Nat → Int → DmaState → DmaState × Int
  | 0, _, _, ret, st => (st, ret)
  | turns + 1, i, s, ret, st =>
    let st := mapEntry req answers n s st
    if st.dmaAddress (req.place n s) = 0 then
      let (st, s) := unmapLoop req n i 0 st
      mapLoop n turns (i + 1) (s + 1) (-eNoMem) st
    else
      mapLoop n turns (i + 1) (s + 1) ret st

/-- `_dma_map_sg` of list `n` -/
def dmaMapSg (n : Nat) (st : DmaState) : DmaState × Int :=
  mapLoop req answers n (req.sgNents n) 0 0 0 st

/-- `_dma_unmap_sg` of list `n` -/
def dmaUnmapSg (n : Nat) (st : DmaState) : DmaState :=
  (unmapLoop req n (req.sgNents n) 0 st).1

/-- The loop at `dma_map_err`, from list `i` on -/
def unmapLists : Nat → Nat → DmaState → DmaState
  | 0, _, st => st
  | turns + 1, i, st => unmapLists turns (i + 1) (dmaUnmapSg req i st)

/-- The loop over the lists, from list `n` on -/
def mapLists : Nat → Nat → DmaState → DmaState × Int
  | 0, _, st => (st, 0)
  | turns + 1, n, st =>
    let (st, ret) := dmaMapSg req answers n st
    if ret ≠ 0 then (unmapLists req n 0 st, -eNoMem) else mapLists turns (n + 1) st

def DmaState.initial : DmaState := ⟨fun _ => 0, 0, [], [], []⟩

/-- `vring_map_sg`; `parent` says whether the device has one. -/
def vringMapSg (parent : Bool) : DmaState × Int :=
  if parent = false then (.initial, -eNoMem)
  else mapLists req answers req.sgs 0 .initial

end

/-! ## All or nothing -/

/-- After an error every mapping was undone exactly once and nothing else was unmapped; otherwise
every entry was mapped exactly once. -/
def AllOrNothing (req : MapRequest) (result : DmaState × Int) : Prop :=
  (result.2 ≠ 0 → result.1.mapped.Perm result.1.unmapped) ∧
  (result.2 = 0 → result.1.entries.Perm req.entries ∧ result.1.unmapped = [])

/-- The number of calls of `dma_map_single` before list `n`, when none fails -/
def MapRequest.callsBefore (req : MapRequest) (n : Nat) : Nat :=
  ((List.range n).map req.sgNents).sum

/-- The mapping of entry `k` of list `n`, when no call before it fails -/
def planned (req : MapRequest) (answers : Nat → Nat) (n k : Nat) : Mapping :=
  ⟨req.dir n, answers (req.callsBefore n + k), req.length (req.place n k)⟩

/-- One value for each entry of the lists before `n`, and for the first `i` entries of list `n` -/
def perEntry {α : Type} (req : MapRequest) (f : Nat → Nat → α) (n i : Nat) : List α :=
  ((List.range n).flatMap fun m => (List.range (req.sgNents m)).map (f m)) ++
    (List.range i).map (f n)

/-- The answer of the last call that was for the entry at place `p`, when the first `i` entries of list
`n` are written over `left` -/
def written (req : MapRequest) (answers : Nat → Nat) (n i : Nat) (left : Nat → Nat) (p : Nat) : Nat :=
  if req.start n ≤ p ∧ p < req.start n + i then answers (req.callsBefore n + (p - req.start n))
  else left p

/-- The address at place `p` when the lists before `n` were gone through -/
def leftAt (req : MapRequest) (answers : Nat → Nat) : Nat → Nat → Nat
  | 0 => fun _ => 0
  | n + 1 => written req answers n (req.sgNents n) (leftAt req answers n)

/-- What the roll-back unmaps for entry `k` of list `m`, when list `n` was the last one -/
def found (req : MapRequest) (answers : Nat → Nat) (n m k : Nat) : Mapping :=
  ⟨req.dir m, leftAt req answers (n + 1) (req.place m k), req.length (req.place m k)⟩

/-- The mappings of the lists before `n` are found again after list `n`. -/
def FoundAgain (req : MapRequest) (answers : Nat → Nat) (n : Nat) : Prop :=
  (perEntry req (planned req answers) n 0).Perm (perEntry req (found req answers n) n 0)

/-- A first failure is rolled back: it is at the last entry of its list, and the mappings of the lists
before it are found again. -/
def RollsBack (req : MapRequest) (answers : Nat → Nat) : Prop :=
  ∀ n < req.sgs, ∀ k < req.sgNents n, answers (req.callsBefore n + k) = 0 →
    (∀ call < req.callsBefore n + k, answers call ≠ 0) →
      k + 1 = req.sgNents n ∧ FoundAgain req answers n

/-- The first list is taken with the entries of all lists. -/
def MapRequest.Prolonged (req : MapRequest) : Prop :=
  (req.outSgs = 1 ∨ req.inSgs = 1) ∧ 1 < req.sgs

/-- There is no failure. -/
def NoFailure (req : MapRequest) (answers : Nat → Nat) : Prop :=
  ∀ call < req.callsBefore req.sgs, answers call ≠ 0

/-! ## The ends of the lists -/

theorem sgNentsFrom_eq {isLast : Nat → Bool} {fuel p d : Nat} (hd : d < fuel)
    (hmark : isLast (p + d) = true) (hbefore : ∀ k < d, isLast (p + k) = false) :
    sgNentsFrom isLast fuel p = d + 1 := by
  induction d generalizing fuel p with
  | zero =>
    obtain ⟨fuel, rfl⟩ := Nat.exists_eq_succ_of_ne_zero (Nat.ne_of_gt hd)
    exact if_pos hmark
  | succ d ih =>
    obtain ⟨fuel, rfl⟩ := Nat.exists_eq_succ_of_ne_zero (Nat.ne_of_gt (Nat.zero_lt_of_lt hd))
    have hfirst : isLast p = false := hbefore 0 (Nat.succ_pos d)
    have hrest : sgNentsFrom isLast fuel (p + 1) = d + 1 := by
      apply ih (Nat.lt_of_succ_lt_succ hd)
      · rw [add_right_comm, add_assoc]
        exact hmark
      · intro k hk
        rw [add_right_comm, add_assoc]
        exact hbefore (k + 1) (Nat.succ_lt_succ hk)
    rw [sgNentsFrom, hfirst, hrest]
    rfl

namespace MapRequest

variable {req : MapRequest}

/-- One call of `sg_terminate_arr` is as good as two. -/
theorem marks_eq (p : Nat) :
    req.marks p = if (req.outSgs = 1 ∨ req.inSgs = 1) ∧ req.start 0 ≤ p ∧
      p < req.start 0 + req.totalSg then decide (p + 1 = req.start 0 + req.totalSg)
    else req.isLast p := by
  unfold marks sgTerminateArr
  by_cases hout : req.outSgs = 1 <;> by_cases hin : req.inSgs = 1 <;>
    by_cases hinside : req.start 0 ≤ p ∧ p < req.start 0 + req.totalSg <;>
    simp [hout, hin, hinside]

theorem nents_le_totalSg {n : Nat} (hn : n < req.sgs) : req.nents n ≤ req.totalSg :=
  List.single_le_sum (fun _ _ => Nat.zero_le _) _ (mem_map_of_mem (mem_range.mpr hn))

/-- The count of every list ends at a mark: its own, or the one `total_sg` entries behind the start of
the first list. -/
theorem exists_mark {n : Nat} (hn : n < req.sgs) :
    ∃ d < req.nents n + req.totalSg, req.marks (req.start n + d) = true := by
  have hpos := req.nents_pos n
  have htotal := nents_le_totalSg hn
  by_cases hcut : (req.outSgs = 1 ∨ req.inSgs = 1) ∧ req.start 0 ≤ req.start n + (req.nents n - 1) ∧
      req.start n + (req.nents n - 1) < req.start 0 + req.totalSg
  · refine ⟨req.start 0 + req.totalSg - 1 - req.start n, by omega, ?_⟩
    rw [marks_eq, if_pos ⟨hcut.1, by omega⟩, decide_eq_true_eq]
    omega
  · refine ⟨req.nents n - 1, by omega, ?_⟩
    have hmany : req.outSgs + req.inSgs ≠ 1 := by
      intro hone
      have hsgs : req.sgs = 1 := hone
      obtain rfl : n = 0 := by omega
      exact hcut ⟨by omega, by omega, by omega⟩
    rw [marks_eq, if_neg hcut]
    exact (req.ends hmany n hn _ (by omega)).mpr (by omega)

/-- `sg_nents` stops at an end mark. -/
theorem marks_sgNents {n : Nat} (hn : n < req.sgs) :
    0 < req.sgNents n ∧ req.marks (req.start n + (req.sgNents n - 1)) = true := by
  have hex := exists_mark hn
  obtain ⟨hlt, hmark⟩ := Nat.find_spec hex
  have heq : req.sgNents n = Nat.find hex + 1 := by
    apply sgNentsFrom_eq hlt hmark
    intro k hk
    have hmin := Nat.find_min hex hk
    simpa [Nat.lt_trans hk hlt] using hmin
  rw [heq]
  exact ⟨Nat.succ_pos _, hmark⟩

theorem sgNents_zero (hone : req.outSgs = 1 ∨ req.inSgs = 1) : req.sgNents 0 = req.totalSg := by
  have hpos := req.nents_pos 0
  have htotal : req.nents 0 ≤ req.totalSg := nents_le_totalSg (by rw [sgs]; omega)
  have heq : req.sgNents 0 = req.totalSg - 1 + 1 := by
    apply sgNentsFrom_eq (by omega)
    · rw [marks_eq, if_pos ⟨hone, by omega⟩, decide_eq_true_eq]
      omega
    · intro k hk
      rw [marks_eq, if_pos ⟨hone, by omega⟩, decide_eq_false_iff_not]
      omega
  omega

theorem sgNents_eq (hnot : ¬ req.Prolonged) {n : Nat} (hn : n < req.sgs) :
    req.sgNents n = req.nents n := by
  by_cases hone : req.outSgs = 1 ∨ req.inSgs = 1
  · have hsgs : req.sgs = 1 := by
      by_contra hmany
      exact hnot ⟨hone, by omega⟩
    obtain rfl : n = 0 := by omega
    rw [sgNents_zero hone, totalSg, hsgs]
    simp
  · have hpos := req.nents_pos n
    have hkept : ∀ p, req.marks p = req.isLast p := fun p => by
      rw [marks_eq, if_neg fun h => hone h.1]
    have hends := req.ends (by omega) n hn
    have heq : req.sgNents n = req.nents n - 1 + 1 := by
      apply sgNentsFrom_eq (by omega)
      · rw [hkept, hends _ (by omega)]
        omega
      · intro k hk
        rw [hkept, Bool.eq_false_iff, Ne, hends _ (by omega)]
        omega
    omega

end MapRequest

/-! ## Loops of `dma_unmap_single` -/

section

variable {req : MapRequest}

theorem MapRequest.callsBefore_succ (n : Nat) :
    req.callsBefore (n + 1) = req.callsBefore n + req.sgNents n := by
  simp [callsBefore, range_succ]

theorem MapRequest.callsBefore_mono {m n : Nat} (h : m ≤ n) :
    req.callsBefore m ≤ req.callsBefore n := by
  induction h with
  | refl => exact Nat.le_refl _
  | step _ ih =>
    rw [callsBefore_succ]
    exact Nat.le_trans ih (Nat.le_add_right _ _)

/-- The loop unmaps `turns` entries and leaves the cursor behind them. -/
theorem unmapLoop_eq (n turns s : Nat) (st : DmaState) :
    unmapLoop req n turns s st =
      ({ st with
          unmapped := st.unmapped ++ (List.range turns).map fun j => st.mapping req n (s + j) },
        s + turns) := by
  induction turns generalizing s st with
  | zero => simp [unmapLoop]
  | succ turns ih =>
    rw [unmapLoop, ih, range_succ_eq_map]
    simp [DmaState.mapping, Function.comp_def, add_assoc, add_comm 1]

theorem unmapLists_eq (turns i : Nat) (st : DmaState) :
    unmapLists req turns i st =
      { st with
        unmapped := st.unmapped ++ (List.range turns).flatMap fun m =>
          (List.range (req.sgNents (i + m))).map (st.mapping req (i + m)) } := by
  induction turns generalizing i st with
  | zero => simp [unmapLists]
  | succ turns ih =>
    rw [unmapLists, ih, dmaUnmapSg, unmapLoop_eq, range_succ_eq_map]
    simp only [flatMap_cons, flatMap_map, add_zero, add_assoc, add_comm 1,
      append_assoc, zero_add]
    rfl

/-- The roll-back over `n` lists unmaps as many entries as there were calls before list `n`. -/
theorem unmapLists_length (n : Nat) (st : DmaState) :
    (unmapLists req n 0 st).unmapped.length = st.unmapped.length + req.callsBefore n := by
  rw [unmapLists_eq]
  simp [length_flatMap, MapRequest.callsBefore]

end

/-! ## As long as nothing fails -/

section

variable {req : MapRequest} {answers : Nat → Nat}

theorem perEntry_succ {α : Type} (f : Nat → Nat → α) (n i : Nat) :
    perEntry req f n (i + 1) = perEntry req f n i ++ [f n i] := by
  simp [perEntry, range_succ]

theorem perEntry_next {α : Type} (f : Nat → Nat → α) (n : Nat) :
    perEntry req f (n + 1) 0 = perEntry req f n (req.sgNents n) := by
  simp [perEntry, range_succ]

theorem length_perEntry {α : Type} (f : Nat → Nat → α) (n i : Nat) :
    (perEntry req f n i).length = req.callsBefore n + i := by
  simp [perEntry, length_flatMap, MapRequest.callsBefore]

theorem mem_perEntry {n i : Nat} {u : Mapping}
    (hu : u ∈ perEntry req (planned req answers) n i) :
    ∃ m k, req.callsBefore m + k < req.callsBefore n + i ∧ planned req answers m k = u := by
  rcases mem_append.mp hu with hu | hu
  · obtain ⟨m, hm, hu⟩ := mem_flatMap.mp hu
    obtain ⟨k, hk, rfl⟩ := mem_map.mp hu
    have hlist : req.callsBefore (m + 1) ≤ req.callsBefore n :=
      MapRequest.callsBefore_mono (mem_range.mp hm)
    rw [MapRequest.callsBefore_succ] at hlist
    have := mem_range.mp hk
    exact ⟨m, k, by omega, rfl⟩
  · obtain ⟨k, hk, rfl⟩ := mem_map.mp hu
    have := mem_range.mp hk
    exact ⟨n, k, by omega, rfl⟩

theorem written_succ (n i : Nat) (left : Nat → Nat) :
    Function.update (written req answers n i left) (req.place n i)
      (answers (req.callsBefore n + i)) = written req answers n (i + 1) left := by
  funext p
  unfold written MapRequest.place
  rcases Nat.lt_trichotomy p (req.start n + i) with hlt | rfl | hgt
  · rw [Function.update_of_ne (Nat.ne_of_lt hlt)]
    exact if_congr (by omega) rfl rfl
  · rw [Function.update_self, if_pos (by omega), Nat.add_sub_cancel_left]
  · rw [Function.update_of_ne (Nat.ne_of_gt hgt)]
    exact if_congr (by omega) rfl rfl

theorem written_place {n i k : Nat} (hk : k < i) (left : Nat → Nat) :
    written req answers n i left (req.place n k) = answers (req.callsBefore n + k) := by
  unfold written MapRequest.place
  rw [if_pos (by omega), Nat.add_sub_cancel_left]

/-- The lists before `n` and the first `i` entries of list `n` are mapped. -/
structure Good (req : MapRequest) (answers : Nat → Nat) (n i : Nat) (st : DmaState) : Prop where
  calls : st.calls = req.callsBefore n + i
  address : st.dmaAddress = written req answers n i (leftAt req answers n)
  entries : st.entries = perEntry req req.place n i
  mapped : st.mapped = perEntry req (planned req answers) n i
  unmapped : st.unmapped = []

theorem written_none (n : Nat) (left : Nat → Nat) : written req answers n 0 left = left := by
  funext p
  exact if_neg (by omega)

theorem good_initial : Good req answers 0 0 .initial :=
  ⟨rfl, (written_none 0 _).symm, rfl, rfl, rfl⟩

namespace Good

variable {n i : Nat} {st : DmaState}

theorem next (good : Good req answers n (req.sgNents n) st) : Good req answers (n + 1) 0 st where
  calls := by rw [good.calls, MapRequest.callsBefore_succ, Nat.add_zero]
  address := by rw [written_none, leftAt, good.address]
  entries := by rw [good.entries, perEntry_next]
  mapped := by rw [good.mapped, perEntry_next]
  unmapped := good.unmapped

theorem mapEntry_address (good : Good req answers n i st) :
    (mapEntry req answers n i st).dmaAddress =
      written req answers n (i + 1) (leftAt req answers n) := by
  rw [← written_succ, ← good.address, ← good.calls]
  rfl

theorem step (good : Good req answers n i st) (hok : answers (req.callsBefore n + i) ≠ 0) :
    Good req answers n (i + 1) (mapEntry req answers n i st) := by
  rw [← good.calls] at hok
  refine ⟨?_, good.mapEntry_address, ?_, ?_, good.unmapped⟩
  · simp only [mapEntry, good.calls, add_assoc]
  · simp only [mapEntry, if_neg hok]
    rw [good.entries, perEntry_succ]
  · simp only [mapEntry, if_neg hok]
    rw [good.mapped, perEntry_succ, planned, good.calls]

/-- The loop goes through `a` successful calls. -/
theorem mapLoop_add (good : Good req answers n i st) {a : Nat} (b : Nat)
    (hok : ∀ k < a, answers (req.callsBefore n + (i + k)) ≠ 0) :
    ∃ st', Good req answers n (i + a) st' ∧
      mapLoop req answers n (a + b) i i 0 st = mapLoop req answers n b (i + a) (i + a) 0 st' := by
  induction a generalizing i st with
  | zero => exact ⟨st, good, by rw [zero_add, add_zero]⟩
  | succ a ih =>
    have hthis : answers (req.callsBefore n + i) ≠ 0 := hok 0 (Nat.succ_pos a)
    obtain ⟨st', good', hloop⟩ := ih (good.step hthis) fun k hk => by
      have := hok (k + 1) (Nat.succ_lt_succ hk)
      rwa [← add_assoc i, add_right_comm] at this
    have haddr : (mapEntry req answers n i st).dmaAddress (req.place n i) ≠ 0 := by
      simpa [mapEntry, good.calls] using hthis
    have hi : i + (a + 1) = i + 1 + a := by omega
    refine ⟨st', by rw [hi]; exact good', ?_⟩
    rw [Nat.succ_add, mapLoop, if_neg haddr, hloop, hi]

/-- The lists before `n + a` are mapped one after the other. -/
theorem mapLists_add (good : Good req answers n 0 st) {a : Nat} (b : Nat)
    (hok : ∀ call < req.callsBefore (n + a), answers call ≠ 0) :
    ∃ st', Good req answers (n + a) 0 st' ∧
      mapLists req answers (a + b) n st = mapLists req answers b (n + a) st' := by
  induction a generalizing n st with
  | zero => exact ⟨st, good, by rw [Nat.zero_add, Nat.add_zero]⟩
  | succ a ih =>
    have hn : n + (a + 1) = n + 1 + a := by omega
    rw [hn] at hok ⊢
    have hlist : req.callsBefore n + req.sgNents n ≤ req.callsBefore (n + 1 + a) := by
      rw [← MapRequest.callsBefore_succ]
      exact MapRequest.callsBefore_mono (Nat.le_add_right _ _)
    obtain ⟨st₁, good₁, hloop⟩ := @mapLoop_add req answers n 0 st good (req.sgNents n) 0 fun k hk =>
      hok _ (by omega)
    rw [Nat.zero_add] at good₁
    obtain ⟨st', good', hlists⟩ := ih good₁.next hok
    refine ⟨st', good', ?_⟩
    have hmap : dmaMapSg req answers n st = (st₁, 0) := hloop
    rw [Nat.succ_add, mapLists, hmap]
    exact hlists

end Good

/-! ## The first failure -/

/-- Entry `i` of list `n` has failed, the entries before it in the list were unmapped. -/
structure Rolled (req : MapRequest) (answers : Nat → Nat) (n i : Nat) (st : DmaState) : Prop where
  address : st.dmaAddress = written req answers n (i + 1) (leftAt req answers n)
  failed : st.dmaAddress (req.place n i) = 0
  mapped : st.mapped = perEntry req (planned req answers) n i
  unmapped : st.unmapped = (List.range i).map (planned req answers n)

variable {n i : Nat} {st : DmaState}

theorem Good.fail (good : Good req answers n i st) (t : Nat)
    (hfail : answers (req.callsBefore n + i) = 0) :
    ∃ st', Rolled req answers n i st' ∧
      mapLoop req answers n (t + 1) i i 0 st =
        mapLoop req answers n t (i + 1) (i + 1) (-eNoMem) st' := by
  have haddress := good.mapEntry_address
  have haddr : (mapEntry req answers n i st).dmaAddress (req.place n i) = 0 := by
    rw [haddress, written_place (Nat.lt_succ_self i), hfail]
  rw [← good.calls] at hfail
  refine ⟨(unmapLoop req n i 0 (mapEntry req answers n i st)).1, ?_, ?_⟩
  · rw [unmapLoop_eq]
    refine ⟨haddress, haddr, ?_, ?_⟩
    · simp only [mapEntry, if_pos hfail]
      exact good.mapped
    · rw [show (mapEntry req answers n i st).unmapped = [] from good.unmapped, nil_append]
      apply map_congr_left
      intro k hk
      have hlt : k < i + 1 := Nat.lt_succ_of_lt (mem_range.mp hk)
      rw [zero_add, DmaState.mapping, haddress, written_place hlt, planned]
  · rw [mapLoop, if_pos haddr, unmapLoop_eq, zero_add]

theorem Rolled.perm_iff (rolled : Rolled req answers n i st) (hlast : i + 1 = req.sgNents n) :
    (unmapLists req n 0 st).mapped.Perm (unmapLists req n 0 st).unmapped ↔
      FoundAgain req answers n := by
  have hfound : st.mapping req = found req answers n := by
    funext m k
    rw [DmaState.mapping, rolled.address, hlast]
    rfl
  rw [unmapLists_eq]
  simp only [rolled.mapped, rolled.unmapped, zero_add, hfound, FoundAgain, perEntry, range_zero,
    map_nil, append_nil]
  -- the entries of list `n` itself are on both sides
  rw [(perm_append_comm).congr_left, perm_append_left_iff]

theorem foundAgain_of_apart (h : ∀ m < n, ∀ m' ≤ n, m ≠ m' → ∀ k < req.sgNents m,
    ∀ k' < req.sgNents m', req.place m k ≠ req.place m' k') : FoundAgain req answers n := by
  have hleft : ∀ m < n, ∀ k < req.sgNents m, ∀ n' ≤ n + 1, m < n' →
      leftAt req answers n' (req.place m k) = answers (req.callsBefore m + k) := by
    intro m hm k hk n'
    induction n' with
    | zero => exact fun _ hlt => absurd hlt (Nat.not_lt_zero m)
    | succ n' ih =>
      intro hn' hlt
      rw [leftAt]
      rcases Nat.lt_succ_iff_lt_or_eq.mp hlt with hless | rfl
      · -- a later list does not reach the entry
        have hout : ¬ (req.start n' ≤ req.place m k ∧
            req.place m k < req.start n' + req.sgNents n') := by
          rintro ⟨hle, hend⟩
          refine h m hm n' (by omega) (Nat.ne_of_lt hless) k hk (req.place m k - req.start n')
            (by omega) ?_
          unfold MapRequest.place at hle ⊢
          omega
        rw [written, if_neg hout]
        exact ih (by omega) hless
      · exact written_place hk _
  refine Perm.of_eq ?_
  simp only [perEntry, range_zero, map_nil, append_nil]
  apply flatMap_congr
  intro m hm
  have hm := mem_range.mp hm
  apply map_congr_left
  intro k hk
  rw [planned, found, hleft m hm k (mem_range.mp hk) (n + 1) (Nat.le_refl _) (by omega)]

end

/-! ## Going on behind a failure -/

section

variable {req : MapRequest} {answers : Nat → Nat} {n i s : Nat} {st : DmaState}

/-- Something was unmapped that has no address. -/
def Zeroed (st : DmaState) : Prop := ∃ u ∈ st.unmapped, u.addr = 0

theorem mapLoop_error (turns : Nat) :
    (mapLoop req answers n turns i s (-eNoMem) st).2 = -eNoMem := by
  induction turns generalizing i s st with
  | zero => rfl
  | succ turns ih =>
    rw [mapLoop]
    split
    · exact ih
    · exact ih

theorem mapLoop_zeroed {ret : Int} (turns : Nat) (h : Zeroed st) :
    Zeroed (mapLoop req answers n turns i s ret st).1 := by
  induction turns generalizing i s ret st with
  | zero => exact h
  | succ turns ih =>
    obtain ⟨u, hu, hzero⟩ := h
    rw [mapLoop]
    split
    · rw [unmapLoop_eq]
      exact ih ⟨u, mem_append_left _ hu, hzero⟩
    · exact ih ⟨u, hu, hzero⟩

theorem mapLoop_nonzero {ret : Int} (turns : Nat) (h : ∀ u ∈ st.mapped, u.addr ≠ 0) :
    ∀ u ∈ (mapLoop req answers n turns i s ret st).1.mapped, u.addr ≠ 0 := by
  have hentry : ∀ {s : Nat} {st : DmaState}, (∀ u ∈ st.mapped, u.addr ≠ 0) →
      ∀ u ∈ (mapEntry req answers n s st).mapped, u.addr ≠ 0 := by
    intro s st h u hu
    simp only [mapEntry] at hu
    split at hu
    · exact h u hu
    · rename_i haddr
      rcases mem_append.mp hu with hu | hu
      · exact h u hu
      · rw [mem_singleton.mp hu]
        exact haddr
  induction turns generalizing i s ret st with
  | zero => exact h
  | succ turns ih =>
    rw [mapLoop]
    split
    · rw [unmapLoop_eq]
      exact ih (hentry h)
    · exact ih (hentry h)

/-- Behind an entry that has failed, either all calls succeed and nothing is unmapped any more, or
the next failure unmaps the entry that was never mapped. -/
theorem mapLoop_lost {p : Nat} (turns : Nat) (hp : p < i)
    (hfailed : st.dmaAddress (req.place n p) = 0) :
    Zeroed (mapLoop req answers n turns i i (-eNoMem) st).1 ∨
      ((mapLoop req answers n turns i i (-eNoMem) st).1.mapped.length =
        st.mapped.length + turns ∧
      (mapLoop req answers n turns i i (-eNoMem) st).1.unmapped = st.unmapped) := by
  induction turns generalizing i st with
  | zero => exact Or.inr ⟨rfl, rfl⟩
  | succ turns ih =>
    have hkept : (mapEntry req answers n i st).dmaAddress (req.place n p) = 0 := by
      have hne : req.place n p ≠ req.place n i := by
        unfold MapRequest.place
        omega
      exact (Function.update_of_ne hne _ _).trans hfailed
    rw [mapLoop]
    split
    · -- the roll-back of the second failure comes to entry `p`
      left
      rw [unmapLoop_eq]
      apply mapLoop_zeroed
      refine ⟨(mapEntry req answers n i st).mapping req n (0 + p), ?_, ?_⟩
      · apply mem_append_right
        exact mem_map_of_mem (mem_range.mpr hp)
      · rw [zero_add]
        exact hkept
    · rename_i haddr
      have hsome : answers st.calls ≠ 0 := by simpa [mapEntry] using haddr
      rcases ih (Nat.lt_succ_of_lt hp) hkept with hzero | ⟨hlength, hunmapped⟩
      · exact Or.inl hzero
      · right
        refine ⟨?_, hunmapped⟩
        rw [hlength]
        simp only [mapEntry, if_neg hsome, length_append, length_singleton]
        omega

/-- A failure that is not the last entry of its list is never repaired: a mapping is lost, or
something is unmapped that was not mapped. -/
theorem Rolled.not_perm (rolled : Rolled req answers n i st) {t : Nat} (ht : 0 < t)
    (hok : ∀ call < req.callsBefore n + i, answers call ≠ 0) :
    ¬ (unmapLists req n 0 (mapLoop req answers n t (i + 1) (i + 1) (-eNoMem) st).1).mapped.Perm
      (unmapLists req n 0 (mapLoop req answers n t (i + 1) (i + 1) (-eNoMem) st).1).unmapped := by
  intro hperm
  rcases @mapLoop_lost req answers n (i + 1) st i t (Nat.lt_succ_self i) rolled.failed with
    ⟨u, hu, hzero⟩ | ⟨hmapped, hunmapped⟩
  · have hnonzero : ∀ u ∈ st.mapped, u.addr ≠ 0 := by
      intro u hu
      rw [rolled.mapped] at hu
      obtain ⟨m, k, hlt, rfl⟩ := mem_perEntry hu
      exact hok _ hlt
    rw [unmapLists_eq] at hperm
    have hmem := hperm.mem_iff.mpr (mem_append_left _ hu)
    exact mapLoop_nonzero t hnonzero u hmem hzero
  · have hlength := hperm.length_eq
    rw [unmapLists_length, hunmapped, rolled.unmapped, length_map, length_range,
      unmapLists_eq] at hlength
    simp only at hlength
    rw [hmapped, rolled.mapped, length_perEntry] at hlength
    omega

end

/-! ## The call -/

section

variable {req : MapRequest} {answers : Nat → Nat}

/-- Every call of `dma_map_single` is for an entry of a list. -/
theorem exists_entry {call n : Nat} (h : call < req.callsBefore n) :
    ∃ m < n, ∃ k < req.sgNents m, call = req.callsBefore m + k := by
  induction n with
  | zero => exact absurd h (Nat.not_lt_zero call)
  | succ n ih =>
    rw [MapRequest.callsBefore_succ] at h
    rcases Nat.lt_or_ge call (req.callsBefore n) with hlt | hge
    · obtain ⟨m, hm, k, hk, hcall⟩ := ih hlt
      exact ⟨m, Nat.lt_succ_of_lt hm, k, hk, hcall⟩
    · exact ⟨n, Nat.lt_succ_self n, call - req.callsBefore n, by omega, by omega⟩

theorem eNoMem_ne : (-eNoMem : Int) ≠ 0 := by decide

theorem mapLists_noFailure (hok : NoFailure req answers) :
    ∃ st, Good req answers req.sgs 0 st ∧ mapLists req answers req.sgs 0 .initial = (st, 0) := by
  obtain ⟨st, good, hlists⟩ :=
    @Good.mapLists_add req answers 0 .initial good_initial req.sgs 0 (by rwa [zero_add])
  rw [zero_add] at good hlists
  exact ⟨st, good, hlists⟩

/-- A call whose first failure is at entry `k` of list `n`, with `t` entries behind it -/
theorem mapLists_failure {n k t : Nat} (hn : n < req.sgs) (ht : k + (t + 1) = req.sgNents n)
    (hfail : answers (req.callsBefore n + k) = 0)
    (hok : ∀ call < req.callsBefore n + k, answers call ≠ 0) :
    ∃ st, Rolled req answers n k st ∧ mapLists req answers req.sgs 0 .initial =
      (unmapLists req n 0 (mapLoop req answers n t (k + 1) (k + 1) (-eNoMem) st).1, -eNoMem) := by
  obtain ⟨rest, hrest⟩ : ∃ rest, req.sgs = n + (rest + 1) := ⟨req.sgs - n - 1, by omega⟩
  obtain ⟨st₀, good₀, hlists⟩ := @Good.mapLists_add req answers 0 .initial good_initial n (rest + 1)
    fun call hcall => hok call (by rw [zero_add] at hcall; omega)
  rw [zero_add] at good₀ hlists
  obtain ⟨st₁, good₁, hloop₁⟩ := @Good.mapLoop_add req answers n 0 st₀ good₀ k (t + 1)
    fun j hj => hok _ (by omega)
  rw [zero_add] at good₁ hloop₁
  obtain ⟨st, rolled, hloop⟩ := good₁.fail t hfail
  have hmap : dmaMapSg req answers n st₀ =
      ((mapLoop req answers n t (k + 1) (k + 1) (-eNoMem) st).1, -eNoMem) := by
    rw [dmaMapSg, ← ht, hloop₁, hloop]
    exact Prod.ext rfl (mapLoop_error t)
  refine ⟨st, rolled, ?_⟩
  rw [hrest, hlists, mapLists, hmap]
  exact if_pos eNoMem_ne

theorem length_entries : req.entries.length = req.totalSg := by
  simp [MapRequest.entries, MapRequest.totalSg, length_flatMap]

/-- The loops go through all entries of the request and no others exactly when the first list was
not prolonged. -/
theorem perEntry_perm_iff :
    (perEntry req req.place req.sgs 0).Perm req.entries ↔ ¬ req.Prolonged := by
  constructor
  · rintro hperm ⟨hone, hmany⟩
    have hlength := hperm.length_eq
    rw [length_perEntry, length_entries, add_zero] at hlength
    -- all calls are for the first list, so there is no other one
    have hsecond : req.callsBefore 2 ≤ req.callsBefore req.sgs := MapRequest.callsBefore_mono hmany
    have hpos := (MapRequest.marks_sgNents hmany).1
    rw [MapRequest.callsBefore_succ, MapRequest.callsBefore_succ,
      MapRequest.sgNents_zero hone] at hsecond
    omega
  · intro hnot
    refine Perm.of_eq ?_
    rw [perEntry, MapRequest.entries, range_zero, map_nil, append_nil]
    apply flatMap_congr
    intro n hn
    rw [MapRequest.sgNents_eq hnot (mem_range.mp hn)]

theorem allOrNothing_noFailure (hok : NoFailure req answers) :
    AllOrNothing req (mapLists req answers req.sgs 0 .initial) ↔ ¬ req.Prolonged := by
  obtain ⟨st, good, hrun⟩ := mapLists_noFailure hok
  rw [hrun, ← perEntry_perm_iff, ← good.entries]
  constructor
  · intro hall
    exact (hall.2 rfl).1
  · intro hperm
    exact ⟨fun h => absurd rfl h, fun _ => ⟨hperm, good.unmapped⟩⟩

/-- With a first failure at entry `k` of list `n` -/
theorem allOrNothing_failure {n k : Nat} (hn : n < req.sgs) (hk : k < req.sgNents n)
    (hfail : answers (req.callsBefore n + k) = 0)
    (hok : ∀ call < req.callsBefore n + k, answers call ≠ 0) :
    AllOrNothing req (mapLists req answers req.sgs 0 .initial) ↔
      k + 1 = req.sgNents n ∧ FoundAgain req answers n := by
  obtain ⟨t, ht⟩ : ∃ t, k + (t + 1) = req.sgNents n := ⟨req.sgNents n - k - 1, by omega⟩
  obtain ⟨st, rolled, hrun⟩ := mapLists_failure hn ht hfail hok
  rw [hrun]
  cases t with
  | zero =>
    rw [← rolled.perm_iff ht]
    exact ⟨fun hall => ⟨ht, hall.1 eNoMem_ne⟩, fun h => ⟨fun _ => h.2, fun h => absurd h eNoMem_ne⟩⟩
  | succ t =>
    refine iff_of_false (fun hall => ?_) (fun h => by omega)
    exact rolled.not_perm (Nat.succ_pos t) hok (hall.1 eNoMem_ne)

/-- **The mapping is all or nothing exactly when** the device has no parent, or the first failure of
`dma_map_single` is at the last entry of its list and the mappings of the lists before are found
again, and without a failure the first list was not prolonged. -/
theorem vringMapSg_allOrNothing_iff (req : MapRequest) (answers : Nat → Nat) (parent : Bool) :
    AllOrNothing req (vringMapSg req answers parent) ↔
      (parent = true →
        RollsBack req answers ∧ (NoFailure req answers → ¬ req.Prolonged)) := by
  cases parent with
  | false =>
    refine iff_of_true ⟨fun _ => List.Perm.refl _, fun h => absurd h eNoMem_ne⟩ ?_
    exact fun h => absurd h (by decide)
  | true =>
    have hcall : vringMapSg req answers true = mapLists req answers req.sgs 0 .initial := rfl
    rw [hcall]
    by_cases hok : NoFailure req answers
    · rw [allOrNothing_noFailure hok]
      have hlast : RollsBack req answers := by
        intro n hn k hk hfail _
        have hlist : req.callsBefore (n + 1) ≤ req.callsBefore req.sgs :=
          MapRequest.callsBefore_mono hn
        rw [MapRequest.callsBefore_succ] at hlist
        exact absurd hfail (hok _ (by omega))
      exact ⟨fun hsame _ => ⟨hlast, fun _ => hsame⟩, fun h => (h rfl).2 hok⟩
    · -- look at the first call that fails
      have hfails : ∃ call, call < req.callsBefore req.sgs ∧ answers call = 0 := by
        simpa [NoFailure] using hok
      obtain ⟨hlt, hfail⟩ := Nat.find_spec hfails
      have hbefore : ∀ call < Nat.find hfails, answers call ≠ 0 := fun call hcall hzero =>
        Nat.find_min hfails hcall ⟨Nat.lt_trans hcall hlt, hzero⟩
      obtain ⟨n, hn, k, hk, hentry⟩ := exists_entry hlt
      rw [hentry] at hfail hbefore
      rw [allOrNothing_failure hn hk hfail hbefore]
      constructor
      · intro hend _
        refine ⟨fun n' hn' k' hk' hfail' hbefore' => ?_, fun h => absurd h hok⟩
        exact (allOrNothing_failure hn' hk' hfail' hbefore').mp
          ((allOrNothing_failure hn hk hfail hbefore).mpr hend)
      · intro hcondition
        exact (hcondition rfl).1 n hn k hk hfail hbefore

end

/-! ## A list of three entries -/

/-- One list of three entries for the device -/
def threeEntries : MapRequest where
  outSgs := 1
  inSgs := 0
  start _ := 0
  nents _ := 3
  nents_pos _ := by decide
  isLast p := p = 2
  length p := 100 + p
  ends h := absurd rfl h

/-- The second of three calls fails: the first entry is unmapped, and the third one, which is mapped
after that, never is. -/
theorem threeEntries_lost :
    ¬ AllOrNothing threeEntries
      (vringMapSg threeEntries (fun call => if call = 1 then 0 else 4096 * (call + 1)) true) := by
  intro hall
  have hperm := hall.1 (by decide)
  exact absurd hperm.length_eq (by decide)

end Vcass.VirtioRing
