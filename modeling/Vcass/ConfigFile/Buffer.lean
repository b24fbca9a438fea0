import Mathlib.Data.Nat.Log
import Vcass.Core.Bytes
import Vcass.Core.Kernel

/-!
# The Buffers of Configuration Files

`plx_hw.c`: a text that the other side shall read is kept in pages of its own.
`plx_set_config_file` frees the pages of the previous text, allocates new ones, copies and
terminates the text and maps it for DMA; `plx_clear_dma_mapped_mem` frees the pages when the device
stops.  Both work on a triple of DMA address, size and virtual address that belongs to the caller.

`get_order` takes a number of bytes, but both functions give it a number of pages, so that a text
gets one page as long as it is not larger than 16 MiB.  Besides, clearing leaves the triple as it
was.  `configCalls_balanced_iff`: **every text fits into its pages, and the pages of every text
are freed exactly once, exactly when every text with its terminator fits into one page and nothing
is done after a clearing.**

The messages, `dma_unmap_single` and the failure of `dma_map_single`, which is only reported, are
left out.
-/

namespace Vcass.ConfigFile

open Vcass.Core List

/-! ## Pages -/

/-- `DIV_ROUND_UP` -/
def divRoundUp (n d : Nat) : Nat := (n + d - 1) / d

/-- `get_order`, of a number of bytes -/
def getOrder (size : Nat) : Nat := Nat.clog 2 (divRoundUp size pageSize)

/-- Pages from the allocator.  They are told apart by the number of the allocation, also after they
were freed. -/
structure Pages where
  order : Nat
  /-- The bytes from the start of the pages on, also those beyond their end -/
  contents : Bytes
  /-- The length that was given to `dma_map_single` -/
  mapped : Nat
  /-- History: the orders with which the pages were freed -/
  freed : List Nat

def Pages.room (p : Pages) : Nat := pageSize * 2 ^ p.order

/-- The triple of the caller, and all pages that were ever allocated for it -/
structure Config where
  dmaAddr : UInt64
  size : Nat
  /-- 0, or the address of the pages with index `virtAddr - 1` -/
  virtAddr : Nat
  pages : List Pages

def Config.initial : Config := ⟨0, 0, 0, []⟩

/-- `free_pages`; the address 0 is ignored. -/
def Config.freePages (s : Config) (addr order : Nat) : Config :=
  if addr = 0 then s
  else
    { s with pages := s.pages.modify (addr - 1) fun p => { p with freed := p.freed ++ [order] } }

/-! ## The functions -/

/-- What `__get_dma_pages` and `dma_map_single` give: the bytes that lie behind the new pages, and
the DMA address -/
structure NewPages where
  beyond : Bytes
  dmaAddr : UInt64

/-- New pages are zeroed. -/
def NewPages.contents (new : NewPages) (order : Nat) : Bytes := fun k =>
  if k < pageSize * 2 ^ order then 0 else new.beyond k

/-- `memcpy_toio` of the text, and its terminator, which replaces a newline at the end -/
def storeText (m : Bytes) (buf : List UInt8) : Bytes :=
  let count := buf.length
  let m := m.write 0 buf
  if m (count - 1) = 10 then m.write (count - 1) [0] else m.write count [0]

/-- `plx_clear_dma_mapped_mem` -/
def plxClearDmaMappedMem (s : Config) : Config :=
  let pagesNum := divRoundUp s.size pageSize
  if pagesNum ≠ 0 then s.freePages s.virtAddr (getOrder pagesNum) else s

/-- "If already exist, then delete", at the start of `plx_set_config_file` -/
def deleteOld (s : Config) : Config :=
  if s.size ≠ 0 then
    let oldPagesNum := divRoundUp s.size pageSize
    { s.freePages s.virtAddr (getOrder oldPagesNum) with dmaAddr := 0, virtAddr := 0, size := 0 }
  else s

/-- `plx_set_config_file`; `new` is none when the allocation fails.  The size is stored in a
`__u32`. -/
def plxSetConfigFile (s : Config) (buf : List UInt8) (new : Option NewPages) : Config × Int :=
  let count := buf.length
  let pagesNum := divRoundUp (count + 1) pageSize
  let s := deleteOld s
  match new with
  | none => (s, -eNoMem)
  | some new =>
    let order := getOrder pagesNum
    let config := storeText (new.contents order) buf
    ({ dmaAddr := new.dmaAddr, size := (count + 1) % 2 ^ 32, virtAddr := s.pages.length + 1,
       pages := s.pages ++ [⟨order, config, count + 1, []⟩] }, count)

/-! ## Sequences of calls -/

/-- A call on the triple; a text has at least one byte. -/
inductive ConfigCall where
  | set (buf : List UInt8) (nonempty : buf ≠ []) (new : Option NewPages)
  | clear

def callStep (s : Config) : ConfigCall → Config
  | .set buf _ new => (plxSetConfigFile s buf new).1
  | .clear => plxClearDmaMappedMem s

/-- Whether the triple is left with pages, by the last call -/
def leavesPages : Bool → List ConfigCall → Bool
  | held, [] => held
  | _, .set _ _ new :: calls => leavesPages new.isSome calls
  | _, .clear :: calls => leavesPages false calls

/-- Every text fits into its pages, and the pages of every text were freed exactly once with the
order they were allocated with. -/
def Settled (pages : List Pages) : Prop :=
  ∀ p ∈ pages, p.mapped ≤ p.room ∧ p.freed = [p.order]

/-- The same, but for the last pages when they are still in use -/
def Balanced : Bool → List Pages → Prop
  | false, pages => Settled pages
  | true, pages =>
    ∃ gone p, pages = gone ++ [p] ∧ Settled gone ∧ p.mapped ≤ p.room ∧ p.freed = []

/-- Every text that gets pages fits into one page with its terminator, and no call comes after one
that clears pages. -/
def Careful : Bool → List ConfigCall → Prop
  | _, [] => True
  | _, .set buf _ (some _) :: calls => buf.length + 1 ≤ pageSize ∧ Careful true calls
  | _, .set _ _ none :: calls => Careful false calls
  | true, .clear :: calls => calls = []
  | false, .clear :: calls => Careful false calls

/-! ## Orders -/

/-- `divRoundUp` rounds up. -/
theorem divRoundUp_le_iff {n d k : Nat} (hd : 0 < d) : divRoundUp n d ≤ k ↔ n ≤ d * k := by
  rw [divRoundUp, Nat.div_le_iff_le_mul_add_pred hd]
  omega

/-- `get_order` is the least order with enough room. -/
theorem getOrder_le_iff {size k : Nat} : getOrder size ≤ k ↔ size ≤ pageSize * 2 ^ k := by
  rw [getOrder, Nat.clog_le_iff_le_pow Nat.one_lt_two, divRoundUp_le_iff (by decide)]

/-- With the number of pages in place of the number of bytes, the room is enough for one page and
for nothing larger. -/
theorem room_of_pagesNum {need : Nat} :
    need ≤ pageSize * 2 ^ getOrder (divRoundUp need pageSize) ↔ need ≤ pageSize := by
  have hpages : ∀ k, divRoundUp need pageSize ≤ k ↔ need ≤ 4096 * k := fun k =>
    divRoundUp_le_iff (by decide)
  constructor
  · intro hroom
    by_contra hlarge
    generalize hnum : divRoundUp need pageSize = num at hroom hpages
    cases horder : getOrder num with
    | zero =>
      rw [horder] at hroom
      exact hlarge hroom
    | succ k =>
      -- the order is the least one, so half the room is less than the number of pages
      have hhalf : ¬ num ≤ pageSize * 2 ^ k := by
        rw [← getOrder_le_iff, horder]
        omega
      have htwo : ¬ num ≤ 1 := by
        rw [hpages]
        exact hlarge
      have hless : ¬ num ≤ num - 1 := by omega
      rw [hpages] at hless
      rw [horder, pow_succ] at hroom
      rw [pageSize] at hroom hhalf
      omega
  · intro hsmall
    exact le_trans hsmall (Nat.le_mul_of_pos_right _ (Nat.two_pow_pos _))

/-! ## What a call does to the pages -/

/-- The pages after one more `free_pages` -/
def Pages.free (p : Pages) (order : Nat) : Pages := { p with freed := p.freed ++ [order] }

/-- The triple names the pages `p`, which came after those in `gone`. -/
structure Names (s : Config) (gone : List Pages) (p : Pages) : Prop where
  pages : s.pages = gone ++ [p]
  virtAddr : s.virtAddr = gone.length + 1
  size : s.size = p.mapped
  mapped_pos : 0 < p.mapped
  order : p.order = getOrder (divRoundUp p.mapped pageSize)

section

variable {s : Config} {gone : List Pages} {p : Pages}

theorem modify_last {α : Type*} (xs : List α) (x : α) (f : α → α) :
    (xs ++ [x]).modify xs.length f = xs ++ [f x] := by
  induction xs with
  | nil => rfl
  | cons y xs ih => simp [ih]

namespace Names

/-- Freeing what the triple names uses the order of the allocation, because the size is still the
one that the order was computed from. -/
theorem freePages (names : Names s gone p) :
    s.freePages s.virtAddr (getOrder (divRoundUp s.size pageSize)) =
      { s with pages := gone ++ [p.free p.order] } := by
  have haddr : s.virtAddr ≠ 0 := by
    rw [names.virtAddr]
    exact Nat.succ_ne_zero _
  rw [Config.freePages, if_neg haddr, names.size, ← names.order, names.virtAddr, names.pages,
    Nat.add_sub_cancel, modify_last]
  rfl

theorem clear (names : Names s gone p) : Names (plxClearDmaMappedMem s) gone (p.free p.order) := by
  have hnum : divRoundUp s.size pageSize ≠ 0 := by
    intro hzero
    have hsize := (divRoundUp_le_iff (by decide)).mp (le_of_eq hzero)
    have hpos := names.mapped_pos
    rw [← names.size] at hpos
    omega
  have hclear : plxClearDmaMappedMem s = { s with pages := gone ++ [p.free p.order] } := by
    rw [plxClearDmaMappedMem, if_pos hnum, names.freePages]
  rw [hclear]
  exact ⟨rfl, names.virtAddr, names.size, names.mapped_pos, names.order⟩

theorem deleteOld (names : Names s gone p) : deleteOld s = ⟨0, 0, 0, gone ++ [p.free p.order]⟩ := by
  have hsize : s.size ≠ 0 := by
    rw [names.size]
    exact ne_of_gt names.mapped_pos
  rw [ConfigFile.deleteOld, if_pos hsize]
  simp only [names.freePages]

end Names

theorem deleteOld_of_empty (hsize : s.size = 0) : deleteOld s = s := by
  rw [deleteOld, if_neg (not_not_intro hsize)]

def NewPages.pagesFor (new : NewPages) (buf : List UInt8) : Pages :=
  let order := getOrder (divRoundUp (buf.length + 1) pageSize)
  ⟨order, storeText (new.contents order) buf, buf.length + 1, []⟩

theorem set_pages (buf : List UInt8) (new : NewPages) :
    (plxSetConfigFile s buf (some new)).1.pages = (deleteOld s).pages ++ [new.pagesFor buf] := rfl

theorem names_set {buf : List UInt8} (hfits : buf.length + 1 ≤ pageSize) (new : NewPages) :
    Names (plxSetConfigFile s buf (some new)).1 (deleteOld s).pages (new.pagesFor buf) where
  pages := rfl
  virtAddr := rfl
  size := by
    rw [pageSize] at hfits
    exact Nat.mod_eq_of_lt (by omega)
  mapped_pos := Nat.succ_pos _
  order := rfl

theorem pagesFor_fits_iff (buf : List UInt8) (new : NewPages) :
    (new.pagesFor buf).mapped ≤ (new.pagesFor buf).room ↔ buf.length + 1 ≤ pageSize :=
  room_of_pagesNum

end

/-! ## What cannot be repaired -/

/-- Pages that are too small, or that were freed twice -/
def Broken (pages : List Pages) : Prop :=
  ∃ p ∈ pages, p.room < p.mapped ∨ 2 ≤ p.freed.length

namespace Broken

variable {pages : List Pages} {s : Config}

theorem append (h : Broken pages) (more : List Pages) : Broken (pages ++ more) := by
  obtain ⟨p, hp, hbad⟩ := h
  exact ⟨p, mem_append_left more hp, hbad⟩

theorem freePages (h : Broken s.pages) (addr order : Nat) :
    Broken (s.freePages addr order).pages := by
  unfold Config.freePages
  split
  · exact h
  · obtain ⟨p, hp, hbad⟩ := h
    obtain ⟨i, hi⟩ := mem_iff_getElem?.mp hp
    have hget := List.getElem?_modify (fun p : Pages => p.free order) (addr - 1) s.pages i
    rw [hi] at hget
    refine ⟨_, mem_of_getElem? hget, ?_⟩
    -- the list of frees only grows
    dsimp only
    split
    · rcases hbad with hroom | htwice
      · exact Or.inl hroom
      · refine Or.inr (le_trans htwice ?_)
        simp [Pages.free]
    · exact hbad

theorem deleteOld (h : Broken s.pages) : Broken (deleteOld s).pages := by
  unfold ConfigFile.deleteOld
  split
  · exact h.freePages _ _
  · exact h

theorem callStep (h : Broken s.pages) (call : ConfigCall) : Broken (callStep s call).pages := by
  cases call with
  | set buf nonempty new =>
    cases new with
    | none => exact h.deleteOld
    | some new => exact h.deleteOld.append _
  | clear =>
    change Broken (plxClearDmaMappedMem s).pages
    unfold plxClearDmaMappedMem
    dsimp only
    split
    · exact h.freePages _ _
    · exact h

theorem run (h : Broken s.pages) (calls : List ConfigCall) :
    Broken (calls.foldl ConfigFile.callStep s).pages := by
  induction calls generalizing s with
  | nil => exact h
  | cons call calls ih => exact ih (h.callStep call)

theorem not_settled (h : Broken pages) : ¬ Settled pages := by
  obtain ⟨p, hp, hbad⟩ := h
  intro hsettled
  obtain ⟨hroom, hfreed⟩ := hsettled p hp
  have hone : p.freed.length = 1 := by rw [hfreed, length_singleton]
  omega

theorem not_balanced (h : Broken pages) (held : Bool) : ¬ Balanced held pages := by
  cases held with
  | false => exact h.not_settled
  | true =>
    rintro ⟨gone, p, rfl, hgone, hroom, hfreed⟩
    obtain ⟨q, hq, hbad⟩ := h
    rcases mem_append.mp hq with hq | hq
    · exact not_settled ⟨q, hq, hbad⟩ hgone
    · obtain rfl := mem_singleton.mp hq
      have hnone : q.freed.length = 0 := by rw [hfreed, length_nil]
      omega

end Broken

/-! ## The balance -/

/-- What the triple is like as long as nothing went wrong: empty, or with the pages of the last
text -/
def Phase : Bool → Config → Prop
  | false, s => s.size = 0 ∧ Settled s.pages
  | true, s => ∃ gone p, Names s gone p ∧ Settled gone ∧ p.mapped ≤ p.room ∧ p.freed = []

section

variable {s : Config} {held : Bool}

theorem Phase.balanced (phase : Phase held s) : Balanced held s.pages := by
  cases held with
  | false => exact phase.2
  | true =>
    obtain ⟨gone, p, names, hgone, hroom, hfreed⟩ := phase
    exact ⟨gone, p, names.pages, hgone, hroom, hfreed⟩

variable {gone : List Pages}

theorem settled_free {p : Pages} (hgone : Settled gone)
    (hroom : p.mapped ≤ p.room) (hfreed : p.freed = []) : Settled (gone ++ [p.free p.order]) := by
  intro q hq
  rcases mem_append.mp hq with hq | hq
  · exact hgone q hq
  · obtain rfl := mem_singleton.mp hq
    refine ⟨hroom, ?_⟩
    simp [Pages.free, hfreed]

theorem broken_free {p : Pages} (hfreed : p.freed ≠ []) (order : Nat) :
    Broken (gone ++ [p.free order]) := by
  refine ⟨p.free order, by simp, Or.inr ?_⟩
  have hpos := length_pos_of_ne_nil hfreed
  simp only [Pages.free, length_append, length_singleton]
  omega

theorem Phase.deleteOld (phase : Phase held s) : Phase false (deleteOld s) := by
  cases held with
  | false =>
    rw [deleteOld_of_empty phase.1]
    exact phase
  | true =>
    obtain ⟨gone, p, names, hgone, hroom, hfreed⟩ := phase
    rw [names.deleteOld]
    exact ⟨rfl, settled_free hgone hroom hfreed⟩

theorem Phase.set (phase : Phase held s) {buf : List UInt8}
    (hfits : buf.length + 1 ≤ pageSize) (new : NewPages) :
    Phase true (plxSetConfigFile s buf (some new)).1 :=
  ⟨_, _, names_set hfits new, phase.deleteOld.2, (pagesFor_fits_iff buf new).mpr hfits, rfl⟩

theorem broken_set {buf : List UInt8} (hlarge : ¬ buf.length + 1 ≤ pageSize) (new : NewPages) :
    Broken (plxSetConfigFile s buf (some new)).1.pages := by
  rw [set_pages]
  refine ⟨new.pagesFor buf, by simp, Or.inl ?_⟩
  rw [← pagesFor_fits_iff buf new] at hlarge
  exact Nat.lt_of_not_le hlarge

theorem broken_after_clear {p : Pages} (names : Names s gone p)
    (hfreed : p.freed ≠ []) (call : ConfigCall) : Broken (callStep s call).pages := by
  cases call with
  | set buf nonempty new =>
    have hold : Broken (ConfigFile.deleteOld s).pages := by
      rw [names.deleteOld]
      exact broken_free hfreed _
    cases new with
    | none => exact hold
    | some new => exact hold.append _
  | clear =>
    change Broken (plxClearDmaMappedMem s).pages
    rw [names.clear.pages]
    exact broken_free hfreed _

theorem run_balanced_iff (calls : List ConfigCall) (phase : Phase held s) :
    Balanced (leavesPages held calls) (calls.foldl callStep s).pages ↔ Careful held calls := by
  induction calls generalizing s held with
  | nil => exact iff_of_true phase.balanced trivial
  | cons call calls ih =>
    rw [foldl_cons]
    cases call with
    | set buf nonempty new =>
      cases new with
      | none => exact ih phase.deleteOld
      | some new =>
        by_cases hfits : buf.length + 1 ≤ pageSize
        · exact (ih (phase.set hfits new)).trans (and_iff_right hfits).symm
        · have hbroken := (broken_set (s := s) hfits new).run calls
          exact iff_of_false (hbroken.not_balanced _) (fun hcareful => hfits hcareful.1)
    | clear =>
      cases held with
      | false =>
        have hnothing : plxClearDmaMappedMem s = s := by
          rw [plxClearDmaMappedMem, phase.1]
          rfl
        simp only [callStep, hnothing]
        exact ih phase
      | true =>
        obtain ⟨gone, p, names, hgone, hroom, hfreed⟩ := phase
        cases calls with
        | nil =>
          refine iff_of_true ?_ rfl
          change Settled (plxClearDmaMappedMem s).pages
          rw [names.clear.pages]
          exact settled_free hgone hroom hfreed
        | cons next calls =>
          -- the triple still names the pages, so the next call frees them once more
          have hfreedOnce : (p.free p.order).freed ≠ [] := by simp [Pages.free]
          have hbroken := (broken_after_clear names.clear hfreedOnce next).run calls
          exact iff_of_false (hbroken.not_balanced _) (cons_ne_nil next calls)

/-- **Buffers of configuration files**: after any calls, every text fits into its pages and all
pages but those of a text that is still set were freed exactly once with their order, exactly
when every text that got pages fits into one page with its terminator and no call comes after
one that clears pages. -/
theorem configCalls_balanced_iff (calls : List ConfigCall) :
    Balanced (leavesPages false calls) (calls.foldl callStep .initial).pages ↔
      Careful false calls := by
  apply run_balanced_iff
  refine ⟨rfl, fun p hp => ?_⟩
  exact absurd hp List.not_mem_nil

/-- A text of `PAGE_SIZE` bytes -/
def pageOfText : List UInt8 := List.replicate pageSize 97

theorem pageOfText_ne_nil : pageOfText ≠ [] := by
  intro h
  have hlength := congrArg List.length h
  rw [pageOfText, length_replicate] at hlength
  exact absurd hlength (by decide)

/-- Pages with zeroes behind them -/
def zeroPages : NewPages := ⟨fun _ => 0, 4096⟩

/-- A text of `PAGE_SIZE` bytes gets one page, and the terminator is behind its end; the pages of a
text that is cleared twice are freed twice. -/
theorem pageOfText_overruns :
    ¬ Balanced (leavesPages false [.set pageOfText pageOfText_ne_nil (some zeroPages)])
      ([ConfigCall.set pageOfText pageOfText_ne_nil (some zeroPages)].foldl callStep
        .initial).pages ∧
    ¬ Balanced
      (leavesPages false [.set [97] (List.cons_ne_nil _ _) (some zeroPages), .clear, .clear])
      ([ConfigCall.set [97] (List.cons_ne_nil _ _) (some zeroPages), .clear, .clear].foldl callStep
        .initial).pages := by
  constructor
  · have hlarge : ¬ pageOfText.length + 1 ≤ pageSize := by simp [pageOfText]
    exact (broken_set hlarge zeroPages).not_balanced _
  · have names : Names (plxSetConfigFile .initial [97] (some zeroPages)).1 _ _ :=
      names_set (by decide) zeroPages
    have hfreed : ((zeroPages.pagesFor [97]).free (zeroPages.pagesFor [97]).order).freed ≠ [] := by
      simp [Pages.free]
    exact (broken_after_clear names.clear hfreed .clear).not_balanced _

end

end Vcass.ConfigFile
