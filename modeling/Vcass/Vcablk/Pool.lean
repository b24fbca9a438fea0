import Mathlib.Data.List.Chain
import Mathlib.Data.List.Nodup

/-!
# The Pool of Bio Contexts

`vcablk_pool.h`: the free elements of a pool are linked through `next_free`, from `head` to
`tail`.  An element in use has the mark `VCABLK_POOL_USED` instead of a link.  The element at
`tail` is never handed out.

`Represents pool free` relates a pool to the queue of its free elements: `vcablk_pool_pop` takes
the first of them, `vcablk_pool_push` appends one.
-/

namespace Vcass.Vcablk

open Function List

/-- `VCABLK_POOL_USED` -/
def vcablkPoolUsed : Nat := 65535

/-- `vcablk_pool_t`, with the `next_free` of each element -/
structure VcablkPool where
  num : Nat
  head : Nat
  tail : Nat
  nextFree : Nat → Nat

/-- `vcablk_pool_init` for `num` usable elements -/
def vcablkPoolInit (num : Nat) : VcablkPool where
  num := num + 1
  head := 0
  tail := num
  nextFree i := if i < num then i + 1 else 0

/-- Whether `vcablk_pool_get_by_id` finds an element in use -/
def vcablkPoolGetById (pool : VcablkPool) (idx : Nat) : Prop :=
  idx < pool.num ∧ pool.nextFree idx = vcablkPoolUsed

instance (pool : VcablkPool) (idx : Nat) : Decidable (vcablkPoolGetById pool idx) :=
  inferInstanceAs (Decidable (_ ∧ _))

/-- `vcablk_pool_pop` -/
def vcablkPoolPop (pool : VcablkPool) : Option (Nat × VcablkPool) :=
  if pool.head ≠ pool.tail then
    some (pool.head,
      { pool with
        head := pool.nextFree pool.head
        nextFree := Function.update pool.nextFree pool.head vcablkPoolUsed })
  else
    none

/-- `vcablk_pool_push`; `none` is a `BUG_ON`. -/
def vcablkPoolPush (pool : VcablkPool) (idx : Nat) : Option VcablkPool :=
  if pool.nextFree idx ≠ vcablkPoolUsed ∨ pool.num ≤ idx then
    none
  else
    some
      { pool with
        tail := idx
        nextFree := Function.update (Function.update pool.nextFree idx 0) pool.tail idx }

/-! ## The queue of free elements -/

/-- A write to a cell outside `before` leaves the links of the queue alone. -/
theorem links_update {next : Nat → Nat} {before : List Nat} {tail k : Nat} (v : Nat)
    (h : (before ++ [tail]).IsChain fun i j => next i = j) (hk : k ∉ before) :
    (before ++ [tail]).IsChain fun i j => update next k v i = j := by
  have hkeep : ∀ a ∈ before, update next k v a = next a := by
    intro a ha
    apply update_of_ne
    rintro rfl
    exact hk ha
  obtain ⟨hchain, -, hlast⟩ := isChain_append.mp h
  refine isChain_append.mpr ⟨?_, isChain_singleton _, ?_⟩
  · refine List.IsChain.imp_of_mem_imp ?_ hchain
    intro a b ha _ hab
    rw [hkeep a ha]
    exact hab
  · intro a ha b hb
    rw [hkeep a (mem_of_getLast? ha)]
    exact hlast a ha b hb

/-- The free elements of a pool, in the order in which they are handed out -/
structure Represents (pool : VcablkPool) (free : List Nat) : Prop where
  nodup : free.Nodup
  lt : ∀ i ∈ free, i < pool.num
  num_le : pool.num ≤ vcablkPoolUsed
  head : free.head? = some pool.head
  tail : free.getLast? = some pool.tail
  /-- Each free element is linked to the next -/
  linked : free.IsChain fun i j => pool.nextFree i = j
  tail_free : pool.nextFree pool.tail ≠ vcablkPoolUsed
  used : ∀ i, i < pool.num → i ∉ free → pool.nextFree i = vcablkPoolUsed

namespace Represents

variable {pool : VcablkPool} {free : List Nat}

section

variable (h : Represents pool free)

include h

theorem nextFree_ne_used {i : Nat} (hi : i ∈ free) : pool.nextFree i ≠ vcablkPoolUsed := by
  obtain ⟨before, after, rfl⟩ := append_of_mem hi
  cases after with
  | nil =>
    have htail := h.tail
    rw [List.getLast?_append, List.getLast?_singleton] at htail
    rw [show i = pool.tail from Option.some.inj htail]
    exact h.tail_free
  | cons j after =>
    -- the link leads to another element of the pool
    have hlink : pool.nextFree i = j := by
      have hchain := (isChain_append.mp h.linked).2.1
      exact (isChain_cons_cons.mp hchain).1
    have hj := h.lt j (by simp)
    have := h.num_le
    omega

/-- **An element is in use exactly when it is not free.** -/
theorem getById_iff {i : Nat} (hi : i < pool.num) : vcablkPoolGetById pool i ↔ i ∉ free := by
  constructor
  · intro hget hfree
    exact h.nextFree_ne_used hfree hget.2
  · intro hfree
    exact ⟨hi, h.used i hi hfree⟩

/-- `vcablk_pool_pop` keeps the last free element back. -/
theorem length_of_pop_none (hpop : vcablkPoolPop pool = none) : free.length = 1 := by
  have heq : pool.head = pool.tail := by
    by_contra hne
    unfold vcablkPoolPop at hpop
    rw [if_pos hne] at hpop
    cases hpop
  cases free with
  | nil => cases h.head
  | cons i rest =>
    cases rest with
    | nil => rfl
    | cons j rest =>
      -- the first element would be the last one as well
      have hlast := h.tail
      rw [← heq, getLast?_cons_cons] at hlast
      have hhead : i = pool.head := Option.some.inj h.head
      exact absurd (hhead ▸ mem_of_getLast? hlast) (nodup_cons.mp h.nodup).1

/-- **`vcablk_pool_pop` takes the first free element.** -/
theorem pop {id : Nat} {pool' : VcablkPool}
    (hpop : vcablkPoolPop pool = some (id, pool')) :
    ∃ rest, free = id :: rest ∧ Represents pool' rest ∧ pool'.num = pool.num := by
  unfold vcablkPoolPop at hpop
  split at hpop
  · rename_i hne
    cases hpop
    cases free with
    | nil => cases h.head
    | cons i rest =>
      cases h.head
      obtain ⟨hi, hnodup⟩ := nodup_cons.mp h.nodup
      refine ⟨rest, rfl, ?_, rfl⟩
      cases rest with
      | nil => exact absurd (Option.some.inj h.tail) hne
      | cons j rest =>
        obtain ⟨hlink, hchain⟩ := isChain_cons_cons.mp h.linked
        refine
          { nodup := hnodup
            lt := fun k hk => h.lt k (mem_cons_of_mem _ hk)
            num_le := h.num_le
            head := by rw [hlink]; rfl
            tail := by rw [← h.tail, List.getLast?_cons_cons]
            linked := ?_
            tail_free := ?_
            used := ?_ }
        · obtain ⟨before, hbefore⟩ := List.getLast?_eq_some_iff.mp
            (List.getLast?_cons_cons ▸ h.tail)
          rw [hbefore] at hchain hi ⊢
          exact links_update _ hchain fun hmem => hi (mem_append_left _ hmem)
        · simpa only [update_of_ne (Ne.symm hne)] using h.tail_free
        · intro k hk hfree
          dsimp only
          by_cases hkh : k = pool.head
          · rw [hkh, update_self]
          · rw [update_of_ne hkh]
            exact h.used k hk (by simpa [hkh] using hfree)
  · cases hpop

/-- **`vcablk_pool_push` appends an element that was in use.** -/
theorem push {i : Nat} (hi : i < pool.num) (hfree : i ∉ free) :
    ∃ pool', vcablkPoolPush pool i = some pool' ∧ Represents pool' (free ++ [i]) ∧
      pool'.num = pool.num := by
  have hused := h.used i hi hfree
  have htail : pool.tail ∈ free := mem_of_getLast? h.tail
  have hne : i ≠ pool.tail := fun heq => hfree (heq ▸ htail)
  unfold vcablkPoolPush
  rw [if_neg (by rw [hused]; simp; omega)]
  refine ⟨_, rfl, ?_, rfl⟩
  refine
    { nodup := ?_
      lt := ?_
      num_le := h.num_le
      head := ?_
      tail := by simp
      linked := ?_
      tail_free := ?_
      used := ?_ }
  · exact List.Nodup.append h.nodup (nodup_singleton i) (by simpa using hfree)
  · intro k hk
    rcases mem_append.mp hk with hk | hk
    · exact h.lt k hk
    · rw [mem_singleton.mp hk]
      exact hi
  · rw [List.head?_append, h.head]
    rfl
  · -- the links before `tail` stay, and `tail` is linked to the new element
    obtain ⟨before, hbefore⟩ := List.getLast?_eq_some_iff.mp h.tail
    refine isChain_append.mpr ⟨?_, isChain_singleton _, ?_⟩
    · have hlinked := h.linked
      have hnodup := h.nodup
      rw [hbefore] at hlinked hnodup hfree ⊢
      have htail : pool.tail ∉ before := fun hmem =>
        (nodup_append.mp hnodup).2.2 _ hmem _ mem_cons_self rfl
      exact links_update _ (links_update _ hlinked fun hmem => hfree (mem_append_left _ hmem))
        htail
    · intro a ha b hb
      rw [h.tail] at ha
      cases ha
      cases hb
      exact update_self ..
  · simp only [update_of_ne hne, update_self]
    decide
  · intro k hk hmem
    rw [mem_append, mem_singleton, not_or] at hmem
    have hkt : k ≠ pool.tail := fun heq => hmem.1 (heq ▸ htail)
    simpa only [update_of_ne hkt, update_of_ne hmem.2]
      using h.used k hk hmem.1

end

theorem init {num : Nat} (hnum : num < vcablkPoolUsed) :
    Represents (vcablkPoolInit num) (List.range (num + 1)) where
  nodup := nodup_range
  lt i hi := mem_range.mp hi
  num_le := hnum
  head := by simp [vcablkPoolInit, range_succ_eq_map]
  tail := by simp [vcablkPoolInit, range_succ]
  linked := by
    rw [isChain_iff_getElem]
    intro i hi
    rw [length_range] at hi
    simp only [vcablkPoolInit, getElem_range]
    rw [if_pos (by omega)]
  tail_free := by
    simp only [vcablkPoolInit, Nat.lt_irrefl, if_false]
    decide
  used i hi hmem := absurd (mem_range.mpr hi) hmem

end Represents

end Vcass.Vcablk
