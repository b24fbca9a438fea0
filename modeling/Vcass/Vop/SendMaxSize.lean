import Mathlib.Algebra.Order.Ring.Nat
import Vcass.Vop.KvecRing

/-!
# The Published Receive Size

`vop_kvec_put` tells the peer, in `send_max_size` of each available ring, the size of the smallest
chain in the ring.  The peer picks a ring by it (`vop_kvec_size_to_ring_id`).  To write over the bus
only when the value changes, the poster keeps a copy in `send_max_size_local`.

The copy is set to 0 when the local device is created, but not when a buffer of the peer is unmapped
or mapped.  After a restart of the peer its fresh buffer says 0, and it goes on saying 0 until a chain
comes that is smaller than all chains put before the restart.

- `sizesPublished_iff`: in every reachable state, the published sizes are right if and only if each
  ring that has got chains since the last mapping got none before, or one that is smaller than all
  of them.
- What does hold without a condition is that a ring is never chosen for too much data
  (`SizeRing.Ok.le_of_le`).
-/

namespace Vcass.Vop

open Vcass.Core List

/-! ## The model -/

/-- The sizes of one available ring: the poster's copy, the field in the buffer of the peer that was
mapped last, and, as history, the data sizes of the chains put before the last mapping and since -/
structure SizeRing where
  sendMaxSizeLocal : Nat
  sendMaxSize : Nat
  before : List Nat
  since : List Nat

/-- The poster's view of the peer -/
structure SizeState where
  /-- `remote_write_kvecs.mapped` -/
  mapped : Bool
  rings : Fin kvecBufNum → SizeRing

structure VringDesc where
  addr : UInt64
  len : UInt32

/-- The part of `vop_kvec_put` that keeps the size; both fields are 32 bits wide. -/
def SizeRing.put (ring : SizeRing) (size : Nat) : SizeRing :=
  if ring.sendMaxSizeLocal = 0 ∨ size < ring.sendMaxSizeLocal then
    { ring with
      sendMaxSizeLocal := size % 2 ^ 32
      sendMaxSize := size % 2 ^ 32
      since := ring.since ++ [size] }
  else
    { ring with since := ring.since ++ [size] }

/-- `vop_kvec_map_buf` for one ring, with a fresh buffer of the peer -/
def SizeRing.map (ring : SizeRing) : SizeRing :=
  { ring with sendMaxSize := 0, before := ring.before ++ ring.since, since := [] }

inductive SizeAct where
  /-- `vop_kvec_map_buf`; `ok` when `ioremap` succeeds -/
  | map (ok : Bool)
  /-- `vop_kvec_unmap_buf` -/
  | unmap
  /-- `vop_kvec_put` of a chain of two descriptors -/
  | put (hdr data : VringDesc)

/-- A chain goes to the ring that fits its data; one that is too small for any ring is dropped. -/
def sizePut (s : SizeState) (data : VringDesc) : SizeState :=
  match getRingIdWrite data.len.toNat with
  | none => s
  | some id =>
    { s with rings := Function.update s.rings id ((s.rings id).put data.len.toNat) }

def sizeStep (s : SizeState) : SizeAct → Option SizeState
  | .map true => some { mapped := true, rings := fun id => (s.rings id).map }
  -- an old mapping is given up in any case
  | .map false => some { s with mapped := false }
  | .unmap => some { s with mapped := false }
  | .put _ data => if s.mapped then some (sizePut s data) else none

/-- The poster after `vop_kvec_buff_init` -/
def SizeState.initial : SizeState where
  mapped := false
  rings := fun _ => ⟨0, 0, [], []⟩

def sizeSystem : System SizeState SizeAct where
  Init s := s = .initial
  step := sizeStep

/-- `vop_kvec_size_to_ring_id` on the peer: the first ring whose chains are large enough, or the last
ring -/
def vopKvecSizeToRingId (s : SizeState) (size : Nat) : Fin kvecBufNum :=
  ((List.finRange kvecBufNum).find? fun id => size ≤ (s.rings id).sendMaxSize).getD
    ⟨kvecBufNum - 1, by decide⟩

/-! ## The property -/

/-- `v` is the smallest element of `l`. -/
def Least (v : Nat) (l : List Nat) : Prop :=
  v ∈ l ∧ ∀ x ∈ l, v ≤ x

instance (v : Nat) (l : List Nat) : Decidable (Least v l) :=
  inferInstanceAs (Decidable (_ ∧ _))

/-- Every ring with chains shows the smallest size of them, and a ring that is chosen for its size has
only chains that are large enough. -/
structure SizesPublished (s : SizeState) : Prop where
  least : ∀ id, (s.rings id).since ≠ [] → Least (s.rings id).sendMaxSize (s.rings id).since
  chosen : ∀ size, size ≤ (s.rings (vopKvecSizeToRingId s size)).sendMaxSize →
    ∀ x ∈ (s.rings (vopKvecSizeToRingId s size)).since, size ≤ x

/-- Nothing was put into the ring before the last mapping, or something smaller was put since. -/
def SizeRing.Renewed (ring : SizeRing) : Prop :=
  ring.before = [] ∨ ∃ x ∈ ring.since, ∀ y ∈ ring.before, x < y

instance (ring : SizeRing) : Decidable ring.Renewed :=
  inferInstanceAs (Decidable (_ ∨ _))

/-! ## What is published -/

theorem Least.snoc_of_le {v x : Nat} {l : List Nat} (h : Least v l) (hle : v ≤ x) :
    Least v (l ++ [x]) := by
  refine ⟨mem_append_left _ h.1, ?_⟩
  intro y hy
  rcases mem_append.mp hy with hold | hnew
  · exact h.2 y hold
  · rw [mem_singleton.mp hnew]
    exact hle

theorem least_snoc_of_lt {x : Nat} {l : List Nat} (h : ∀ y ∈ l, x ≤ y) : Least x (l ++ [x]) := by
  refine ⟨by simp, ?_⟩
  intro y hy
  rcases mem_append.mp hy with hold | hnew
  · exact h y hold
  · exact le_of_eq (mem_singleton.mp hnew).symm

namespace SizeRing

variable {ring : SizeRing}

def all (ring : SizeRing) : List Nat := ring.before ++ ring.since

/-- **The invariant of one ring**: the copy is the smallest size ever put, and the field of the peer is
the copy or still 0. -/
structure Ok (ring : SizeRing) : Prop where
  positive : ∀ x ∈ ring.all, 0 < x
  cache : ring.all = [] ∧ ring.sendMaxSizeLocal = 0 ∨ Least ring.sendMaxSizeLocal ring.all
  renewed : ring.since ≠ [] → ring.Renewed → ring.sendMaxSize = ring.sendMaxSizeLocal
  stale : (ring.since = [] ∨ ¬ ring.Renewed) → ring.sendMaxSize = 0

variable (h : ring.Ok)

include h

theorem Ok.least_since (hsince : ring.since ≠ []) (hrenewed : ring.Renewed) :
    Least ring.sendMaxSize ring.since := by
  rw [h.renewed hsince hrenewed]
  rcases h.cache with ⟨hnil, _⟩ | ⟨hmem, hle⟩
  · exact absurd (append_eq_nil_iff.mp hnil).2 hsince
  · refine ⟨?_, fun x hx => hle x (mem_append_right _ hx)⟩
    rcases mem_append.mp hmem with hbefore | hin
    · -- the smallest size of all cannot be an old one
      rcases hrenewed with hnone | ⟨x, hx, hlt⟩
      · rw [hnone] at hbefore
        cases hbefore
      · have hlt := hlt _ hbefore
        have hle := hle x (mem_append_right _ hx)
        omega
    · exact hin

/-- **A ring is right if and only if it was renewed.** -/
theorem Ok.least_iff (hsince : ring.since ≠ []) :
    Least ring.sendMaxSize ring.since ↔ ring.Renewed := by
  constructor
  · intro hleast
    by_contra hstale
    rw [h.stale (.inr hstale)] at hleast
    exact absurd (h.positive 0 (mem_append_right _ hleast.1)) (lt_irrefl 0)
  · exact h.least_since hsince

variable {size : Nat}

theorem Ok.le_of_le (hsize : size ≤ ring.sendMaxSize) : ∀ x ∈ ring.since, size ≤ x := by
  intro x hx
  have hsince : ring.since ≠ [] := ne_nil_of_mem hx
  by_cases hrenewed : ring.Renewed
  · exact le_trans hsize ((h.least_since hsince hrenewed).2 x hx)
  · rw [h.stale (.inr hrenewed)] at hsize
    omega

theorem Ok.map : ring.map.Ok where
  positive := by simpa [SizeRing.map, all] using h.positive
  cache := by simpa [SizeRing.map, all] using h.cache
  renewed := fun hsince => absurd rfl hsince
  stale := fun _ => rfl

theorem Ok.put_less (hpos : 0 < size) (hsmall : size < 2 ^ 32)
    (hless : ring.sendMaxSizeLocal = 0 ∨ size < ring.sendMaxSizeLocal) : (ring.put size).Ok := by
  have hbelow : ∀ y ∈ ring.all, size < y := by
    intro y hy
    rcases h.cache with ⟨hnil, _⟩ | ⟨hmem, hle⟩
    · rw [hnil] at hy
      cases hy
    · have hcopy := h.positive _ hmem
      have hley := hle y hy
      omega
  have hput : ring.put size =
      { ring with sendMaxSizeLocal := size, sendMaxSize := size, since := ring.since ++ [size] } := by
    rw [put, if_pos hless, Nat.mod_eq_of_lt hsmall]
  have hall : (ring.put size).all = ring.all ++ [size] := by
    rw [hput]
    exact (append_assoc _ _ _).symm
  have hrenewed : (ring.put size).Renewed := by
    rw [hput]
    exact .inr ⟨size, by simp, fun y hy => hbelow y (mem_append_left _ hy)⟩
  constructor
  · intro x hx
    rw [hall] at hx
    rcases mem_append.mp hx with hold | hnew
    · exact h.positive x hold
    · rw [mem_singleton.mp hnew]
      exact hpos
  · right
    rw [hall, hput]
    exact least_snoc_of_lt fun y hy => le_of_lt (hbelow y hy)
  · intro _ _
    rw [hput]
  · rintro (hnil | hstale)
    · rw [hput] at hnil
      simp at hnil
    · exact absurd hrenewed hstale

theorem Ok.put_ge (hpos : 0 < size)
    (hge : ¬ (ring.sendMaxSizeLocal = 0 ∨ size < ring.sendMaxSizeLocal)) : (ring.put size).Ok := by
  have hput : ring.put size = { ring with since := ring.since ++ [size] } := by
    rw [put, if_neg hge]
  have hall : (ring.put size).all = ring.all ++ [size] := by
    rw [hput]
    exact (append_assoc _ _ _).symm
  have hleast : Least ring.sendMaxSizeLocal ring.all := by
    rcases h.cache with ⟨_, hzero⟩ | hleast
    · exact absurd (.inl hzero) hge
    · exact hleast
  have hle : ring.sendMaxSizeLocal ≤ size := by omega
  -- the new chain renews nothing
  have hiff : (ring.put size).Renewed → ring.since ≠ [] ∧ ring.Renewed := by
    intro hrenewed
    rw [hput] at hrenewed
    rcases mem_append.mp hleast.1 with hbefore | hsince
    · rcases hrenewed with hnone | ⟨x, hx, hlt⟩
      · have hnil : ring.before = [] := hnone
        rw [hnil] at hbefore
        cases hbefore
      · have hltCopy : x < ring.sendMaxSizeLocal := hlt _ hbefore
        rcases mem_append.mp hx with hold | hnew
        · exact ⟨ne_nil_of_mem hold, .inr ⟨x, hold, hlt⟩⟩
        · rw [mem_singleton.mp hnew] at hltCopy
          omega
    · refine ⟨ne_nil_of_mem hsince, ?_⟩
      rcases hrenewed with hnone | ⟨x, hx, hlt⟩
      · exact .inl hnone
      · refine .inr ⟨_, hsince, ?_⟩
        intro y hy
        have hlty : x < y := hlt y hy
        rcases mem_append.mp hx with hold | hnew
        · have hcopy := hleast.2 x (mem_append_right _ hold)
          omega
        · rw [mem_singleton.mp hnew] at hlty
          omega
  constructor
  · intro x hx
    rw [hall] at hx
    rcases mem_append.mp hx with hold | hnew
    · exact h.positive x hold
    · rw [mem_singleton.mp hnew]
      exact hpos
  · right
    rw [hall, hput]
    exact hleast.snoc_of_le hle
  · intro _ hrenewed
    obtain ⟨hsince, hold⟩ := hiff hrenewed
    rw [hput]
    exact h.renewed hsince hold
  · intro hstale
    rw [hput]
    apply h.stale
    by_contra hboth
    rw [not_or, not_not] at hboth
    obtain ⟨hsince, hrenewed⟩ := hboth
    rcases hstale with hnil | hstale
    · rw [hput] at hnil
      simp at hnil
    · apply hstale
      rw [hput]
      rcases hrenewed with hnone | ⟨x, hx, hlt⟩
      · exact .inl hnone
      · exact .inr ⟨x, mem_append_left _ hx, hlt⟩

theorem Ok.put (hpos : 0 < size) (hsmall : size < 2 ^ 32) : (ring.put size).Ok := by
  by_cases hless : ring.sendMaxSizeLocal = 0 ∨ size < ring.sendMaxSizeLocal
  · exact h.put_less hpos hsmall hless
  · exact h.put_ge hpos hless

end SizeRing

theorem pos_of_getRingIdWrite {size : Nat} {id : Fin kvecBufNum}
    (h : getRingIdWrite size = some id) : 0 < size := by
  unfold getRingIdWrite at h
  split at h
  case isTrue => cases h
  case isFalse hge =>
    have hmtu : 0 < mtuDefault := by decide
    omega

theorem sizeOk_of_reachable {s : SizeState} (h : sizeSystem.Reachable s) (id : Fin kvecBufNum) :
    (s.rings id).Ok := by
  revert id
  apply System.Reachable.invariant ?_ ?_ h
  · rintro s rfl id
    exact ⟨by simp [SizeState.initial, SizeRing.all], .inl ⟨rfl, rfl⟩,
      fun hsince => absurd rfl hsince, fun _ => rfl⟩
  · intro s a s' hok hstep id
    cases a with
    | map ok =>
      cases ok with
      | true =>
        cases hstep
        exact (hok id).map
      | false =>
        cases hstep
        exact hok id
    | unmap =>
      cases hstep
      exact hok id
    | put hdr data =>
      simp only [sizeSystem, sizeStep] at hstep
      split at hstep
      case isFalse => cases hstep
      case isTrue =>
        cases hstep
        unfold sizePut
        split
        case h_1 => exact hok id
        case h_2 r hring =>
          by_cases hid : id = r
          · subst hid
            simp only [Function.update_self]
            exact (hok id).put (pos_of_getRingIdWrite hring) data.len.toNat_lt
          · simp only [Function.update_of_ne hid]
            exact hok id

/-! ## Main results -/

/-- **The published sizes are right if and only if** each ring with chains since the last mapping had
none before, or has got a smaller one. -/
theorem sizesPublished_iff {s : SizeState} (h : sizeSystem.Reachable s) :
    SizesPublished s ↔ ∀ id, (s.rings id).since ≠ [] → (s.rings id).Renewed := by
  have hok := sizeOk_of_reachable h
  constructor
  · intro hpub id hsince
    exact ((hok id).least_iff hsince).mp (hpub.least id hsince)
  · intro hrenewed
    constructor
    · intro id hsince
      exact ((hok id).least_iff hsince).mpr (hrenewed id hsince)
    · intro size hsize
      exact (hok _).le_of_le hsize

/-- `KVEC_BUF_SMALL` -/
def kvecBufSmall : Fin kvecBufNum := ⟨0, kvecBufNum_pos⟩

/-- A chain of two descriptors with so much data -/
def chainOf (len : UInt32) : SizeAct := .put ⟨0, 12⟩ ⟨4096, len⟩

/-- Two mappings; the second one gets a smaller chain than the first. -/
theorem sizesPublished_iff_smallerChain :
    ∃ s, sizeSystem.Reachable s ∧ (s.rings kvecBufSmall).since = [3000, 2000] ∧
      (SizesPublished s ↔ ∀ id, (s.rings id).since ≠ [] → (s.rings id).Renewed) := by
  have hobs : (sizeSystem.run .initial [.map true, chainOf 2500, .unmap, .map true, chainOf 3000,
      chainOf 2000]).map (fun s => (s.rings kvecBufSmall).since) = some [3000, 2000] := by
    decide +kernel
  obtain ⟨s, hreach, hseen⟩ := System.exists_reachable hobs rfl
  exact ⟨s, hreach, hseen, sizesPublished_iff hreach⟩

/-- The peer restarts, and gets a chain of the same size as before: its fresh buffer goes on saying
that the ring takes nothing. -/
theorem size_not_published : ∃ s, sizeSystem.Reachable s ∧ (s.rings kvecBufSmall).since = [2000] ∧
    (s.rings kvecBufSmall).sendMaxSize = 0 ∧ ¬ SizesPublished s := by
  have hobs : (sizeSystem.run .initial [.map true, chainOf 2000, .unmap, .map true,
      chainOf 2000]).map (fun s => ((s.rings kvecBufSmall).since, (s.rings kvecBufSmall).sendMaxSize)) =
      some ([2000], 0) := by
    decide +kernel
  obtain ⟨s, hreach, hseen⟩ := System.exists_reachable hobs rfl
  obtain ⟨hsince, hsize⟩ := Prod.mk.inj hseen
  refine ⟨s, hreach, hsince, hsize, ?_⟩
  intro hpub
  have hleast := hpub.least kvecBufSmall (by rw [hsince]; decide)
  rw [hsince, hsize] at hleast
  exact absurd hleast (by decide)

end Vcass.Vop
