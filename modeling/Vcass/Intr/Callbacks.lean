import Mathlib.Algebra.BigOperators.Fin
import Mathlib.Algebra.Order.BigOperators.Group.Finset
import Vcass.Core.System

/-!
# Interrupt Callbacks

`plx_intr.c`: the driver keeps a list of callbacks for each of the `PLX_NUM_OFFSETS` sources of
interrupts.  A callback is identified by a number from an ID allocator; its structure and its name are
allocated when it is registered and freed when it is unregistered.  When the device is removed,
`plx_release_callbacks` shall free whatever is left.

Numbers are unique, and unregistering is exact.  The release, however, ends at the first source that has
no callback, and it frees the structure of a callback but not its name.  `callbacks_released_iff`:
**it is complete exactly when no source with a callback comes after one without, and no callback that
is left has a name.**

The handlers and their data are only stored and passed on, and are left out.
-/

namespace Vcass.Intr

open Vcass.Core Function Multiset

/-- `PLX_NUM_OFFSETS` -/
def plxNumOffsets : Nat := 32

/-- The sources, in the order of the loops -/
abbrev Source := Fin plxNumOffsets

/-! ## The lists -/

/-- `struct plx_intr_cb`.  Memory is told apart by the number of the allocation: `number` is that of
the structure, `name` that of the name. -/
structure IntrCb where
  cbId : Nat
  number : Nat
  name : Option Nat
deriving DecidableEq

def IntrCb.memory (cb : IntrCb) : Multiset Nat :=
  cb.number ::ₘ (cb.name.elim 0 fun name => {name})

/-- `struct plx_irq_info`: the lists and the numbers in use.  `live` is the memory that was allocated
for callbacks and not freed, `allocated` the number of allocations so far. -/
structure IrqInfo where
  cbList : Source → List IntrCb
  cbIda : Multiset Nat
  live : Multiset Nat
  allocated : Nat

def IrqInfo.registered (s : IrqInfo) : Multiset IntrCb := ∑ i, (s.cbList i : Multiset IntrCb)

/-- `plx_setup_callbacks` -/
def IrqInfo.initial : IrqInfo := ⟨fun _ => [], 0, 0, 0⟩

/-- `plx_register_intr_callback`: `cbId` is the number that `ida_simple_get` has found, `named` says
whether there is a name and memory for it. -/
def plxRegisterIntrCallback (s : IrqInfo) (idx : Source) (cbId : Nat) (named : Bool) : IrqInfo :=
  let cb : IntrCb :=
    ⟨cbId, s.allocated, if named then some (s.allocated + 1) else none⟩
  -- list_add_tail
  { cbList := Function.update s.cbList idx (s.cbList idx ++ [cb])
    cbIda := cbId ::ₘ s.cbIda
    live := cb.memory + s.live
    allocated := s.allocated + 2 }

/-- A callback is taken out of the list of source `i` and freed with its name. -/
def IrqInfo.remove (s : IrqInfo) (i : Source) (cb : IntrCb) : IrqInfo :=
  { s with
    cbList := Function.update s.cbList i ((s.cbList i).erase cb)
    cbIda := s.cbIda.erase cb.cbId
    live := s.live - cb.memory }

/-- The search of `plx_unregister_intr_callback` over the sources `is`; none is the result
`PLX_NUM_OFFSETS`. -/
def unregisterFrom (s : IrqInfo) (id : Nat) : List Source → Option (IrqInfo × Source)
  | [] => none
  | i :: is =>
    match (s.cbList i).find? fun cb => cb.cbId = id with
    | some cb => some (s.remove i cb, i)
    | none => unregisterFrom s id is

/-- `plx_unregister_intr_callback` -/
def plxUnregisterIntrCallback (s : IrqInfo) (id : Nat) : Option (IrqInfo × Source) :=
  unregisterFrom s id (List.finRange plxNumOffsets)

/-- The inner loop of `plx_release_callbacks`; the name is not freed. -/
def releaseList (s : IrqInfo) (i : Source) : IrqInfo :=
  { s with
    cbList := Function.update s.cbList i []
    cbIda := (s.cbList i).foldl (fun ida cb => ida.erase cb.cbId) s.cbIda
    live := (s.cbList i).foldl (fun live cb => live.erase cb.number) s.live }

/-- The outer loop of `plx_release_callbacks`, which ends at a source without callbacks -/
def releaseLoop : List Source → IrqInfo → IrqInfo
  | [], s => s
  | i :: is, s => if s.cbList i = [] then s else releaseLoop is (releaseList s i)

/-- `plx_release_callbacks` -/
def plxReleaseCallbacks (s : IrqInfo) : IrqInfo :=
  releaseLoop (List.finRange plxNumOffsets) s

/-! ## Runs -/

inductive IntrAct where
  | register (idx : Source) (cbId : Nat) (named : Bool)
  | unregister (id : Nat)

/-- `ida_simple_get` gives a number that is not in use. -/
def intrStep (s : IrqInfo) : IntrAct → Option IrqInfo
  | .register idx cbId named =>
    if cbId ∈ s.cbIda then none else some (plxRegisterIntrCallback s idx cbId named)
  | .unregister id => (plxUnregisterIntrCallback s id).map Prod.fst

def callbacks : System IrqInfo IntrAct where
  Init s := s = .initial
  step := intrStep

/-! ## The registered callbacks -/

section

variable {s : IrqInfo}

theorem mem_registered {cb : IntrCb} : cb ∈ s.registered ↔ ∃ i, cb ∈ s.cbList i := by
  simp [IrqInfo.registered, mem_sum]

theorem registered_update (cbList : Source → List IntrCb) (i : Source) (l : List IntrCb) :
    (∑ j, (update cbList i l j : Multiset IntrCb)) + cbList i =
      (∑ j, (cbList j : Multiset IntrCb)) + l := by
  have hothers : ∑ j ∈ Finset.univ.erase i, (update cbList i l j : Multiset IntrCb) =
      ∑ j ∈ Finset.univ.erase i, (cbList j : Multiset IntrCb) := by
    apply Finset.sum_congr rfl
    intro j hj
    rw [update_of_ne (Finset.ne_of_mem_erase hj)]
  rw [← Finset.add_sum_erase Finset.univ (fun j => (cbList j : Multiset IntrCb))
      (Finset.mem_univ i),
    ← Finset.add_sum_erase Finset.univ (fun j => (update cbList i l j : Multiset IntrCb))
      (Finset.mem_univ i), hothers, update_self]
  ac_rfl

theorem registered_register (idx : Source) (cbId : Nat) (named : Bool) :
    ∃ cb, cb.cbId = cbId ∧
      (plxRegisterIntrCallback s idx cbId named).registered = cb ::ₘ s.registered ∧
      (plxRegisterIntrCallback s idx cbId named).live = cb.memory + s.live := by
  refine ⟨⟨cbId, s.allocated, if named then some (s.allocated + 1) else none⟩, rfl, ?_, rfl⟩
  have hsum := registered_update s.cbList idx
    (s.cbList idx ++ [⟨cbId, s.allocated, if named then some (s.allocated + 1) else none⟩])
  rw [← coe_add, ← add_assoc, add_right_comm, add_left_inj] at hsum
  rw [← singleton_add, add_comm]
  exact hsum

theorem registered_remove {i : Source} {cb : IntrCb} (hcb : cb ∈ s.cbList i) :
    s.registered = cb ::ₘ (s.remove i cb).registered := by
  have hsum := registered_update s.cbList i ((s.cbList i).erase cb)
  rw [← coe_erase] at hsum
  have hlist : (s.cbList i : Multiset IntrCb) = cb ::ₘ (s.cbList i : Multiset IntrCb).erase cb :=
    (cons_erase (mem_coe.mpr hcb)).symm
  rw [hlist, erase_cons_head, add_cons, ← cons_add, add_left_inj] at hsum
  exact hsum.symm

end

/-! ## Registering and unregistering -/

/-- The numbers in use are those of the registered callbacks, no two of them equal, and the memory that
was not freed is theirs. -/
structure Inv (s : IrqInfo) : Prop where
  ida : s.cbIda = s.registered.map IntrCb.cbId
  nodup : s.cbIda.Nodup
  live : s.live = s.registered.bind IntrCb.memory

section

variable {s s' : IrqInfo} {is : List Source} {id : Nat}

theorem unregisterFrom_some {i : Source}
    (h : unregisterFrom s id is = some (s', i)) :
    ∃ cb ∈ s.cbList i, cb.cbId = id ∧ s' = s.remove i cb := by
  induction is with
  | nil => cases h
  | cons j is ih =>
    rw [unregisterFrom] at h
    split at h
    case h_1 cb hfind =>
      cases h
      have hid := List.find?_some hfind
      exact ⟨cb, List.mem_of_find?_eq_some hfind, of_decide_eq_true hid, rfl⟩
    case h_2 => exact ih h

theorem unregisterFrom_isSome :
    (unregisterFrom s id is).isSome ↔ ∃ i ∈ is, ∃ cb ∈ s.cbList i, cb.cbId = id := by
  induction is with
  | nil => simp [unregisterFrom]
  | cons j is ih =>
    rw [unregisterFrom]
    split
    case h_1 cb hfind =>
      have hid := List.find?_some hfind
      refine iff_of_true rfl ⟨j, List.mem_cons_self, cb, List.mem_of_find?_eq_some hfind, ?_⟩
      exact of_decide_eq_true hid
    case h_2 hfind =>
      rw [List.find?_eq_none] at hfind
      rw [ih]
      constructor
      · rintro ⟨i, hi, hcb⟩
        exact ⟨i, List.mem_cons_of_mem j hi, hcb⟩
      · rintro ⟨i, hi, cb, hcb, hid⟩
        rcases List.mem_cons.mp hi with rfl | hi
        · exact absurd (decide_eq_true hid) (hfind cb hcb)
        · exact ⟨i, hi, cb, hcb, hid⟩

theorem unregister_isSome :
    (plxUnregisterIntrCallback s id).isSome ↔ ∃ cb ∈ s.registered, cb.cbId = id := by
  rw [plxUnregisterIntrCallback, unregisterFrom_isSome]
  simp only [List.mem_finRange, true_and, mem_registered]
  constructor
  · rintro ⟨i, cb, hcb, hid⟩
    exact ⟨cb, ⟨i, hcb⟩, hid⟩
  · rintro ⟨cb, ⟨i, hcb⟩, hid⟩
    exact ⟨i, cb, hcb, hid⟩

theorem inv_initial : Inv .initial := by
  constructor
  · simp [IrqInfo.initial, IrqInfo.registered]
  · exact nodup_zero
  · simp [IrqInfo.initial, IrqInfo.registered]

theorem Inv.register (inv : Inv s) {cbId : Nat} (hfresh : cbId ∉ s.cbIda) (idx : Source)
    (named : Bool) : Inv (plxRegisterIntrCallback s idx cbId named) := by
  obtain ⟨cb, hid, hregistered, hlive⟩ := @registered_register s idx cbId named
  constructor
  · rw [hregistered, map_cons, hid, ← inv.ida]
    rfl
  · exact nodup_cons.mpr ⟨hfresh, inv.nodup⟩
  · rw [hregistered, hlive, cons_bind, inv.live]

theorem Inv.remove (inv : Inv s) {i : Source} {cb : IntrCb} (hcb : cb ∈ s.cbList i) :
    Inv (s.remove i cb) := by
  have hregistered := registered_remove hcb
  constructor
  · change s.cbIda.erase cb.cbId = _
    rw [inv.ida, hregistered, map_cons, erase_cons_head]
  · exact inv.nodup.erase cb.cbId
  · change s.live - cb.memory = _
    rw [inv.live, hregistered, cons_bind, add_tsub_cancel_left]

theorem Inv.step (inv : Inv s) {a : IntrAct} (h : intrStep s a = some s') : Inv s' := by
  cases a with
  | register idx cbId named =>
    simp only [intrStep] at h
    split at h
    · cases h
    · rename_i hfresh
      cases h
      exact inv.register hfresh idx named
  | unregister id =>
    obtain ⟨⟨t, i⟩, hfound, rfl⟩ := Option.map_eq_some_iff.mp h
    obtain ⟨cb, hcb, -, rfl⟩ := unregisterFrom_some hfound
    exact inv.remove hcb

theorem inv_of_reachable (h : callbacks.Reachable s) : Inv s := by
  refine System.Reachable.invariant ?_ (fun s a s' inv hstep => inv.step hstep) h
  rintro s rfl
  exact inv_initial

theorem Inv.remove_cbId (inv : Inv s) {i : Source} {cb : IntrCb} (hcb : cb ∈ s.cbList i) :
    ∀ other ∈ (s.remove i cb).registered, other.cbId ≠ cb.cbId := by
  intro other hother hid
  have hnodup := inv.nodup
  rw [inv.ida, registered_remove hcb, map_cons] at hnodup
  apply (nodup_cons.mp hnodup).1
  rw [← hid]
  exact mem_map_of_mem _ hother

theorem Inv.unregister (inv : Inv s) {i : Source}
    (h : plxUnregisterIntrCallback s id = some (s', i)) :
    ∃ cb ∈ s.cbList i, cb.cbId = id ∧ s.registered = cb ::ₘ s'.registered ∧
      ∀ j, s'.cbList j = (s.cbList j).filter fun other => other.cbId ≠ id := by
  obtain ⟨cb, hcb, rfl, rfl⟩ := unregisterFrom_some h
  refine ⟨cb, hcb, rfl, registered_remove hcb, fun j => ?_⟩
  have hother := inv.remove_cbId hcb
  -- what is left has other numbers, so that filtering takes out no more
  have hkept : (s.remove i cb).cbList j =
      ((s.remove i cb).cbList j).filter fun other => other.cbId ≠ cb.cbId := by
    rw [eq_comm, List.filter_eq_self]
    intro other hmem
    exact decide_eq_true (hother other (mem_registered.mpr ⟨j, hmem⟩))
  rw [hkept]
  by_cases hj : j = i
  · subst hj
    obtain ⟨before, after, hlist, herase⟩ := List.exists_erase_eq hcb
    have hremoved : (s.remove j cb).cbList j = (s.cbList j).erase cb := update_self ..
    rw [hremoved, herase.2, herase.1]
    simp
  · have hsame : (s.remove i cb).cbList j = s.cbList j := update_of_ne hj ..
    rw [hsame]

end

/-! ## The release -/

section

variable {s : IrqInfo}

theorem foldl_erase (l : List IntrCb) (f : IntrCb → Nat) (m : Multiset Nat) :
    l.foldl (fun m cb => m.erase (f cb)) m = m - (l.map f : List Nat) := by
  induction l generalizing m with
  | nil => simp
  | cons cb l ih =>
    rw [List.foldl_cons, ih, List.map_cons, ← cons_coe, sub_cons]

/-- The sources that the release comes to -/
def reached (s : IrqInfo) (is : List Source) : List Source :=
  is.takeWhile fun i => s.cbList i ≠ []

variable {is : List Source}

theorem reached_congr {t : IrqInfo}
    (h : ∀ j ∈ is, t.cbList j = s.cbList j) : reached t is = reached s is := by
  induction is with
  | nil => rfl
  | cons i is ih =>
    have hrest := ih fun j hj => h j (List.mem_cons_of_mem i hj)
    unfold reached at hrest ⊢
    simp only [List.takeWhile_cons, h i List.mem_cons_self, hrest]

theorem reached_subset (is : List Source) : reached s is ⊆ is := List.takeWhile_subset _

theorem releaseLoop_eq (hnodup : is.Nodup) (s : IrqInfo) :
    (∀ j, (releaseLoop is s).cbList j = if j ∈ reached s is then [] else s.cbList j) ∧
    (releaseLoop is s).live =
      s.live - ((reached s is).map fun i => ((s.cbList i).map IntrCb.number : Multiset Nat)).sum := by
  induction is generalizing s with
  | nil => simp [releaseLoop, reached]
  | cons i is ih =>
    obtain ⟨hi, his⟩ := List.nodup_cons.mp hnodup
    rw [releaseLoop]
    split
    · rename_i hempty
      simp [reached, hempty]
    · rename_i hcallbacks
      obtain ⟨hlists, hlive⟩ := ih his (releaseList s i)
      -- the other lists are as they were
      have hother : ∀ j, j ≠ i → (releaseList s i).cbList j = s.cbList j := fun j hj =>
        update_of_ne hj ..
      have hreached : reached (releaseList s i) is = reached s is :=
        reached_congr fun j hj => hother j (ne_of_mem_of_not_mem hj hi)
      have hcons : reached s (i :: is) = i :: reached s is := by
        simp [reached, hcallbacks]
      rw [hcons]
      constructor
      · intro j
        rw [hlists j, hreached]
        by_cases hj : j = i
        · subst hj
          simp [releaseList]
        · simp [hj, hother j hj]
      · have hsum : (reached s is).map (fun j =>
              (((releaseList s i).cbList j).map IntrCb.number : Multiset Nat)) =
            (reached s is).map fun j => ((s.cbList j).map IntrCb.number : Multiset Nat) := by
          apply List.map_congr_left
          intro j hj
          rw [hother j (ne_of_mem_of_not_mem (reached_subset is hj) hi)]
        have hfirst : (releaseList s i).live = s.live - ((s.cbList i).map IntrCb.number : List Nat) :=
          foldl_erase (s.cbList i) IntrCb.number s.live
        rw [hlive, hreached, hsum, hfirst, tsub_tsub, List.map_cons, List.sum_cons]

/-- No source with a callback comes after one without. -/
def Dense (s : IrqInfo) : Prop := ∀ i j, i < j → s.cbList i = [] → s.cbList j = []

/-- No callback has a name. -/
def Nameless (s : IrqInfo) : Prop := ∀ cb ∈ s.registered, cb.name = none

/-- Every callback is gone, and all that was allocated for callbacks is freed. -/
def Released (s : IrqInfo) : Prop := (∀ i, s.cbList i = []) ∧ s.live = 0

theorem mem_reached (hsorted : is.Pairwise (· < ·)) {i : Source} :
    i ∈ reached s is ↔ i ∈ is ∧ ∀ j ∈ is, j ≤ i → s.cbList j ≠ [] := by
  induction is with
  | nil => simp [reached]
  | cons k is ih =>
    obtain ⟨hk, his⟩ := List.pairwise_cons.mp hsorted
    have ih := ih his
    unfold reached at ih ⊢
    rw [List.takeWhile_cons]
    split
    · rename_i hcallbacks
      rw [List.mem_cons, ih]
      constructor
      · rintro (rfl | ⟨hmem, hall⟩)
        · refine ⟨List.mem_cons_self, fun j hj hle => ?_⟩
          rcases List.mem_cons.mp hj with rfl | hj
          · exact of_decide_eq_true hcallbacks
          · exact absurd (hk j hj) (not_lt_of_ge hle)
        · refine ⟨List.mem_cons_of_mem k hmem, fun j hj hle => ?_⟩
          rcases List.mem_cons.mp hj with rfl | hj
          · exact of_decide_eq_true hcallbacks
          · exact hall j hj hle
      · rintro ⟨hmem, hall⟩
        rcases List.mem_cons.mp hmem with rfl | hmem
        · exact Or.inl rfl
        · exact Or.inr ⟨hmem, fun j hj => hall j (List.mem_cons_of_mem k hj)⟩
    · -- the loop has ended at `k`, which is before all others
      rename_i hempty
      have hk' : s.cbList k = [] := by simpa using hempty
      refine iff_of_false List.not_mem_nil ?_
      rintro ⟨hmem, hall⟩
      have hle : k ≤ i := by
        rcases List.mem_cons.mp hmem with rfl | hmem
        · exact le_refl _
        · exact le_of_lt (hk i hmem)
      exact hall k List.mem_cons_self hle hk'

theorem mem_reached_all {i : Source} :
    i ∈ reached s (List.finRange plxNumOffsets) ↔ ∀ j ≤ i, s.cbList j ≠ [] := by
  rw [mem_reached (List.pairwise_lt_finRange _)]
  simp

theorem release_empties_iff : (∀ i, (plxReleaseCallbacks s).cbList i = []) ↔ Dense s := by
  have hlists := (releaseLoop_eq (List.nodup_finRange plxNumOffsets) s).1
  constructor
  · intro hempty i j hij hi
    have hj := hempty j
    rw [plxReleaseCallbacks, hlists j] at hj
    split at hj
    · rename_i hreached
      exact absurd hi (mem_reached_all.mp hreached i (le_of_lt hij))
    · exact hj
  · intro hdense i
    rw [plxReleaseCallbacks, hlists i]
    split
    · rfl
    · rename_i hnot
      rw [mem_reached_all] at hnot
      push Not at hnot
      obtain ⟨j, hle, hj⟩ := hnot
      rcases lt_or_eq_of_le hle with hlt | rfl
      · exact hdense j i hlt hj
      · exact hj

theorem empty_of_not_reached (hdense : Dense s) {i : Source}
    (h : i ∉ reached s (List.finRange plxNumOffsets)) : s.cbList i = [] := by
  have hempty := release_empties_iff.mpr hdense i
  rwa [plxReleaseCallbacks, (releaseLoop_eq (List.nodup_finRange plxNumOffsets) s).1 i, if_neg h]
    at hempty

theorem reached_sum_of_dense (hdense : Dense s) :
    ((reached s (List.finRange plxNumOffsets)).map fun i =>
      ((s.cbList i).map IntrCb.number : Multiset Nat)).sum = s.registered.map IntrCb.number := by
  have hall : s.registered.map IntrCb.number =
      ((List.finRange plxNumOffsets).map fun i =>
        ((s.cbList i).map IntrCb.number : Multiset Nat)).sum := by
    rw [IrqInfo.registered, Fin.sum_univ_def, ← coe_mapAddMonoidHom, map_list_sum,
      List.map_map]
    rfl
  have hsplit : reached s (List.finRange plxNumOffsets) ++
      (List.finRange plxNumOffsets).dropWhile (fun i => s.cbList i ≠ []) =
        List.finRange plxNumOffsets := List.takeWhile_append_dropWhile
  have hnodup : (reached s (List.finRange plxNumOffsets) ++
      (List.finRange plxNumOffsets).dropWhile fun i => s.cbList i ≠ []).Nodup := by
    rw [hsplit]
    exact List.nodup_finRange plxNumOffsets
  have hrest : (((List.finRange plxNumOffsets).dropWhile fun i => s.cbList i ≠ []).map fun i =>
      ((s.cbList i).map IntrCb.number : Multiset Nat)).sum = 0 := by
    apply List.sum_eq_zero
    intro m hm
    obtain ⟨i, hi, rfl⟩ := List.mem_map.mp hm
    have hnot : i ∉ reached s (List.finRange plxNumOffsets) := fun h =>
      List.disjoint_of_nodup_append hnodup h hi
    rw [empty_of_not_reached hdense hnot]
    rfl
  rw [hall, ← hsplit, List.map_append, List.sum_append, hrest, add_zero, hsplit]

theorem release_live (inv : Inv s) (hdense : Dense s) :
    (plxReleaseCallbacks s).live = s.registered.bind fun cb => cb.name.elim 0 fun name => {name} := by
  have hmemory : s.registered.bind IntrCb.memory = s.registered.map IntrCb.number +
      s.registered.bind fun cb => cb.name.elim 0 fun name => {name} := by
    rw [← bind_singleton, ← bind_add]
    rfl
  rw [plxReleaseCallbacks, (releaseLoop_eq (List.nodup_finRange plxNumOffsets) s).2,
    reached_sum_of_dense hdense, inv.live, hmemory, add_tsub_cancel_left]

theorem released_iff (inv : Inv s) : Released (plxReleaseCallbacks s) ↔ Dense s ∧ Nameless s := by
  rw [Released, release_empties_iff, and_congr_right_iff]
  intro hdense
  rw [release_live inv hdense, eq_zero_iff_forall_notMem]
  constructor
  · intro hnone cb hcb
    cases hname : cb.name with
    | none => rfl
    | some name =>
      refine absurd (mem_bind.mpr ⟨cb, hcb, ?_⟩) (hnone name)
      rw [hname]
      exact mem_singleton_self name
  · intro hnameless name hmem
    obtain ⟨cb, hcb, hname⟩ := mem_bind.mp hmem
    rw [hnameless cb hcb] at hname
    exact notMem_zero name hname

/-- **Interrupt callbacks**, after any successful calls: no two registered callbacks have one number;
unregistering succeeds for the numbers that are registered and takes out exactly the callback
with the number; and the release is complete exactly when no source with a callback comes after
one without and no callback has a name. -/
theorem callbacks_released_iff (h : callbacks.Reachable s) :
    (s.registered.map IntrCb.cbId).Nodup ∧
    (∀ id, (plxUnregisterIntrCallback s id).isSome ↔ ∃ cb ∈ s.registered, cb.cbId = id) ∧
    (∀ id s' i, plxUnregisterIntrCallback s id = some (s', i) →
      ∃ cb ∈ s.cbList i, cb.cbId = id ∧ s.registered = cb ::ₘ s'.registered ∧
        ∀ j, s'.cbList j = (s.cbList j).filter fun other => other.cbId ≠ id) ∧
    (Released (plxReleaseCallbacks s) ↔ Dense s ∧ Nameless s) := by
  have inv := inv_of_reachable h
  refine ⟨?_, fun id => unregister_isSome, fun id s' i hun => inv.unregister hun, released_iff inv⟩
  rw [← inv.ida]
  exact inv.nodup

def firstSource : Source := ⟨0, by decide⟩

def secondSource : Source := ⟨1, by decide⟩

/-- A callback without a name for each of the first two sources -/
def twoCallbacks : IrqInfo :=
  plxRegisterIntrCallback (plxRegisterIntrCallback .initial firstSource 0 false) secondSource 1 false

/-- All is released. -/
theorem twoCallbacks_released : Released (plxReleaseCallbacks twoCallbacks) := by
  have hreach : callbacks.Reachable twoCallbacks :=
    System.reachable_of_run (.init rfl)
      [.register firstSource 0 false, .register secondSource 1 false] (by rfl)
  refine (callbacks_released_iff hreach).2.2.2.mpr ⟨?_, ?_⟩
  · change ∀ i j, i < j → twoCallbacks.cbList i = [] → twoCallbacks.cbList j = []
    decide +kernel
  · change ∀ cb ∈ twoCallbacks.registered, cb.name = none
    decide +kernel

/-- The first callback of a device is one for source 1, because the boot protocol uses source 0
without a callback: it stays registered.  With source 0 its name stays allocated. -/
theorem firstCallback_left :
    (callbacks.Reachable (plxRegisterIntrCallback .initial secondSource 0 false) ∧
      ¬ Released (plxReleaseCallbacks (plxRegisterIntrCallback .initial secondSource 0 false))) ∧
    (callbacks.Reachable (plxRegisterIntrCallback .initial firstSource 0 true) ∧
      ¬ Released (plxReleaseCallbacks (plxRegisterIntrCallback .initial firstSource 0 true))) := by
  refine ⟨⟨?_, ?_⟩, ⟨?_, ?_⟩⟩
  · exact System.reachable_of_run (.init rfl) [.register secondSource 0 false] (by rfl)
  · intro h
    exact absurd (h.1 secondSource) (by decide)
  · exact System.reachable_of_run (.init rfl) [.register firstSource 0 true] (by rfl)
  · intro h
    exact absurd h.2 (by decide)

end

end Vcass.Intr
