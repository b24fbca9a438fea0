import Mathlib.Data.List.Basic

/-!
# Property Trees

Trees with data at every node and an ordered list of children, each under a key that may repeat.  A
list of steps leads to some of the nodes: on each level to all children with a property, or to the
first child with a key.  `nodes` are the nodes that the steps lead to, and `alter` changes these and
nothing else.

The second part is about loops that go over the children of a node, test each one and replace it.
They run on a state and may end early, and their body sees the node with the children that have been
replaced so far.

- `nodes_alter`, `alter_alter`: the laws of the two operations, for steps that do not depend on the
  change (`Stable`).
- `forNodes_alter`: a loop that ends is a change of the nodes it tests for.
- `forNodes_once`: what a loop does when its steps lead to one node only.
-/

namespace Vcass.Core

open List

/-- A tree with data of type `D` and keys of type `K` -/
inductive PTree (K D : Type) where
  | node (data : D) (children : List (K × PTree K D))

namespace PTree

variable {K D : Type}

def data : PTree K D → D
  | node d _ => d

def children : PTree K D → List (K × PTree K D)
  | node _ cs => cs

def setData (d : D) (t : PTree K D) : PTree K D := node d t.children

def setChildren (cs : List (K × PTree K D)) (t : PTree K D) : PTree K D := node t.data cs

section

variable (t : PTree K D)

include t

@[simp] theorem data_setData (d : D) : (t.setData d).data = d := rfl

@[simp] theorem children_setData (d : D) :
    (t.setData d).children = t.children := rfl

@[simp] theorem setData_setData (d d' : D) :
    (t.setData d).setData d' = t.setData d' := rfl

@[simp] theorem children_setChildren (cs : List (K × PTree K D)) :
    (t.setChildren cs).children = cs := rfl

@[simp] theorem setChildren_setChildren (cs cs' : List (K × PTree K D)) :
    (t.setChildren cs).setChildren cs' = t.setChildren cs' := rfl

@[simp] theorem setChildren_children : t.setChildren t.children = t := by
  cases t
  rfl

end

/-! ## Children -/

/-- Change all children with a property. -/
def modifyEvery (sel : K × PTree K D → Bool) (f : PTree K D → PTree K D)
    (cs : List (K × PTree K D)) : List (K × PTree K D) :=
  cs.map fun v => if sel v then (v.1, f v.2) else v

theorem modifyEvery_eq_self {sel : K × PTree K D → Bool} {f : PTree K D → PTree K D}
    {cs : List (K × PTree K D)} (h : ∀ v ∈ cs, sel v → f v.2 = v.2) :
    modifyEvery sel f cs = cs := by
  unfold modifyEvery
  conv_rhs => rw [← map_id cs]
  refine map_congr_left fun v hv => ?_
  by_cases hsel : sel v <;> simp [hsel, h v hv]

section

variable [DecidableEq K]

/-- The first child with the key -/
def getChild (key : K) (t : PTree K D) : Option (PTree K D) :=
  (t.children.find? fun v => v.1 = key).map Prod.snd

/-- Change the first child with the key, if there is one. -/
def modifyFirst (key : K) (f : PTree K D → PTree K D) :
    List (K × PTree K D) → List (K × PTree K D)
  | [] => []
  | v :: cs => if v.1 = key then (v.1, f v.2) :: cs else v :: modifyFirst key f cs

@[simp] theorem map_fst_modifyFirst (key : K) (f : PTree K D → PTree K D)
    (cs : List (K × PTree K D)) : (modifyFirst key f cs).map Prod.fst = cs.map Prod.fst := by
  induction cs with
  | nil => rfl
  | cons v cs ih =>
    unfold modifyFirst
    split <;> simp [ih]

theorem getChild_modifyFirst (key key' : K) (f : PTree K D → PTree K D) (t : PTree K D) :
    (t.setChildren (modifyFirst key' f t.children)).getChild key =
      if key' = key then (t.getChild key).map f else t.getChild key := by
  unfold getChild
  rw [children_setChildren]
  induction t.children with
  | nil => simp [modifyFirst]
  | cons v cs ih =>
    by_cases hv : v.1 = key'
    · by_cases hkey : key' = key <;> simp [modifyFirst, hv, hkey]
    · by_cases hkey : v.1 = key
      · have hne : key' ≠ key := fun h => hv (hkey.trans h.symm)
        simp [modifyFirst, hkey, hne, Ne.symm hne]
      · simpa [modifyFirst, hv, hkey] using ih

/-- A child that is not among the changed ones stays. -/
theorem getChild_modifyEvery {key : K} {sel : K × PTree K D → Bool}
    (hsel : ∀ v, v.1 = key → sel v = false) (f : PTree K D → PTree K D) (t : PTree K D) :
    (t.setChildren (modifyEvery sel f t.children)).getChild key = t.getChild key := by
  unfold getChild modifyEvery
  rw [children_setChildren]
  induction t.children with
  | nil => rfl
  | cons v cs ih =>
    by_cases hkey : v.1 = key
    · simp [hsel v hkey, hkey]
    · by_cases hv : sel v <;> simpa [hv, hkey] using ih

/-! ## Nodes -/

/-- One level of the way to a node -/
inductive Step (K D : Type) where
  /-- all children with a property -/
  | every (sel : K × PTree K D → Bool)
  /-- the first child with a key -/
  | first (key : K)

/-- The nodes that some steps lead to -/
def nodes : List (Step K D) → PTree K D → List (PTree K D)
  | [], t => [t]
  | .every sel :: ss, t => (t.children.filter sel).flatMap fun v => nodes ss v.2
  | .first key :: ss, t => (t.getChild key).toList.flatMap (nodes ss)

/-- Change the nodes that some steps lead to. -/
def alter : List (Step K D) → (PTree K D → PTree K D) → PTree K D → PTree K D
  | [], f, t => f t
  | .every sel :: ss, f, t => t.setChildren (modifyEvery sel (alter ss f) t.children)
  | .first key :: ss, f, t => t.setChildren (modifyFirst key (alter ss f) t.children)

/-- The steps lead the same way after a change. -/
def Stable : List (Step K D) → (PTree K D → PTree K D) → Prop
  | [], _ => True
  | .every sel :: ss, f => (∀ v, sel (v.1, alter ss f v.2) = sel v) ∧ Stable ss f
  | .first _ :: ss, f => Stable ss f

variable {ss : List (Step K D)} {f g : PTree K D → PTree K D}

/-- **After a change, the steps lead to the changed nodes.** -/
theorem nodes_alter (h : Stable ss f) (t : PTree K D) :
    nodes ss (alter ss f t) = (nodes ss t).map f := by
  induction ss generalizing t with
  | nil => rfl
  | cons s ss ih =>
    cases s with
    | every sel =>
      obtain ⟨hsel, hrest⟩ := h
      simp only [nodes, alter, children_setChildren]
      induction t.children with
      | nil => rfl
      | cons v cs ihcs =>
        simp only [modifyEvery] at ihcs
        by_cases hv : sel v <;> simp [modifyEvery, hv, hsel, ih hrest, ihcs]
    | first key =>
      simp only [nodes, alter, getChild_modifyFirst, if_true]
      cases t.getChild key <;> simp [ih h]

/-- **Two changes are one.** -/
theorem alter_alter (h : Stable ss f) (t : PTree K D) :
    alter ss g (alter ss f t) = alter ss (g ∘ f) t := by
  induction ss generalizing t with
  | nil => rfl
  | cons s ss ih =>
    cases s with
    | every sel =>
      -- the first change does not move a child into or out of the selection
      obtain ⟨hsel, hrest⟩ := h
      simp only [alter, children_setChildren, setChildren_setChildren]
      congr 1
      simp only [modifyEvery, map_map]
      refine map_congr_left fun v _ => ?_
      by_cases hv : sel v <;> simp [hv, hsel, ih hrest]
    | first key =>
      simp only [alter, children_setChildren, setChildren_setChildren]
      congr 1
      induction t.children with
      | nil => rfl
      | cons v cs ihcs =>
        by_cases hv : v.1 = key <;> simp [modifyFirst, hv, ih h, ihcs]

/-- Nothing changes where the steps lead nowhere. -/
theorem alter_eq_self {t : PTree K D} (h : nodes ss t = []) : alter ss f t = t := by
  induction ss generalizing t with
  | nil => cases h
  | cons s ss ih =>
    cases s with
    | every sel =>
      simp only [nodes, flatMap_eq_nil_iff, mem_filter] at h
      rw [alter, modifyEvery_eq_self fun v hv hsel => ih (h v ⟨hv, hsel⟩), setChildren_children]
    | first key =>
      have hsame : modifyFirst key (alter ss f) t.children = t.children := by
        simp only [nodes, getChild] at h
        -- induction on the children up to the first one with the key
        generalize t.children = cs at h
        induction cs with
        | nil => rfl
        | cons v cs ihcs =>
          by_cases hv : v.1 = key
          · have hnil : nodes ss v.2 = [] := by simpa [hv] using h
            simp [modifyFirst, hv, ih hnil]
            exact Prod.ext hv.symm rfl
          · simp only [modifyFirst, hv, if_false, List.cons.injEq, true_and]
            exact ihcs (by simpa [hv] using h)
      rw [alter, hsame, setChildren_children]

end

/-! ## Loops over children -/

section

variable {σ ε : Type}

/-- Computations on a state that may end early -/
abbrev Run (σ ε : Type) := ExceptT ε (StateM σ)

theorem run_bind {α β : Type} (x : Run σ ε α) (f : α → Run σ ε β) (s : σ) :
    (x >>= f) s = match x s with
      | (.ok a, s') => f a s'
      | (.error e, s') => (.error e, s') := by
  rcases h : x s with ⟨r, s'⟩
  cases r with
  | ok a => simp [bind, ExceptT.bind, ExceptT.mk, ExceptT.bindCont, StateT.bind, h]
  | error e =>
    simp [bind, ExceptT.bind, ExceptT.mk, ExceptT.bindCont, StateT.bind, h]
    rfl

@[simp] theorem run_pure {α : Type} (a : α) (s : σ) : (pure a : Run σ ε α) s = (.ok a, s) := rfl

/-- A loop that replaces each child by the result of its body -/
def forEach (body : List (K × PTree K D) → K × PTree K D → Run σ ε (PTree K D)) :
    List (K × PTree K D) → List (K × PTree K D) → Run σ ε (List (K × PTree K D))
  | done, [] => pure done
  | done, v :: cs => do
    let t ← body (done ++ v :: cs) v
    forEach body (done ++ [(v.1, t)]) cs

/-- The body of a loop behind a test -/
def guarded (test : K × PTree K D → Run σ ε Bool)
    (body : PTree K D → PTree K D → Run σ ε (PTree K D)) (node : PTree K D)
    (v : K × PTree K D) : Run σ ε (PTree K D) := do
  if ← test v then body node v.2 else return v.2

/-- A loop over children of a node that pass a test -/
def forFound (test : K × PTree K D → Run σ ε Bool)
    (body : PTree K D → PTree K D → Run σ ε (PTree K D)) (t : PTree K D) :
    List (K × PTree K D) → List (K × PTree K D) → Run σ ε (List (K × PTree K D)) :=
  forEach fun cs => guarded test body (t.setChildren cs)

/-- A loop over all children of a node that pass a test -/
def forNodes (test : K × PTree K D → Run σ ε Bool)
    (body : PTree K D → PTree K D → Run σ ε (PTree K D)) (t : PTree K D) :
    Run σ ε (PTree K D) := do
  let cs ← forFound test body t [] t.children
  return t.setChildren cs

variable [DecidableEq K] {test : K × PTree K D → Run σ ε Bool} {sel : K × PTree K D → Bool}
  {body : PTree K D → PTree K D → Run σ ε (PTree K D)} {ss : List (Step K D)}

/-- **A loop that ends is a change of the nodes it tests for.** -/
theorem forNodes_alter {f : PTree K D → PTree K D}
    (htest : ∀ v s b s', test v s = (.ok b, s') → b = sel v)
    (hbody : ∀ node u s u' s', body node u s = (.ok u', s') → u' = alter ss f u)
    {t t' : PTree K D} {s s' : σ} (h : forNodes test body t s = (.ok t', s')) :
    t' = alter (.every sel :: ss) f t := by
  -- a child that does not pass is left alone, one that passes is changed below
  have hguarded : ∀ node v s u s', guarded test body node v s = (.ok u, s') →
      (v.1, u) = if sel v then (v.1, alter ss f v.2) else v := by
    intro node v s u s' h
    simp only [guarded, run_bind] at h
    rcases hv : test v s with ⟨_ | b, s₁⟩ <;> simp only [hv] at h
    · cases h
    · obtain rfl := htest _ _ _ _ hv
      by_cases hsel : sel v
      · rw [if_pos hsel] at h ⊢
        rw [hbody _ _ _ _ _ h]
      · rw [if_neg hsel] at h ⊢
        obtain rfl : v.2 = u := by simpa using congrArg Prod.fst h
        rfl
  -- the invariant of the loop: what is done is changed, what is left is not
  have hloop : ∀ cs done cs' s s', forFound test body t done cs s = (.ok cs', s') →
      cs' = done ++ modifyEvery sel (alter ss f) cs := by
    intro cs
    induction cs with
    | nil =>
      intro done cs' s s' h
      obtain rfl : done = cs' := by simpa [forFound, forEach] using congrArg Prod.fst h
      simp [modifyEvery]
    | cons v cs ih =>
      intro done cs' s s' h
      simp only [forFound, forEach, run_bind] at h
      rcases hv : guarded test body (t.setChildren (done ++ v :: cs)) v s with ⟨_ | u, s₁⟩ <;>
        simp only [hv] at h
      · cases h
      · rw [ih _ _ _ _ h, hguarded _ _ _ _ _ hv]
        simp [modifyEvery]
  simp only [forNodes, run_bind] at h
  split at h
  · rename_i cs s₁ hcs
    have hchildren := hloop _ _ _ _ _ hcs
    obtain rfl : t.setChildren cs = t' := by simpa using congrArg Prod.fst h
    rw [hchildren]
    rfl
  · cases h

/-! ## Loops that change one node -/

/-- The computation has ended with one of the errors `bad`. -/
def Fails {α : Type} (bad : ε → Prop) (x : Except ε α × σ) : Prop :=
  ∃ e s, x = (.error e, s) ∧ bad e

/-- The edit of a tree in which the steps lead to the node `u` has the effect `P` on this node,
unless it fails. -/
def Effect (bad : ε → Prop) (P : PTree K D → σ → Except ε (PTree K D) → σ → Prop)
    (ss : List (Step K D)) (t : PTree K D) (s : σ) (u : PTree K D)
    (x : Except ε (PTree K D) × σ) : Prop :=
  Fails bad x ∨ ∃ r s', x = (r.map fun u' => alter ss (fun _ => u') t, s') ∧ P u s r s'

/-- What an edit does where the steps lead nowhere, and where they lead to one node -/
structure Once (bad : ε → Prop) (P : PTree K D → σ → Except ε (PTree K D) → σ → Prop)
    (ss : List (Step K D)) (edit : PTree K D → Run σ ε (PTree K D)) : Prop where
  none : ∀ t s, nodes ss t = [] → Fails bad (edit t s) ∨ edit t s = (.ok t, s)
  one : ∀ t s u, nodes ss t = [u] → Effect bad P ss t s u (edit t s)

/-- Below none of the children that pass there is a node to be changed. -/
def Clear (sel : K × PTree K D → Bool) (ss : List (Step K D)) (cs : List (K × PTree K D)) :
    Prop :=
  ∀ v ∈ cs, sel v → nodes ss v.2 = []

theorem Clear.modifyEvery_eq {cs : List (K × PTree K D)} (h : Clear sel ss cs)
    (f : PTree K D → PTree K D) : modifyEvery sel (alter ss f) cs = cs :=
  modifyEvery_eq_self fun v hv hsel => alter_eq_self (h v hv hsel)

theorem clear_iff {cs : List (K × PTree K D)} :
    Clear sel ss cs ↔ (cs.filter sel).flatMap (fun v => nodes ss v.2) = [] := by
  simp only [Clear, flatMap_eq_nil_iff, mem_filter, and_imp]

section

variable {bad : ε → Prop} {P : PTree K D → σ → Except ε (PTree K D) → σ → Prop}
  (htest : ∀ v s, Fails bad (test v s) ∨ test v s = (.ok (sel v), s))
  (hnone : ∀ node t s, nodes ss t = [] → Fails bad (body node t s) ∨ body node t s = (.ok t, s))

include htest hnone

/-- A child below which no node is to be changed stays. -/
theorem guarded_none (node : PTree K D) {v : K × PTree K D} (hv : sel v → nodes ss v.2 = [])
    (s : σ) : Fails bad (guarded test body node v s) ∨
      guarded test body node v s = (.ok v.2, s) := by
  simp only [guarded, run_bind]
  obtain ⟨e, s', hfail, hbad⟩ | hpass := htest v s
  · exact .inl ⟨e, s', by rw [hfail], hbad⟩
  · simp only [hpass]
    by_cases hsel : sel v
    · simpa [hsel] using hnone node v.2 s (hv hsel)
    · exact .inr (by simp [hsel])

theorem forFound_none (t : PTree K D) {cs : List (K × PTree K D)} (hcs : Clear sel ss cs)
    (done : List (K × PTree K D)) (s : σ) :
    Fails bad (forFound test body t done cs s) ∨
      forFound test body t done cs s = (.ok (done ++ cs), s) := by
  induction cs generalizing done with
  | nil => exact .inr (by simp [forFound, forEach])
  | cons v cs ih =>
    obtain ⟨hv, hcs⟩ := forall_mem_cons.mp hcs
    simp only [forFound, forEach, run_bind]
    obtain ⟨e, s', hfail, hbad⟩ | hpass :=
      guarded_none htest hnone (t.setChildren (done ++ v :: cs)) hv s
    · exact .inl ⟨e, s', by rw [hfail], hbad⟩
    · simp only [hpass]
      simpa [forFound] using ih hcs (done ++ [v])

variable (hone : ∀ t pre v post s u, Clear sel ss pre → sel v → nodes ss v.2 = [u] →
  Effect bad P ss v.2 s u (body (setChildren (pre ++ v :: post) t) v.2 s))

include hone

/-- The loop comes to the node to be changed with all children before it as they were. -/
theorem forFound_one (t : PTree K D) {cs done : List (K × PTree K D)} {u : PTree K D}
    (hdone : Clear sel ss done)
    (hcs : (cs.filter sel).flatMap (fun v => nodes ss v.2) = [u]) (s : σ) :
    Fails bad (forFound test body t done cs s) ∨ ∃ r s', forFound test body t done cs s =
      (r.map fun u' => modifyEvery sel (alter ss fun _ => u') (done ++ cs), s') ∧ P u s r s' := by
  induction cs generalizing done with
  | nil => cases hcs
  | cons v cs ih =>
    -- the node is below this child, or below one of the next
    by_cases hv : sel v = true ∧ nodes ss v.2 ≠ []
    · obtain ⟨hsel, hne⟩ := hv
      rw [filter_cons_of_pos hsel, flatMap_cons] at hcs
      obtain ⟨hnil, -⟩ | ⟨hu, hrest⟩ := append_eq_singleton_iff.mp hcs
      · exact absurd hnil hne
      have hafter := clear_iff.mpr hrest
      simp only [forFound, forEach, guarded, run_bind]
      obtain ⟨e, s', hfail, hbad⟩ | hpass := htest v s
      · exact .inl ⟨e, s', by rw [hfail], hbad⟩
      simp only [hpass, hsel, if_true]
      obtain ⟨e, s', hfail, hbad⟩ | ⟨r, s', hr, hP⟩ := hone t done v cs s u hdone hsel hu
      · exact .inl ⟨e, s', by rw [hfail], hbad⟩
      rw [hr]
      cases r with
      | error e => exact .inr ⟨.error e, s', rfl, hP⟩
      | ok u' =>
        obtain hfail | hend := forFound_none htest hnone t hafter
          (done ++ [(v.1, alter ss (fun _ => u') v.2)]) s'
        · exact .inl hfail
        · refine .inr ⟨.ok u', s', hend.trans ?_, hP⟩
          -- this child is the only one with something to change
          have hsplit : modifyEvery sel (alter ss fun _ => u') (done ++ v :: cs) =
              modifyEvery sel (alter ss fun _ => u') done ++
                (v.1, alter ss (fun _ => u') v.2) :: modifyEvery sel (alter ss fun _ => u') cs := by
            simp [modifyEvery, hsel]
          simp [Except.map, hsplit, hdone.modifyEvery_eq, hafter.modifyEvery_eq]
    · have hnil : sel v → nodes ss v.2 = [] := fun hsel => by_contra fun hne => hv ⟨hsel, hne⟩
      have hcs' : (cs.filter sel).flatMap (fun v => nodes ss v.2) = [u] := by
        by_cases hsel : sel v
        · simpa [hsel, hnil hsel] using hcs
        · simpa [hsel] using hcs
      have hdone' : Clear sel ss (done ++ [v]) :=
        forall_mem_append.mpr ⟨hdone, forall_mem_singleton.mpr hnil⟩
      simp only [forFound, forEach, run_bind]
      obtain ⟨e, s', hfail, hbad⟩ | hpass := guarded_none htest hnone
        (t.setChildren (done ++ v :: cs)) hnil s
      · exact .inl ⟨e, s', by rw [hfail], hbad⟩
      · simp only [hpass]
        simpa [forFound] using ih hdone' hcs'

/-- **A loop whose steps lead to one node.** -/
theorem forNodes_once : Once bad P (.every sel :: ss) (forNodes test body) where
  none t s h := by
    simp only [forNodes, run_bind]
    obtain ⟨e, s', hfail, hbad⟩ | hend := forFound_none htest hnone t (clear_iff.mpr h) [] s
    · exact .inl ⟨e, s', by rw [hfail], hbad⟩
    · exact .inr (by simp [hend])
  one t s u h := by
    simp only [forNodes, run_bind]
    obtain ⟨e, s', hfail, hbad⟩ | ⟨r, s', hend, hP⟩ :=
      forFound_one htest hnone hone t (forall_mem_nil _) h s
    · exact .inl ⟨e, s', by rw [hfail], hbad⟩
    · refine .inr ⟨r, s', ?_, hP⟩
      rw [hend]
      cases r <;> rfl

end

end

end PTree

end Vcass.Core
