import Mathlib.Data.List.Basic

/-!
# Labelled Transition Systems with Partial Steps

The concurrent parts of the driver stack are modelled as systems whose step
function is partial: `step s a = none` means that action `a` is not enabled in
`s`.  This file fixes what a run is and packages the one induction that every
safety result of the development uses.

A guard `G s a s'` restricts the runs that are looked at.  It states what the
environment promises (a bound on live mappings, an order of deliveries), never
what the code does.
-/

namespace Vcass.Core

open List

/-- A labelled transition system with a partial, deterministic step function. -/
structure System (σ α : Type*) where
  /-- The initial states -/
  Init : σ → Prop
  /-- One step; `none` when the action is not enabled -/
  step : σ → α → Option σ

namespace System

variable {σ α : Type*} {S : System σ α}

/-- States reached by runs all of whose steps meet the guard `G`. -/
inductive ReachBy (S : System σ α) (G : σ → α → σ → Prop) : σ → Prop where
  | init {s : σ} : S.Init s → ReachBy S G s
  | step {s s' : σ} {a : α} :
      ReachBy S G s → G s a s' → S.step s a = some s' → ReachBy S G s'

/-- States reached by any run. -/
def Reachable (S : System σ α) : σ → Prop :=
  S.ReachBy fun _ _ _ => True

variable {G : σ → α → σ → Prop} {s : σ}

/-- **Invariant rule**: a property of the initial states that every guarded step
preserves holds in every state a guarded run reaches. -/
theorem ReachBy.invariant {I : σ → Prop}
    (hinit : ∀ s, S.Init s → I s)
    (hstep : ∀ s a s', I s → G s a s' → S.step s a = some s' → I s') (h : S.ReachBy G s) : I s := by
  induction h with
  | init h0 => exact hinit _ h0
  | step _ hg hs ih => exact hstep _ _ _ ih hg hs

/-- The unguarded form of the invariant rule. -/
theorem Reachable.invariant {I : σ → Prop}
    (hinit : ∀ s, S.Init s → I s)
    (hstep : ∀ s a s', I s → S.step s a = some s' → I s') (h : S.Reachable s) : I s :=
  ReachBy.invariant hinit (fun s a s' hI _ => hstep s a s' hI) h

/-- A weaker guard reaches the same states and more. -/
theorem ReachBy.mono {G G' : σ → α → σ → Prop} (h : S.ReachBy G s)
    (hweaker : ∀ s a s', G s a s' → G' s a s') : S.ReachBy G' s := by
  induction h with
  | init h0 => exact .init h0
  | step _ hg hs ih => exact .step ih (hweaker _ _ _ hg) hs

/-- Execute a list of actions. -/
def run (S : System σ α) : σ → List α → Option σ
  | s, [] => some s
  | s, a :: as => (S.step s a).bind fun s' => S.run s' as

@[simp]
theorem run_nil (s : σ) : S.run s [] = some s := rfl

theorem run_cons (s : σ) (a : α) (as : List α) :
    S.run s (a :: as) = (S.step s a).bind fun s' => S.run s' as := rfl

/-- Runs compose. -/
theorem run_append (s : σ) (as bs : List α) :
    S.run s (as ++ bs) = (S.run s as).bind fun s' => S.run s' bs := by
  induction as generalizing s with
  | nil => rfl
  | cons a as ih =>
    simp only [cons_append, run_cons]
    cases S.step s a with
    | none => rfl
    | some s' => exact ih s'

/-- Executing actions that the guard always allows leads to guarded states. -/
theorem reachBy_of_run {s t : σ} (hs : S.ReachBy G s) :
    ∀ as : List α, (∀ a ∈ as, ∀ s s', G s a s') → S.run s as = some t → S.ReachBy G t := by
  intro as
  induction as generalizing s with
  | nil =>
    intro _ h
    cases h
    exact hs
  | cons a as ih =>
    intro hG h
    rw [run_cons] at h
    obtain ⟨s', hstep, hrest⟩ := Option.bind_eq_some_iff.mp h
    exact ih (.step hs (hG a mem_cons_self s s') hstep)
      (fun b hb => hG b (mem_cons_of_mem _ hb)) hrest

/-- Every state that executing a list of actions visits is reachable. -/
theorem reachable_of_run {s t : σ} (hs : S.Reachable s) (as : List α)
    (h : S.run s as = some t) : S.Reachable t :=
  reachBy_of_run hs as (fun _ _ _ _ => trivial) h

/-- Execute a list of actions, as long as the guard allows them. -/
def runBy (S : System σ α) (G : σ → α → σ → Prop) [∀ s a s', Decidable (G s a s')] :
    σ → List α → Option σ
  | s, [] => some s
  | s, a :: as => (S.step s a).bind fun s' => if G s a s' then S.runBy G s' as else none

/-- Every state that a guarded execution visits is reached by guarded steps. -/
theorem reachBy_of_runBy [∀ s a s', Decidable (G s a s')] {s t : σ}
    (hs : S.ReachBy G s) : ∀ as : List α, S.runBy G s as = some t → S.ReachBy G t := by
  intro as
  induction as generalizing s with
  | nil =>
    intro h
    cases h
    exact hs
  | cons a as ih =>
    intro h
    rw [runBy] at h
    obtain ⟨s', hstep, hrest⟩ := Option.bind_eq_some_iff.mp h
    split at hrest
    · rename_i hguard
      exact ih (.step hs hguard hstep) hrest
    · cases hrest

/-- What a guarded execution shows is shown by a state that guarded steps reach. -/
theorem exists_reachBy [∀ s a s', Decidable (G s a s')] {β : Type*}
    {obs : σ → β} {as : List α} {b : β}
    (h : (S.runBy G s as).map obs = some b) (hs : S.Init s) : ∃ t, S.ReachBy G t ∧ obs t = b := by
  obtain ⟨t, hrun, hobs⟩ := Option.map_eq_some_iff.mp h
  exact ⟨t, reachBy_of_runBy (.init hs) as hrun, hobs⟩

theorem exists_reachable {β : Type*} {obs : σ → β} {as : List α} {b : β}
    (h : (S.run s as).map obs = some b) (hs : S.Init s) : ∃ t, S.Reachable t ∧ obs t = b := by
  obtain ⟨t, hrun, hobs⟩ := Option.map_eq_some_iff.mp h
  exact ⟨t, reachable_of_run (.init hs) as hrun, hobs⟩

/-! ## Observations along a run -/

/-- All steps of the execution meet `P`, which looks at the state before the step. -/
def Along (S : System σ α) (P : σ → α → Prop) : σ → List α → Prop
  | _, [] => True
  | s, a :: as => P s a ∧ ∀ s', S.step s a = some s' → S.Along P s' as

/-- The step that the action makes, if it makes one, meets the guard: a guard in the form that
`Along` takes. -/
def Allows (S : System σ α) (G : σ → α → σ → Prop) (s : σ) (a : α) : Prop :=
  ∀ s', S.step s a = some s' → G s a s'

theorem allows_iff {s s' : σ} {a : α} (h : S.step s a = some s') : S.Allows G s a ↔ G s a s' := by
  constructor
  · intro hall
    exact hall s' h
  · intro hG s'' h'
    cases h.symm.trans h'
    exact hG

/-- What is observed at the steps of an execution, in order -/
def trail {ε : Type*} (S : System σ α) (obs : σ → α → List ε) : σ → List α → List ε
  | _, [] => []
  | s, a :: as => obs s a ++ ((S.step s a).map fun s' => S.trail obs s' as).getD []

section

variable {ε : Type*} {obs : σ → α → List ε} {P : σ → α → Prop}

/-- **Trail rule**: what each step preserves of a state and the observations so far holds after
the execution. -/
theorem trail_induct {I : σ → List ε → Prop}
    (hstep : ∀ s a s' log, I s log → P s a → S.step s a = some s' → I s' (log ++ obs s a))
    {t : σ} (as : List α) {log : List ε} (h : I s log) (halong : S.Along P s as)
    (hrun : S.run s as = some t) : I t (log ++ S.trail obs s as) := by
  induction as generalizing s log with
  | nil =>
    cases hrun
    rw [trail, append_nil]
    exact h
  | cons a as ih =>
    rw [run_cons] at hrun
    obtain ⟨s', hs, hrest⟩ := Option.bind_eq_some_iff.mp hrun
    have hnext := ih (hstep s a s' log h halong.1 hs) (halong.2 s' hs) hrest
    rw [trail, hs, ← append_assoc]
    exact hnext

/-- Nothing is observed along a run when nothing is observed at any of its steps. -/
theorem trail_eq_nil_iff {t : σ} (as : List α) (hrun : S.run s as = some t) :
    S.trail obs s as = [] ↔ S.Along (fun s a => obs s a = []) s as := by
  induction as generalizing s with
  | nil => exact ⟨fun _ => trivial, fun _ => rfl⟩
  | cons a as ih =>
    rw [run_cons] at hrun
    obtain ⟨s', hs, hrest⟩ := Option.bind_eq_some_iff.mp hrun
    rw [trail, hs, Along, append_eq_nil_iff]
    apply and_congr_right
    intro _
    constructor
    · intro hnil s'' hs''
      cases hs.symm.trans hs''
      exact (ih hrest).mp hnil
    · intro halong
      exact (ih hrest).mpr (halong s' hs)

/-- Observations may be sorted out step by step. -/
theorem trail_filterMap {δ : Type*} (f : ε → Option δ) (as : List α) (s : σ) :
    (S.trail obs s as).filterMap f = S.trail (fun s a => (obs s a).filterMap f) s as := by
  induction as generalizing s with
  | nil => rfl
  | cons a as ih =>
    rw [trail, trail, filterMap_append]
    congr 1
    cases S.step s a with
    | none => rfl
    | some s' => exact ih s'

/-- Two conditions on the steps hold along the same executions, when they agree at each step as long
as they have held so far. -/
theorem along_congr {I : σ → Prop} {G P Q : σ → α → Prop}
    (hiff : ∀ s a s', I s → G s a → S.step s a = some s' → (P s a ↔ Q s a))
    (hkeep : ∀ s a s', I s → G s a → P s a → S.step s a = some s' → I s')
    (as : List α) {s t : σ} (hI : I s) (hG : S.Along G s as) (hrun : S.run s as = some t) :
    S.Along P s as ↔ S.Along Q s as := by
  induction as generalizing s with
  | nil => exact Iff.rfl
  | cons a as ih =>
    rw [run_cons] at hrun
    obtain ⟨s', hs, hrest⟩ := Option.bind_eq_some_iff.mp hrun
    have hstep := hiff s a s' hI hG.1 hs
    constructor
    · rintro ⟨hP, hafter⟩
      refine ⟨hstep.mp hP, ?_⟩
      intro s'' hs''
      cases hs.symm.trans hs''
      exact (ih (hkeep s a s' hI hG.1 hP hs) (hG.2 s' hs) hrest).mp (hafter s' hs)
    · -- here `P` is not given, and has to be had from `Q` before the step
      rintro ⟨hQ, hafter⟩
      have hP := hstep.mpr hQ
      refine ⟨hP, ?_⟩
      intro s'' hs''
      cases hs.symm.trans hs''
      exact (ih (hkeep s a s' hI hG.1 hP hs) (hG.2 s' hs) hrest).mpr (hafter s' hs)

/-- A guarded execution meets its guard. -/
theorem along_of_runBy [∀ s a s', Decidable (G s a s')] (as : List α)
    {s t : σ} (h : S.runBy G s as = some t) : S.Along (S.Allows G) s as ∧ S.run s as = some t := by
  induction as generalizing s with
  | nil => exact ⟨trivial, h⟩
  | cons a as ih =>
    rw [runBy] at h
    obtain ⟨s', hstep, hrest⟩ := Option.bind_eq_some_iff.mp h
    split at hrest
    · rename_i hguard
      obtain ⟨halong, hrun⟩ := ih hrest
      refine ⟨⟨(allows_iff hstep).mpr hguard, ?_⟩, ?_⟩
      · intro s'' hstep'
        cases hstep.symm.trans hstep'
        exact halong
      · rw [run_cons, hstep]
        exact hrun
    · cases hrest

/-- Actions that always meet `P` -/
theorem along_of_forall (as : List α) (h : ∀ a ∈ as, ∀ s, P s a) (s : σ) : S.Along P s as := by
  induction as generalizing s with
  | nil => trivial
  | cons a as ih =>
    refine ⟨h a mem_cons_self s, ?_⟩
    intro s' _
    exact ih (fun b hb => h b (mem_cons_of_mem _ hb)) s'

/-- A guard that looks at the state before the step only -/
theorem along_allows_iff (as : List α) {s t : σ} (hrun : S.run s as = some t) :
    S.Along (S.Allows fun s a _ => P s a) s as ↔ S.Along P s as := by
  have htrue : S.Along (fun _ _ => True) s as := along_of_forall as (fun _ _ _ => trivial) s
  apply along_congr (I := fun _ => True) ?_ ?_ as trivial htrue hrun
  · intro s a s' _ _ hstep
    exact allows_iff hstep
  · intros
    trivial

end

/-! ## Termination -/

section

variable {μ : σ → Nat} (hμ : ∀ s a s', S.step s a = some s' → μ s' < μ s)

include hμ

/-- A run is no longer than the measure of its first state. -/
theorem run_length_le (s t : σ) (as : List α) (h : S.run s as = some t) : as.length ≤ μ s := by
  induction as generalizing s with
  | nil => exact Nat.zero_le _
  | cons a as ih =>
    rw [run_cons] at h
    obtain ⟨s', hstep, hrest⟩ := Option.bind_eq_some_iff.mp h
    have hlen := ih s' hrest
    have hdec := hμ s a s' hstep
    simp only [length_cons]
    omega

/-- Some run leads to a state in which no action is enabled. -/
theorem exists_stuck (hs : S.Reachable s) : ∃ t, S.Reachable t ∧ ∀ a, S.step t a = none := by
  -- induction on a bound of the measure
  have key : ∀ n s, S.Reachable s → μ s ≤ n → ∃ t, S.Reachable t ∧ ∀ a, S.step t a = none := by
    intro n
    induction n with
    | zero =>
      intro s hs hle
      refine ⟨s, hs, fun a => ?_⟩
      cases hstep : S.step s a with
      | none => rfl
      | some s' =>
        have hdec := hμ s a s' hstep
        omega
    | succ n ih =>
      intro s hs hle
      by_cases hstuck : ∀ a, S.step s a = none
      · exact ⟨s, hs, hstuck⟩
      · simp only [not_forall] at hstuck
        obtain ⟨a, ha⟩ := hstuck
        obtain ⟨s', hstep⟩ := Option.ne_none_iff_exists'.mp ha
        have hdec := hμ s a s' hstep
        exact ih s' (ReachBy.step hs trivial hstep) (by omega)
  exact key (μ s) s hs (Nat.le_refl _)

end

end System

end Vcass.Core
