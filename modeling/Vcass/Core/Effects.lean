import Mathlib.Init

/-!
# Pre- and Postconditions of Effects

A function that reads and writes a device is a program in `StateM σ`, over any type `σ` of states of
the device and its surroundings: what a register shows, and whether an allocation succeeds, is part of
the state.  `Triple P m Q` says what holds after a program, and the rules below follow the shape of a
program: one for its result, one for a sequence, one for a test.

Some properties are about what a program has met on its way, and not about the state in which it ends.
`Logged` adds a log to the state.  Operations of the device do not see it (`keeps_lift`).
-/

namespace Vcass.Core

universe u

/-! ## Triples -/

section

variable {σ α β : Type u}

/-- From a state with `P`, the program gives a result and a state with `Q`. -/
def Triple (P : σ → Prop) (m : StateM σ α) (Q : α → σ → Prop) : Prop :=
  ∀ s, P s → Q (m s).1 (m s).2

/-- The program keeps an invariant. -/
abbrev Keeps (I : σ → Prop) (m : StateM σ α) : Prop := Triple I m fun _ => I

variable {P P' : σ → Prop} {Q Q' : α → σ → Prop} {R : β → σ → Prop}

theorem Triple.pure {a : α} (h : ∀ s, P s → Q a s) : Triple P (pure a) Q := h

/-- A sequence: what holds between its parts is up to the proof. -/
theorem Triple.bind {m : StateM σ β} {f : β → StateM σ α} (hm : Triple P m R)
    (hf : ∀ b, Triple (R b) (f b) Q) : Triple P (m >>= f) Q :=
  fun s hs => hf _ _ (hm s hs)

/-- A test: each branch may use its outcome. -/
theorem Triple.ite {c : Prop} [Decidable c] {m m' : StateM σ α} (hpos : c → Triple P m Q)
    (hneg : ¬ c → Triple P m' Q) : Triple P (if c then m else m') Q := by
  by_cases hc : c
  · rw [if_pos hc]
    exact hpos hc
  · rw [if_neg hc]
    exact hneg hc

/-- Nothing is known about an effect whose result is not used. -/
theorem Triple.trivial (m : StateM σ α) : Triple P m fun _ _ => True := fun _ _ => True.intro

theorem Triple.pre {m : StateM σ α} (h : Triple P m Q) (hpre : ∀ s, P' s → P s) : Triple P' m Q :=
  fun s hs => h s (hpre s hs)

theorem Triple.post {m : StateM σ α} (h : Triple P m Q) (hpost : ∀ a s, Q a s → Q' a s) :
    Triple P m Q' :=
  fun s hs => hpost _ _ (h s hs)

end

/-! ## Logs -/

/-- A state with a log of what was met -/
structure Logged (σ ε : Type u) where
  state : σ
  log : List ε

namespace Logged

variable {σ ε α : Type u}

/-- A program on the state alone -/
def lift (m : StateM σ α) : StateM (Logged σ ε) α :=
  fun r => ((m r.state).1, { r with state := (m r.state).2 })

/-- A program that reads the state alone -/
def view (f : σ → α) : StateM (Logged σ ε) α := fun r => (f r.state, r)

/-- An entry more in the log -/
def record (e : ε) : StateM (Logged σ ε) PUnit :=
  fun r => (⟨⟩, { r with log := r.log ++ [e] })

/-- All that was met has a property. -/
def All (p : ε → Prop) (r : Logged σ ε) : Prop := ∀ e ∈ r.log, p e

variable {p : ε → Prop}

theorem all_start (s : σ) : All p ⟨s, []⟩ := fun _ he => absurd he (List.not_mem_nil)

theorem keeps_lift (m : StateM σ α) : Keeps (All p) (lift m) := fun _ hs => hs

theorem keeps_view (f : σ → α) : Keeps (All p) (view f) := fun _ hs => hs

/-- A new entry is met with what was met before. -/
theorem triple_record (e : ε) :
    Triple (All p) (record e : StateM (Logged σ ε) PUnit) fun _ r => p e → r.All p := by
  intro r hr he e' hmem
  obtain hold | hnew := List.mem_append.mp hmem
  · exact hr e' hold
  · rw [List.mem_singleton.mp hnew]
    exact he

/-! ### Assumptions and commitments -/

/-- As long as every entry of the log meets the assumption `a`, every entry meets the commitment
`c`, and `P` is known. -/
def Relying (a c : ε → Prop) (P : Prop) (r : Logged σ ε) : Prop := r.All a → r.All c ∧ P

variable {a c : ε → Prop} {P P' : Prop}

theorem relying_start (s : σ) : Relying a c True ⟨s, []⟩ := fun _ => ⟨all_start s, trivial⟩

theorem Relying.imp {r : Logged σ ε} (h : Relying a c P r) (himp : P → P') : Relying a c P' r :=
  fun ha => ⟨(h ha).1, himp (h ha).2⟩

/-- The state is not looked at. -/
theorem keeps_relying_lift (m : StateM σ α) : Keeps (Relying a c P) (lift m) := fun _ hs => hs

theorem keeps_relying_view (f : σ → α) : Keeps (Relying a c P) (view f) := fun _ hs => hs

/-- A new entry may be relied on from now on, and has to be committed to. -/
theorem triple_relying_record (e : ε) (h : P → a e → c e) :
    Triple (Relying a c P) (record e : StateM (Logged σ ε) PUnit) fun _ =>
      Relying a c (P ∧ a e) := by
  intro r hr ha
  have hold : r.All a := fun e' he' => ha e' (List.mem_append_left _ he')
  have hnew : a e := ha e (List.mem_append_right _ (List.mem_singleton.mpr rfl))
  obtain ⟨hc, hP⟩ := hr hold
  exact ⟨triple_record e r hc (h hP hnew), hP, hnew⟩

end Logged

end Vcass.Core
