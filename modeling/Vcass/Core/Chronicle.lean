import Mathlib.Data.List.Induction
import Vcass.Core.Bytes

/-!
# Histories

A run leaves a list of events behind.  Two ways to reason about such a list:

- `Chronicle good trace`: every event of the trace was `good` with respect to the events
  before it.  The property is kept by appending a good event, so an order between events
  follows from what is known at the moment the later one happens.
- `replay`: the contents of a memory as the result of the overwrites in the trace, in
  order, with the last overwrite of a cell deciding its value (`replay_cases`).
-/

namespace Vcass.Core

variable {ε β : Type*}

/-! ## Chronicles -/

/-- Every event is good with respect to the events before it. -/
def Chronicle (good : List ε → ε → Prop) (trace : List ε) : Prop :=
  ∀ pre e post, trace = pre ++ e :: post → good pre e

namespace Chronicle

variable {good : List ε → ε → Prop}

theorem nil : Chronicle good ([] : List ε) := by
  intro pre e post h
  simp at h

/-- Appending a good event keeps the chronicle. -/
theorem snoc {trace : List ε} {e : ε} (h : Chronicle good trace) (he : good trace e) :
    Chronicle good (trace ++ [e]) := by
  intro pre e' post heq
  -- the event is the new one, or the split is one of the old trace
  rcases List.eq_nil_or_concat post with rfl | ⟨post', last, rfl⟩
  · obtain ⟨rfl, hlast⟩ := List.append_inj' heq rfl
    exact (List.singleton_inj.mp hlast) ▸ he
  · have heq' : trace ++ [e] = (pre ++ e' :: post') ++ [last] := by
      simpa using heq
    exact h pre e' post' (List.append_inj' heq' rfl).1

/-- What happened up to a moment is a chronicle. -/
theorem left {pre post : List ε} (h : Chronicle good (pre ++ post)) : Chronicle good pre := by
  intro pre' e post' heq
  exact h pre' e (post' ++ post) (by simp [heq])

/-- An event of the trace splits it. -/
theorem of_mem {trace : List ε} {e : ε} (h : Chronicle good trace) (he : e ∈ trace) :
    ∃ pre post, trace = pre ++ e :: post ∧ good pre e := by
  obtain ⟨pre, post, rfl⟩ := List.append_of_mem he
  exact ⟨pre, post, rfl, h pre e post rfl⟩

end Chronicle

/-! ## Overwriting bytes -/

/-- A range of cells and what they are overwritten with -/
structure Overwrite (β : Type*) where
  offset : Nat
  len : Nat
  src : Nat → β

/-- The cell is one of the range. -/
def Overwrite.Covers (w : Overwrite β) (a : Nat) : Prop :=
  w.offset ≤ a ∧ a < w.offset + w.len

/-- The memory after one event, when `writes` tells what the event overwrites. -/
def replayStep (writes : ε → Option (Overwrite β)) (mem : Nat → β) (e : ε) : Nat → β :=
  match writes e with
  | none => mem
  | some w => copyBytes mem w.offset w.len w.src

/-- The memory after all events of a trace. -/
def replay (writes : ε → Option (Overwrite β)) (mem : Nat → β) (trace : List ε) : Nat → β :=
  trace.foldl (replayStep writes) mem

section

variable {writes : ε → Option (Overwrite β)} {mem : Nat → β}

@[simp]
theorem replay_snoc (trace : List ε) (e : ε) :
    replay writes mem (trace ++ [e]) = replayStep writes (replay writes mem trace) e := by
  simp [replay]

/-- **The last overwrite decides**: a cell that nothing covers keeps its first value;
otherwise it has the value of the last event that covers it. -/
theorem replay_cases (writes : ε → Option (Overwrite β)) (mem : Nat → β) (trace : List ε)
    (a : Nat) :
    ((∀ e ∈ trace, ∀ w, writes e = some w → ¬ w.Covers a) ∧ replay writes mem trace a = mem a) ∨
      ∃ pre e post w, trace = pre ++ e :: post ∧ writes e = some w ∧ w.Covers a ∧
        replay writes mem trace a = w.src (a - w.offset) ∧
        ∀ e' ∈ post, ∀ w', writes e' = some w' → ¬ w'.Covers a := by
  induction trace using List.reverseRecOn with
  | nil => exact Or.inl ⟨by simp, rfl⟩
  | append_singleton trace e ih =>
    by_cases hcov : ∃ w, writes e = some w ∧ w.Covers a
    · obtain ⟨w, hw, hcov⟩ := hcov
      refine Or.inr ⟨trace, e, [], w, rfl, hw, hcov, ?_, by simp⟩
      simp only [replay_snoc, replayStep, hw]
      exact copyBytes_inside hcov
    · have hsame : replay writes mem (trace ++ [e]) a = replay writes mem trace a := by
        rw [replay_snoc, replayStep]
        cases hw : writes e with
        | none => rfl
        | some w => exact copyBytes_outside fun h => hcov ⟨w, hw, h⟩
      rcases ih with ⟨hnone, hval⟩ | ⟨pre, e₀, post, w, rfl, hw, hcov₀, hval, hlast⟩
      · refine Or.inl ⟨?_, hsame.trans hval⟩
        intro e' he' w hw hc
        rcases List.mem_append.mp he' with he' | he'
        · exact hnone e' he' w hw hc
        · rw [List.mem_singleton.mp he'] at hw
          exact hcov ⟨w, hw, hc⟩
      · refine Or.inr ⟨pre, e₀, post ++ [e], w, by simp, hw, hcov₀, hsame.trans hval, ?_⟩
        intro e' he' w' hw' hc
        rcases List.mem_append.mp he' with he' | he'
        · exact hlast e' he' w' hw' hc
        · rw [List.mem_singleton.mp he'] at hw'
          exact hcov ⟨w', hw', hc⟩

end

end Vcass.Core
