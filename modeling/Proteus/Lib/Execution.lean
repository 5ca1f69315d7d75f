import Mathlib.Tactic.Common

namespace Proteus.Execution

-- Finite runs of a labelled step relation. The newest step stands last, so a
-- fact about a prefix of the trace is the fact about an earlier state.
inductive Runs (step : State → Label → State → Prop) (start : State) : List Label → State → Prop where
  | nil : Runs step start [] start
  | snoc : Runs step start trace s → step s label next → Runs step start (trace ++ [label]) next

theorem Runs.one (taken : step s label next) : Runs step s [label] next := by
  simpa using Runs.snoc Runs.nil taken

theorem Runs.append (before : Runs step start trace s) (after : Runs step s later next) :
    Runs step start (trace ++ later) next := by
  induction after with
  | nil => simpa using before
  | snoc _ taken ih => simpa using ih.snoc taken

-- The invariant may speak of the trace so far.
theorem Runs.invariant (inv : List Label → State → Prop) (base : inv [] start)
    (kept : ∀ trace s label next, inv trace s → step s label next → inv (trace ++ [label]) next)
    (path : Runs step start trace s) : inv trace s := by
  induction path with
  | nil => exact base
  | snoc _ taken ih => exact kept _ _ _ _ ih taken

theorem Runs.kept (inv : State → Prop) {admitted : Label → Prop} (base : inv start)
    (kept : ∀ s label next, inv s → admitted label → step s label next → inv next)
    (path : Runs step start trace s) (labels : ∀ label ∈ trace, admitted label) : inv s := by
  induction path with
  | nil => exact base
  | @snoc trace s label next _ taken ih =>
    exact kept s label next (ih fun l present => labels l (List.mem_append_left _ present)) (labels label (by simp)) taken

-- Forward simulation: every concrete step is matched by one abstract step that
-- carries the same label. Only the labels that occur are asked for.
theorem Runs.simulates (relate : State → Abstract → Prop) {admitted : Label → Prop}
    {abstractStep : Abstract → Label → Abstract → Prop} (base : relate start abstractStart)
    (matched : ∀ s a label next, relate s a → admitted label → step s label next →
      ∃ b, abstractStep a label b ∧ relate next b)
    (path : Runs step start trace s) (labels : ∀ label ∈ trace, admitted label) :
    ∃ a, Runs abstractStep abstractStart trace a ∧ relate s a := by
  induction path with
  | nil => exact ⟨abstractStart,.nil,base⟩
  | @snoc trace s label next _ taken ih =>
    obtain ⟨a,abstractPath,related⟩ := ih (fun l present => labels l (List.mem_append_left _ present))
    obtain ⟨b,abstractTaken,after⟩ := matched _ _ _ _ related (labels label (by simp)) taken
    exact ⟨b,abstractPath.snoc abstractTaken,after⟩

end Proteus.Execution
