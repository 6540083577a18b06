import Mathlib

namespace StepRuns
variable {σ α : Type*} {start : σ → Prop} {step : σ → α → Option σ} {admits : σ → α → Prop}

-- States of a partial step function. A step that answers none has no successor:
-- the operation faulted or never came back. `admits` restricts the operations
-- taken; the unrestricted machine admits every one of them.
inductive Reached (start : σ → Prop) (step : σ → α → Option σ) (admits : σ → α → Prop) : σ → Prop where
  | start : start s → Reached start step admits s
  | step : Reached start step admits s → admits s action → step s action = some next →
      Reached start step admits next

def any : σ → α → Prop := fun _ _ => True

theorem Reached.invariant (holds : σ → Prop) (initial : ∀ s, start s → holds s)
    (preserved : ∀ s action next, holds s → admits s action → step s action = some next → holds next)
    (path : Reached start step admits s) : holds s := by
  induction path with
  | start first => exact initial _ first
  | step _ allowed taken ih => exact preserved _ _ _ ih allowed taken

theorem Reached.extend (path : Reached start step admits s) (action : α) (allowed : admits s action)
    (taken : step s action = some next) : Reached start step admits next := .step path allowed taken

-- A list of operations one after the other.
def follow (step : σ → α → Option σ) (s : σ) (actions : List α) : Option σ := actions.foldlM step s

theorem Reached.follow (path : Reached start step any s) (ran : follow step s actions = some last) : Reached start step any last := by
  induction actions generalizing s with
  | nil =>
    cases Option.some.inj ran
    exact path
  | cons action rest ih =>
    obtain ⟨next,taken,later⟩ := Option.bind_eq_some_iff.mp ran
    exact ih (path.extend action trivial taken) later

theorem Reached.weaken {others : σ → α → Prop} (wider : ∀ s action, admits s action → others s action)
    (path : Reached start step admits s) : Reached start step others s := by
  induction path with
  | start first => exact .start first
  | step _ allowed taken ih => exact .step ih (wider _ _ allowed) taken

-- Repetition of one partial step over consecutive items, as a counted loop runs it.
def repeated (body : σ → Nat → Option σ) : Nat → Nat → σ → Option σ
  | 0,_,s => some s
  | count+1,i,s => (body s i).bind (repeated body count (i+1))

theorem repeated_invariant {body : σ → Nat → Option σ} (holds : Nat → σ → Prop)
    (preserved : ∀ i s next, holds i s → body s i = some next → holds (i+1) next)
    (initial : holds i s) (ran : repeated body count i s = some last) : holds (i+count) last := by
  induction count generalizing i s with
  | zero =>
    cases Option.some.inj ran
    exact initial
  | succ count ih =>
    obtain ⟨next,first,rest⟩ := Option.bind_eq_some_iff.mp ran
    have later := ih (preserved i s next initial first) rest
    rwa [Nat.add_right_comm] at later

theorem repeated_total {body : σ → Nat → Option σ} (holds : Nat → σ → Prop) (initial : holds i s)
    (progress : ∀ j s, i ≤ j → j < i+count → holds j s → ∃ next, body s j = some next ∧ holds (j+1) next) :
    ∃ last, repeated body count i s = some last ∧ holds (i+count) last := by
  induction count generalizing i s with
  | zero => exact ⟨s,rfl,initial⟩
  | succ count ih =>
    obtain ⟨next,first,valid⟩ := progress i s (Nat.le_refl _) (by omega) initial
    obtain ⟨last,rest,final⟩ := ih valid (fun j s low high => progress j s (by omega) (by omega))
    refine ⟨last,by simp [repeated,first,rest],?_⟩
    rwa [Nat.add_right_comm] at final

end StepRuns
