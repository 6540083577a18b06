import Mathlib

namespace Interleavings
variable {σ : Type*} {own : σ → Option σ} {foreign : σ → σ → Prop}

-- A machine whose own steps are interrupted by foreign ones, with the number of own steps.
inductive Run (own : σ → Option σ) (foreign : σ → σ → Prop) (start : σ) : Nat → σ → Prop where
  | start : Run own foreign start 0 start
  | own : Run own foreign start count s → own s = some next → Run own foreign start (count+1) next
  | foreign : Run own foreign start count s → foreign s next → Run own foreign start count next

def alone (own : σ → Option σ) (start : σ) : Nat → Option σ
  | 0 => some start
  | count+1 => (alone own start count).bind own

-- When the own steps respect a relation that no foreign step breaks, an
-- interrupted run is related to the undisturbed run of as many own steps.
theorem Run.undisturbed (same : σ → σ → Prop)
    (respects : ∀ left right next, same left right → own left = some next → ∃ other, own right = some other ∧ same next other)
    (quiet : ∀ left right next, same left right → foreign left next → same next right)
    (initial : same first other) (run : Run own foreign first count last) :
    ∃ final, alone own other count = some final ∧ same last final := by
  induction run with
  | start => exact ⟨other,rfl,initial⟩
  | own before taken ih =>
    obtain ⟨s,reached,related⟩ := ih
    obtain ⟨next,moved,kept⟩ := respects _ _ _ related taken
    exact ⟨next,by simp [alone,reached,moved],kept⟩
  | foreign before taken ih =>
    obtain ⟨s,reached,related⟩ := ih
    exact ⟨s,reached,quiet _ _ _ related taken⟩

end Interleavings
