import Mathlib

namespace Ownership
variable {α β : Type*} {used used' : Set β} {owner owner' : α → β} {held : Set α} {a : α}

-- Every held item sits on a resource that is in use, and no two items share one.
structure Owns (used : Set β) (owner : α → β) (held : Set α) : Prop where
  inside : Set.MapsTo owner held used
  apart : Set.InjOn owner held

theorem Owns.empty : Owns used owner ∅ := ⟨Set.mapsTo_empty _ _,Set.injOn_empty _⟩

theorem Owns.subset (owns : Owns used owner held) (fewer : held' ⊆ held) : Owns used owner held' :=
  ⟨owns.inside.mono_left fewer,owns.apart.mono fewer⟩

theorem Owns.insert (owns : Owns used owner held) (fresh : owner' a ∉ used) (taken : owner' a ∈ used')
    (grown : used ⊆ used') (kept : ∀ x ∈ held, owner' x = owner x) : Owns used' owner' (insert a held) := by
  refine ⟨?_,?_⟩
  · rintro x (rfl | member)
    · exact taken
    · rw [kept x member]
      exact grown (owns.inside member)
  · rintro x (rfl | first) y (rfl | second) same
    · rfl
    · rw [kept y second] at same
      exact absurd (same ▸ owns.inside second) fresh
    · rw [kept x first] at same
      exact absurd (same ▸ owns.inside first) fresh
    · rw [kept x first,kept y second] at same
      exact owns.apart first second same

theorem Owns.remove (owns : Owns used owner held) (member : a ∈ held) (left : used \ {owner a} ⊆ used')
    (kept : ∀ x ∈ held, x ≠ a → owner' x = owner x) : Owns used' owner' (held \ {a}) := by
  refine ⟨?_,?_⟩
  · rintro x ⟨present,differ⟩
    rw [kept x present differ]
    refine left ⟨owns.inside present,?_⟩
    intro same
    exact differ (owns.apart present member same)
  · rintro x ⟨first,one⟩ y ⟨second,two⟩ same
    rw [kept x first one,kept y second two] at same
    exact owns.apart first second same

end Ownership
