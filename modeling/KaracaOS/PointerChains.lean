import Mathlib

namespace PointerChains
variable {α : Type*} {next : α → α} {stop stuck : α → Prop}

-- Following `next` k times from x meets the end of the chain, and nothing on the
-- way that the walk cannot get past.
structure Ends (next : α → α) (stop stuck : α → Prop) (x : α) (k : Nat) : Prop where
  some_ : 0 < k
  stops : stop (next^[k] x)
  before : ∀ j, 0 < j → j < k → ¬ stop (next^[j] x)
  free : ∀ j, 0 < j → j ≤ k → ¬ stuck (next^[j] x)

-- The elements passed, the first one included and the end left out.
def trail (next : α → α) (x : α) (k : Nat) : List α := (List.range k).map (next^[·] x)

@[simp] theorem trail_length (x : α) (k : Nat) : (trail next x k).length = k := by simp [trail]

theorem trail_succ (x : α) (k : Nat) : trail next x (k+1) = x::trail next (next x) k := by
  rw [trail,List.range_succ_eq_map,List.map_cons,List.map_map]
  rfl

theorem Ends.unique (one : Ends next stop stuck x k) (two : Ends next stop stuck x j) : k = j := by
  rcases Nat.lt_trichotomy k j with less | same | more
  · exact absurd one.stops (two.before k one.some_ less)
  · exact same
  · exact absurd two.stops (one.before j two.some_ more)

theorem ends_one : Ends next stop stuck x 1 ↔ stop (next x) ∧ ¬ stuck (next x) := by
  constructor
  · intro ends
    exact ⟨ends.stops,ends.free 1 Nat.zero_lt_one (Nat.le_refl 1)⟩
  · rintro ⟨stops,free⟩
    refine ⟨Nat.zero_lt_one,stops,fun j low high => absurd high (by omega),?_⟩
    intro j low high
    cases (show j = 1 by omega)
    exact free

theorem ends_succ (positive : 0 < k) :
    Ends next stop stuck x (k+1) ↔ (¬ stop (next x) ∧ ¬ stuck (next x)) ∧ Ends next stop stuck (next x) k := by
  constructor
  · intro ends
    refine ⟨⟨ends.before 1 Nat.zero_lt_one (by omega),ends.free 1 Nat.zero_lt_one (by omega)⟩,positive,ends.stops,?_,?_⟩
    · intro j _ high
      exact ends.before (j+1) (Nat.succ_pos j) (by omega)
    · intro j _ high
      exact ends.free (j+1) (Nat.succ_pos j) (by omega)
  · rintro ⟨⟨goes,free⟩,rest⟩
    refine ⟨Nat.succ_pos k,rest.stops,?_,?_⟩
    · intro j low high
      cases j with
      | zero => cases low
      | succ j =>
        cases j with
        | zero => exact goes
        | succ j => exact rest.before (j+1) (Nat.succ_pos j) (by omega)
    · intro j low high
      cases j with
      | zero => cases low
      | succ j =>
        cases j with
        | zero => exact free
        | succ j => exact rest.free (j+1) (Nat.succ_pos j) (by omega)

section Walk
variable [DecidablePred stop] [DecidablePred stuck]

-- The walk itself, for at most so many elements.
def walk (next : α → α) (stop stuck : α → Prop) [DecidablePred stop] [DecidablePred stuck] : Nat → α → Option (List α)
  | 0,_ => none
  | fuel+1,x =>
    if stuck (next x) then none
    else if stop (next x) then some [x]
    else (walk next stop stuck fuel (next x)).map (x::·)

theorem walk_iff (fuel : Nat) (x : α) (passed : List α) :
    walk next stop stuck fuel x = some passed ↔ ∃ k ≤ fuel, Ends next stop stuck x k ∧ passed = trail next x k := by
  induction fuel generalizing x passed with
  | zero =>
    refine iff_of_false (by simp [walk]) ?_
    rintro ⟨k,few,ends,_⟩
    exact absurd ends.some_ (by omega)
  | succ fuel ih =>
    rw [walk]
    split
    · rename_i held
      refine iff_of_false (by simp) ?_
      rintro ⟨k,_,ends,_⟩
      exact ends.free 1 Nat.zero_lt_one ends.some_ held
    · rename_i free
      split
      · rename_i stops
        have one := ends_one.mpr ⟨stops,free⟩
        constructor
        · intro same
          exact ⟨1,by omega,one,(Option.some.inj same).symm⟩
        · rintro ⟨k,_,ends,rfl⟩
          rw [ends.unique one]
          rfl
      · rename_i goes
        rw [Option.map_eq_some_iff]
        constructor
        · rintro ⟨rest,walked,rfl⟩
          obtain ⟨k,few,ends,rfl⟩ := (ih _ _).mp walked
          exact ⟨k+1,by omega,(ends_succ ends.some_).mpr ⟨⟨goes,free⟩,ends⟩,(trail_succ x k).symm⟩
        · rintro ⟨k,few,ends,rfl⟩
          cases k with
          | zero => exact absurd ends.some_ (Nat.lt_irrefl 0)
          | succ k =>
            by_cases none : k = 0
            · rw [none] at ends
              exact absurd (ends_one.mp ends).1 goes
            · obtain ⟨_,rest⟩ := (ends_succ (Nat.pos_of_ne_zero none)).mp ends
              exact ⟨_,(ih _ _).mpr ⟨k,by omega,rest,rfl⟩,(trail_succ x k).symm⟩

end Walk

theorem Ends.apart (ends : Ends next stop stuck x k) (low : 0 < i) (less : i < j) (high : j ≤ k) : next^[i] x ≠ next^[j] x := by
  intro same
  have ahead : next^[k-j+i] x = next^[k] x := by
    rw [Function.iterate_add_apply,same,← Function.iterate_add_apply,Nat.sub_add_cancel high]
  have stops := ends.stops
  rw [← ahead] at stops
  exact ends.before (k-j+i) (by omega) (by omega) stops

theorem Ends.short (ends : Ends next stop stuck x k) (values : Finset α) (bounded : ∀ y, next y ∈ values) : k ≤ values.card := by
  have places : Set.InjOn (fun i => next^[i+1] x) (Finset.range k) := by
    intro i small j below same
    have small := Finset.mem_range.mp small
    have below := Finset.mem_range.mp below
    rcases Nat.lt_trichotomy i j with less | equal | more
    · exact absurd same (ends.apart (Nat.succ_pos i) (by omega) (by omega))
    · exact equal
    · exact absurd same.symm (ends.apart (Nat.succ_pos j) (by omega) (by omega))
  have count := Finset.card_le_card_of_injOn (fun i => next^[i+1] x) (fun i _ => by
    show next^[i+1] x ∈ values
    rw [Function.iterate_succ_apply']
    exact bounded _) places
  rwa [Finset.card_range] at count

end PointerChains
