import KaracaOS.ByteMemory

namespace Footprints
open ByteMemory

-- What a transformer of memories writes: such a byte no longer depends on what
-- was there, and every other byte stays.
structure Writes (f : Bytes → Bytes) (places : Nat → Prop) : Prop where
  written : ∀ i, places i → ∀ left right, f left i = f right i
  kept : ∀ i, ¬ places i → ∀ memory, f memory i = memory i

variable {f g : Bytes → Bytes} {places more : Nat → Prop}

theorem Writes.nothing : Writes (fun memory => memory) (fun _ => False) := ⟨fun _ never => never.elim,fun _ _ _ => rfl⟩

theorem writes_store (index : Nat) (value : Byte) : Writes (fun memory => store memory index value) (fun i => i = index) := by
  constructor
  · rintro i rfl left right
    rw [store_same,store_same]
  · intro i different memory
    exact store_other value different

theorem writes_fill (first stop : Nat) (value : Byte) : Writes (fun memory => fill memory first stop value) (fun i => first ≤ i ∧ i < stop) := by
  constructor
  · intro i inside left right
    rw [fill_inside inside.1 inside.2,fill_inside inside.1 inside.2]
  · intro i out memory
    exact fill_outside (by omega)

theorem Writes.andThen (one : Writes f places) (two : Writes g more) : Writes (fun memory => g (f memory)) (fun i => places i ∨ more i) := by
  constructor
  · intro i either left right
    by_cases later : more i
    · exact two.written i later _ _
    · rw [two.kept i later,two.kept i later]
      exact one.written i (either.resolve_right later) left right
  · intro i neither memory
    rw [two.kept i (fun later => neither (.inr later)),one.kept i (fun earlier => neither (.inl earlier))]

theorem Writes.congr (one : Writes f places) (same : ∀ i, places i ↔ more i) : Writes f more :=
  ⟨fun i inside => one.written i ((same i).mpr inside),fun i out => one.kept i (fun inside => out ((same i).mp inside))⟩

theorem Writes.exact (one : Writes f places) (two : Writes f more) (i : Nat) : places i ↔ more i := by
  have apart : ∀ {left right : Nat → Prop}, Writes f left → Writes f right → left i → right i := by
    intro left right first second inside
    by_contra out
    have equal := first.written i inside (fun _ => 0) (fun _ => 1)
    rw [second.kept i out,second.kept i out] at equal
    cases equal
  exact ⟨apart one two,apart two one⟩

end Footprints
