import KaracaOS.ByteMemory

namespace MachineStack
open ByteMemory

-- What one push leaves behind: a word of two bytes or a long of four.
inductive Cell where
  | word (value : BitVec 16)
  | long (value : BitVec 32)
deriving DecidableEq

namespace Cell

def size : Cell → Nat
  | word _ => 2
  | long _ => 4

def put (memory : Bytes) (place : Nat) : Cell → Bytes
  | word value => put16 memory place value.toNat
  | long value => put32 memory place value.toNat

def Lies (memory : Bytes) (place : Nat) : Cell → Prop
  | word value => BitVec.ofNat 16 (get16 memory place) = value
  | long value => BitVec.ofNat 32 (get32 memory place) = value

theorem put_lies (memory : Bytes) (place : Nat) (cell : Cell) : cell.Lies (cell.put memory place) place := by
  cases cell with
  | word value =>
    apply BitVec.eq_of_toNat_eq
    simpa [put,get16_put16] using value.isLt
  | long value =>
    apply BitVec.eq_of_toNat_eq
    simpa [put,get32_put32] using value.isLt

theorem Lies.kept (agree : Agree left right place (size cell)) (lies : Lies right place cell) : Lies left place cell := by
  cases cell with
  | word value => simpa [Lies,get16_agree agree] using lies
  | long value => simpa [Lies,get32_agree agree] using lies

theorem put_apart (cell : Cell) (apart : place+cell.size ≤ first ∨ first+count ≤ place) :
    Agree (cell.put memory place) memory first count := by
  cases cell with
  | word value => exact agree_put16 apart
  | long value => exact agree_put32 apart

theorem put_above (cell : Cell) (above : place+cell.size ≤ first) : Agree (cell.put memory place) memory first count :=
  cell.put_apart (.inl above)

end Cell

-- Cells one above the other, the last one pushed at the top.
def Piled (memory : Bytes) : Nat → List Cell → Prop
  | _,[] => True
  | top,cell::rest => cell.Lies memory top ∧ Piled memory (top+cell.size) rest

def height : List Cell → Nat
  | [] => 0
  | cell::rest => cell.size+height rest

@[simp] theorem height_nil : height [] = 0 := rfl
@[simp] theorem height_word (value : BitVec 16) (rest : List Cell) : height (.word value::rest) = 2+height rest := rfl
@[simp] theorem height_long (value : BitVec 32) (rest : List Cell) : height (.long value::rest) = 4+height rest := rfl

theorem Piled.kept (agree : Agree left right top (height cells)) (piled : Piled right top cells) : Piled left top cells := by
  induction cells generalizing top with
  | nil => trivial
  | cons cell rest ih =>
    refine ⟨piled.1.kept (agree.narrow (Nat.le_refl _) ?_),ih (agree.narrow ?_ ?_) piled.2⟩
    · simp [height]
    · simp
    · simp [height,Nat.add_assoc]

theorem Piled.push (cell : Cell) (piled : Piled memory (place+cell.size) cells) :
    Piled (cell.put memory place) place (cell::cells) :=
  ⟨cell.put_lies memory place,piled.kept (cell.put_above (Nat.le_refl _))⟩

theorem Piled.word (piled : Piled memory top (.word value::rest)) :
    BitVec.ofNat 16 (get16 memory top) = value ∧ Piled memory (top+2) rest := piled
theorem Piled.long (piled : Piled memory top (.long value::rest)) :
    BitVec.ofNat 32 (get32 memory top) = value ∧ Piled memory (top+4) rest := piled

end MachineStack
