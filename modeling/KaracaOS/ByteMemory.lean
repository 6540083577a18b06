import Mathlib

namespace ByteMemory

abbrev Byte := BitVec 8
abbrev Bytes := Nat → Byte

def store (bytes : Bytes) (index : Nat) (value : Byte) : Bytes :=
  fun i => if i = index then value else bytes i

def fill (bytes : Bytes) (first stop : Nat) (value : Byte) : Bytes :=
  fun i => if first ≤ i ∧ i < stop then value else bytes i

-- `count` bytes of `source`, from its offset `from_`, land at `at_`.
def blit (bytes : Bytes) (at_ : Nat) (source : Bytes) (from_ count : Nat) : Bytes :=
  fun i => if at_ ≤ i ∧ i < at_+count then source (from_+(i-at_)) else bytes i

@[simp] theorem store_same (bytes : Bytes) (index : Nat) (value : Byte) :
    store bytes index value index = value := by simp [store]
theorem store_other (value : Byte) (different : i ≠ index) : store bytes index value i = bytes i := by
  simp [store,different]

theorem fill_inside (low : first ≤ i) (high : i < stop) : fill bytes first stop value i = value := by
  simp [fill,low,high]
theorem fill_outside (out : i < first ∨ stop ≤ i) : fill bytes first stop value i = bytes i := by
  unfold fill
  rw [if_neg]
  omega

theorem blit_inside (low : at_ ≤ i) (high : i < at_+count) :
    blit bytes at_ source from_ count i = source (from_+(i-at_)) := by simp [blit,low,high]
theorem blit_outside (out : i < at_ ∨ at_+count ≤ i) : blit bytes at_ source from_ count i = bytes i := by
  unfold blit
  rw [if_neg]
  omega

def Agree (left right : Bytes) (first count : Nat) : Prop :=
  ∀ i, first ≤ i → i < first+count → left i = right i

theorem Agree.refl (bytes : Bytes) (first count : Nat) : Agree bytes bytes first count := fun _ _ _ => rfl
theorem Agree.symm (agree : Agree left right first count) : Agree right left first count :=
  fun i low high => (agree i low high).symm
theorem Agree.trans (one : Agree left middle first count) (two : Agree middle right first count) :
    Agree left right first count := fun i low high => (one i low high).trans (two i low high)
theorem Agree.narrow (agree : Agree left right first count) (low : first ≤ first')
    (high : first'+count' ≤ first+count) : Agree left right first' count' :=
  fun i l h => agree i (by omega) (by omega)

-- Little-endian fields.
def get8 (bytes : Bytes) (offset : Nat) : Nat := (bytes offset).toNat
def get16 (bytes : Bytes) (offset : Nat) : Nat := get8 bytes offset + 256*get8 bytes (offset+1)
def get32 (bytes : Bytes) (offset : Nat) : Nat := get16 bytes offset + 65536*get16 bytes (offset+2)

def put8 (bytes : Bytes) (offset value : Nat) : Bytes := store bytes offset (BitVec.ofNat 8 value)
def put16 (bytes : Bytes) (offset value : Nat) : Bytes :=
  put8 (put8 bytes offset value) (offset+1) (value/256)
def put32 (bytes : Bytes) (offset value : Nat) : Bytes :=
  put16 (put16 bytes offset value) (offset+2) (value/65536)

theorem get8_lt (bytes : Bytes) (offset : Nat) : get8 bytes offset < 256 := (bytes offset).isLt
theorem get16_lt (bytes : Bytes) (offset : Nat) : get16 bytes offset < 65536 := by
  have low := get8_lt bytes offset
  have high := get8_lt bytes (offset+1)
  unfold get16
  omega
theorem get32_lt (bytes : Bytes) (offset : Nat) : get32 bytes offset < 4294967296 := by
  have low := get16_lt bytes offset
  have high := get16_lt bytes (offset+2)
  unfold get32
  omega

theorem put8_other (different : i ≠ offset) : put8 bytes offset value i = bytes i :=
  store_other _ different
theorem put16_other (out : i < offset ∨ offset+2 ≤ i) : put16 bytes offset value i = bytes i := by
  rw [put16,put8_other (by omega),put8_other (by omega)]
theorem put32_other (out : i < offset ∨ offset+4 ≤ i) : put32 bytes offset value i = bytes i := by
  rw [put32,put16_other (by omega),put16_other (by omega)]

theorem get8_put8 (bytes : Bytes) (offset value : Nat) : get8 (put8 bytes offset value) offset = value % 256 := by
  simp [get8,put8]
theorem get16_put16 (bytes : Bytes) (offset value : Nat) :
    get16 (put16 bytes offset value) offset = value % 65536 := by
  have low : get8 (put16 bytes offset value) offset = value % 256 := by
    rw [put16,get8,put8_other (by omega)]
    exact get8_put8 _ _ _
  have high : get8 (put16 bytes offset value) (offset+1) = value/256 % 256 := get8_put8 _ _ _
  rw [get16,low,high]
  omega
theorem get32_put32 (bytes : Bytes) (offset value : Nat) :
    get32 (put32 bytes offset value) offset = value % 4294967296 := by
  have low : get16 (put32 bytes offset value) offset = value % 65536 := by
    rw [← get16_put16 bytes offset value]
    simp only [put32,get16,get8,put16_other (show offset < offset+2 ∨ _ by omega),
      put16_other (show offset+1 < offset+2 ∨ _ by omega)]
  have high : get16 (put32 bytes offset value) (offset+2) = value/65536 % 65536 := get16_put16 _ _ _
  rw [get32,low,high]
  omega

theorem get8_agree (agree : Agree left right offset 1) : get8 left offset = get8 right offset := by
  rw [get8,get8,agree offset (by omega) (by omega)]
theorem get16_agree (agree : Agree left right offset 2) : get16 left offset = get16 right offset := by
  rw [get16,get16,get8_agree (agree.narrow (Nat.le_refl _) (by omega)),
    get8_agree (agree.narrow (Nat.le_succ _) (by omega))]
theorem get32_agree (agree : Agree left right offset 4) : get32 left offset = get32 right offset := by
  rw [get32,get32,get16_agree (agree.narrow (Nat.le_refl _) (by omega)),
    get16_agree (agree.narrow (Nat.le_add_right _ _) (by omega))]

theorem agree_put8 (out : offset < first ∨ first+count ≤ offset) :
    Agree (put8 bytes offset value) bytes first count := fun i low high => put8_other (by omega)
theorem agree_put16 (out : offset+2 ≤ first ∨ first+count ≤ offset) :
    Agree (put16 bytes offset value) bytes first count := fun i low high => put16_other (by omega)
theorem agree_put32 (out : offset+4 ≤ first ∨ first+count ≤ offset) :
    Agree (put32 bytes offset value) bytes first count := fun i low high => put32_other (by omega)
theorem agree_fill (out : stop ≤ first' ∨ first'+count ≤ first) :
    Agree (fill bytes first stop value) bytes first' count := fun i low high => fill_outside (by omega)
theorem agree_blit (out : at_+size ≤ first ∨ first+count ≤ at_) :
    Agree (blit bytes at_ source from_ size) bytes first count := fun i low high => blit_outside (by omega)

theorem get32_put32_away (away : field+4 ≤ place ∨ place+4 ≤ field) : get32 (put32 bytes place value) field = get32 bytes field :=
  get32_agree (agree_put32 (by omega))
theorem get32_put16_away (away : field+4 ≤ place ∨ place+2 ≤ field) : get32 (put16 bytes place value) field = get32 bytes field :=
  get32_agree (agree_put16 (by omega))
theorem get32_blit_away (away : field+4 ≤ place ∨ place+size ≤ field) : get32 (blit bytes place source from_ size) field = get32 bytes field :=
  get32_agree (agree_blit (by omega))
theorem get32_put8_away (away : field+4 ≤ place ∨ place < field) : get32 (put8 bytes place value) field = get32 bytes field :=
  get32_agree (agree_put8 (by omega))
theorem get8_put32_away (away : field < place ∨ place+4 ≤ field) : get8 (put32 bytes place value) field = get8 bytes field :=
  get8_agree (agree_put32 (by omega))
theorem get8_put8_away (away : field ≠ place) : get8 (put8 bytes place value) field = get8 bytes field :=
  get8_agree (agree_put8 (by omega))
theorem get32_store_away (away : field+4 ≤ place ∨ place < field) : get32 (store bytes place value) field = get32 bytes field :=
  get32_agree (fun i low high => store_other _ (by omega))

end ByteMemory
