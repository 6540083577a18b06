import KaracaOS.MemoryManager

namespace KaracaOS.MemoryQuery
open ByteMemory Bitmap MemoryManager

-- The bits of one byte; .inl is the return with TRUE and the new *vm_block.
-- bitmap_piece is not shifted, so each round looks at its lowest bit.
def bitLoop (bitmapPiece : Byte) (count start : Nat) : Nat → Nat → Nat → Nat → Nat ⊕ (Nat × Nat)
  | 0,_,freeVmBlocks,startVmBlock => .inr (freeVmBlocks,startVmBlock)
  | rounds+1,i,freeVmBlocks,startVmBlock =>
    if bitmapPiece.getLsbD 0 then
      if 0 = count then .inl startVmBlock else bitLoop bitmapPiece count start rounds (i+1) 0 startVmBlock
    else
      let startVmBlock := if freeVmBlocks = 0 then start+i else startVmBlock
      if freeVmBlocks+1 = count then .inl startVmBlock
      else bitLoop bitmapPiece count start rounds (i+1) (freeVmBlocks+1) startVmBlock

-- The bytes from start on; a full one is skipped without ending the run.
def byteLoop (bitmap : Bytes) (count : Nat) : Nat → Nat → Nat → Nat → Option Nat
  | 0,_,_,_ => none
  | rounds+1,start,freeVmBlocks,startVmBlock =>
    if bitmap start = 0xFF#8 then byteLoop bitmap count rounds (start+1) freeVmBlocks startVmBlock
    else match bitLoop (bitmap (start/8)) count start 8 0 freeVmBlocks startVmBlock with
      | .inl found => some found
      | .inr (freeVmBlocks,startVmBlock) => byteLoop bitmap count rounds (start+1) freeVmBlocks startVmBlock

-- uint16_t count
def blockCount (size : Nat) : Nat := if size/4096 % 65536 = 0 then 1 else size/4096 % 65536

def mmIsMemoryAvailable (s : Mm) (size vmBlock : Nat) : Bool × Nat :=
  let count := blockCount size
  if s.availableBlockCount < count then (false,vmBlock)
  else match byteLoop s.vmAllocBitmap count (bitmapBytes-vmBlock/8) (vmBlock/8) 0 vmBlock with
    | some startVmBlock => (true,startVmBlock)
    | none => (false,vmBlock)

-- A byte that counts for eight blocks: it is not full, and the first block of
-- the eight that its index falls into, read as a block number, is clear.
def Open (bitmap : Bytes) (b : Nat) : Prop := bitmap b ≠ 0xFF#8 ∧ bit bitmap (b/8*8) = false

-- From b on the next k bytes that are not full are open ones.
inductive Opens (bitmap : Bytes) : Nat → Nat → Prop where
  | done : Opens bitmap 0 b
  | skip : b < bitmapBytes → bitmap b = 0xFF#8 → Opens bitmap k (b+1) → Opens bitmap k b
  | take : b < bitmapBytes → Open bitmap b → Opens bitmap k (b+1) → Opens bitmap (k+1) b

def Begins (bitmap : Bytes) (k b : Nat) : Prop := bitmap b ≠ 0xFF#8 ∧ Opens bitmap k b

def FirstRun (bitmap : Bytes) (k start b : Nat) : Prop :=
  start ≤ b ∧ Begins bitmap k b ∧ ∀ b', start ≤ b' → b' < b → ¬ Begins bitmap k b'

variable {bitmap : Bytes} {count start rounds k b free first : Nat}

theorem bitLoop_closed (piece : Byte) (set : piece.getLsbD 0 = true) (some_ : 0 < count) (rounds i free first : Nat) :
    bitLoop piece count start (rounds+1) i free first = .inr (0,first) := by
  induction rounds generalizing i free with
  | zero =>
    rw [bitLoop,if_pos set,if_neg (by omega),bitLoop]
  | succ rounds ih =>
    rw [bitLoop,if_pos set,if_neg (by omega)]
    exact ih (i+1) 0

theorem bitLoop_open (piece : Byte) (clear : piece.getLsbD 0 = false) (less : free+1 < count) (rounds i first : Nat) :
    bitLoop piece count start rounds i (free+1) first =
      if count ≤ free+1+rounds then .inl first else .inr (free+1+rounds,first) := by
  induction rounds generalizing i free with
  | zero =>
    rw [bitLoop,if_neg (by omega)]
  | succ rounds ih =>
    rw [bitLoop,clear]
    simp only [Bool.false_eq_true,if_false,Nat.add_eq_zero_iff,one_ne_zero,and_false]
    by_cases last : free+1+1 = count
    · rw [if_pos last,if_pos (by omega)]
    · rw [if_neg last,ih (by omega),show free+1+1+rounds = free+1+(rounds+1) by omega]

theorem bitLoop_eight (piece : Byte) (clear : piece.getLsbD 0 = false) (less : free < count) (first : Nat) :
    bitLoop piece count start 8 0 free first =
      if count ≤ free+8 then .inl (if free = 0 then start else first) else .inr (free+8,if free = 0 then start else first) := by
  rw [bitLoop,clear]
  simp only [Bool.false_eq_true,if_false,Nat.add_zero]
  by_cases last : free+1 = count
  · rw [if_pos last,if_pos (show count ≤ free+8 by omega)]
  · rw [if_neg last,bitLoop_open piece clear (by omega),show free+1+7 = free+8 by omega]

theorem piece_bit (bitmap : Bytes) (b : Nat) : (bitmap (b/8)).getLsbD 0 = bit bitmap (b/8*8) := by
  rw [bit,Nat.mul_div_cancel _ (by decide),Nat.mul_mod_left]

theorem byteLoop_skip (full : bitmap start = 0xFF#8) :
    byteLoop bitmap count (rounds+1) start free first = byteLoop bitmap count rounds (start+1) free first := by
  rw [byteLoop,if_pos full]

theorem byteLoop_closed (notFull : bitmap start ≠ 0xFF#8) (set : bit bitmap (start/8*8) = true) (some_ : 0 < count) :
    byteLoop bitmap count (rounds+1) start free first = byteLoop bitmap count rounds (start+1) 0 first := by
  rw [byteLoop,if_neg notFull,bitLoop_closed _ (by rw [piece_bit]; exact set) some_]

theorem byteLoop_open (opened : Open bitmap start) (less : free < count) :
    byteLoop bitmap count (rounds+1) start free first =
      if count ≤ free+8 then some (if free = 0 then start else first)
      else byteLoop bitmap count rounds (start+1) (free+8) (if free = 0 then start else first) := by
  rw [byteLoop,if_neg opened.1,bitLoop_eight _ (by rw [piece_bit]; exact opened.2) less]
  by_cases last : count ≤ free+8
  · rw [if_pos last,if_pos last]
  · rw [if_neg last,if_neg last]

theorem Opens.fewer (opens : Opens bitmap (k+1) b) : Opens bitmap k b := by
  generalize more : k+1 = m at opens
  induction opens generalizing k with
  | done => omega
  | skip inside full _ ih => exact .skip inside full (ih more)
  | take inside opened _ ih =>
    cases k with
    | zero => exact .done
    | succ k => exact .take inside opened (ih (by omega))

theorem Opens.le (opens : Opens bitmap k b) (less : j ≤ k) : Opens bitmap j b := by
  induction less using Nat.decreasingInduction with
  | of_succ _ _ ih => exact ih.fewer
  | self => exact opens

theorem opens_skip (full : bitmap b = 0xFF#8) (inside : b < bitmapBytes) : Opens bitmap (k+1) b ↔ Opens bitmap (k+1) (b+1) := by
  refine ⟨fun opens => ?_,.skip inside full⟩
  cases opens with
  | skip _ _ rest => exact rest
  | take _ opened _ => exact absurd full opened.1

theorem opens_take (opened : Open bitmap b) (inside : b < bitmapBytes) : Opens bitmap (k+1) b ↔ Opens bitmap k (b+1) := by
  refine ⟨fun opens => ?_,.take inside opened⟩
  cases opens with
  | skip _ full _ => exact absurd full opened.1
  | take _ _ rest => exact rest

theorem opens_closed (notFull : bitmap b ≠ 0xFF#8) (set : bit bitmap (b/8*8) = true) : ¬ Opens bitmap (k+1) b := by
  intro opens
  cases opens with
  | skip _ full _ => exact notFull full
  | take _ opened _ =>
    rw [opened.2] at set
    cases set

theorem opens_beyond (outside : bitmapBytes ≤ b) : ¬ Opens bitmap (k+1) b := by
  intro opens
  cases opens with
  | skip inside _ _ => omega
  | take inside _ _ => omega

theorem byte_cases (bitmap : Bytes) (b : Nat) :
    bitmap b = 0xFF#8 ∨ (bitmap b ≠ 0xFF#8 ∧ bit bitmap (b/8*8) = true) ∨ Open bitmap b := by
  by_cases full : bitmap b = 0xFF#8
  · exact .inl full
  · cases clear : bit bitmap (b/8*8) with
    | true => exact .inr (.inl ⟨full,rfl⟩)
    | false => exact .inr (.inr ⟨full,clear⟩)

theorem byteLoop_fresh (some_ : 0 < count) (first other : Nat) :
    byteLoop bitmap count rounds start 0 first = byteLoop bitmap count rounds start 0 other := by
  induction rounds generalizing start with
  | zero => rfl
  | succ rounds ih =>
    rcases byte_cases bitmap start with full | ⟨notFull,set⟩ | opened
    · rw [byteLoop_skip full,byteLoop_skip full]
      exact ih
    · rw [byteLoop_closed notFull set some_,byteLoop_closed notFull set some_]
      exact ih
    · rw [byteLoop_open opened some_,byteLoop_open opened some_]
      rfl

-- A run of u open bytes is completed, or it ends and the scan is as good as new.
theorem byteLoop_run (some_ : 0 < count) (begun : 0 < u) (less : 8*u < count) (all : start+rounds = bitmapBytes) (first : Nat) :
    (Opens bitmap ((count+7)/8-u) start → byteLoop bitmap count rounds start (8*u) first = some first) ∧
    (¬ Opens bitmap ((count+7)/8-u) start → byteLoop bitmap count rounds start (8*u) first = byteLoop bitmap count rounds start 0 first) := by
  induction rounds generalizing start u first with
  | zero =>
    obtain ⟨k,left⟩ : ∃ k, (count+7)/8-u = k+1 := ⟨(count+7)/8-u-1,by omega⟩
    rw [left]
    exact ⟨fun opens => absurd opens (opens_beyond (by omega)),fun _ => rfl⟩
  | succ rounds ih =>
    obtain ⟨k,left⟩ : ∃ k, (count+7)/8-u = k+1 := ⟨(count+7)/8-u-1,by omega⟩
    have inside : start < bitmapBytes := by omega
    rcases byte_cases bitmap start with full | ⟨notFull,set⟩ | opened
    · have later := @ih (start+1) u begun less (by omega) first
      rw [left,opens_skip full inside,byteLoop_skip full,byteLoop_skip full,← left]
      exact later
    · rw [left,byteLoop_closed notFull set some_,byteLoop_closed notFull set some_]
      exact ⟨fun opens => absurd opens (opens_closed notFull set),fun _ => rfl⟩
    · have kept : (if 8*u = 0 then start else first) = first := if_neg (by omega)
      rw [left,opens_take opened inside,byteLoop_open opened less,kept]
      by_cases last : count ≤ 8*u+8
      · have none_ : k = 0 := by omega
        rw [if_pos last,none_]
        exact ⟨fun _ => rfl,fun never => absurd .done never⟩
      · obtain ⟨complete,ends⟩ := @ih (start+1) (u+1) (by omega) (by omega) (by omega) first
        rw [show (count+7)/8-(u+1) = k by omega,show 8*(u+1) = 8*u+8 by omega] at complete ends
        rw [if_neg last]
        refine ⟨complete,fun never => ?_⟩
        -- a scan that begins at this byte breaks off at the same place
        obtain ⟨_,again⟩ := @ih (start+1) 1 (by omega) (by omega) (by omega) start
        rw [ends never,byteLoop_open opened some_,if_neg (by omega),if_pos rfl,
          show 0+8 = 8*1 from rfl,again (fun opens => never (opens.le (by omega)))]
        exact byteLoop_fresh some_ _ _

theorem Begins.open_ (begins : Begins bitmap (k+1) b) : b < bitmapBytes ∧ Open bitmap b ∧ Opens bitmap k (b+1) := by
  obtain ⟨notFull,opens⟩ := begins
  cases opens with
  | skip _ full _ => exact absurd full notFull
  | take inside opened rest => exact ⟨inside,opened,rest⟩

theorem byteLoop_first (some_ : 0 < count) (all : start+rounds = bitmapBytes ∨ rounds = 0 ∧ bitmapBytes ≤ start) :
    byteLoop bitmap count rounds start 0 first = some b ↔ FirstRun bitmap ((count+7)/8) start b := by
  obtain ⟨k,left⟩ : ∃ k, (count+7)/8 = k+1 := ⟨(count+7)/8-1,by omega⟩
  rw [left]
  induction rounds generalizing start first with
  | zero =>
    refine iff_of_false (fun never => by cases never) ?_
    rintro ⟨from_,begins,_⟩
    have inside := begins.open_.1
    omega
  | succ rounds ih =>
    have inside : start < bitmapBytes := by omega
    have later : ∀ other, byteLoop bitmap count rounds (start+1) 0 other = some b ↔ FirstRun bitmap (k+1) (start+1) b :=
      fun other => ih (by omega)
    have passed : ¬ Begins bitmap (k+1) start → (FirstRun bitmap (k+1) (start+1) b ↔ FirstRun bitmap (k+1) start b) := by
      intro never
      constructor
      · rintro ⟨from_,begins,least⟩
        refine ⟨by omega,begins,fun b' low high => ?_⟩
        by_cases here : b' = start
        · rw [here]
          exact never
        · exact least b' (by omega) high
      · rintro ⟨from_,begins,least⟩
        have other : b ≠ start := fun same => never (by rw [← same]; exact begins)
        exact ⟨by omega,begins,fun b' low high => least b' (by omega) high⟩
    have here : Begins bitmap (k+1) start → (some start = some b ↔ FirstRun bitmap (k+1) start b) := by
      intro begins
      constructor
      · intro same
        cases Option.some.inj same
        exact ⟨Nat.le_refl _,begins,fun b' low high => by omega⟩
      · rintro ⟨from_,_,least⟩
        by_contra differ
        exact least start (Nat.le_refl _) (by
          have : start ≠ b := fun same => differ (by rw [same])
          omega) begins
    rcases byte_cases bitmap start with full | ⟨notFull,set⟩ | opened
    · rw [byteLoop_skip full,later,passed (fun begins => begins.1 full)]
    · rw [byteLoop_closed notFull set some_,later,passed (fun begins => opens_closed notFull set begins.2)]
    · rw [byteLoop_open opened some_,if_pos rfl]
      have begins : Opens bitmap k (start+1) → Begins bitmap (k+1) start := fun rest => ⟨opened.1,.take inside opened rest⟩
      by_cases last : count ≤ 0+8
      · have none_ : k = 0 := by omega
        rw [if_pos last]
        exact here (begins (by rw [none_]; exact .done))
      · rw [if_neg last,show 0+8 = 8*1 from rfl]
        obtain ⟨complete,ends⟩ := @byteLoop_run bitmap count (start+1) rounds 1 some_ (by omega) (by omega) (by omega) start
        rw [show (count+7)/8-1 = k by omega] at complete ends
        by_cases rest : Opens bitmap k (start+1)
        · rw [complete rest]
          exact here (begins rest)
        · rw [ends rest,later]
          exact passed (fun begins => rest begins.open_.2.2)

def ClearBlocks (s : Mm) (block blocks : Nat) : Prop := ∀ i < blocks, block+i < frameCount ∧ bit s.vmAllocBitmap (block+i) = false

def QuerySound (s : Mm) (size vmBlock : Nat) : Prop :=
  (mmIsMemoryAvailable s size vmBlock).1 = true → ClearBlocks s (mmIsMemoryAvailable s size vmBlock).2 (max 1 (size/4096))

theorem blockCount_pos (size : Nat) : 0 < blockCount size := by
  unfold blockCount
  split <;> omega

-- The byte index that ends the scan is handed out as a block number.
theorem query_sound_iff (s : Mm) (size vmBlock : Nat) : QuerySound s size vmBlock ↔
    (blockCount size ≤ s.availableBlockCount → ∀ b, FirstRun s.vmAllocBitmap ((blockCount size+7)/8) (vmBlock/8) b →
      ClearBlocks s b (max 1 (size/4096))) := by
  have found : ∀ b, byteLoop s.vmAllocBitmap (blockCount size) (bitmapBytes-vmBlock/8) (vmBlock/8) 0 vmBlock = some b ↔
      FirstRun s.vmAllocBitmap ((blockCount size+7)/8) (vmBlock/8) b := fun b => byteLoop_first (blockCount_pos size) (by omega)
  unfold QuerySound mmIsMemoryAvailable
  dsimp only
  by_cases few : s.availableBlockCount < blockCount size
  · rw [if_pos few]
    exact iff_of_true (fun no => by cases no) (fun enough => by omega)
  · rw [if_neg few]
    cases ran : byteLoop s.vmAllocBitmap (blockCount size) (bitmapBytes-vmBlock/8) (vmBlock/8) 0 vmBlock with
    | none =>
      refine iff_of_true (fun no => by cases no) (fun _ b run => ?_)
      rw [(found b).mpr run] at ran
      cases ran
    | some block =>
      constructor
      · intro sound _ b run
        rw [(found b).mpr run] at ran
        cases Option.some.inj ran
        exact sound rfl
      · intro clear _
        exact clear (by omega) block ((found block).mp ran)

-- Block 1 is taken; two blocks from block 0 on are promised all the same.
theorem taken_block_promised :
    mmIsMemoryAvailable ⟨fun _ => 0,fun i => if i = 0 then 2 else 0,10,⟨fun _ => 0,fun _ => 0⟩⟩ 8192 0 = (true,0) ∧
    ¬ QuerySound ⟨fun _ => 0,fun i => if i = 0 then 2 else 0,10,⟨fun _ => 0,fun _ => 0⟩⟩ 8192 0 := by
  have answer : mmIsMemoryAvailable ⟨fun _ => 0,fun i => if i = 0 then 2 else 0,10,⟨fun _ => 0,fun _ => 0⟩⟩ 8192 0 = (true,0) := by rfl
  refine ⟨answer,fun sound => ?_⟩
  unfold QuerySound at sound
  rw [answer] at sound
  exact absurd (sound rfl 1 (by decide)).2 (by decide)

end KaracaOS.MemoryQuery
