import KaracaOS.StepRuns
import KaracaOS.Bitmap
import KaracaOS.Ext2Fields

namespace KaracaOS.Ext2Blocks
open ByteMemory Bitmap BlockDevice Ext2Fields StepRuns

-- The search of one bitmap: a block for each byte that is not full, stored in
-- the caller's array, until there are enough.
def gather (bitmap : Bytes) (base count : Nat) : Nat → Nat → Nat → (Nat → Nat) → Bool × (Nat → Nat)
  | 0,_,_,blocks => (false,blocks)
  | left+1,j,n,blocks =>
    if bitmap j = 0xFF#8 then gather bitmap base count left (j+1) n blocks
    else
      let blocks := Function.update blocks n ((base+j*8+firstClear (bitmap j)+1)%word)
      if n+1 = count then (true,blocks) else gather bitmap base count left (j+1) (n+1) blocks

-- Blocks are numbered from 1.
def groupBit (perGroup block : Nat) : Nat := (block+word-1)%word%perGroup

def markBlocks (bitmap : Bytes) (perGroup : Nat) (blocks : Nat → Nat) (count : Nat) : Bytes :=
  (List.range count).foldl (fun bitmap j => setBit bitmap (groupBit perGroup (blocks j))) bitmap

def takeBlocks (m : Mount) (table bitmap : Bytes) (i count : Nat) (blocks : Nat → Nat) : Mount :=
  let marked := markBlocks bitmap (sBlocksPerGroup m.superblock) blocks count
  let device := (ext2WriteBlocks m.device (bgBlockBitmap table i) marked 1).2
  let superblock := setFreeBlocksCount m.superblock (sFreeBlocksCount m.superblock+word-count)
  let table := setBgFreeBlocksCount table i (bgFreeBlocksCount table i+word-count)
  ⟨(ext2WriteBlocks device 2 table 1).2,superblock⟩

-- The loop over desc_table. When it runs through all 32 the return value is
-- still SYS_RET_NO_ERROR.
def groupLoop (m : Mount) (table : Bytes) (count : Nat) : Nat → Nat → (Nat → Nat) → SysRet × (Nat → Nat) × Mount
  | 0,_,blocks => (.noError,blocks,m)
  | left+1,i,blocks =>
    if bgBlockBitmap table i = 0 then (.notFound,blocks,m)
    else if bgFreeBlocksCount table i < count then groupLoop m table count left (i+1) blocks
    else
      let bitmap := (ext2ReadBlocks m.device (bgBlockBitmap table i) blank 1).2
      match gather bitmap (i*sBlocksPerGroup m.superblock) count 1024 0 0 blocks with
      | (false,blocks) => groupLoop m table count left (i+1) blocks
      | (true,blocks) => (.noError,blocks,takeBlocks m table bitmap i count blocks)

def allocateBlocks (m : Mount) (blocks : Nat → Nat) (count : Nat) : SysRet × (Nat → Nat) × Mount :=
  groupLoop m (ext2ReadBlocks m.device 2 blank 1).2 count 32 0 blocks

def tableOf (disk : Bytes) : Bytes := blockImage disk 2
def bitmapOf (disk : Bytes) (i : Nat) : Bytes := blockImage disk (bgBlockBitmap (tableOf disk) i)

inductive Outcome (m : Mount) (table : Bytes) (count first stop : Nat) : SysRet → (Nat → Nat) → Mount → Prop where
  | ended : Outcome m table count first stop .notFound blocks m
  | exhausted : (∀ g, first ≤ g → g < stop → bgBlockBitmap table g ≠ 0) → Outcome m table count first stop .noError blocks m
  | took : first ≤ g → g < stop → (∀ h, first ≤ h → h ≤ g → bgBlockBitmap table h ≠ 0) → count ≤ bgFreeBlocksCount table g →
      gather (ext2ReadBlocks m.device (bgBlockBitmap table g) blank 1).2 (g*sBlocksPerGroup m.superblock) count 1024 0 0 before
        = (true,blocks) →
      Outcome m table count first stop .noError blocks
        (takeBlocks m table (ext2ReadBlocks m.device (bgBlockBitmap table g) blank 1).2 g count blocks)

variable {m next : Mount} {table bitmap : Bytes} {blocks blocks' : Nat → Nat} {count i : Nat}

theorem Outcome.earlier (present : bgBlockBitmap table i ≠ 0) (outcome : Outcome m table count (i+1) stop ret blocks next) :
    Outcome m table count i stop ret blocks next := by
  have extend : ∀ {upto : Nat → Prop}, (∀ g, i+1 ≤ g → upto g → bgBlockBitmap table g ≠ 0) →
      ∀ g, i ≤ g → upto g → bgBlockBitmap table g ≠ 0 := by
    intro upto later g low high
    by_cases here : g = i
    · rwa [here]
    · exact later g (by omega) high
  cases outcome with
  | ended => exact .ended
  | exhausted all => exact .exhausted (extend all)
  | took low high used enough gathered => exact .took (by omega) high (extend used) enough gathered

theorem groupLoop_cases (ran : groupLoop m table count left i blocks = (ret,blocks',next)) :
    Outcome m table count i (i+left) ret blocks' next := by
  induction left generalizing i blocks with
  | zero =>
    cases ran
    exact .exhausted (fun g low high => by omega)
  | succ left ih =>
    have onward : bgBlockBitmap table i ≠ 0 → ∀ blocks, groupLoop m table count left (i+1) blocks = (ret,blocks',next) →
        Outcome m table count i (i+(left+1)) ret blocks' next := by
      intro present blocks rest
      have outcome := ih rest
      rw [show i+1+left = i+(left+1) by omega] at outcome
      exact outcome.earlier present
    unfold groupLoop at ran
    split at ran
    · cases ran
      exact .ended
    · rename_i present
      split at ran
      · exact onward present blocks ran
      · rename_i enough
        dsimp only at ran
        split at ran
        · exact onward present _ ran
        · rename_i gathered
          cases ran
          refine .took (Nat.le_refl _) (by omega) ?_ (by omega) gathered
          intro h low high
          rwa [show h = i by omega]

def freeBits (bitmap : Bytes) : Nat → Nat → List Nat
  | 0,_ => []
  | left+1,j => if bitmap j = 0xFF#8 then freeBits bitmap left (j+1) else (j*8+firstClear (bitmap j))::freeBits bitmap left (j+1)

theorem freeBits_clear (member : x ∈ freeBits bitmap left j) : j*8 ≤ x ∧ x < (j+left)*8 ∧ bit bitmap x = false := by
  induction left generalizing j with
  | zero => cases member
  | succ left ih =>
    unfold freeBits at member
    split at member
    · obtain ⟨low,high,clear⟩ := ih member
      exact ⟨by omega,by omega,clear⟩
    · rename_i notFull
      have small := firstClear_lt notFull
      rcases List.mem_cons.mp member with rfl | later
      · refine ⟨by omega,by omega,?_⟩
        rw [bit,show (j*8+firstClear (bitmap j))/8 = j by omega,show (j*8+firstClear (bitmap j))%8 = firstClear (bitmap j) by omega]
        exact firstClear_clear small
      · obtain ⟨low,high,clear⟩ := ih later
        exact ⟨by omega,by omega,clear⟩

theorem freeBits_nodup (bitmap : Bytes) (left j : Nat) : (freeBits bitmap left j).Nodup := by
  induction left generalizing j with
  | zero => exact List.nodup_nil
  | succ left ih =>
    unfold freeBits
    split
    · exact ih (j+1)
    · rename_i notFull
      have small := firstClear_lt notFull
      refine List.nodup_cons.mpr ⟨?_,ih (j+1)⟩
      intro member
      have later := freeBits_clear member
      omega

theorem gather_picks (fewer : n < count) (ran : gather bitmap base count left j n blocks = (true,blocks')) :
    (∀ x < n, blocks' x = blocks x) ∧
    ∀ x < count-n, ∃ b, (freeBits bitmap left j)[x]? = some b ∧ blocks' (n+x) = (base+b+1)%word := by
  induction left generalizing j n blocks with
  | zero => cases ran
  | succ left ih =>
    unfold gather at ran
    unfold freeBits
    split at ran
    · rename_i full
      rw [if_pos full]
      exact ih fewer ran
    · rename_i notFull
      rw [if_neg notFull]
      dsimp only at ran
      split at ran
      · rename_i last
        cases ran
        refine ⟨fun x below => Function.update_of_ne (by omega) _ _,?_⟩
        intro x below
        cases (show x = 0 by omega)
        exact ⟨_,rfl,by simp [Nat.add_assoc]⟩
      · rename_i more
        obtain ⟨kept,later⟩ := ih (by omega) ran
        refine ⟨?_,?_⟩
        · intro x below
          rw [kept x (by omega),Function.update_of_ne (by omega)]
        · intro x below
          cases x with
          | zero => exact ⟨_,rfl,by rw [Nat.add_zero,kept n (by omega),Function.update_self]; simp [Nat.add_assoc]⟩
          | succ x =>
            obtain ⟨b,found,placed⟩ := later x (by omega)
            exact ⟨b,found,by rw [← placed]; congr 1; omega⟩

theorem setBits_bit (list : List Nat) (index : Nat → Nat) (bytes : Bytes) (n : Nat) :
    bit (list.foldl (fun bytes j => setBit bytes (index j)) bytes) n = (decide (n ∈ list.map index) || bit bytes n) := by
  induction list generalizing bytes with
  | nil => simp
  | cons j rest ih =>
    rw [List.foldl_cons,ih,bit_setBit]
    by_cases here : n = index j <;> simp [here]

theorem gather_list (positive : 0 < count) (ran : gather bitmap base count 1024 0 0 blocks = (true,blocks')) :
    ∃ bits : List Nat, bits.length = count ∧ bits.Nodup ∧ (∀ b ∈ bits, b < 8192 ∧ bit bitmap b = false) ∧
      (List.range count).map blocks' = bits.map (fun b => (base+b+1)%word) := by
  obtain ⟨_,picks⟩ := gather_picks positive ran
  have long : count ≤ (freeBits bitmap 1024 0).length := by
    obtain ⟨b,found,_⟩ := picks (count-1) (by omega)
    have inside := (List.getElem?_eq_some_iff.mp found).1
    omega
  refine ⟨(freeBits bitmap 1024 0).take count,by simp [long],(freeBits_nodup bitmap 1024 0).sublist (List.take_sublist _ _),?_,?_⟩
  · intro b member
    obtain ⟨_,high,clear⟩ := freeBits_clear (List.mem_of_mem_take member)
    exact ⟨by omega,clear⟩
  · apply List.ext_getElem?
    intro x
    by_cases inside : x < count
    · obtain ⟨b,found,placed⟩ := picks x (by omega)
      rw [List.getElem?_map,List.getElem?_map,List.getElem?_range inside,List.getElem?_take_of_lt inside,found]
      simp only [Option.map_some]
      rw [← placed,Nat.zero_add]
    · rw [List.getElem?_eq_none (by simp; omega),List.getElem?_eq_none (by simp; omega)]

theorem groupBit_block (whole : base%perGroup = 0) (below : b < perGroup) (fits : base+b+1 < word) :
    groupBit perGroup ((base+b+1)%word) = b := by
  have shift : base+b+1+word-1 = base+b+word := by omega
  rw [groupBit,Nat.mod_eq_of_lt fits,shift,Nat.add_mod_right,Nat.mod_eq_of_lt (show base+b < word by omega),
    Nat.add_mod,whole,Nat.zero_add,Nat.mod_mod,Nat.mod_eq_of_lt below]

theorem markBlocks_bit {bits : List Nat} (bitmap : Bytes)
    (listed : (List.range count).map blocks = bits.map (fun b => (base+b+1)%word)) (whole : base%perGroup = 0)
    (small : ∀ b ∈ bits, b < perGroup ∧ base+b+1 < word) (n : Nat) :
    bit (markBlocks bitmap perGroup blocks count) n = (decide (n ∈ bits) || bit bitmap n) := by
  have indices : (List.range count).map (fun j => groupBit perGroup (blocks j)) = bits := by
    calc (List.range count).map (fun j => groupBit perGroup (blocks j))
        = ((List.range count).map blocks).map (groupBit perGroup) := by rw [List.map_map]; rfl
      _ = bits.map (fun b => groupBit perGroup ((base+b+1)%word)) := by rw [listed,List.map_map]; rfl
      _ = bits.map id := List.map_congr_left (fun b member => groupBit_block whole (small b member).1 (small b member).2)
      _ = bits := List.map_id bits
  rw [markBlocks,setBits_bit,indices]

theorem takeBlocks_eq (sectors : m.device.sectorSize = 512) (table bitmap : Bytes) (g count : Nat) (blocks : Nat → Nat) :
    takeBlocks m table bitmap g count blocks =
      ⟨(m.device.put (bgBlockBitmap table g) (markBlocks bitmap (sBlocksPerGroup m.superblock) blocks count)).put 2
          (setBgFreeBlocksCount table g (bgFreeBlocksCount table g+word-count)),
        setFreeBlocksCount m.superblock (sFreeBlocksCount m.superblock+word-count)⟩ := by
  simp only [takeBlocks]
  rw [write_block sectors,write_block (by simpa using sectors)]

theorem bit_agree (agree : Agree left right 0 1024) (inside : n < 8192) : bit left n = bit right n := by
  rw [bit,bit,agree (n/8) (Nat.zero_le _) (by omega)]

-- A mounted file system whose counts are those of its bitmaps. The first descriptor
-- without a block bitmap ends the table; `metadata i` are the blocks group i keeps for itself.
structure Counted (m : Mount) (groups : Nat) (metadata : Nat → Set Nat) : Prop where
  sectors : m.device.sectorSize = 512
  few : groups ≤ 31
  perGroup : 0 < sBlocksPerGroup m.superblock ∧ sBlocksPerGroup m.superblock ≤ 8192
  ended : bgBlockBitmap (tableOf m.device.disk) groups = 0
  bitmaps : ∀ i < groups, bgBlockBitmap (tableOf m.device.disk) i ∈ metadata i ∧ bgInodeBitmap (tableOf m.device.disk) i ∈ metadata i
  inodes : ∀ i < groups, ∀ k < (sInodesPerGroup m.superblock+7)/8, bgInodeTable (tableOf m.device.disk) i+k ∈ metadata i
  heads : 0 < groups → 1 ∈ metadata 0 ∧ 2 ∈ metadata 0
  apart : ∀ i < groups, ∀ j < groups, i ≠ j → Disjoint (metadata i) (metadata j)
  table : ∀ i < groups, bgBlockBitmap (tableOf m.device.disk) i ≠ 2
  inside : ∀ i < groups, ∀ b ∈ metadata i, 1 ≤ b ∧ b ≤ groups*sBlocksPerGroup m.superblock
  marked : ∀ i < groups, ∀ b ∈ metadata i,
    bit (bitmapOf m.device.disk ((b-1)/sBlocksPerGroup m.superblock)) ((b-1)%sBlocksPerGroup m.superblock) = true
  counted : ∀ i < groups, bgFreeBlocksCount (tableOf m.device.disk) i = (clearSet (bitmapOf m.device.disk i) 8192).card
  total : sFreeBlocksCount m.superblock = ∑ i ∈ Finset.range groups, bgFreeBlocksCount (tableOf m.device.disk) i

-- No bit is clear that stands for no block of its group: the search looks at them all.
structure Balanced (m : Mount) (groups : Nat) (metadata : Nat → Set Nat) : Prop extends Counted m groups metadata where
  padded : ∀ i < groups, ∀ n, sBlocksPerGroup m.superblock ≤ n → n < 8192 → bit (bitmapOf m.device.disk i) n = true

-- What an allocation reads of it. Here a table of 32 groups has no end.
structure Charted (m : Mount) (groups : Nat) : Prop where
  sectors : m.device.sectorSize = 512
  few : groups ≤ 32
  perGroup : 0 < sBlocksPerGroup m.superblock ∧ sBlocksPerGroup m.superblock ≤ 8192
  ended : groups < 32 → bgBlockBitmap (tableOf m.device.disk) groups = 0
  present : ∀ i < groups, bgBlockBitmap (tableOf m.device.disk) i ≠ 0
  away : ∀ i < groups, slot 2 ≠ slot (bgBlockBitmap (tableOf m.device.disk) i)
  apart : ∀ i < groups, ∀ j < groups, i ≠ j →
    slot (bgBlockBitmap (tableOf m.device.disk) i) ≠ slot (bgBlockBitmap (tableOf m.device.disk) j)
  padded : ∀ i < groups, ∀ n, sBlocksPerGroup m.superblock ≤ n → n < 8192 → bit (bitmapOf m.device.disk i) n = true
  counted : ∀ i < groups, bgFreeBlocksCount (tableOf m.device.disk) i = (clearSet (bitmapOf m.device.disk i) 8192).card

def Marks (m next : Mount) (groups : Nat) (taken : List Nat) : Prop :=
  ∀ i < groups, ∀ n < 8192, (bit (bitmapOf next.device.disk i) n = true ↔
    bit (bitmapOf m.device.disk i) n = true ∨
      n < sBlocksPerGroup m.superblock ∧ i*sBlocksPerGroup m.superblock+n+1 ∈ taken)

variable {groups : Nat} {metadata : Nat → Set Nat}

theorem Balanced.bitmap_slot (balanced : Balanced m groups metadata) (inside : i < groups) :
    slot (bgBlockBitmap (tableOf m.device.disk) i) = bgBlockBitmap (tableOf m.device.disk) i := by
  obtain ⟨_,high⟩ := balanced.inside i inside _ (balanced.bitmaps i inside).1
  have product : groups*sBlocksPerGroup m.superblock ≤ 31*8192 := Nat.mul_le_mul balanced.few balanced.perGroup.2
  exact slot_small (by omega)

theorem Balanced.bitmap_apart (balanced : Balanced m groups metadata) (one : i < groups) (two : j < groups) (differ : i ≠ j) :
    slot (bgBlockBitmap (tableOf m.device.disk) i) ≠ slot (bgBlockBitmap (tableOf m.device.disk) j) := by
  rw [balanced.bitmap_slot one,balanced.bitmap_slot two]
  intro same
  have mine := (balanced.bitmaps i one).1
  rw [same] at mine
  exact Set.disjoint_left.mp (balanced.apart i one j two differ) mine (balanced.bitmaps j two).1

theorem Balanced.charted (balanced : Balanced m groups metadata) : Charted m groups := by
  refine ⟨balanced.sectors,Nat.le_succ_of_le balanced.few,balanced.perGroup,fun _ => balanced.ended,?_,?_,
    fun i one j two => balanced.bitmap_apart one two,balanced.padded,balanced.counted⟩
  · intro i below
    have low := (balanced.inside i below _ (balanced.bitmaps i below).1).1
    omega
  · intro i below
    rw [balanced.bitmap_slot below]
    exact (balanced.table i below).symm

-- What a successful call leaves behind, in terms of the bits it picked in group g.
structure Took (m next : Mount) (groups g count : Nat) (bits : List Nat) : Prop where
  sectors : next.device.sectorSize = 512
  superblock : next.superblock = setFreeBlocksCount m.superblock (sFreeBlocksCount m.superblock+word-count)
  table : SameTable (tableOf next.device.disk)
    (setBgFreeBlocksCount (tableOf m.device.disk) g (bgFreeBlocksCount (tableOf m.device.disk) g+word-count))
  other : ∀ i < groups, i ≠ g → bitmapOf next.device.disk i = bitmapOf m.device.disk i
  here : ∀ n < 8192, bit (bitmapOf next.device.disk g) n = (decide (n ∈ bits) || bit (bitmapOf m.device.disk g) n)

theorem Charted.picked (charted : Charted m groups) (inside : g < groups) (clear : bit (bitmapOf m.device.disk g) b = false)
    (small : b < 8192) : b < sBlocksPerGroup m.superblock ∧ g*sBlocksPerGroup m.superblock+b+1 < word := by
  have below : b < sBlocksPerGroup m.superblock := by
    by_contra beyond
    have set := charted.padded g inside b (by omega) small
    rw [clear] at set
    cases set
  have product : g*sBlocksPerGroup m.superblock ≤ 32*8192 :=
    Nat.mul_le_mul (Nat.le_of_lt (Nat.lt_of_lt_of_le inside charted.few)) charted.perGroup.2
  exact ⟨below,by unfold word; omega⟩

theorem Charted.took (charted : Charted m groups) (inside : g < groups) (positive : 0 < count)
    (gathered : gather (bitmapOf m.device.disk g) (g*sBlocksPerGroup m.superblock) count 1024 0 0 before = (true,blocks)) :
    ∃ bits : List Nat, bits.length = count ∧ bits.Nodup ∧
      (∀ b ∈ bits, b < sBlocksPerGroup m.superblock ∧ bit (bitmapOf m.device.disk g) b = false) ∧
      (List.range count).map blocks = bits.map (fun b => g*sBlocksPerGroup m.superblock+b+1) ∧
      Took m (takeBlocks m (tableOf m.device.disk) (bitmapOf m.device.disk g) g count blocks) groups g count bits := by
  obtain ⟨bits,length,distinct,clear,listed⟩ := gather_list positive gathered
  have small : ∀ b ∈ bits, b < sBlocksPerGroup m.superblock ∧ g*sBlocksPerGroup m.superblock+b+1 < word :=
    fun b member => charted.picked inside (clear b member).2 (clear b member).1
  have marked := markBlocks_bit (bitmapOf m.device.disk g) listed (Nat.mul_mod_left _ _) small
  refine ⟨bits,length,distinct,fun b member => ⟨(small b member).1,(clear b member).2⟩,?_,?_⟩
  · rw [listed]
    exact List.map_congr_left (fun b member => Nat.mod_eq_of_lt (small b member).2)
  · rw [takeBlocks_eq charted.sectors]
    have fields := SameTable.of_agree (blockImage_put_same (putBlock m.device.disk (bgBlockBitmap (tableOf m.device.disk) g)
      (markBlocks (bitmapOf m.device.disk g) (sBlocksPerGroup m.superblock) blocks count))
      (setBgFreeBlocksCount (tableOf m.device.disk) g (bgFreeBlocksCount (tableOf m.device.disk) g+word-count)) (rfl : slot 2 = slot 2))
    have few := charted.few
    have position : ∀ i < groups, bgBlockBitmap (tableOf (putBlock (putBlock m.device.disk (bgBlockBitmap (tableOf m.device.disk) g)
        (markBlocks (bitmapOf m.device.disk g) (sBlocksPerGroup m.superblock) blocks count)) 2
        (setBgFreeBlocksCount (tableOf m.device.disk) g (bgFreeBlocksCount (tableOf m.device.disk) g+word-count)))) i =
        bgBlockBitmap (tableOf m.device.disk) i := by
      intro i below
      exact (fields.blockBitmap i (by omega)).trans (blockBitmap_freeBlocks _ _ _ _)
    refine ⟨(put_sectorSize _ _ _).trans ((put_sectorSize _ _ _).trans charted.sectors),rfl,?_,?_,?_⟩
    · rw [put_disk,put_disk]
      exact fields
    · intro i below differ
      rw [bitmapOf,put_disk,put_disk,position i below,blockImage_put_other _ _ (charted.away i below),
        blockImage_put_other _ _ (charted.apart g inside i below (Ne.symm differ))]
      rfl
    · intro n bound
      rw [bitmapOf,put_disk,put_disk,position g inside,blockImage_put_other _ _ (charted.away g inside),
        bit_agree (blockImage_put_same _ _ rfl) bound,marked n]

theorem Took.kept (took : Took m next groups g count bits) (inside : i < groups) (bound : n < 8192)
    (set : bit (bitmapOf m.device.disk i) n = true) : bit (bitmapOf next.device.disk i) n = true := by
  by_cases here : i = g
  · subst here
    rw [took.here n bound,set,Bool.or_true]
  · rwa [took.other i inside here]

theorem Took.free (took : Took m next groups g count bits) (balanced : Balanced m groups metadata)
    (enough : count ≤ bgFreeBlocksCount (tableOf m.device.disk) g) (inside : i < groups) :
    bgFreeBlocksCount (tableOf next.device.disk) i+(if i = g then count else 0) = bgFreeBlocksCount (tableOf m.device.disk) i := by
  have few := balanced.few
  have bound : bgFreeBlocksCount (tableOf m.device.disk) g < 65536 := get16_lt _ _
  rw [took.table.freeBlocks i (by omega),freeBlocks_freeBlocks]
  by_cases here : i = g
  · subst here
    rw [if_pos rfl,if_pos rfl]
    unfold word
    omega
  · rw [if_neg here,if_neg here,Nat.add_zero]

theorem Took.sum (took : Took m next groups g count bits) (balanced : Balanced m groups metadata) (inside : g < groups)
    (enough : count ≤ bgFreeBlocksCount (tableOf m.device.disk) g) :
    (∑ i ∈ Finset.range groups, bgFreeBlocksCount (tableOf next.device.disk) i)+count =
      ∑ i ∈ Finset.range groups, bgFreeBlocksCount (tableOf m.device.disk) i := by
  refine sum_lowered inside ?_ ?_
  · have here := took.free balanced enough inside
    rwa [if_pos rfl] at here
  · intro j below differ
    have other := took.free balanced enough below
    rwa [if_neg differ] at other

theorem position_inside (positive : 0 < p) (low : 1 ≤ b) (high : b ≤ groups*p) : (b-1)/p < groups ∧ (b-1)%p < p :=
  ⟨(Nat.div_lt_iff_lt_mul positive).mpr (by omega),Nat.mod_lt _ positive⟩

theorem Took.counted (took : Took m next groups g count bits) (balanced : Balanced m groups metadata)
    (enough : count ≤ bgFreeBlocksCount (tableOf m.device.disk) g) (length : bits.length = count) (distinct : bits.Nodup)
    (clear : ∀ b ∈ bits, b < sBlocksPerGroup m.superblock ∧ bit (bitmapOf m.device.disk g) b = false) (below : i < groups) :
    bgFreeBlocksCount (tableOf next.device.disk) i = (clearSet (bitmapOf next.device.disk i) 8192).card := by
  have positive := balanced.perGroup
  have free := took.free balanced enough below
  by_cases here : i = g
  · subst here
    rw [if_pos rfl,balanced.counted i below] at free
    have subset : bits.toFinset ⊆ clearSet (bitmapOf m.device.disk i) 8192 := by
      intro b member
      obtain ⟨small,open_⟩ := clear b (List.mem_toFinset.mp member)
      exact mem_clearSet.mpr ⟨by omega,open_⟩
    have marked : ∀ n < 8192, bit (bitmapOf next.device.disk i) n =
        (decide (n ∈ bits.toFinset) || bit (bitmapOf m.device.disk i) n) := by
      intro n bound
      rw [took.here n bound]
      simp only [List.mem_toFinset]
    have count_ := clearSet_card subset marked
    rw [List.toFinset_card_of_nodup distinct,length] at count_
    omega
  · rw [if_neg here,Nat.add_zero,balanced.counted i below] at free
    rw [free,took.other i below here]

theorem Took.balanced (took : Took m next groups g count bits) (balanced : Balanced m groups metadata) (inside : g < groups)
    (enough : count ≤ bgFreeBlocksCount (tableOf m.device.disk) g) (length : bits.length = count) (distinct : bits.Nodup)
    (clear : ∀ b ∈ bits, b < sBlocksPerGroup m.superblock ∧ bit (bitmapOf m.device.disk g) b = false) :
    Balanced next groups metadata := by
  have few := balanced.few
  have positive := balanced.perGroup
  have perGroup : sBlocksPerGroup next.superblock = sBlocksPerGroup m.superblock := by
    rw [took.superblock,perGroup_setFreeBlocks]
  have inodesPerGroup : sInodesPerGroup next.superblock = sInodesPerGroup m.superblock := by
    rw [took.superblock,inodesPerGroup_setFreeBlocks]
  have bitmapAt : ∀ i ≤ groups, bgBlockBitmap (tableOf next.device.disk) i = bgBlockBitmap (tableOf m.device.disk) i :=
    fun i below => (took.table.blockBitmap i (by omega)).trans (blockBitmap_freeBlocks _ _ _ _)
  refine ⟨⟨took.sectors,few,by rwa [perGroup],?_,?_,?_,balanced.heads,balanced.apart,?_,?_,?_,?_,?_⟩,?_⟩
  · rw [bitmapAt groups (Nat.le_refl _)]
    exact balanced.ended
  · intro i below
    rw [bitmapAt i (Nat.le_of_lt below),took.table.inodeBitmap i (by omega),inodeBitmap_freeBlocks]
    exact balanced.bitmaps i below
  · intro i below k small
    rw [inodesPerGroup] at small
    rw [took.table.inodeTable i (by omega),inodeTable_freeBlocks]
    exact balanced.inodes i below k small
  · intro i below
    rw [bitmapAt i (Nat.le_of_lt below)]
    exact balanced.table i below
  · rw [perGroup]
    exact balanced.inside
  · intro i below b member
    rw [perGroup]
    obtain ⟨low,high⟩ := balanced.inside i below b member
    obtain ⟨group,index⟩ := position_inside positive.1 low high
    exact took.kept group (by omega) (balanced.marked i below b member)
  · exact fun i below => took.counted balanced enough length distinct clear below
  · have sum := took.sum balanced inside enough
    have bound : sFreeBlocksCount m.superblock < 4294967296 := get32_lt _ _
    have total := balanced.total
    rw [took.superblock,freeBlocks_setFreeBlocks]
    unfold word
    omega
  · intro i below n beyond bound
    rw [perGroup] at beyond
    exact took.kept below bound (balanced.padded i below n beyond bound)

theorem Took.marks (took : Took m next groups g count bits) (inside : g < groups)
    (clear : ∀ b ∈ bits, b < sBlocksPerGroup m.superblock ∧ bit (bitmapOf m.device.disk g) b = false)
    (listed : taken = bits.map (fun b => g*sBlocksPerGroup m.superblock+b+1)) : Marks m next groups taken := by
  intro i below n bound
  have member : n < sBlocksPerGroup m.superblock → (i*sBlocksPerGroup m.superblock+n+1 ∈ taken ↔ i = g ∧ n ∈ bits) := by
    intro small
    rw [listed,List.mem_map]
    constructor
    · rintro ⟨b,picked,same⟩
      have low := (clear b picked).1
      have split : i*sBlocksPerGroup m.superblock+n = g*sBlocksPerGroup m.superblock+b := by omega
      have group : i = g := by
        have quotient := congrArg (·/sBlocksPerGroup m.superblock) split
        rwa [Nat.mul_comm i,Nat.mul_comm g,Nat.mul_add_div (by omega),Nat.mul_add_div (by omega),Nat.div_eq_of_lt small,
          Nat.div_eq_of_lt low] at quotient
      subst group
      exact ⟨rfl,by rwa [show n = b by omega]⟩
    · rintro ⟨rfl,picked⟩
      exact ⟨n,picked,rfl⟩
  by_cases here : i = g
  · subst here
    rw [took.here n bound,Bool.or_eq_true,decide_eq_true_iff]
    constructor
    · rintro (picked | set)
      · exact .inr ⟨(clear n picked).1,(member (clear n picked).1).mpr ⟨rfl,picked⟩⟩
      · exact .inl set
    · rintro (set | ⟨small,picked⟩)
      · exact .inr set
      · exact .inl ((member small).mp picked).2
  · rw [took.other i below here]
    constructor
    · exact .inl
    · rintro (set | ⟨small,picked⟩)
      · exact set
      · exact absurd ((member small).mp picked).1 here

-- A mounted file system and the blocks its callers have been given.
structure Volume where
  mount : Mount
  handed : List Nat

-- The array the caller passes in, and how many blocks it wants.
structure Request where
  blocks : Nat → Nat
  count : Nat

def serve (v : Volume) (r : Request) : Option Volume :=
  match allocateBlocks v.mount r.blocks r.count with
  | (.noError,blocks,mount) => some ⟨mount,(List.range r.count).map blocks ++ v.handed⟩
  | (_,_,mount) => some ⟨mount,v.handed⟩

def Request.Proper (r : Request) : Prop := 1 ≤ r.count ∧ r.count < word

structure Kept (v : Volume) (groups : Nat) (metadata : Nat → Set Nat) : Prop where
  balanced : Balanced v.mount groups metadata
  distinct : v.handed.Nodup
  inside : ∀ b ∈ v.handed, 1 ≤ b ∧ b ≤ groups*sBlocksPerGroup v.mount.superblock
  marked : ∀ b ∈ v.handed, bit (bitmapOf v.mount.device.disk ((b-1)/sBlocksPerGroup v.mount.superblock))
    ((b-1)%sBlocksPerGroup v.mount.superblock) = true
  foreign : ∀ b ∈ v.handed, ∀ i < groups, b ∉ metadata i

theorem Balanced.allocate (balanced : Balanced m groups metadata) (positive : 1 ≤ count)
    (ran : allocateBlocks m blocks count = (ret,blocks',next)) :
    (ret = .notFound ∧ next = m) ∨
    (ret = .noError ∧ ∃ g bits, g < groups ∧ count ≤ bgFreeBlocksCount (tableOf m.device.disk) g ∧ bits.length = count ∧ bits.Nodup ∧
      (∀ b ∈ bits, b < sBlocksPerGroup m.superblock ∧ bit (bitmapOf m.device.disk g) b = false) ∧
      (List.range count).map blocks' = bits.map (fun b => g*sBlocksPerGroup m.superblock+b+1) ∧ Took m next groups g count bits) := by
  have few := balanced.few
  have table : (ext2ReadBlocks m.device 2 blank 1).2 = tableOf m.device.disk := by
    rw [read_local balanced.sectors]
    rfl
  rw [allocateBlocks,table] at ran
  cases groupLoop_cases ran with
  | ended => exact .inl ⟨rfl,rfl⟩
  | exhausted all => exact absurd balanced.ended (all groups (Nat.zero_le _) (by omega))
  | @took g before _ _ _ used enough gathered =>
    have inside : g < groups := by
      by_contra beyond
      exact used groups (Nat.zero_le _) (by omega) balanced.ended
    have bitmap : (ext2ReadBlocks m.device (bgBlockBitmap (tableOf m.device.disk) g) blank 1).2 = bitmapOf m.device.disk g := by
      rw [read_local balanced.sectors]
      rfl
    rw [bitmap] at gathered ⊢
    obtain ⟨bits,length,distinct,clear,listed,took⟩ := balanced.charted.took inside positive gathered
    exact .inr ⟨rfl,g,bits,inside,enough,length,distinct,clear,listed,took⟩

theorem block_position (positive : 0 < p) (small : b < p) : (g*p+b+1-1)/p = g ∧ (g*p+b+1-1)%p = b := by
  rw [Nat.add_sub_cancel,Nat.mul_comm g p,Nat.mul_add_div positive,Nat.mul_add_mod,Nat.div_eq_of_lt small,Nat.mod_eq_of_lt small]
  exact ⟨Nat.add_zero _,rfl⟩

-- A block just taken had a clear bit, so it was neither handed out nor metadata.
structure TakenNow (m next : Mount) (groups b : Nat) : Prop where
  low : 1 ≤ b
  high : b ≤ groups*sBlocksPerGroup m.superblock
  before : bit (bitmapOf m.device.disk ((b-1)/sBlocksPerGroup m.superblock)) ((b-1)%sBlocksPerGroup m.superblock) = false
  after : bit (bitmapOf next.device.disk ((b-1)/sBlocksPerGroup m.superblock)) ((b-1)%sBlocksPerGroup m.superblock) = true

theorem Took.fresh (took : Took m next groups g count bits) (inside : g < groups)
    (positive : 0 < sBlocksPerGroup m.superblock ∧ sBlocksPerGroup m.superblock ≤ 8192)
    (clear : ∀ b ∈ bits, b < sBlocksPerGroup m.superblock ∧ bit (bitmapOf m.device.disk g) b = false) :
    ∀ b ∈ bits.map (fun b => g*sBlocksPerGroup m.superblock+b+1), TakenNow m next groups b := by
  intro b member
  obtain ⟨x,picked,rfl⟩ := List.mem_map.mp member
  obtain ⟨small,open_⟩ := clear x picked
  obtain ⟨group,index⟩ := @block_position (sBlocksPerGroup m.superblock) x g positive.1 small
  have above : (g+1)*sBlocksPerGroup m.superblock ≤ groups*sBlocksPerGroup m.superblock := Nat.mul_le_mul_right _ inside
  rw [Nat.succ_mul] at above
  refine ⟨by omega,by omega,?_,?_⟩
  · rw [group,index]
    exact open_
  · rw [group,index,took.here x (by omega),decide_eq_true picked,Bool.true_or]

theorem Kept.serve {v after : Volume} (kept : Kept v groups metadata) (proper : r.Proper) (ran : serve v r = some after) :
    Kept after groups metadata ∧ ∃ taken, after.handed = taken ++ v.handed ∧ Marks v.mount after.mount groups taken := by
  cases called : allocateBlocks v.mount r.blocks r.count with
  | mk ret rest =>
    obtain ⟨blocks',next⟩ := rest
    rcases kept.balanced.allocate proper.1 called with ⟨rfl,rfl⟩ | ⟨rfl,g,bits,inside,enough,length,distinct,clear,listed,took⟩
    · simp only [Ext2Blocks.serve,called,Option.some.injEq] at ran
      subst ran
      refine ⟨kept,[],rfl,?_⟩
      intro i below n bound
      simp
    · simp only [Ext2Blocks.serve,called,Option.some.injEq] at ran
      subst ran
      have perGroup : sBlocksPerGroup next.superblock = sBlocksPerGroup v.mount.superblock := by
        rw [took.superblock,perGroup_setFreeBlocks]
      have positive := kept.balanced.perGroup
      have balanced := took.balanced kept.balanced inside enough length distinct clear
      have fresh : ∀ b ∈ (List.range r.count).map blocks', TakenNow v.mount next groups b := by
        rw [listed]
        exact took.fresh inside positive clear
      have old : ∀ b ∈ v.handed, b ∉ (List.range r.count).map blocks' := by
        intro b given taken
        have set := kept.marked b given
        rw [(fresh b taken).before] at set
        cases set
      refine ⟨⟨balanced,?_,?_,?_,?_⟩,_,rfl,took.marks inside clear listed⟩
      · refine List.nodup_append.mpr ⟨?_,kept.distinct,?_⟩
        · rw [listed]
          exact distinct.map (fun x y same => by omega)
        · intro b taken c given same
          subst same
          exact old b given taken
      · intro b member
        rw [perGroup]
        rcases List.mem_append.mp member with taken | given
        · exact ⟨(fresh b taken).low,(fresh b taken).high⟩
        · exact kept.inside b given
      · intro b member
        rw [perGroup]
        rcases List.mem_append.mp member with taken | given
        · exact (fresh b taken).after
        · obtain ⟨low,high⟩ := kept.inside b given
          obtain ⟨group,index⟩ := position_inside positive.1 low high
          exact took.kept group (by omega) (kept.marked b given)
      · intro b member i below owned
        rcases List.mem_append.mp member with taken | given
        · have set := kept.balanced.marked i below b owned
          rw [(fresh b taken).before] at set
          cases set
        · exact kept.foreign b given i below owned

def Opened (groups : Nat) (metadata : Nat → Set Nat) (v : Volume) : Prop := v.handed = [] ∧ Balanced v.mount groups metadata

theorem blocks_handed_out_once (path : Reached (Opened groups metadata) serve (fun _ r => r.Proper) v) :
    v.handed.Nodup ∧ (∀ b ∈ v.handed, ∀ i < groups, b ∉ metadata i) ∧ Balanced v.mount groups metadata ∧
    ∀ r after, r.Proper → serve v r = some after →
      ∃ taken, after.handed = taken ++ v.handed ∧ Marks v.mount after.mount groups taken := by
  have initial : ∀ v, Opened groups metadata v → Kept v groups metadata := by
    rintro v ⟨empty,balanced⟩
    exact ⟨balanced,by simp [empty],by simp [empty],by simp [empty],by simp [empty]⟩
  have kept := path.invariant (Kept · groups metadata) initial (fun v r after kept proper ran => (kept.serve proper ran).1)
  exact ⟨kept.distinct,kept.foreign,kept.balanced,fun r after proper ran => (kept.serve proper ran).2⟩

-- One group, in whose bitmap the low bits of one byte are clear.
def freeDisk (place : Nat) (free : Byte) (count : Nat) : Bytes :=
  put16 (put32 (put32 (put32 (store (fill blank 3072 4096 0xFF#8) (3072+place) free) 2048 3) 2052 4) 2056 5) 2060 count
def freeMount (size place : Nat) (free : Byte) (count : Nat) : Mount :=
  ⟨⟨512,size,freeDisk place free count,blank,[]⟩,put32 (put32 (put32 blank 12 count) 32 size) 40 1712⟩
def oneFreeMetadata : Nat → Set Nat := fun _ => {b | 1 ≤ b ∧ b ≤ 218}

-- The bits of that byte, and a group that has its metadata and the byte's blocks apart.
structure FreeByte (size place : Nat) (free : Byte) (count : Nat) : Prop where
  placed : 28 ≤ place ∧ place < 1024
  low : ∀ i : Fin 8, free.getLsbD i = false ↔ i.val < count
  few : count ≤ 8
  sized : 218 ≤ size ∧ size ≤ 8192

theorem free_superblock (sized : size ≤ 8192) (few : count ≤ 8) (place : Nat) (free : Byte) :
    sBlocksPerGroup (freeMount size place free count).superblock = size ∧ sInodesPerGroup (freeMount size place free count).superblock = 1712 ∧
    sFreeBlocksCount (freeMount size place free count).superblock = count := by
  refine ⟨?_,?_,?_⟩
  · rw [sBlocksPerGroup,freeMount,get32_put32_away (by omega),get32_put32]
    exact Nat.mod_eq_of_lt (by omega)
  · rw [sInodesPerGroup,freeMount,get32_put32]
  · rw [sFreeBlocksCount,freeMount,get32_put32_away (by omega),get32_put32_away (by omega),get32_put32]
    exact Nat.mod_eq_of_lt (by omega)

theorem free_table (few : count ≤ 8) (place : Nat) (free : Byte) :
    bgBlockBitmap (tableOf (freeDisk place free count)) 0 = 3 ∧ bgInodeBitmap (tableOf (freeDisk place free count)) 0 = 4 ∧
    bgInodeTable (tableOf (freeDisk place free count)) 0 = 5 ∧ bgBlockBitmap (tableOf (freeDisk place free count)) 1 = 0 ∧
    bgFreeBlocksCount (tableOf (freeDisk place free count)) 0 = count := by
  have start : offset 2 = 2048 := rfl
  refine ⟨?_,?_,?_,?_,?_⟩
  · rw [bgBlockBitmap,tableOf,get32_image _ _ (by omega),start,freeDisk,get32_put16_away (by omega),get32_put32_away (by omega),
      get32_put32_away (by omega),get32_put32]
  · rw [bgInodeBitmap,tableOf,get32_image _ _ (by omega),start,freeDisk,get32_put16_away (by omega),get32_put32_away (by omega),get32_put32]
  · rw [bgInodeTable,tableOf,get32_image _ _ (by omega),start,freeDisk,get32_put16_away (by omega),get32_put32]
  · rw [bgBlockBitmap,tableOf,get32_image _ _ (by omega),start,freeDisk,get32_put16_away (by omega),get32_put32_away (by omega),
      get32_put32_away (by omega),get32_put32_away (by omega),get32_store_away (by omega),get32_agree (agree_fill (by omega))]
    rfl
  · rw [bgFreeBlocksCount,tableOf,get16_image _ _ (by omega),start,freeDisk,get16_put16]
    exact Nat.mod_eq_of_lt (by omega)

theorem FreeByte.byte (group : FreeByte size place free count) (small : j < 1024) :
    bitmapOf (freeDisk place free count) 0 j = if j = place then free else 0xFF#8 := by
  have start : offset 3 = 3072 := rfl
  obtain ⟨bitmap,_⟩ := free_table group.few place free
  rw [bitmapOf,bitmap,blockImage_byte _ _ small,start,freeDisk,put16_other (by omega),put32_other (by omega),
    put32_other (by omega),put32_other (by omega)]
  by_cases here : j = place
  · rw [if_pos here,here,store_same]
  · rw [if_neg here,store_other _ (by omega),fill_inside (by omega) (by omega)]

theorem FreeByte.bit (group : FreeByte size place free count) (small : n < 8192) :
    Bitmap.bit (bitmapOf (freeDisk place free count) 0) n = false ↔ place*8 ≤ n ∧ n < place*8+count := by
  have few := group.few
  rw [Bitmap.bit,group.byte (by omega)]
  by_cases here : n/8 = place
  · rw [if_pos here,group.low ⟨n%8,Nat.mod_lt _ (by decide)⟩]
    dsimp only
    omega
  · rw [if_neg here,full_bit _ (Nat.mod_lt _ (by decide))]
    simp only [Bool.true_eq_false,false_iff]
    omega

theorem FreeByte.books (group : FreeByte size place free count) : Counted (freeMount size place free count) 1 oneFreeMetadata := by
  have one : ∀ i < 1, i = 0 := by omega
  have few := group.few
  obtain ⟨low,high⟩ := group.sized
  obtain ⟨behind,placed⟩ := group.placed
  obtain ⟨perGroup,inodesPerGroup,total⟩ := free_superblock high few place free
  obtain ⟨bitmap,inodeBitmap,inodeTable,ended,counted⟩ := free_table few place free
  refine ⟨rfl,by decide,by rw [perGroup]; omega,ended,?_,?_,?_,?_,?_,?_,?_,?_,?_⟩
  · intro i below
    cases one i below
    show bgBlockBitmap (tableOf (freeDisk place free count)) 0 ∈ oneFreeMetadata 0 ∧
      bgInodeBitmap (tableOf (freeDisk place free count)) 0 ∈ oneFreeMetadata 0
    rw [bitmap,inodeBitmap]
    exact ⟨⟨by decide,by decide⟩,⟨by decide,by decide⟩⟩
  · intro i below k small
    cases one i below
    rw [inodesPerGroup] at small
    show bgInodeTable (tableOf (freeDisk place free count)) 0+k ∈ oneFreeMetadata 0
    rw [inodeTable]
    exact ⟨by omega,by omega⟩
  · intro _
    exact ⟨⟨by decide,by decide⟩,⟨by decide,by decide⟩⟩
  · intro i below j below' differ
    omega
  · intro i below
    cases one i below
    show bgBlockBitmap (tableOf (freeDisk place free count)) 0 ≠ 2
    rw [bitmap]
    decide
  · intro i below b member
    rw [perGroup]
    exact ⟨member.1,by have := member.2; omega⟩
  · intro i below b member
    obtain ⟨first,last⟩ : 1 ≤ b ∧ b ≤ 218 := member
    rw [perGroup,Nat.div_eq_of_lt (by omega),Nat.mod_eq_of_lt (by omega)]
    by_contra clear
    have free := (group.bit (show b-1 < 8192 by omega)).mp (Bool.eq_false_of_not_eq_true clear)
    omega
  · intro i below
    cases one i below
    have only : clearSet (bitmapOf (freeDisk place free count) 0) 8192 = Finset.Ico (place*8) (place*8+count) := by
      ext n
      rw [mem_clearSet,Finset.mem_Ico]
      constructor
      · rintro ⟨bound,clear⟩
        exact (group.bit bound).mp clear
      · intro inside
        exact ⟨by omega,(group.bit (by omega)).mpr inside⟩
    show bgFreeBlocksCount (tableOf (freeDisk place free count)) 0 = (clearSet (bitmapOf (freeDisk place free count) 0) 8192).card
    rw [only,counted,Nat.card_Ico]
    omega
  · rw [total,Finset.sum_range_one]
    exact counted.symm

-- A group of 8192 blocks has no bit behind its last block.
theorem FreeByte.balanced (group : FreeByte 8192 place free count) : Balanced (freeMount 8192 place free count) 1 oneFreeMetadata := by
  refine ⟨group.books,?_⟩
  intro i below n beyond bound
  rw [(free_superblock group.sized.2 group.few place free).1] at beyond
  omega

def oneFreeDisk : Bytes := freeDisk 100 0xFE#8 1
def oneFreeMount : Mount := freeMount 8192 100 0xFE#8 1

theorem oneFree_group : FreeByte 8192 100 0xFE#8 1 := ⟨by decide,by decide,by decide,by decide⟩

theorem oneFree_byte (small : j < 1024) : bitmapOf oneFreeDisk 0 j = if j = 100 then 0xFE#8 else 0xFF#8 := oneFree_group.byte small

theorem oneFree_balanced : Balanced oneFreeMount 1 oneFreeMetadata := oneFree_group.balanced

theorem twoFree_group : FreeByte 8192 100 0xFC#8 2 := ⟨by decide,by decide,by decide,by decide⟩

def oneBlock : Request := ⟨fun _ => 0,1⟩

theorem serve_given {v : Volume} (ran : allocateBlocks v.mount r.blocks r.count = (.noError,blocks,next)) :
    serve v r = some ⟨next,(List.range r.count).map blocks++v.handed⟩ := by
  unfold serve
  rw [ran]

theorem serve_one (ran : allocateBlocks m oneBlock.blocks oneBlock.count = (.noError,blocks,next)) (handed : List Nat) :
    serve ⟨m,handed⟩ oneBlock = some ⟨next,blocks 0::handed⟩ := serve_given ran

def pairOf (m : Mount) : Option (Nat × Nat) :=
  match allocateBlocks m oneBlock.blocks oneBlock.count with
  | (.noError,blocks,next) =>
    match allocateBlocks next oneBlock.blocks oneBlock.count with
    | (.noError,others,_) => some (blocks 0,others 0)
    | _ => none
  | _ => none

theorem two_calls {start : Volume → Prop} (fresh : start ⟨m,[]⟩) (pair : pairOf m = some (first,second)) :
    ∃ last, Reached start serve (fun _ r => r.Proper) ⟨last,[second,first]⟩ := by
  have proper : oneBlock.Proper := ⟨by decide,by decide⟩
  unfold pairOf at pair
  split at pair
  · rename_i blocks next ran
    split at pair
    · rename_i others last ran'
      cases Option.some.inj pair
      have path : Reached start serve (fun _ r => r.Proper) ⟨next,[blocks 0]⟩ := (Reached.start fresh).extend oneBlock proper (serve_one ran [])
      exact ⟨last,path.extend oneBlock proper (serve_one ran' [blocks 0])⟩
    · cases pair
  · cases pair

theorem twoFree_pair : pairOf (freeMount 8192 100 0xFC#8 2) = some (801,802) := by decide +kernel

theorem blocks_handed_out_once_twoFree : ∃ v : Volume,
    Reached (Opened 1 oneFreeMetadata) serve (fun _ r => r.Proper) v ∧ v.handed = [802,801] ∧ Balanced v.mount 1 oneFreeMetadata := by
  have fresh : Opened 1 oneFreeMetadata ⟨freeMount 8192 100 0xFC#8 2,[]⟩ := ⟨rfl,twoFree_group.balanced⟩
  obtain ⟨last,path⟩ := two_calls fresh twoFree_pair
  exact ⟨_,path,rfl,(blocks_handed_out_once path).2.2.1⟩

-- A group of 1024 blocks, in whose bitmap the bits 1024 and 1025 are clear: the bit
-- that is set for block 1025 is the first of the group.
def unpaddedMount : Mount := freeMount 1024 128 0xFC#8 2

theorem unpadded_group : FreeByte 1024 128 0xFC#8 2 := ⟨by decide,by decide,by decide,by decide⟩

theorem unpadded_pair : pairOf unpaddedMount = some (1025,1025) := by decide +kernel

def Unpadded (v : Volume) : Prop := v.handed = [] ∧ Counted v.mount 1 oneFreeMetadata

theorem unpadded_block_twice : Counted unpaddedMount 1 oneFreeMetadata ∧ ∃ v : Volume,
    Reached Unpadded serve (fun _ r => r.Proper) v ∧ v.handed = [1025,1025] ∧ ¬ v.handed.Nodup := by
  have fresh : Unpadded ⟨unpaddedMount,[]⟩ := ⟨rfl,unpadded_group.books⟩
  obtain ⟨last,path⟩ := two_calls fresh unpadded_pair
  exact ⟨unpadded_group.books,_,path,rfl,by simp⟩

end KaracaOS.Ext2Blocks
