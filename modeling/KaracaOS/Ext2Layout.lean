import KaracaOS.Ext2Format

namespace KaracaOS.Ext2Layout
open ByteMemory BlockDevice Ext2Fields Ext2Inodes Ext2Format StepRuns

-- What a call of ext2_write_blocks in the write loop is for.
inductive Part where
  | superblock
  | descriptors
  | blockBitmap
  | inodeBitmap
  | inodeTable (k : Nat)
  deriving DecidableEq

structure Call where
  group : Nat
  part : Part
  block : Nat
  buffer : Bytes

-- The variables of the write loop, and the calls made so far in place of the device.
structure Cursor where
  calls : List Call
  blockBitmap : Bytes
  inodeBitmap : Bytes
  currBlock : Nat

def Cursor.write (s : Cursor) (group : Nat) (item : Part × Bytes) : Cursor :=
  {s with calls := s.calls++[⟨group,item.1,s.currBlock,item.2⟩],currBlock := (s.currBlock+1)%word}

-- The padding of the last bitmap with the memory behind the array: a byte that is
-- not in initial_block_bitmap is one of no variable of the loop.
def padMemory (bitmap : Bytes) (freeBlocks : Nat) : Bytes :=
  fill (store bitmap (freeBlocks/8) (~~~pushOnes (freeBlocks%8) (bitmap (freeBlocks/8)))) (freeBlocks/8+1) 1024 0xFF#8

def paddedBitmap (table : Bytes) (groups i : Nat) (bitmap : Bytes) : Bytes :=
  if i = groups-1 then padMemory bitmap (bgFreeBlocksCount table i+inodeTableLength+4) else bitmap

def groupItems (superblock table blockBitmap inodeBitmap : Bytes) : List (Part × Bytes) :=
  [(.superblock,superblock),(.descriptors,table),(.blockBitmap,blockBitmap),(.inodeBitmap,inodeBitmap)]++
    (List.range inodeTableLength).map fun k => (.inodeTable k,inodeBitmap)

-- The loop body with its calls written down.
def callGroup (superblock table : Bytes) (groups : Nat) (s : Cursor) (i : Nat) : Cursor :=
  let blockBitmap := paddedBitmap table groups i s.blockBitmap
  let inodeBitmap := setupInitialInodeBitmap s.inodeBitmap 1712
  let after := (groupItems superblock table blockBitmap inodeBitmap).foldl (·.write i) s
  ⟨after.calls,blockBitmap,inodeBitmap,(after.currBlock+bgFreeBlocksCount table i)%word⟩

def startCursor : Cursor := ⟨[],setupInitialBlockBitmap blank inodeTableLength,blank,1⟩

def writeLoop (superblock table : Bytes) (groups : Nat) : Cursor :=
  (List.range groups).foldl (callGroup superblock table groups) startCursor

-- The calls of a run of the formatter on a device of this size.
def formatCalls (nrKbytes : Nat) : List Call :=
  let superblock := freshSuperblock nrKbytes
  let groups := blockGroupCount superblock
  let table := descriptorTable superblock groups
  (writeLoop (countFree superblock table groups) table groups).calls

-- The bytes of initial_block_bitmap that setup_initial_block_bitmap and the padding
-- use, one after the other. The memset and the writes to the disk take all 1024.
def setupIndices (inodeTableLength : Nat) : List Nat := List.range ((inodeTableLength+4)/8)++[(inodeTableLength+4)/8]

def padIndices (freeBlocks : Nat) : List Nat :=
  List.replicate (freeBlocks%8) (freeBlocks/8)++[freeBlocks/8]++List.range' (freeBlocks/8+1) (1024-(freeBlocks/8+1))

def bitmapIndices (nrKbytes : Nat) : List Nat :=
  let superblock := freshSuperblock nrKbytes
  let groups := blockGroupCount superblock
  let table := descriptorTable superblock groups
  List.range 1024++setupIndices inodeTableLength++padIndices (bgFreeBlocksCount table (groups-1)+inodeTableLength+4)

structure StaysInside (nrKbytes : Nat) : Prop where
  descriptors : ∀ g < blockGroupCount (freshSuperblock nrKbytes), 32*g+32 ≤ 1024
  bitmap : ∀ k ∈ bitmapIndices nrKbytes, k < 1024
  blocks : ∀ call ∈ formatCalls nrKbytes, call.block < sBlocksCount (freshSuperblock nrKbytes)

def replay (d : Device) (calls : List Call) : Device := calls.foldl (fun d call => (ext2WriteBlocks d call.block call.buffer 1).2) d

variable {d : Device} {superblock table : Bytes} {groups : Nat} {s next : FormatLoop} {c : Cursor}

-- The loop on the device and the loop that only writes down its calls.
structure Follows (d : Device) (s : FormatLoop) (c : Cursor) : Prop where
  device : s.device = replay d c.calls
  blockBitmap : s.blockBitmap = c.blockBitmap
  inodeBitmap : s.inodeBitmap = c.inodeBitmap
  currBlock : s.currBlock = c.currBlock

theorem Follows.write (follows : Follows d s c) (i : Nat) (item : Part × Bytes) : Follows d (s.write item.2) (c.write i item) := by
  refine ⟨?_,follows.blockBitmap,follows.inodeBitmap,?_⟩
  · have joined : replay d (c.write i item).calls = (ext2WriteBlocks (replay d c.calls) c.currBlock item.2 1).2 := by
      simp [replay,Cursor.write]
    rw [joined,← follows.device,← follows.currBlock]
    rfl
  · rw [FormatLoop.write,Cursor.write,follows.currBlock]

theorem Follows.writes (follows : Follows d s c) (i : Nat) (items : List (Part × Bytes)) :
    Follows d (items.foldl (fun s item => s.write item.2) s) (items.foldl (·.write i) c) := by
  induction items generalizing s c with
  | nil => exact follows
  | cons item items ih => exact ih (follows.write i item)

theorem padLastGroup_memory (padded : padLastGroup bitmap used = some last) : last = padMemory bitmap used := by
  unfold padLastGroup at padded
  split at padded
  · cases padded
  · exact (Option.some.inj padded).symm

theorem iterate_range (s : FormatLoop) (buffer : Bytes) (n : Nat) (part : Nat → Part) :
    ((List.range n).map fun k => (part k,buffer)).foldl (fun s item => s.write item.2) s = (·.write buffer)^[n] s := by
  induction n with
  | zero => rfl
  | succ n ih => rw [List.range_succ,List.map_append,List.foldl_append,ih,Function.iterate_succ_apply']; rfl

theorem items_order (s : FormatLoop) (superblock table blockBitmap inodeBitmap : Bytes) :
    (groupItems superblock table blockBitmap inodeBitmap).foldl (fun s item => s.write item.2) s =
      (FormatLoop.write · inodeBitmap)^[inodeTableLength]
        ((((s.write superblock).write table).write blockBitmap).write inodeBitmap) := by
  rw [groupItems,List.foldl_append,iterate_range]
  simp only [List.foldl_cons,List.foldl_nil]

theorem writeBitmaps_items (s : FormatLoop) (superblock table blockBitmap : Bytes) :
    writeBitmaps ((s.write superblock).write table) blockBitmap =
      (fun after : FormatLoop => ⟨after.device,blockBitmap,setupInitialInodeBitmap s.inodeBitmap 1712,after.currBlock⟩)
        ((groupItems superblock table blockBitmap (setupInitialInodeBitmap s.inodeBitmap 1712)).foldl
          (fun s item => s.write item.2) s) := by
  have apart : ∀ inodeBitmap, Function.Semiconj (fun s : FormatLoop => FormatLoop.mk s.device blockBitmap inodeBitmap s.currBlock)
      (FormatLoop.write · inodeBitmap) (FormatLoop.write · inodeBitmap) := fun _ _ => rfl
  rw [items_order,(apart _).iterate_right inodeTableLength _]
  rfl

theorem Follows.group (follows : Follows d s c) (ran : formatGroup superblock table groups s i = some next) :
    Follows d next (callGroup superblock table groups c i) := by
  obtain ⟨blockBitmap,found,rfl⟩ := Option.map_eq_some_iff.mp ran
  have bitmap : paddedBitmap table groups i c.blockBitmap = blockBitmap := by
    rw [paddedBitmap,← follows.blockBitmap]
    by_cases last : i = groups-1
    · rw [if_pos last] at found ⊢
      exact (padLastGroup_memory found).symm
    · rw [if_neg last] at found ⊢
      exact Option.some.inj found
  have items := follows.writes i (groupItems superblock table blockBitmap (setupInitialInodeBitmap s.inodeBitmap 1712))
  rw [writeBitmaps_items]
  simp only [callGroup,bitmap,← follows.inodeBitmap]
  exact ⟨items.device,rfl,rfl,by simp only [skipData,items.currBlock]⟩

-- What the loop does to a device is what its calls do, one after the other.
theorem layOut_replays (laid : layOut d superblock = some layout) :
    layout.device = replay d (writeLoop layout.superblock layout.table layout.groups).calls := by
  obtain ⟨s,ran,rfl⟩ := Option.map_eq_some_iff.mp laid
  have follows := repeated_invariant (fun i s => Follows d s ((List.range i).foldl (callGroup _ _ _) startCursor))
    (fun i s next follows ran => by
      rw [List.range_succ,List.foldl_append]
      exact follows.group ran)
    (show Follows d ⟨d,setupInitialBlockBitmap blank inodeTableLength,blank,1⟩ startCursor from ⟨rfl,rfl,rfl,rfl⟩) ran
  rw [Nat.zero_add] at follows
  exact follows.device

def Call.place (call : Call) : Nat × Part × Nat := (call.group,call.part,call.block)

-- Where the parts of a group belong.
def groupPlan (table : Bytes) (g : Nat) : List (Nat × Part × Nat) :=
  [(g,.superblock,g*8192+1),(g,.descriptors,g*8192+2),(g,.blockBitmap,bgBlockBitmap table g),(g,.inodeBitmap,bgInodeBitmap table g)]++
    (List.range inodeTableLength).map fun k => (g,.inodeTable k,bgInodeTable table g+k)

theorem writes_calls (i : Nat) (items : List (Part × Bytes)) (small : c.currBlock+items.length < word) :
    (items.foldl (·.write i) c).calls.map Call.place =
      c.calls.map Call.place++items.mapIdx (fun j item => (i,item.1,c.currBlock+j)) ∧
    (items.foldl (·.write i) c).currBlock = c.currBlock+items.length := by
  induction items generalizing c with
  | nil => simp
  | cons item items ih =>
    rw [List.length_cons] at small
    have moved : (c.write i item).currBlock = c.currBlock+1 := Nat.mod_eq_of_lt (by omega)
    obtain ⟨calls,place⟩ := @ih (c.write i item) (by omega)
    rw [List.foldl_cons,calls,place,moved,List.mapIdx_cons]
    refine ⟨?_,by rw [List.length_cons]; omega⟩
    simp only [Cursor.write,List.map_append,List.map_cons,List.map_nil,Call.place,List.append_assoc,List.singleton_append,
      Nat.add_zero,Nat.add_assoc,Nat.add_comm 1]

theorem groupItems_length (superblock table blockBitmap inodeBitmap : Bytes) :
    (groupItems superblock table blockBitmap inodeBitmap).length = 218 := by
  simp [groupItems,show inodeTableLength = 214 by decide]

theorem groupItems_plan (described : Described table total g) (superblock blockBitmap inodeBitmap : Bytes) :
    (groupItems superblock table blockBitmap inodeBitmap).mapIdx (fun j item => (g,item.1,g*8192+1+j)) = groupPlan table g := by
  rw [groupPlan,described.blockBitmap,described.inodeBitmap,described.inodeTable,groupItems,List.mapIdx_append]
  refine congrArg₂ (·++·) (by simp) (List.ext_getElem (by simp) ?_)
  intro k low high
  simp
  omega

theorem loop_plan (described : ∀ g < groups, Described table total g) (few : groups ≤ 64) (last : groups ≤ total/8192+1)
    (superblock : Bytes) (n : Nat) (inside : n ≤ groups) :
    ((List.range n).foldl (callGroup superblock table groups) startCursor).calls.map Call.place =
      (List.range n).flatMap (groupPlan table) ∧
    (n ≤ total/8192 → ((List.range n).foldl (callGroup superblock table groups) startCursor).currBlock = n*8192+1) := by
  induction n with
  | zero => exact ⟨rfl,fun _ => rfl⟩
  | succ n ih =>
    obtain ⟨calls,place⟩ := ih (by omega)
    have here := place (by omega)
    have described := described n (by omega)
    rw [List.range_succ,List.foldl_append,List.flatMap_append]
    generalize (List.range n).foldl (callGroup superblock table groups) startCursor = c at calls here
    have length := groupItems_length superblock table (paddedBitmap table groups n c.blockBitmap)
      (setupInitialInodeBitmap c.inodeBitmap 1712)
    obtain ⟨written,moved⟩ := writes_calls n (groupItems superblock table (paddedBitmap table groups n c.blockBitmap)
      (setupInitialInodeBitmap c.inodeBitmap 1712)) (show c.currBlock+_ < word by rw [length,here]; unfold word; omega)
    rw [here,groupItems_plan described,calls] at written
    rw [here,length] at moved
    refine ⟨?_,?_⟩
    · rw [List.flatMap_singleton]
      exact written
    · intro more
      have full : ¬ total < (n+1)*8192 := by omega
      simp only [List.foldl_cons,List.foldl_nil,callGroup,moved,described.freeBlocks,freeCount,if_neg full]
      unfold word
      omega

theorem groupPlan_blocks (described : Described table total g) :
    (groupPlan table g).map (fun place => place.2.2) = (List.range 218).map (g*8192+1+·) := by
  have length : inodeTableLength = 214 := by decide
  rw [groupPlan,described.blockBitmap,described.inodeBitmap,described.inodeTable,length,show 218 = 4+214 from rfl,List.range_add,
    List.map_append,List.map_append,List.map_map,List.map_map]
  refine congrArg₂ (·++·) rfl (List.map_congr_left ?_)
  intro k _
  simp only [Function.comp]
  omega

theorem formatCalls_plan (ordinary : blockGroupCount (freshSuperblock nrKbytes) = nrKbytes%word/8192+1)
    (few : blockGroupCount (freshSuperblock nrKbytes) ≤ 64) :
    (formatCalls nrKbytes).map Call.place = (List.range (blockGroupCount (freshSuperblock nrKbytes))).flatMap
      (groupPlan (descriptorTable (freshSuperblock nrKbytes) (blockGroupCount (freshSuperblock nrKbytes)))) :=
  (loop_plan (descriptorTable_described nrKbytes few) few (Nat.le_of_eq ordinary) _ _ (Nat.le_refl _)).1

theorem formatCalls_blocks (ordinary : blockGroupCount (freshSuperblock nrKbytes) = nrKbytes%word/8192+1)
    (few : blockGroupCount (freshSuperblock nrKbytes) ≤ 64) :
    (formatCalls nrKbytes).map Call.block =
      (List.range (nrKbytes%word/8192+1)).flatMap fun g => (List.range 218).map (g*8192+1+·) := by
  have places : (formatCalls nrKbytes).map Call.block = ((formatCalls nrKbytes).map Call.place).map (fun place => place.2.2) := by
    rw [List.map_map]
    rfl
  rw [places,formatCalls_plan ordinary few,List.map_flatMap,← ordinary]
  refine List.flatMap_congr ?_
  intro g member
  exact groupPlan_blocks (descriptorTable_described nrKbytes few g (List.mem_range.mp member))

theorem blocks_nodup (n : Nat) : ((List.range n).flatMap fun g => (List.range 218).map (g*8192+1+·)).Nodup := by
  refine List.nodup_flatMap.mpr ⟨?_,?_⟩
  · intro g _
    exact List.nodup_range.map (fun a b same => Nat.add_left_cancel same)
  · refine List.pairwise_lt_range.imp ?_
    intro g h less b one two
    obtain ⟨i,member,rfl⟩ := List.mem_map.mp one
    obtain ⟨j,_,same⟩ := List.mem_map.mp two
    have small := List.mem_range.mp member
    omega

theorem cursor_meets_descriptors (nrKbytes : Nat) (few : blockGroupCount (freshSuperblock nrKbytes) ≤ 32) :
    (formatCalls nrKbytes).map Call.place = (List.range (blockGroupCount (freshSuperblock nrKbytes))).flatMap
      (groupPlan (descriptorTable (freshSuperblock nrKbytes) (blockGroupCount (freshSuperblock nrKbytes)))) ∧
    ((formatCalls nrKbytes).map Call.block).Nodup ∧
    ∀ d layout, layOut d (freshSuperblock nrKbytes) = some layout → layout.device = replay d (formatCalls nrKbytes) := by
  have ordinary : blockGroupCount (freshSuperblock nrKbytes) = nrKbytes%word/8192+1 := by
    rcases groupCount_cases nrKbytes with ⟨_,count⟩ | ⟨_,count⟩
    · exact count
    · omega
  refine ⟨formatCalls_plan ordinary (by omega),?_,?_⟩
  · rw [formatCalls_blocks ordinary (by omega)]
    exact blocks_nodup _
  · intro d layout laid
    have device := layOut_replays laid
    obtain ⟨s,_,rfl⟩ := Option.map_eq_some_iff.mp laid
    exact device

theorem two_groups_placed : blockGroupCount (freshSuperblock 10000) = 2 ∧ ((formatCalls 10000).map Call.block).Nodup ∧
    (1,Part.blockBitmap,8195) ∈ (formatCalls 10000).map Call.place := by
  have two : blockGroupCount (freshSuperblock 10000) = 2 := by
    rcases groupCount_cases 10000 with ⟨_,count⟩ | ⟨high,_⟩
    · exact count
    · exact absurd high (by decide)
  obtain ⟨plan,nodup,_⟩ := cursor_meets_descriptors 10000 (by rw [two]; decide)
  refine ⟨two,nodup,?_⟩
  rw [plan,two]
  have described := descriptorTable_described 10000 (show 2 ≤ 64 by decide) 1 (by decide)
  refine List.mem_flatMap.mpr ⟨1,by decide,?_⟩
  rw [groupPlan,described.blockBitmap]
  simp

theorem padIndices_inside : (∀ k ∈ padIndices used, k < 1024) ↔ used < 8192 := by
  simp only [padIndices,List.mem_append,List.mem_replicate,List.mem_singleton,List.mem_range'_1]
  constructor
  · intro inside
    have breaking := inside (used/8) (.inl (.inr rfl))
    omega
  · rintro small k ((⟨_,rfl⟩ | rfl) | ⟨low,high⟩) <;> omega

theorem padLastGroup_inside (bitmap : Bytes) (inside : ∀ k ∈ padIndices used, k < 1024) : padLastGroup bitmap used = some (padMemory bitmap used) := by
  have small := padIndices_inside.mp inside
  exact if_neg (by omega)

theorem bitmapIndices_inside (nrKbytes : Nat) (ordinary : blockGroupCount (freshSuperblock nrKbytes) = nrKbytes%word/8192+1)
    (few : blockGroupCount (freshSuperblock nrKbytes) ≤ 64) : (∀ k ∈ bitmapIndices nrKbytes, k < 1024) ↔ 219 ≤ nrKbytes%word%8192 := by
  have length : inodeTableLength = 214 := by decide
  have free := (descriptorTable_described nrKbytes few (nrKbytes%word/8192) (by omega)).freeBlocks
  rw [freeCount_last] at free
  have always : ∀ k ∈ List.range 1024++setupIndices inodeTableLength, k < 1024 := by
    intro k member
    simp only [setupIndices,length,List.mem_append,List.mem_range,List.mem_singleton] at member
    omega
  have padded := @padIndices_inside (bgFreeBlocksCount (descriptorTable (freshSuperblock nrKbytes)
    (blockGroupCount (freshSuperblock nrKbytes))) (blockGroupCount (freshSuperblock nrKbytes)-1)+inodeTableLength+4)
  rw [show blockGroupCount (freshSuperblock nrKbytes)-1 = nrKbytes%word/8192 by omega,free,length] at padded
  rw [bitmapIndices,List.forall_mem_append,show blockGroupCount (freshSuperblock nrKbytes)-1 = nrKbytes%word/8192 by omega,free,length,padded]
  rw [length] at always
  constructor
  · rintro ⟨_,small⟩
    omega
  · intro enough
    exact ⟨always,by omega⟩

theorem stays_inside_iff (nrKbytes : Nat) :
    StaysInside nrKbytes ↔ nrKbytes%word/8192 ≤ 31 ∧ 219 ≤ nrKbytes%word%8192 := by
  rcases groupCount_cases nrKbytes with ⟨low,ordinary⟩ | ⟨high,capped⟩
  · have bitmap := bitmapIndices_inside nrKbytes ordinary (by omega)
    constructor
    · intro inside
      exact ⟨low,bitmap.mp inside.bitmap⟩
    · rintro ⟨_,enough⟩
      refine ⟨by omega,bitmap.mpr enough,?_⟩
      intro call member
      have block : call.block ∈ (formatCalls nrKbytes).map Call.block := List.mem_map_of_mem member
      rw [formatCalls_blocks ordinary (by omega)] at block
      obtain ⟨g,group,here⟩ := List.mem_flatMap.mp block
      obtain ⟨j,inside,same⟩ := List.mem_map.mp here
      have group := List.mem_range.mp group
      have inside := List.mem_range.mp inside
      rw [(freshSuperblock_fields nrKbytes).1]
      omega
  · constructor
    · intro inside
      have last := inside.descriptors 50 (by omega)
      omega
    · rintro ⟨low,_⟩
      omega

-- 300000 KiB make 37 groups, and the descriptors go on to number 50.
theorem descriptors_leave_table : ¬ StaysInside 300000 := by
  intro inside
  rcases groupCount_cases 300000 with ⟨low,_⟩ | ⟨_,capped⟩
  · exact absurd low (by decide)
  · have last := inside.descriptors 50 (by omega)
    omega

theorem StaysInside.returns (inside : StaysInside d.sizeInKb) (sectors : d.sectorSize = 512) :
    ∃ layout, layOut d (freshSuperblock d.sizeInKb) = some layout := by
  have few := groupCount_few d.sizeInKb
  have padded : groupBitmap (descriptorTable (freshSuperblock d.sizeInKb) (blockGroupCount (freshSuperblock d.sizeInKb)))
      (blockGroupCount (freshSuperblock d.sizeInKb)) (blockGroupCount (freshSuperblock d.sizeInKb)-1) = some (padMemory initialBlockBitmap _) :=
    (if_pos rfl).trans (padLastGroup_inside _ (fun k member => inside.bitmap k (List.mem_append_right _ member)))
  exact layOut_returns sectors (by omega) padded

end KaracaOS.Ext2Layout
