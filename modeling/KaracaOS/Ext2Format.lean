import KaracaOS.Ext2Mounts
import KaracaOS.Ext2Directory

namespace KaracaOS.Ext2Format
open ByteMemory Bitmap BlockDevice Ext2Fields Ext2Blocks Ext2Inodes Ext2Mounts Ext2Records Ext2Directory StepRuns

def chars (text : String) : Bytes := fun i => BitVec.ofNat 8 (text.toList.getD i '\x00').toNat

-- The fields that are set to 0 stay as the memset leaves them. The size comes
-- from a uint32_t.
def fillSuperblock (blockSize sectorSize nrKbytes inodesPerGroup : Nat) : SysRet × Bytes :=
  if 1024 < sectorSize then (.outOfRange,blank)
  else
    let nrInodes := (nrKbytes%word/(blockSize*8)+1)*inodesPerGroup
    let sb := put32 blank 0 nrInodes
    let sb := put32 sb 4 nrKbytes
    let sb := put32 sb 8 100
    let sb := put32 sb 12 nrKbytes
    let sb := put32 sb 16 nrInodes
    let sb := put32 sb 20 (if 1024 < blockSize then 0 else 1)
    let sb := put32 sb 32 (blockSize*8)
    let sb := put32 sb 36 (blockSize*8)
    let sb := put32 sb 40 inodesPerGroup
    let sb := put16 sb 54 32767
    let sb := put16 sb 56 0xEF53
    let sb := put16 sb 58 ext2ValidFs
    let sb := put16 sb 60 2
    let sb := put32 sb 72 10
    let sb := put32 sb 76 1
    let sb := put32 sb 84 11
    let sb := put16 sb 88 128
    let sb := blit sb 104 (chars "wowdiskuuid10000") 0 16
    let sb := blit sb 120 (chars "KaracaOS") 0 9
    (.noError,store sb 136 (BitVec.ofNat 8 '/'.toNat))

-- One block holds 32 descriptors; for more groups than that the code goes on
-- with 51.
def blockGroupCount (superblock : Bytes) : Nat :=
  let count := sBlocksCount superblock/(1024*8)+1
  if 1024 < count*32 then 51 else count

-- The memory from kaos_kernmalloc is zero and goes on behind the 1024 bytes asked
-- for; only those reach the disk.
def descriptorTable (superblock : Bytes) (groups : Nat) : Bytes :=
  (List.range groups).foldl (fun table i => fillBlockGroupDescriptor table superblock i) blank

def countFree (superblock table : Bytes) (groups : Nat) : Bytes :=
  setFreeInodesCount (setFreeBlocksCount superblock ((List.range groups).map (bgFreeBlocksCount table)).sum)
    ((List.range groups).map (bgFreeInodesCount table)).sum

-- byte <<= 1; byte += 1, n times.
def pushOnes (n : Nat) (byte : Byte) : Byte := (fun (byte : Byte) => (byte <<< 1)+1)^[n] byte

def setupInitialBlockBitmap (bitmap : Bytes) (inodeTableLength : Nat) : Bytes :=
  store (fill bitmap 0 ((inodeTableLength+4)/8) 0xFF#8) ((inodeTableLength+4)/8) (pushOnes ((inodeTableLength+4)%8) 0)

def setupInitialInodeBitmap (bitmap : Bytes) (inodesPerGroup : Nat) : Bytes :=
  fill (fill (store bitmap (inodesPerGroup/8) ((fun (byte : Byte) => byte <<< 1)^[inodesPerGroup%8] 0xFF#8)) 0 (inodesPerGroup/8) 0#8)
    (inodesPerGroup/8+1) 1024 0xFF#8

-- The blocks behind the end of the last group. none: the byte is not in the array.
def padLastGroup (bitmap : Bytes) (freeBlocks : Nat) : Option Bytes :=
  if 1024 ≤ freeBlocks/8 then none
  else some (fill (store bitmap (freeBlocks/8) (~~~pushOnes (freeBlocks%8) (bitmap (freeBlocks/8)))) (freeBlocks/8+1) 1024 0xFF#8)

structure FormatLoop where
  device : Device
  blockBitmap : Bytes
  inodeBitmap : Bytes
  currBlock : Nat

-- ext2_write_blocks(blockDevice, curr_block++, buffer, 1)
def FormatLoop.write (s : FormatLoop) (buffer : Bytes) : FormatLoop :=
  ⟨(ext2WriteBlocks s.device s.currBlock buffer 1).2,s.blockBitmap,s.inodeBitmap,(s.currBlock+1)%word⟩

def inodeTableLength : Nat := 1712/(1024/128)

-- The second half of the loop body, with the block bitmap of the group.
def writeBitmaps (s : FormatLoop) (blockBitmap : Bytes) : FormatLoop :=
  let inodeBitmap := setupInitialInodeBitmap s.inodeBitmap 1712
  (·.write inodeBitmap)^[inodeTableLength]
    ((FormatLoop.mk (s.write blockBitmap).device blockBitmap inodeBitmap (s.write blockBitmap).currBlock).write inodeBitmap)

def skipData (s : FormatLoop) (count : Nat) : FormatLoop := {s with currBlock := (s.currBlock+count)%word}

def formatGroup (superblock table : Bytes) (groups : Nat) (s : FormatLoop) (i : Nat) : Option FormatLoop :=
  let free := bgFreeBlocksCount table i
  let blockBitmap := if i = groups-1 then padLastGroup s.blockBitmap (free+inodeTableLength+4) else some s.blockBitmap
  blockBitmap.map fun blockBitmap => skipData (writeBitmaps ((s.write superblock).write table) blockBitmap) free

-- The file system as the loop leaves it, with the superblock and the descriptors
-- that are still in memory.
structure Layout where
  superblock : Bytes
  table : Bytes
  groups : Nat
  device : Device

def layOut (d : Device) (superblock : Bytes) : Option Layout :=
  let groups := blockGroupCount superblock
  let table := descriptorTable superblock groups
  let superblock := countFree superblock table groups
  let start : FormatLoop := ⟨d,setupInitialBlockBitmap blank inodeTableLength,blank,1⟩
  (repeated (formatGroup superblock table groups) groups 0 start).map fun s => ⟨superblock,table,groups,s.device⟩

def createDirInode : Inode := inodeAt (put32 (put32 (put16 blank 0 (0x4000 ||| 0x1FF)) 4 1024) 28 2) 0
def setBlock (inode : Inode) (k block : Nat) : Inode := inodeAt (put32 (setInode blank 0 inode) (40+4*k) block) 0

def lostFound : Link := ⟨11,0#8,(List.range 10).map (chars "lost+found"),by decide⟩
def lostDot : Link := ⟨11,0#8,[0x2e#8],dot.short⟩

structure Stack where
  context : Bytes
  rootDirBlock : Nat → Nat
  lostfoundDirBlock : Nat → Nat

-- From the mount to the unmount; the results of the calls in between are dropped.
def takeInodes (m : Mount) : Option Mount := do
  let first ← allocateInode m 1 false true
  let root ← allocateInode first.2 2 true true
  let lostfound ← allocateInode root.2 11 true true
  pure lostfound.2

-- create_dir_inode, allocate_blocks and ext2_write_inode for one directory.
def makeDir (m : Mount) (dirBlock : Nat → Nat) (inodeNr : Nat) : Option Mount :=
  let taken := allocateBlocks m dirBlock 1
  (ext2WriteInode taken.2.2 (setBlock createDirInode 0 (taken.2.1 0)) inodeNr).map Prod.snd

def makeRoot (m : Mount) (stack : Stack) : Option Device := do
  let m ← takeInodes m
  let m ← makeDir m stack.rootDirBlock 2
  let m ← makeDir m stack.lostfoundDirBlock 11
  let m ← addLinks m 2 [dot,dotDot,lostFound]
  let m ← addLinks m 11 [lostDot,dotDot]
  pure (ext2UnmountDevice m).2.device

-- none: the call leaves one of its arrays, divides by zero or never returns.
def ext2FormatDevice (d : Device) (stack : Stack) : Option (SysRet × Device) :=
  if d.sectorSize = 0 then none
  else
    match fillSuperblock 1024 d.sectorSize d.sizeInKb 1712 with
    | (.noError,superblock) =>
      (layOut d superblock).bind fun layout =>
        match ext2MountDevice layout.device stack.context with
        | (.noError,m) => (makeRoot m stack).map fun device => (.noError,device)
        | (ret,m) => some (ret,m.device)
    | (ret,_) => some (ret,d)

variable {d : Device} {superblock table bitmap : Bytes} {groups : Nat} {s next : FormatLoop}

def freshSuperblock (nrKbytes : Nat) : Bytes := (fillSuperblock 1024 512 nrKbytes 1712).2

theorem freshSuperblock_fields (nrKbytes : Nat) : sBlocksCount (freshSuperblock nrKbytes) = nrKbytes%word ∧
    sBlocksPerGroup (freshSuperblock nrKbytes) = 8192 ∧ sInodesPerGroup (freshSuperblock nrKbytes) = 1712 ∧
    sLogBlockSize (freshSuperblock nrKbytes) = 0 ∧ sInodeSize (freshSuperblock nrKbytes) = 128 := by
  unfold freshSuperblock fillSuperblock
  simp only [show ¬ 1024 < 512 by decide,if_false]
  refine ⟨?_,?_,?_,?_,?_⟩
  · unfold sBlocksCount
    simp (disch := decide) only [get32_store_away,get32_blit_away,get32_put16_away,get32_put32_away,get32_put32]
    rfl
  · unfold sBlocksPerGroup
    simp (disch := decide) only [get32_store_away,get32_blit_away,get32_put16_away,get32_put32_away,get32_put32]
  · unfold sInodesPerGroup
    simp (disch := decide) only [get32_store_away,get32_blit_away,get32_put16_away,get32_put32_away,get32_put32]
  · unfold sLogBlockSize
    simp (disch := decide) only [get32_store_away,get32_blit_away,get32_put16_away,get32_put32_away]
    rfl
  · unfold sInodeSize
    rw [get16_agree (fun i low high => store_other _ (by omega)),get16_agree (agree_blit (by decide)),get16_agree (agree_blit (by decide)),
      get16_put16]

def freeCount (total g : Nat) : Nat := if total < (g+1)*8192 then (total+2*word-g*8192-219)%65536 else 7974

structure Described (table : Bytes) (total g : Nat) : Prop where
  blockBitmap : bgBlockBitmap table g = g*8192+3
  inodeBitmap : bgInodeBitmap table g = g*8192+4
  inodeTable : bgInodeTable table g = g*8192+5
  freeBlocks : bgFreeBlocksCount table g = freeCount total g

theorem fill_away (table sb : Bytes) (g : Nat) (away : first+count ≤ 32*g ∨ 32*g+32 ≤ first) :
    Agree (fillBlockGroupDescriptor table sb g) table first count := by
  unfold fillBlockGroupDescriptor
  exact (agree_fill (by omega)).trans ((agree_put16 (by omega)).trans ((agree_put16 (by omega)).trans
    ((agree_put32 (by omega)).trans ((agree_put32 (by omega)).trans (agree_put32 (by omega))))))

theorem Described.agree (described : Described table total g) (same : Agree bitmap table (32*g) 32) : Described bitmap total g := by
  refine ⟨?_,?_,?_,?_⟩
  · exact (get32_agree (same.narrow (by omega) (by omega))).trans described.blockBitmap
  · exact (get32_agree (same.narrow (by omega) (by omega))).trans described.inodeBitmap
  · exact (get32_agree (same.narrow (by omega) (by omega))).trans described.inodeTable
  · exact (get16_agree (same.narrow (by omega) (by omega))).trans described.freeBlocks

theorem fill_here (table : Bytes) (nrKbytes : Nat) (small : g < 64) :
    Described (fillBlockGroupDescriptor table (freshSuperblock nrKbytes) g) (nrKbytes%word) g := by
  obtain ⟨total,perGroup,_,log,size⟩ := freshSuperblock_fields nrKbytes
  have inodes := descriptor_inodes table (freshSuperblock nrKbytes) g (by rw [perGroup]; omega)
  rw [perGroup] at inodes
  refine ⟨?_,inodes.1,inodes.2,?_⟩
  · unfold bgBlockBitmap fillBlockGroupDescriptor
    rw [get32_agree (agree_fill (by omega)),get32_put16_away (by omega),get32_put16_away (by omega),get32_put32_away (by omega),
      get32_put32_away (by omega),get32_put32,perGroup]
    omega
  · unfold bgFreeBlocksCount fillBlockGroupDescriptor freeCount
    rw [get16_agree (agree_fill (by omega)),get16_agree (agree_put16 (by omega)),get16_put16,total,perGroup,log,size]
    have bound : nrKbytes%word < word := Nat.mod_lt _ (by decide)
    have group : (g+1)*8192%word = (g+1)*8192 := Nat.mod_eq_of_lt (by unfold word; omega)
    have before : g*8192%word = g*8192 := Nat.mod_eq_of_lt (by unfold word; omega)
    rw [group,before,show 1712/(1024*2^0%word/128) = 214 by decide]
    split
    · rw [Nat.sub_sub,Nat.sub_sub]
    · rfl

theorem descriptorTable_described (nrKbytes : Nat) (few : groups ≤ 64) :
    ∀ g < groups, Described (descriptorTable (freshSuperblock nrKbytes) groups) (nrKbytes%word) g := by
  induction groups with
  | zero =>
    intro g inside
    cases inside
  | succ n ih =>
    have step : descriptorTable (freshSuperblock nrKbytes) (n+1) =
        fillBlockGroupDescriptor (descriptorTable (freshSuperblock nrKbytes) n) (freshSuperblock nrKbytes) n := by
      rw [descriptorTable,List.range_succ,List.foldl_append]
      rfl
    intro g inside
    rw [step]
    by_cases last : g = n
    · rw [last]
      exact fill_here _ nrKbytes (by omega)
    · exact (ih (by omega) g (by omega)).agree (fill_away _ _ n (by omega))

-- Consecutive blocks written from curr_block on, nothing else changed.
structure Laid (s next : FormatLoop) (contents : List Bytes) : Prop where
  sectors : next.device.sectorSize = 512
  place : next.currBlock = s.currBlock+contents.length
  holds : ∀ j < contents.length, Agree (blockImage next.device.disk (s.currBlock+j)) (contents.getD j blank) 0 1024
  others : ∀ b < 2147483648, b < s.currBlock ∨ s.currBlock+contents.length ≤ b →
    blockImage next.device.disk b = blockImage s.device.disk b
  buffer : next.device.rwBuffer = s.device.rwBuffer

theorem Laid.none (sectors : s.device.sectorSize = 512) : Laid s s [] :=
  ⟨sectors,rfl,fun _ inside => absurd inside (Nat.not_lt_zero _),fun _ _ _ => rfl,rfl⟩

theorem write_laid (sectors : s.device.sectorSize = 512) (small : s.currBlock+1 ≤ 2147483648) (buffer : Bytes) :
    Laid s (s.write buffer) [buffer] := by
  have device : (s.write buffer).device = s.device.put s.currBlock buffer := by
    rw [FormatLoop.write,write_block sectors]
  have next : (s.write buffer).currBlock = s.currBlock+1 := Nat.mod_eq_of_lt (by unfold word; omega)
  refine ⟨?_,next,?_,?_,by rw [device]; rfl⟩
  · rw [device,put_sectorSize]
    exact sectors
  · intro j inside
    rw [show j = 0 from Nat.lt_one_iff.mp inside,device,put_disk]
    exact blockImage_put_same _ _ rfl
  · intro b bound out
    rw [List.length_singleton] at out
    rw [device,put_disk,blockImage_put_other]
    rw [slot_small (by omega),slot_small bound]
    omega

theorem Laid.trans {middle : FormatLoop} (one : Laid s middle first) (two : Laid middle next second)
    (small : s.currBlock+first.length+second.length ≤ 2147483648) : Laid s next (first++second) := by
  refine ⟨two.sectors,?_,?_,?_,two.buffer.trans one.buffer⟩
  · rw [two.place,one.place,List.length_append,Nat.add_assoc]
  · intro j inside
    rw [List.length_append] at inside
    by_cases early : j < first.length
    · rw [List.getD_append _ _ _ _ early,two.others _ (by omega) (.inl (by rw [one.place]; omega))]
      exact one.holds j early
    · rw [List.getD_append_right _ _ _ _ (by omega)]
      have later := two.holds (j-first.length) (by omega)
      rwa [one.place,show s.currBlock+first.length+(j-first.length) = s.currBlock+j by omega] at later
  · intro b bound out
    rw [List.length_append] at out
    rw [two.others b bound (by rw [one.place]; omega),one.others b bound (by omega)]

theorem writes_laid (sectors : s.device.sectorSize = 512) (n : Nat) (small : s.currBlock+n ≤ 2147483648) (buffer : Bytes) :
    Laid s ((·.write buffer)^[n] s) (List.replicate n buffer) := by
  induction n generalizing s with
  | zero => exact .none sectors
  | succ n ih =>
    have first := write_laid sectors (by omega) buffer
    have rest := ih first.sectors (by rw [first.place,List.length_singleton]; omega)
    rw [Function.iterate_succ_apply,List.replicate_succ]
    exact first.trans rest (by rw [List.length_singleton,List.length_replicate]; omega)

theorem writes_inodeBitmap (s : FormatLoop) (buffer : Bytes) (n : Nat) : ((·.write buffer)^[n] s).inodeBitmap = s.inodeBitmap ∧
    ((·.write buffer)^[n] s).blockBitmap = s.blockBitmap := by
  induction n generalizing s with
  | zero => exact ⟨rfl,rfl⟩
  | succ n ih =>
    rw [Function.iterate_succ_apply]
    exact ih (s.write buffer)

def initialInodeBitmap : Bytes := setupInitialInodeBitmap blank 1712

theorem setupInode_again : setupInitialInodeBitmap initialInodeBitmap 1712 = initialInodeBitmap := by
  funext i
  unfold initialInodeBitmap setupInitialInodeBitmap fill store
  split_ifs with high low middle
  · rfl
  · rfl
  · rfl
  · exact (if_neg high).trans ((if_neg low).trans (if_neg middle))

-- The blocks of one group: superblock, descriptors, the two bitmaps and the inode table.
def groupBlocks (superblock table bitmap : Bytes) : List Bytes := [superblock,table,bitmap]++List.replicate 215 initialInodeBitmap

theorem groupBlocks_length (superblock table bitmap : Bytes) : (groupBlocks superblock table bitmap).length = 218 := by
  rw [groupBlocks,List.length_append,List.length_replicate]
  rfl

theorem group_laid (sectors : s.device.sectorSize = 512) (small : s.currBlock+218 ≤ 2147483648)
    (inodes : setupInitialInodeBitmap s.inodeBitmap 1712 = initialInodeBitmap) (superblock table bitmap : Bytes) :
    Laid s (writeBitmaps ((s.write superblock).write table) bitmap) (groupBlocks superblock table bitmap) ∧
      (writeBitmaps ((s.write superblock).write table) bitmap).inodeBitmap = initialInodeBitmap ∧
      (writeBitmaps ((s.write superblock).write table) bitmap).blockBitmap = bitmap := by
  have one := write_laid sectors (by omega) superblock
  have two := write_laid one.sectors (by rw [one.place,List.length_singleton]; omega) table
  have heads := one.trans two (by simp only [List.length_singleton]; omega)
  have three := write_laid heads.sectors (by rw [heads.place]; simp only [List.length_append,List.length_singleton]; omega) bitmap
  have front := heads.trans three (by simp only [List.length_append,List.length_singleton]; omega)
  have start : Laid s (FormatLoop.mk (((s.write superblock).write table).write bitmap).device bitmap initialInodeBitmap
      (((s.write superblock).write table).write bitmap).currBlock) ([superblock]++[table]++[bitmap]) :=
    ⟨front.sectors,front.place,front.holds,front.others,front.buffer⟩
  have more := writes_laid start.sectors 215 (by rw [start.place]; simp only [List.length_append,List.length_singleton]; omega)
    initialInodeBitmap
  have same : writeBitmaps ((s.write superblock).write table) bitmap = (·.write initialInodeBitmap)^[215]
      (FormatLoop.mk (((s.write superblock).write table).write bitmap).device bitmap initialInodeBitmap
        (((s.write superblock).write table).write bitmap).currBlock) := by
    rw [writeBitmaps,show ((s.write superblock).write table).inodeBitmap = s.inodeBitmap from rfl,inodes,Function.iterate_succ_apply]
    rfl
  rw [same]
  refine ⟨start.trans more ?_,(writes_inodeBitmap _ _ _).1,(writes_inodeBitmap _ _ _).2⟩
  simp only [List.length_append,List.length_singleton,List.length_replicate]
  omega

def place (table : Bytes) : Nat → Nat
  | 0 => 1
  | i+1 => place table i+218+bgFreeBlocksCount table i

theorem place_bound (table : Bytes) (i : Nat) : place table i ≤ 1+i*65753 := by
  induction i with
  | zero => exact Nat.le_refl 1
  | succ i ih =>
    have few : bgFreeBlocksCount table i < 65536 := get16_lt _ _
    rw [place]
    omega

theorem place_mono (table : Bytes) (less : g < i) : place table g+218 ≤ place table i := by
  induction i with
  | zero => cases less
  | succ i ih =>
    rw [place]
    by_cases last : g = i
    · rw [last]
      omega
    · have earlier := ih (by omega)
      omega

def initialBlockBitmap : Bytes := setupInitialBlockBitmap blank inodeTableLength

def groupBitmap (table : Bytes) (groups g : Nat) : Option Bytes :=
  if g = groups-1 then padLastGroup initialBlockBitmap (bgFreeBlocksCount table g+inodeTableLength+4) else some initialBlockBitmap

structure Written (d : Device) (superblock table : Bytes) (groups i : Nat) (s : FormatLoop) : Prop where
  sectors : s.device.sectorSize = 512
  currBlock : s.currBlock = place table i
  bitmap : i < groups → s.blockBitmap = initialBlockBitmap
  inodes : setupInitialInodeBitmap s.inodeBitmap 1712 = initialInodeBitmap
  holds : ∀ g < i, ∃ bitmap, groupBitmap table groups g = some bitmap ∧ ∀ j < 218,
    Agree (blockImage s.device.disk (place table g+j)) ((groupBlocks superblock table bitmap).getD j blank) 0 1024
  others : ∀ b < 2147483648, (∀ g < i, b < place table g ∨ place table g+218 ≤ b) →
    blockImage s.device.disk b = blockImage d.disk b
  buffer : s.device.rwBuffer = d.rwBuffer

theorem formatGroup_eq (written : Written d superblock table groups i s) (inside : i < groups) :
    formatGroup superblock table groups s i =
      (groupBitmap table groups i).map fun bitmap =>
        skipData (writeBitmaps ((s.write superblock).write table) bitmap) (bgFreeBlocksCount table i) := by
  simp only [formatGroup,groupBitmap,written.bitmap inside]

theorem skipData_fields (s : FormatLoop) (count : Nat) : (skipData s count).currBlock = (s.currBlock+count)%word ∧
    (skipData s count).device = s.device ∧ (skipData s count).blockBitmap = s.blockBitmap ∧
    (skipData s count).inodeBitmap = s.inodeBitmap := by
  simp only [skipData,and_self]

theorem Written.step (written : Written d superblock table groups i s) (inside : i < groups) (few : groups ≤ 64)
    (found : groupBitmap table groups i = some bitmap) : Written d superblock table groups (i+1)
      (skipData (writeBitmaps ((s.write superblock).write table) bitmap) (bgFreeBlocksCount table i)) := by
  have bound := place_bound table i
  have free : bgFreeBlocksCount table i < 65536 := get16_lt _ _
  have here := written.currBlock
  obtain ⟨laid,inodes,kept⟩ := group_laid written.sectors (by rw [here]; omega) written.inodes superblock table bitmap
  have long := groupBlocks_length superblock table bitmap
  generalize writeBitmaps ((s.write superblock).write table) bitmap = after at laid inodes kept ⊢
  obtain ⟨current,device,block,inode⟩ := skipData_fields after (bgFreeBlocksCount table i)
  refine ⟨?_,?_,?_,?_,?_,?_,by rw [device,laid.buffer]; exact written.buffer⟩
  · rw [device]
    exact laid.sectors
  · rw [current,laid.place,long,here,place,Nat.mod_eq_of_lt (by unfold word; omega)]
  · intro more
    rw [groupBitmap,if_neg (by omega)] at found
    rw [block,kept,Option.some.inj found]
  · rw [inode,inodes,setupInode_again]
  · intro g below
    by_cases last : g = i
    · refine ⟨bitmap,by rw [last]; exact found,?_⟩
      intro j small
      rw [device,last,← here]
      exact laid.holds j (by omega)
    · obtain ⟨old,same,holds⟩ := written.holds g (by omega)
      have earlier := place_mono table (show g < i by omega)
      refine ⟨old,same,?_⟩
      intro j small
      rw [device,laid.others (place table g+j) (by omega) (.inl (by omega))]
      exact holds j small
  · intro b small out
    have away := out i (Nat.lt_succ_self i)
    rw [device,laid.others b small (by rw [long,here]; exact away)]
    exact written.others b small (fun g below => out g (by omega))

theorem written_start (sectors : d.sectorSize = 512) (superblock table : Bytes) (groups : Nat) :
    Written d superblock table groups 0 ⟨d,setupInitialBlockBitmap blank inodeTableLength,blank,1⟩ :=
  ⟨sectors,rfl,fun _ => rfl,rfl,fun _ below => absurd below (Nat.not_lt_zero _),fun _ _ _ => rfl,rfl⟩

theorem initial_byte (j : Nat) : initialBlockBitmap j = if j < 27 then 0xFF#8 else if j = 27 then 3#8 else 0#8 := by
  rw [initialBlockBitmap,setupInitialBlockBitmap,show (inodeTableLength+4)/8 = 27 by decide,show pushOnes ((inodeTableLength+4)%8) 0 = 3#8 by decide]
  by_cases here : j = 27
  · rw [here,store_same]
    rfl
  · rw [store_other _ here]
    by_cases low : j < 27
    · rw [fill_inside (Nat.zero_le _) low,if_pos low]
    · rw [fill_outside (.inr (by omega)),if_neg low,if_neg here]
      rfl

theorem low_bits : ∀ k : Fin 8, (3#8).getLsbD k = decide (k.val < 2) := by decide

theorem initial_bit (n : Nat) : bit initialBlockBitmap n = decide (n < 218) := by
  rw [bit,initial_byte]
  split
  · rw [full_bit _ (Nat.mod_lt _ (by decide)),decide_eq_true (by omega)]
  · split
    · rw [low_bits ⟨n%8,Nat.mod_lt _ (by decide)⟩]
      exact decide_eq_decide.mpr (by dsimp only; omega)
    · rw [decide_eq_false (by omega),BitVec.getLsbD_zero]

theorem padded_byte (padded : padLastGroup bitmap used = some last) (inside : j < 1024) :
    used < 8192 ∧ last j = if j < used/8 then bitmap j else if j = used/8 then ~~~pushOnes (used%8) (bitmap j) else 0xFF#8 := by
  unfold padLastGroup at padded
  split at padded
  · cases padded
  · refine ⟨by omega,?_⟩
    rw [← Option.some.inj padded]
    by_cases low : j < used/8
    · rw [fill_outside (.inl (by omega)),store_other _ (by omega),if_pos low]
    · rw [if_neg low]
      by_cases here : j = used/8
      · rw [fill_outside (.inl (by omega)),if_pos here,here,store_same]
      · rw [if_neg here,fill_inside (by omega) inside]

theorem pushed_zero : ∀ n : Fin 8, ∀ k : Fin 8, (~~~pushOnes n 0#8).getLsbD k = decide (n.val ≤ k.val) := by decide

theorem pushed_three : ∀ n : Fin 8, 2 ≤ n.val → (~~~pushOnes n 3#8).getLsbD 0 = false := by decide

theorem padded_bit (padded : padLastGroup initialBlockBitmap used = some last) (high : 224 ≤ used) (inside : n < 8192) :
    bit last n = decide (n < 218 ∨ used ≤ n) := by
  obtain ⟨_,byte⟩ := padded_byte padded (show n/8 < 1024 by omega)
  have standard := initial_bit n
  rw [bit] at standard
  rw [bit,byte]
  split
  · rw [standard]
    exact decide_eq_decide.mpr (by omega)
  · split
    · rename_i here
      rw [initial_byte,if_neg (by omega),if_neg (by omega),
        pushed_zero ⟨used%8,Nat.mod_lt _ (by decide)⟩ ⟨n%8,Nat.mod_lt _ (by decide)⟩]
      exact decide_eq_decide.mpr (by dsimp only; omega)
    · rw [full_bit _ (Nat.mod_lt _ (by decide)),decide_eq_true (by omega)]

-- With so few blocks the byte to patch still holds bits of the inode table.
theorem padded_low (padded : padLastGroup initialBlockBitmap used = some last) (low : 218 ≤ used) (high : used < 224) :
    bit last 216 = false := by
  obtain ⟨_,byte⟩ := padded_byte padded (show 216/8 < 1024 by decide)
  have start : initialBlockBitmap (216/8) = 3#8 := by rw [initial_byte]; rfl
  rw [bit,byte,if_neg (by omega),if_pos (by omega),start]
  exact pushed_three ⟨used%8,Nat.mod_lt _ (by decide)⟩ (by dsimp only; omega)

theorem clear_between (bits : ∀ n < 8192, bit bitmap n = decide (n < 218 ∨ used ≤ n)) (most : used ≤ 8192) :
    (clearSet bitmap 8192).card = used-218 := by
  have interval : clearSet bitmap 8192 = Finset.Ico 218 used := by
    ext n
    rw [mem_clearSet,Finset.mem_Ico]
    constructor
    · rintro ⟨inside,clear⟩
      rw [bits n inside] at clear
      have neither := of_decide_eq_false clear
      omega
    · rintro ⟨low,high⟩
      have inside : n < 8192 := by omega
      rw [bits n inside]
      exact ⟨inside,decide_eq_false (by omega)⟩
  rw [interval,Nat.card_Ico]

theorem formatGroup_written (written : Written d superblock table groups i s) (inside : i < groups) (few : groups ≤ 64)
    (ran : formatGroup superblock table groups s i = some next) : Written d superblock table groups (i+1) next := by
  rw [formatGroup_eq written inside] at ran
  obtain ⟨bitmap,found,rfl⟩ := Option.map_eq_some_iff.mp ran
  exact written.step inside few found

theorem layOut_written (sectors : d.sectorSize = 512) (few : blockGroupCount superblock ≤ 64) (laid : layOut d superblock = some layout) :
    ∃ s, Written d layout.superblock layout.table layout.groups layout.groups s ∧ layout.device = s.device ∧
      layout.groups = blockGroupCount superblock ∧ layout.table = descriptorTable superblock layout.groups ∧
      layout.superblock = countFree superblock layout.table layout.groups := by
  obtain ⟨s,ran,rfl⟩ := Option.map_eq_some_iff.mp laid
  refine ⟨s,?_,rfl,rfl,rfl,rfl⟩
  have all := repeated_invariant (fun i s => i ≤ blockGroupCount superblock → Written d _ _ (blockGroupCount superblock) i s)
    (fun i s next written ran below => formatGroup_written (written (Nat.le_of_lt below)) below few ran)
    (fun _ => written_start sectors _ _ _) ran
  rw [Nat.zero_add] at all
  exact all (Nat.le_refl _)

-- Only the padding of the last group can fail.
theorem formatGroup_returns (written : Written d superblock table groups i s) (inside : i < groups) (few : groups ≤ 64)
    (padded : groupBitmap table groups (groups-1) = some last) :
    ∃ next, formatGroup superblock table groups s i = some next ∧ Written d superblock table groups (i+1) next := by
  obtain ⟨bitmap,found⟩ : ∃ bitmap, groupBitmap table groups i = some bitmap := by
    by_cases end_ : i = groups-1
    · rw [end_]
      exact ⟨last,padded⟩
    · exact ⟨initialBlockBitmap,if_neg end_⟩
  exact ⟨_,by rw [formatGroup_eq written inside,found]; rfl,written.step inside few found⟩

theorem layOut_returns (sectors : d.sectorSize = 512) (few : blockGroupCount superblock ≤ 64)
    (padded : groupBitmap (descriptorTable superblock (blockGroupCount superblock)) (blockGroupCount superblock)
      (blockGroupCount superblock-1) = some last) : ∃ layout, layOut d superblock = some layout := by
  obtain ⟨s,ran,_⟩ := repeated_total _ (written_start sectors _ _ _)
    (fun i s _ inside written => formatGroup_returns written (by rwa [Nat.zero_add] at inside) few padded)
  exact ⟨_,by rw [layOut,ran]; rfl⟩

def metadataBlocks (table : Bytes) (g : Nat) : List Nat :=
  [g*8192+1,g*8192+2,bgBlockBitmap table g,bgInodeBitmap table g]++(List.range inodeTableLength).map (bgInodeTable table g+·)

def writtenBitmap (layout : Layout) (g : Nat) : Bytes := blockImage layout.device.disk (bgBlockBitmap layout.table g)

-- Bit n of the bitmap of group g stands for block g*8192+n+1.
structure GroupConsistent (layout : Layout) (g : Nat) : Prop where
  counted : (clearSet (writtenBitmap layout g) 8192).card = bgFreeBlocksCount layout.table g
  metadata : ∀ b ∈ metadataBlocks layout.table g, bit (writtenBitmap layout g) (b-(g*8192+1)) = true
  inside : ∀ n < 8192, bit (writtenBitmap layout g) n = false → g*8192+n+1 < sBlocksCount layout.superblock

def Consistent (layout : Layout) : Prop := ∀ g < layout.groups, GroupConsistent layout g

theorem blocksCount_countFree (superblock table : Bytes) (groups : Nat) :
    sBlocksCount (countFree superblock table groups) = sBlocksCount superblock := by
  unfold countFree sBlocksCount setFreeInodesCount setFreeBlocksCount
  rw [get32_put32_away (by decide),get32_put32_away (by decide)]

theorem groupCount_cases (nrKbytes : Nat) :
    (nrKbytes%word/8192 ≤ 31 ∧ blockGroupCount (freshSuperblock nrKbytes) = nrKbytes%word/8192+1) ∨
    (32 ≤ nrKbytes%word/8192 ∧ blockGroupCount (freshSuperblock nrKbytes) = 51) := by
  rw [blockGroupCount,(freshSuperblock_fields nrKbytes).1]
  split
  · exact .inr ⟨by omega,rfl⟩
  · exact .inl ⟨by omega,rfl⟩

theorem groupCount_few (nrKbytes : Nat) : blockGroupCount (freshSuperblock nrKbytes) ≤ 51 := by
  rcases groupCount_cases nrKbytes with ⟨low,count⟩ | ⟨_,count⟩ <;> omega

structure Numbered (layout : Layout) (total : Nat) : Prop where
  blocks : sBlocksCount layout.superblock = total
  described : ∀ g < layout.groups, Described layout.table total g
  bitmaps : ∀ g < layout.groups, g ≤ total/8192 →
    ∃ bitmap, groupBitmap layout.table layout.groups g = some bitmap ∧ Agree (writtenBitmap layout g) bitmap 0 1024
  padded : ∃ last, groupBitmap layout.table layout.groups (layout.groups-1) = some last

theorem place_regular (described : ∀ g < groups, Described table total g) (inside : g < groups) (below : g ≤ total/8192) :
    place table g = g*8192+1 := by
  induction g with
  | zero => rfl
  | succ g ih =>
    have full : ¬ total < (g+1)*8192 := by omega
    rw [place,ih (by omega) (by omega),(described g (by omega)).freeBlocks,freeCount,if_neg full]
    omega

theorem layOut_numbered (sectors : d.sectorSize = 512) (laid : layOut d (freshSuperblock d.sizeInKb) = some layout) :
    Numbered layout (d.sizeInKb%word) := by
  have few := groupCount_few d.sizeInKb
  obtain ⟨s,written,device,groups,table,superblock⟩ := layOut_written sectors (by omega) laid
  have described : ∀ g < layout.groups, Described layout.table (d.sizeInKb%word) g := by
    rw [table]
    exact descriptorTable_described d.sizeInKb (by omega)
  refine ⟨?_,described,?_,?_⟩
  · rw [superblock,blocksCount_countFree]
    exact (freshSuperblock_fields d.sizeInKb).1
  · intro g inside below
    obtain ⟨bitmap,found,holds⟩ := written.holds g inside
    refine ⟨bitmap,found,?_⟩
    have image := holds 2 (by decide)
    rw [place_regular described inside below] at image
    rw [writtenBitmap,(described g inside).blockBitmap,device]
    exact image
  · have some_ : 0 < layout.groups := by
      rcases groupCount_cases d.sizeInKb with ⟨_,count⟩ | ⟨_,count⟩ <;> omega
    obtain ⟨bitmap,found,_⟩ := written.holds (layout.groups-1) (by omega)
    exact ⟨bitmap,found⟩

theorem metadata_offset (described : Described table total g) (member : b ∈ metadataBlocks table g) : b-(g*8192+1) < 218 := by
  rw [metadataBlocks,described.blockBitmap,described.inodeBitmap,described.inodeTable] at member
  have length : inodeTableLength = 214 := by decide
  simp only [List.mem_append,List.mem_cons,List.not_mem_nil,or_false,List.mem_map,List.mem_range,length] at member
  rcases member with (rfl | rfl | rfl | rfl) | ⟨k,small,rfl⟩ <;> omega

theorem Numbered.consistent (numbered : Numbered layout total) (inside : g < layout.groups) (below : g ≤ total/8192)
    (found : groupBitmap layout.table layout.groups g = some bitmap) (bits : ∀ n < 8192, bit bitmap n = decide (n < 218 ∨ used ≤ n))
    (most : used ≤ 8192) (free : freeCount total g = used-218) (end_ : g*8192+used < total) : GroupConsistent layout g := by
  obtain ⟨image,same,agree⟩ := numbered.bitmaps g inside below
  rw [found] at same
  cases Option.some.inj same
  have described := numbered.described g inside
  have known : ∀ n < 8192, bit (writtenBitmap layout g) n = decide (n < 218 ∨ used ≤ n) := fun n small =>
    (bit_agree agree small).trans (bits n small)
  refine ⟨?_,?_,?_⟩
  · rw [clear_between known most,described.freeBlocks,free]
  · intro b member
    have small := metadata_offset described member
    rw [known _ (by omega)]
    exact decide_eq_true (.inl small)
  · intro n small clear
    rw [known n small] at clear
    have before : n < used := Nat.lt_of_not_le (not_or.mp (of_decide_eq_false clear)).2
    rw [numbered.blocks]
    rw [Nat.add_assoc]
    exact Nat.lt_of_le_of_lt (Nat.add_le_add_left before _) end_

theorem freeCount_last (total : Nat) : freeCount total (total/8192) = (total%8192+65536-219)%65536 := by
  have whole : total/8192*8192 = total-total%8192 := by omega
  rw [freeCount,if_pos (by omega),whole]
  unfold word
  omega

theorem freeCount_full (below : g < total/8192) : freeCount total g = 7974 := if_neg (by omega)

theorem Numbered.ordinary (numbered : Numbered layout total) (count : layout.groups = total/8192+1) :
    Consistent layout ↔ 225 ≤ total%8192 := by
  have length : inodeTableLength = 214 := by decide
  have inside : total/8192 < layout.groups := by omega
  obtain ⟨last,padded⟩ := numbered.padded
  rw [count,Nat.add_sub_cancel,← count] at padded
  have free := (numbered.described _ inside).freeBlocks
  have patched := padded
  rw [groupBitmap,if_pos (by omega),free,freeCount_last,length,Nat.add_assoc] at patched
  obtain ⟨fits,_⟩ := padded_byte patched (show 0 < 1024 by decide)
  have room : 219 ≤ total%8192 := by omega
  have used : (total%8192+65536-219)%65536+(214+4) = total%8192-1 := by omega
  rw [used] at patched
  constructor
  · intro consistent
    by_contra few
    have member : total/8192*8192+5+212 ∈ metadataBlocks layout.table (total/8192) := by
      rw [metadataBlocks,(numbered.described _ inside).inodeTable]
      exact List.mem_append_right _ (List.mem_map.mpr ⟨212,List.mem_range.mpr (by decide),rfl⟩)
    have set := (consistent _ inside).metadata _ member
    obtain ⟨image,same,agree⟩ := numbered.bitmaps _ inside (Nat.le_refl _)
    rw [padded] at same
    cases Option.some.inj same
    rw [show total/8192*8192+5+212-(total/8192*8192+1) = 216 by omega,bit_agree agree (by decide),
      padded_low patched (by omega) (by omega)] at set
    cases set
  · intro enough g below
    by_cases end_ : g = total/8192
    · subst end_
      exact numbered.consistent inside (Nat.le_refl _) padded (fun n small => padded_bit patched (by omega) small) (by omega)
        (by rw [freeCount_last]; omega) (by omega)
    · have full : ∀ n < 8192, bit initialBlockBitmap n = decide (n < 218 ∨ 8192 ≤ n) := by
        intro n small
        rw [initial_bit]
        exact decide_eq_decide.mpr (by omega)
      exact numbered.consistent below (by omega) (if_neg (by omega)) full (Nat.le_refl _) (freeCount_full (by omega)) (by omega)

theorem Numbered.cut_short (numbered : Numbered layout total) (count : total/8192+1 < layout.groups) : ¬ Consistent layout := by
  intro consistent
  have inside : total/8192 < layout.groups := by omega
  have counted := (consistent _ inside).counted
  obtain ⟨bitmap,found,agree⟩ := numbered.bitmaps _ inside (Nat.le_refl _)
  rw [groupBitmap,if_neg (by omega)] at found
  cases Option.some.inj found
  have bits : ∀ n < 8192, bit (writtenBitmap layout (total/8192)) n = decide (n < 218 ∨ 8192 ≤ n) := by
    intro n small
    rw [bit_agree agree small,initial_bit]
    exact decide_eq_decide.mpr (by omega)
  rw [clear_between bits (Nat.le_refl _),(numbered.described _ inside).freeBlocks,freeCount_last] at counted
  omega

theorem Numbered.not_beyond (numbered : Numbered layout total) (some_ : 0 < layout.groups) : total/8192 < layout.groups := by
  by_contra beyond
  obtain ⟨last,padded⟩ := numbered.padded
  have length : inodeTableLength = 214 := by decide
  rw [groupBitmap,if_pos rfl,(numbered.described _ (by omega)).freeBlocks,freeCount_full (by omega),length,padLastGroup] at padded
  cases padded

theorem layOut_consistent_iff (sectors : d.sectorSize = 512) (laid : layOut d (freshSuperblock d.sizeInKb) = some layout) :
    Consistent layout ↔ 225 ≤ d.sizeInKb%word%8192 ∧ (d.sizeInKb%word/8192 ≤ 31 ∨ d.sizeInKb%word/8192 = 50) := by
  have numbered := layOut_numbered sectors laid
  obtain ⟨_,_,_,groups,_⟩ := layOut_written sectors (by have few := groupCount_few d.sizeInKb; omega) laid
  rcases groupCount_cases d.sizeInKb with ⟨low,count⟩ | ⟨high,count⟩
  · rw [numbered.ordinary (by omega)]
    omega
  · have bound := numbered.not_beyond (by omega)
    by_cases last : d.sizeInKb%word/8192 = 50
    · rw [numbered.ordinary (by omega)]
      omega
    · have never := numbered.cut_short (by omega)
      constructor
      · intro consistent
        exact absurd consistent never
      · rintro ⟨_,small⟩
        omega

theorem format_eq (sectors : d.sectorSize = 512) (stack : Stack) :
    ext2FormatDevice d stack = (layOut d (freshSuperblock d.sizeInKb)).bind fun layout =>
      match ext2MountDevice layout.device stack.context with
      | (.noError,m) => (makeRoot m stack).map fun device => (.noError,device)
      | (ret,m) => some (ret,m.device) := by
  rw [ext2FormatDevice,sectors]
  rfl

def emptyDevice (sizeInKb : Nat) : Device := ⟨512,sizeInKb,blank,blank,[]⟩
def zeroStack : Stack := ⟨blank,fun _ => 0,fun _ => 0⟩

end KaracaOS.Ext2Format
