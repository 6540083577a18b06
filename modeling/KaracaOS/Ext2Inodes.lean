import KaracaOS.Bitmap
import KaracaOS.Ext2Fields

namespace KaracaOS.Ext2Inodes
open ByteMemory Bitmap BlockDevice Ext2Fields

-- ext2_inode_t as its 128 bytes; eight of them share a block.
abbrev Inode := Fin 128 → Byte

def zeroInode : Inode := fun _ => 0#8
def inodeAt (block : Bytes) (k : Nat) : Inode := fun i => block (128*k+i.val)
def setInode (block : Bytes) (k : Nat) (inode : Inode) : Bytes :=
  fun i => if h : 128*k ≤ i ∧ i < 128*k+128 then inode ⟨i-128*k,by omega⟩ else block i

def isInodeAllocated (inodeBitmap : Bytes) (inodeNr : Nat) : Bool := bit inodeBitmap inodeNr
def setInodeBit (inodeBitmap : Bytes) (inodeNr : Nat) : Bytes := setBit inodeBitmap inodeNr

-- Block group and local index of an inode. none: division by zero, or an index
-- behind the end of desc_table[32] or of a 1024-byte bitmap.
def locate (m : Mount) (inodeNr : Nat) : Option (Nat × Nat) :=
  let perGroup := sInodesPerGroup m.superblock
  let group := (inodeNr+word-1)%word/perGroup
  let index := (inodeNr+word-1)%word%perGroup
  if perGroup ≠ 0 ∧ group < 32 ∧ index < 8192 then some (group,index) else none

def ext2ReadInode (m : Mount) (inodeNr : Nat) : Option (SysRet × Inode × Mount) :=
  match locate m inodeNr with
  | none => none
  | some (group,index) =>
    let table := (ext2ReadBlocks m.device 2 blank 1).2
    let bitmap := (ext2ReadBlocks m.device (bgInodeBitmap table group) blank 1).2
    if !isInodeAllocated bitmap index then some (.notFound,zeroInode,m)
    else
      let targetBlock := (bgInodeTable table group+index/8)%word
      let rwBuffer := (ext2ReadBlocks m.device targetBlock m.device.rwBuffer 1).2
      some (.noError,inodeAt rwBuffer (index%8),{m with device := {m.device with rwBuffer := rwBuffer}})

-- The second half of ext2_write_inode: the block of eight inodes goes through
-- the buffer that all callers of the device share.
def storeInode (d : Device) (targetBlock k : Nat) (inode : Inode) : Device :=
  let rwBuffer := setInode (ext2ReadBlocks d targetBlock d.rwBuffer 1).2 k inode
  (ext2WriteBlocks {d with rwBuffer := rwBuffer} targetBlock rwBuffer 1).2

def ext2WriteInode (m : Mount) (inode : Inode) (inodeNr : Nat) : Option (SysRet × Mount) :=
  match locate m inodeNr with
  | none => none
  | some (group,index) =>
    let table := (ext2ReadBlocks m.device 2 blank 1).2
    let bitmap := (ext2ReadBlocks m.device (bgInodeBitmap table group) blank 1).2
    let device := (ext2WriteBlocks m.device (bgInodeBitmap table group) (setInodeBit bitmap index) 1).2
    some (.noError,{m with device := storeInode device ((bgInodeTable table group+index/8)%word) (index%8) inode})

-- Group and total sizes are uint32_t; the counts are cut to 16 bits when stored.
def fillBlockGroupDescriptor (table sb : Bytes) (bgIndex : Nat) : Bytes :=
  let totalBlocks := sBlocksCount sb
  let inodesPerGroup := 1712
  let blocksPerGroup := sBlocksPerGroup sb
  let blockSize := 1024*2^sLogBlockSize sb%word
  let inodeTableLength := inodesPerGroup/(blockSize/sInodeSize sb)
  let freeBlocksCount :=
    if totalBlocks < (bgIndex+1)*blocksPerGroup%word then
      totalBlocks+2*word-bgIndex*blocksPerGroup%word-inodeTableLength-4-1
    else blocksPerGroup+word-inodeTableLength-4
  let base := 32*bgIndex
  let table := put32 table base (bgIndex*blocksPerGroup+3)
  let table := put32 table (base+4) (bgIndex*blocksPerGroup+4)
  let table := put32 table (base+8) (bgIndex*blocksPerGroup+5)
  let table := put16 table (base+12) freeBlocksCount
  let table := put16 table (base+14) inodesPerGroup
  fill table (base+16) (base+32) 0#8

def bitmapBlock (disk : Bytes) (group : Nat) : Nat := bgInodeBitmap (blockImage disk 2) group
def tableBlock (disk : Bytes) (group k : Nat) : Nat := (bgInodeTable (blockImage disk 2) group+k)%word

def groupOf (m : Mount) (inodeNr : Nat) : Nat := (inodeNr-1)/sInodesPerGroup m.superblock
def indexOf (m : Mount) (inodeNr : Nat) : Nat := (inodeNr-1)%sInodesPerGroup m.superblock
def InRange (m : Mount) (groups inodeNr : Nat) : Prop := 1 ≤ inodeNr ∧ inodeNr ≤ groups*sInodesPerGroup m.superblock

-- The blocks of the store are told apart, also modulo 2^31, and none of them is
-- the descriptor table.
structure InodeStore (m : Mount) (groups : Nat) : Prop where
  sectors : m.device.sectorSize = 512
  few : groups ≤ 32
  perGroup : 0 < sInodesPerGroup m.superblock ∧ sInodesPerGroup m.superblock ≤ 8192
  bitmapTable : ∀ g < groups, slot (bitmapBlock m.device.disk g) ≠ 2
  tableTable : ∀ g < groups, ∀ k < 1024, k*8 < sInodesPerGroup m.superblock → slot (tableBlock m.device.disk g k) ≠ 2
  bitmaps : ∀ g < groups, ∀ h < groups, g ≠ h → slot (bitmapBlock m.device.disk g) ≠ slot (bitmapBlock m.device.disk h)
  bitmapInodes : ∀ g < groups, ∀ h < groups, ∀ k, k*8 < sInodesPerGroup m.superblock →
    slot (bitmapBlock m.device.disk g) ≠ slot (tableBlock m.device.disk h k)
  inodes : ∀ g < groups, ∀ h < groups, ∀ k l, k*8 < sInodesPerGroup m.superblock → l*8 < sInodesPerGroup m.superblock →
    (g,k) ≠ (h,l) → slot (tableBlock m.device.disk g k) ≠ slot (tableBlock m.device.disk h l)

-- The store as an array: whether an inode is there, and its value.
def taken (m : Mount) (inodeNr : Nat) : Bool :=
  bit (blockImage m.device.disk (bitmapBlock m.device.disk (groupOf m inodeNr))) (indexOf m inodeNr)
def stored (m : Mount) (inodeNr : Nat) : Inode :=
  inodeAt (blockImage m.device.disk (tableBlock m.device.disk (groupOf m inodeNr) (indexOf m inodeNr/8))) (indexOf m inodeNr%8)

def readResult (m : Mount) (inodeNr : Nat) : Option (SysRet × Inode) := (ext2ReadInode m inodeNr).map (fun r => (r.1,r.2.1))

variable {m next : Mount} {groups nr : Nat} {inode : Inode}

theorem InodeStore.small (store : InodeStore m groups) (range : InRange m groups nr) : nr < word := by
  have product : groups*sInodesPerGroup m.superblock ≤ 32*8192 := Nat.mul_le_mul store.few store.perGroup.2
  have high := range.2
  unfold word
  omega

theorem InodeStore.bounds (store : InodeStore m groups) (range : InRange m groups nr) :
    groupOf m nr < groups ∧ indexOf m nr < sInodesPerGroup m.superblock ∧ indexOf m nr < 8192 ∧ nr-1 < word := by
  obtain ⟨positive,eightThousand⟩ := store.perGroup
  have small := store.small range
  obtain ⟨low,high⟩ := range
  have index := Nat.mod_lt (nr-1) positive
  refine ⟨(Nat.div_lt_iff_lt_mul positive).mpr (by omega),index,?_,by omega⟩
  unfold indexOf
  omega

theorem InodeStore.locate (store : InodeStore m groups) (range : InRange m groups nr) :
    Ext2Inodes.locate m nr = some (groupOf m nr,indexOf m nr) := by
  obtain ⟨group,_,index,low⟩ := store.bounds range
  have few := store.few
  have start := range.1
  have previous : (nr+word-1)%word = nr-1 := by
    rw [show nr+word-1 = nr-1+word by omega,Nat.add_mod_right,Nat.mod_eq_of_lt low]
  unfold groupOf at group
  unfold indexOf at index
  simp only [Ext2Inodes.locate,previous,groupOf,indexOf]
  rw [if_pos ⟨Nat.ne_of_gt store.perGroup.1,by omega,index⟩]

theorem bitmapBlock_same (table : blockImage left 2 = blockImage right 2) (g : Nat) : bitmapBlock left g = bitmapBlock right g := by
  rw [bitmapBlock,table]
  rfl
theorem tableBlock_same (table : blockImage left 2 = blockImage right 2) (g k : Nat) :
    tableBlock left g k = tableBlock right g k := by
  rw [tableBlock,table]
  rfl

theorem groupOf_same (superblock : next.superblock = m.superblock) (nr : Nat) : groupOf next nr = groupOf m nr := by
  rw [groupOf,superblock]
  rfl
theorem indexOf_same (superblock : next.superblock = m.superblock) (nr : Nat) : indexOf next nr = indexOf m nr := by
  rw [indexOf,superblock]
  rfl

theorem inRange_same (superblock : next.superblock = m.superblock) : InRange next groups nr ↔ InRange m groups nr := by
  rw [InRange,InRange,superblock]

theorem InodeStore.moved (store : InodeStore m groups) (sectors : next.device.sectorSize = 512)
    (perGroup : sInodesPerGroup next.superblock = sInodesPerGroup m.superblock)
    (bitmaps : ∀ g < groups, bitmapBlock next.device.disk g = bitmapBlock m.device.disk g)
    (tables : ∀ g < groups, ∀ k, tableBlock next.device.disk g k = tableBlock m.device.disk g k) : InodeStore next groups := by
  refine ⟨sectors,store.few,by rw [perGroup]; exact store.perGroup,?_,?_,?_,?_,?_⟩
  · intro g inside
    rw [bitmaps g inside]
    exact store.bitmapTable g inside
  · intro g inside k small below
    rw [perGroup] at below
    rw [tables g inside]
    exact store.tableTable g inside k small below
  · intro g one h two differ
    rw [bitmaps g one,bitmaps h two]
    exact store.bitmaps g one h two differ
  · intro g one h two k below
    rw [perGroup] at below
    rw [bitmaps g one,tables h two]
    exact store.bitmapInodes g one h two k below
  · intro g one h two k l first second differ
    rw [perGroup] at first second
    rw [tables g one,tables h two]
    exact store.inodes g one h two k l first second differ

theorem InodeStore.same (store : InodeStore m groups) (sectors : next.device.sectorSize = 512)
    (superblock : next.superblock = m.superblock) (table : blockImage next.device.disk 2 = blockImage m.device.disk 2) :
    InodeStore next groups :=
  store.moved sectors (by rw [superblock]) (fun g _ => bitmapBlock_same table g) (fun g _ k => tableBlock_same table g k)

theorem inodeAt_agree (agree : Agree left right 0 1024) (small : k < 8) : inodeAt left k = inodeAt right k := by
  funext i
  have bound := i.isLt
  exact agree _ (Nat.zero_le _) (by omega)

theorem inodeAt_setInode (block : Bytes) (k l : Nat) (inode : Inode) :
    inodeAt (setInode block k inode) l = if l = k then inode else inodeAt block l := by
  funext i
  have bound := i.isLt
  by_cases here : l = k
  · subst here
    rw [if_pos rfl]
    simp only [inodeAt,setInode]
    rw [dif_pos ⟨by omega,by omega⟩]
    congr 1
    apply Fin.ext
    show 128*l+i.val-128*l = i.val
    omega
  · rw [if_neg here]
    simp only [inodeAt,setInode]
    rw [dif_neg (by omega)]

theorem buffer_agree (buffer disk : Bytes) (b : Nat) : Agree (blit buffer 0 disk (offset b) 1024) (blockImage disk b) 0 1024 := by
  intro i low high
  rw [blit_inside low high,blockImage,blit_inside low high]

-- Two mounts on the same disk; a read only moves data into the shared buffer.
structure SameDisk (m next : Mount) : Prop where
  sectors : next.device.sectorSize = m.device.sectorSize
  disk : next.device.disk = m.device.disk
  superblock : next.superblock = m.superblock

theorem SameDisk.store (same : SameDisk m next) (store : InodeStore m groups) : InodeStore next groups :=
  store.same (same.sectors.trans store.sectors) same.superblock (by rw [same.disk])
theorem SameDisk.taken (same : SameDisk m next) (nr : Nat) : taken next nr = taken m nr := by
  rw [Ext2Inodes.taken,groupOf_same same.superblock,indexOf_same same.superblock,same.disk]
  rfl
theorem SameDisk.stored (same : SameDisk m next) (nr : Nat) : stored next nr = stored m nr := by
  rw [Ext2Inodes.stored,groupOf_same same.superblock,indexOf_same same.superblock,same.disk]
  rfl

theorem InodeStore.read (store : InodeStore m groups) (range : InRange m groups nr) :
    ∃ after, SameDisk m after ∧
      ext2ReadInode m nr = some (if taken m nr then (.noError,stored m nr,after) else (.notFound,zeroInode,m)) := by
  obtain ⟨_,_,index,_⟩ := store.bounds range
  have eighth : indexOf m nr%8 < 8 := Nat.mod_lt _ (by decide)
  let buffer := blit m.device.rwBuffer 0 m.device.disk (offset (tableBlock m.device.disk (groupOf m nr) (indexOf m nr/8))) 1024
  have agree : Agree buffer (blockImage m.device.disk (tableBlock m.device.disk (groupOf m nr) (indexOf m nr/8))) 0 1024 :=
    buffer_agree _ _ _
  refine ⟨{m with device := {m.device with rwBuffer := buffer}},⟨rfl,rfl,rfl⟩,?_⟩
  simp only [ext2ReadInode,store.locate range,read_local store.sectors,read_block store.sectors]
  show (if !taken m nr then _ else _) = _
  cases taken m nr with
  | false => rfl
  | true =>
    simp only [Bool.not_true,Bool.false_eq_true,if_false,if_true]
    rw [stored,← inodeAt_agree agree eighth]
    rfl

theorem InodeStore.read_taken (store : InodeStore m groups) (range : InRange m groups nr) (allocated : taken m nr = true) :
    ∃ after, SameDisk m after ∧ ext2ReadInode m nr = some (.noError,stored m nr,after) := by
  obtain ⟨after,same,ran⟩ := store.read range
  rw [allocated,if_pos rfl] at ran
  exact ⟨after,same,ran⟩

theorem InodeStore.read_result (store : InodeStore m groups) (range : InRange m groups nr) :
    readResult m nr = some (if taken m nr then (.noError,stored m nr) else (.notFound,zeroInode)) := by
  obtain ⟨after,_,ran⟩ := store.read range
  rw [readResult,ran]
  cases taken m nr <;> rfl

-- Writing: the two blocks that change, and what is put there.
structure Wrote (m next : Mount) (inode : Inode) (nr : Nat) : Prop where
  sectors : next.device.sectorSize = 512
  superblock : next.superblock = m.superblock
  disk : ∃ block, Agree block (setInode (blockImage m.device.disk (tableBlock m.device.disk (groupOf m nr) (indexOf m nr/8)))
      (indexOf m nr%8) inode) 0 1024 ∧
    next.device.disk = putBlock (putBlock m.device.disk (bitmapBlock m.device.disk (groupOf m nr))
      (setBit (blockImage m.device.disk (bitmapBlock m.device.disk (groupOf m nr))) (indexOf m nr)))
      (tableBlock m.device.disk (groupOf m nr) (indexOf m nr/8)) block

theorem setInode_agree (agree : Agree left right 0 1024) (k : Nat) (inode : Inode) :
    Agree (setInode left k inode) (setInode right k inode) 0 1024 := by
  intro i low high
  unfold setInode
  split
  · rfl
  · exact agree i low high

theorem storeInode_put (sectors : d.sectorSize = 512) (target k : Nat) (inode : Inode) :
    (storeInode d target k inode).sectorSize = 512 ∧
      ∃ block, Agree block (setInode (blockImage d.disk target) k inode) 0 1024 ∧
        (storeInode d target k inode).disk = putBlock d.disk target block := by
  have stores : storeInode d target k inode =
      ({d with rwBuffer := setInode (blit d.rwBuffer 0 d.disk (offset target) 1024) k inode} : Device).put target
        (setInode (blit d.rwBuffer 0 d.disk (offset target) 1024) k inode) := by
    simp only [storeInode,read_block sectors]
    rw [write_block (by exact sectors)]
  rw [stores]
  exact ⟨sectors,_,setInode_agree (buffer_agree _ _ _) k inode,rfl⟩

-- The device between the two block writes.
def marked (m : Mount) (nr : Nat) : Device := m.device.put (bitmapBlock m.device.disk (groupOf m nr))
  (setBit (blockImage m.device.disk (bitmapBlock m.device.disk (groupOf m nr))) (indexOf m nr))

theorem InodeStore.write (store : InodeStore m groups) (range : InRange m groups nr) (inode : Inode) :
    ∃ next, ext2WriteInode m inode nr = some (.noError,next) ∧ Wrote m next inode nr := by
  obtain ⟨group,index,_,_⟩ := store.bounds range
  have differ := store.bitmapInodes _ group _ group (indexOf m nr/8) (by omega)
  have ran : ext2WriteInode m inode nr = some (.noError,
      ⟨storeInode (marked m nr) (tableBlock m.device.disk (groupOf m nr) (indexOf m nr/8)) (indexOf m nr%8) inode,m.superblock⟩) := by
    simp only [ext2WriteInode,store.locate range,read_local store.sectors,write_block store.sectors]
    rfl
  have middle : (marked m nr).disk = putBlock m.device.disk (bitmapBlock m.device.disk (groupOf m nr))
      (setBit (blockImage m.device.disk (bitmapBlock m.device.disk (groupOf m nr))) (indexOf m nr)) := put_disk _ _ _
  have sectors : (marked m nr).sectorSize = 512 := (put_sectorSize _ _ _).trans store.sectors
  obtain ⟨kept,block,agree,disk⟩ := storeInode_put sectors
    (tableBlock m.device.disk (groupOf m nr) (indexOf m nr/8)) (indexOf m nr%8) inode
  rw [middle,blockImage_put_other _ _ differ] at agree
  rw [middle] at disk
  exact ⟨_,ran,kept,rfl,block,agree,disk⟩

theorem Wrote.elsewhere (wrote : Wrote m next inode nr) (one : slot (bitmapBlock m.device.disk (groupOf m nr)) ≠ slot b)
    (two : slot (tableBlock m.device.disk (groupOf m nr) (indexOf m nr/8)) ≠ slot b) :
    blockImage next.device.disk b = blockImage m.device.disk b := by
  obtain ⟨block,_,disk⟩ := wrote.disk
  rw [disk,blockImage_put_other _ _ two,blockImage_put_other _ _ one]

theorem Wrote.table (wrote : Wrote m next inode nr) (store : InodeStore m groups) (range : InRange m groups nr) :
    blockImage next.device.disk 2 = blockImage m.device.disk 2 := by
  obtain ⟨group,index,small,_⟩ := store.bounds range
  exact wrote.elsewhere (store.bitmapTable _ group) (store.tableTable _ group _ (by omega) (by omega))

theorem Wrote.store (wrote : Wrote m next inode nr) (store : InodeStore m groups) (range : InRange m groups nr) :
    InodeStore next groups := store.same wrote.sectors wrote.superblock (wrote.table store range)

theorem same_place (range : InRange m groups nr) (range' : InRange m groups other) :
    other = nr ↔ groupOf m other = groupOf m nr ∧ indexOf m other = indexOf m nr := by
  constructor
  · rintro rfl
    exact ⟨rfl,rfl⟩
  · rintro ⟨group,index⟩
    have first := Nat.div_add_mod (nr-1) (sInodesPerGroup m.superblock)
    have second := Nat.div_add_mod (other-1) (sInodesPerGroup m.superblock)
    unfold groupOf at group
    unfold indexOf at index
    rw [group,index,first] at second
    have low := range.1
    have low' := range'.1
    omega

theorem Wrote.bitmap (wrote : Wrote m next inode nr) (store : InodeStore m groups) (range : InRange m groups nr)
    (inside : g < groups) (bound : i < 8192) : bit (blockImage next.device.disk (bitmapBlock m.device.disk g)) i =
      (decide (g = groupOf m nr ∧ i = indexOf m nr) || bit (blockImage m.device.disk (bitmapBlock m.device.disk g)) i) := by
  obtain ⟨group,index,_,_⟩ := store.bounds range
  obtain ⟨block,_,disk⟩ := wrote.disk
  have away := store.bitmapInodes g inside _ group (indexOf m nr/8) (by omega)
  rw [disk,blockImage_put_other _ _ away.symm]
  by_cases here : g = groupOf m nr
  · subst here
    have agree := blockImage_put_same m.device.disk
      (setBit (blockImage m.device.disk (bitmapBlock m.device.disk (groupOf m nr))) (indexOf m nr))
      (rfl : slot (bitmapBlock m.device.disk (groupOf m nr)) = slot (bitmapBlock m.device.disk (groupOf m nr)))
    rw [bit,agree (i/8) (Nat.zero_le _) (by omega)]
    have marked := bit_setBit (blockImage m.device.disk (bitmapBlock m.device.disk (groupOf m nr))) (indexOf m nr) i
    rw [bit] at marked
    rw [marked]
    simp
  · rw [blockImage_put_other _ _ (store.bitmaps _ group g inside (Ne.symm here))]
    simp [here]

theorem Wrote.taken (wrote : Wrote m next inode nr) (store : InodeStore m groups) (range : InRange m groups nr)
    (range' : InRange m groups other) : taken next other = (decide (other = nr) || taken m other) := by
  obtain ⟨group,_,bound,_⟩ := store.bounds range'
  have position := bitmapBlock_same (wrote.table store range) (groupOf m other)
  have marked := wrote.bitmap store range group bound
  simp only [← same_place range range'] at marked
  rw [Ext2Inodes.taken,groupOf_same wrote.superblock,indexOf_same wrote.superblock,position,marked]
  rfl

theorem Wrote.stored (wrote : Wrote m next inode nr) (store : InodeStore m groups) (range : InRange m groups nr)
    (range' : InRange m groups other) : stored next other = if other = nr then inode else stored m other := by
  obtain ⟨group,index,_,_⟩ := store.bounds range
  obtain ⟨group',index',_,_⟩ := store.bounds range'
  have eighth : indexOf m other%8 < 8 := Nat.mod_lt _ (by decide)
  have position := tableBlock_same (wrote.table store range) (groupOf m other) (indexOf m other/8)
  obtain ⟨block,agree,disk⟩ := wrote.disk
  have unfolded : Ext2Inodes.stored next other =
      inodeAt (blockImage next.device.disk (tableBlock m.device.disk (groupOf m other) (indexOf m other/8))) (indexOf m other%8) := by
    rw [Ext2Inodes.stored,groupOf_same wrote.superblock,indexOf_same wrote.superblock,position]
  rw [unfolded,disk]
  by_cases block_ : (groupOf m nr,indexOf m nr/8) = (groupOf m other,indexOf m other/8)
  · -- The same table block: the slot decides.
    obtain ⟨sameGroup,sameBlock⟩ := Prod.mk.inj block_
    rw [inodeAt_agree (blockImage_put_same _ block (by rw [sameGroup,sameBlock])) eighth,inodeAt_agree agree eighth,inodeAt_setInode]
    have which : indexOf m other%8 = indexOf m nr%8 ↔ other = nr := by
      rw [same_place range range']
      omega
    simp only [which]
    rw [sameGroup,sameBlock]
    rfl
  · have away := store.inodes _ group _ group' _ _ (by omega) (by omega) block_
    have apart := store.bitmapInodes _ group _ group' (indexOf m other/8) (by omega)
    rw [blockImage_put_other _ _ away,blockImage_put_other _ _ apart]
    have differ : other ≠ nr := by
      rintro rfl
      exact block_ rfl
    rw [if_neg differ]
    rfl

-- A device with the group sizes that fill_superblock sets and the block numbers
-- that fill_block_group_descriptor puts into the descriptors of its groups.
structure LaidOut (m : Mount) (groups : Nat) : Prop where
  sectors : m.device.sectorSize = 512
  few : groups ≤ 32
  blocksPerGroup : sBlocksPerGroup m.superblock = 1024*8
  inodesPerGroup : sInodesPerGroup m.superblock = 1712
  descriptors : ∀ g < groups,
    bgInodeBitmap (blockImage m.device.disk 2) g = bgInodeBitmap (fillBlockGroupDescriptor blank m.superblock g) g ∧
    bgInodeTable (blockImage m.device.disk 2) g = bgInodeTable (fillBlockGroupDescriptor blank m.superblock g) g

theorem descriptor_inodes (table sb : Bytes) (g : Nat) (small : g*sBlocksPerGroup sb+5 < 4294967296) :
    bgInodeBitmap (fillBlockGroupDescriptor table sb g) g = g*sBlocksPerGroup sb+4 ∧
    bgInodeTable (fillBlockGroupDescriptor table sb g) g = g*sBlocksPerGroup sb+5 := by
  simp only [bgInodeBitmap,bgInodeTable,fillBlockGroupDescriptor]
  constructor
  · rw [get32_agree (agree_fill (by omega)),get32_agree (agree_put16 (by omega)),get32_agree (agree_put16 (by omega)),
      get32_agree (agree_put32 (by omega)),get32_put32]
    omega
  · rw [get32_agree (agree_fill (by omega)),get32_agree (agree_put16 (by omega)),get32_agree (agree_put16 (by omega)),get32_put32]
    omega

theorem LaidOut.blocks (laid : LaidOut m groups) (inside : g < groups) :
    bitmapBlock m.device.disk g = g*8192+4 ∧ ∀ k < 214, tableBlock m.device.disk g k = g*8192+5+k := by
  have few := laid.few
  obtain ⟨bitmap,table⟩ := laid.descriptors g inside
  have group := laid.blocksPerGroup
  obtain ⟨four,five⟩ := descriptor_inodes blank m.superblock g (by rw [group]; omega)
  rw [four,group] at bitmap
  rw [five,group] at table
  refine ⟨bitmap,?_⟩
  intro k small
  rw [tableBlock,table]
  exact Nat.mod_eq_of_lt (by unfold word; omega)

theorem LaidOut.store (laid : LaidOut m groups) : InodeStore m groups := by
  have few := laid.few
  have small : ∀ k, k*8 < sInodesPerGroup m.superblock → k < 214 := by
    intro k below
    rw [laid.inodesPerGroup] at below
    omega
  have bitmap : ∀ g < groups, slot (bitmapBlock m.device.disk g) = g*8192+4 := by
    intro g inside
    rw [(laid.blocks inside).1]
    exact slot_small (by omega)
  have table : ∀ g < groups, ∀ k, k*8 < sInodesPerGroup m.superblock → slot (tableBlock m.device.disk g k) = g*8192+5+k := by
    intro g inside k below
    have bound := small k below
    rw [(laid.blocks inside).2 k bound]
    exact slot_small (by omega)
  refine ⟨laid.sectors,few,by rw [laid.inodesPerGroup]; decide,?_,?_,?_,?_,?_⟩
  · intro g inside
    rw [bitmap g inside]
    omega
  · intro g inside k _ below
    rw [table g inside k below]
    omega
  · intro g one h two differ
    rw [bitmap g one,bitmap h two]
    omega
  · intro g one h two k below
    have bound := small k below
    rw [bitmap g one,table h two k below]
    omega
  · intro g one h two k l first second differ
    have bound := small k first
    have bound' := small l second
    rw [table g one k first,table h two l second]
    intro same
    exact differ (Prod.ext (show g = h by omega) (show k = l by omega))

theorem inode_store_is_array (laid : LaidOut m groups) (range : InRange m groups n) (inode : Inode) :
    ∃ next, ext2WriteInode m inode n = some (.noError,next) ∧ readResult next n = some (.noError,inode) ∧
      (∀ k, InRange m groups k → k ≠ n → readResult next k = readResult m k ∧ (readResult m k).isSome) ∧
      (∀ g < groups, ∀ i < 8192, (g,i) ≠ (groupOf m n,indexOf m n) →
        bit (blockImage next.device.disk (bitmapBlock m.device.disk g)) i =
          bit (blockImage m.device.disk (bitmapBlock m.device.disk g)) i) ∧
      ∀ b < 2147483648, b ≠ bitmapBlock m.device.disk (groupOf m n) →
        b ≠ tableBlock m.device.disk (groupOf m n) (indexOf m n/8) →
        blockImage next.device.disk b = blockImage m.device.disk b := by
  have store := laid.store
  obtain ⟨next,ran,wrote⟩ := store.write range inode
  have after := wrote.store store range
  have still : ∀ k, InRange m groups k → InRange next groups k := fun k => (inRange_same wrote.superblock).mpr
  refine ⟨next,ran,?_,?_,?_,?_⟩
  · rw [after.read_result (still n range),wrote.taken store range range,wrote.stored store range range]
    simp
  · intro k inside differ
    rw [after.read_result (still k inside),store.read_result inside,wrote.taken store range inside,
      wrote.stored store range inside,if_neg differ]
    simp [differ]
  · intro g inside i bound differ
    rw [wrote.bitmap store range inside bound]
    have apart : ¬ (g = groupOf m n ∧ i = indexOf m n) := fun ⟨one,two⟩ => differ (by rw [one,two])
    simp [apart]
  · intro b small one two
    obtain ⟨group,index,_,_⟩ := store.bounds range
    have few := store.few
    obtain ⟨bitmap,table⟩ := laid.blocks group
    rw [laid.inodesPerGroup] at index
    refine wrote.elsewhere ?_ ?_
    · rw [bitmap,slot_small small,slot_small (by omega)]
      rw [bitmap] at one
      exact one.symm
    · rw [table _ (by omega),slot_small small,slot_small (by omega)]
      rw [table _ (by omega)] at two
      exact two.symm

def laidSuperblock : Bytes := put16 (put32 (put32 (put32 blank 4 8192) 32 8192) 40 1712) 88 128
def laidMount : Mount :=
  ⟨⟨512,8192,putBlock blank 2 (fillBlockGroupDescriptor blank laidSuperblock 0),blank,[]⟩,laidSuperblock⟩

theorem laidMount_laidOut : LaidOut laidMount 1 := by
  refine ⟨rfl,by decide,by decide,by decide,?_⟩
  intro g inside
  cases (show g = 0 by omega)
  exact ⟨by decide,by decide⟩

theorem inode_store_is_array_laidMount : ∃ next, ext2WriteInode laidMount (fun i => BitVec.ofNat 8 i.val) 2 = some (.noError,next) ∧
    readResult next 2 = some (.noError,fun i => BitVec.ofNat 8 i.val) := by
  have perGroup : sInodesPerGroup laidMount.superblock = 1712 := by decide
  have range : InRange laidMount 1 2 := by
    rw [InRange,perGroup]
    decide
  obtain ⟨next,ran,back,_⟩ := inode_store_is_array laidMount_laidOut range (fun i => BitVec.ofNat 8 i.val)
  exact ⟨next,ran,back⟩

end KaracaOS.Ext2Inodes
