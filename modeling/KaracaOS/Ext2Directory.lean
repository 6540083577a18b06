import KaracaOS.Ext2Inodes
import KaracaOS.Ext2Records

namespace KaracaOS.Ext2Directory
open ByteMemory Bitmap BlockDevice Ext2Fields Ext2Inodes Ext2Records

def iLinksCount (inode : Inode) : Nat := get16 (setInode blank 0 inode) 26
def iBlock (inode : Inode) (k : Nat) : Nat := get32 (setInode blank 0 inode) (40+4*k)
def setLinksCount (inode : Inode) (value : Nat) : Inode := inodeAt (put16 (setInode blank 0 inode) 26 value) 0

-- The results of both ext2_read_inode calls are dropped: an inode that is not
-- there is used as zero bytes. none: one of the calls leaves its arrays, or the
-- walk does not end.
def ext2AddLink (m : Mount) (dirInode : Nat) (name : Bytes) (type nameLen inode : Nat) : Option (SysRet × Mount) := do
  let (_,dir,m) ← ext2ReadInode m dirInode
  let (_,addedInode,m) ← ext2ReadInode m inode
  let dirBlockNr := iBlock dir 0
  let rwBuffer := (ext2ReadBlocks m.device dirBlockNr m.device.rwBuffer 1).2
  let (_,element) ← walkDirectory rwBuffer
  let rwBuffer := putRecord rwBuffer element.bufferPos inode name nameLen type
  let device := (ext2WriteBlocks {m.device with rwBuffer := rwBuffer} dirBlockNr rwBuffer 1).2
  let (_,m) ← ext2WriteInode {m with device := device} (setLinksCount addedInode (iLinksCount addedInode+1)) inode
  pure (.noError,m)

def addLinks (m : Mount) (dirInode : Nat) : List Link → Option Mount
  | [] => some m
  | link::rest =>
    match ext2AddLink m dirInode link.bytes link.type.toNat link.name.length link.inode with
    | some (.noError,next) => addLinks next dirInode rest
    | _ => none

def linked (inode : Inode) (n : Nat) : Inode := setLinksCount inode (iLinksCount inode+n)
def timesLinked (links : List Link) (nr : Nat) : Nat := (links.map Link.inode).count nr

variable {d : Device} {m next : Mount} {groups dir nr : Nat} {inode : Inode} {link : Link} {links before : List Link}

theorem setInode_inodeAt (bytes : Bytes) : Agree (setInode blank 0 (inodeAt bytes 0)) bytes 0 128 := by
  intro i low high
  rw [setInode,dif_pos (by omega)]
  show bytes (128*0+(i-128*0)) = bytes i
  congr 1
  omega

theorem links_setLinks (inode : Inode) (value : Nat) : iLinksCount (setLinksCount inode value) = value%65536 := by
  rw [iLinksCount,setLinksCount,get16_agree ((setInode_inodeAt _).narrow (by omega) (by omega)),get16_put16]

theorem block_setLinks (inode : Inode) (value : Nat) (small : k < 15) : iBlock (setLinksCount inode value) k = iBlock inode k := by
  rw [iBlock,setLinksCount,get32_agree ((setInode_inodeAt _).narrow (by omega) (by omega)),get32_agree (agree_put16 (by omega))]
  rfl

theorem setLinks_other (inode : Inode) (value : Nat) {i : Fin 128} (out : i.val < 26 ∨ 28 ≤ i.val) :
    setLinksCount inode value i = inode i := by
  show put16 (setInode blank 0 inode) 26 value (128*0+i.val) = inode i
  rw [put16_other (by omega)]
  have back := inodeAt_setInode blank 0 0 inode
  rw [if_pos rfl] at back
  exact congrFun back i

-- The count is two bytes; with the other 126 it makes up the inode.
theorem inode_ext {left right : Inode} (count : iLinksCount left = iLinksCount right)
    (others : ∀ i : Fin 128, i.val < 26 ∨ 28 ≤ i.val → left i = right i) : left = right := by
  have bytes : ∀ (inode : Inode) (i : Nat) (inside : i < 128), setInode blank 0 inode i = inode ⟨i,inside⟩ := by
    intro inode i inside
    rw [setInode,dif_pos (by omega)]
    congr 1
  simp only [iLinksCount,get16,get8,bytes _ _ (show 26 < 128 by decide),bytes _ _ (show 27 < 128 by decide)] at count
  have low := (left ⟨26,by decide⟩).isLt
  have low' := (right ⟨26,by decide⟩).isLt
  funext i
  by_cases first : i.val = 26
  · rw [show i = ⟨26,by decide⟩ from Fin.ext first]
    apply BitVec.eq_of_toNat_eq
    omega
  · by_cases second : i.val = 27
    · rw [show i = ⟨27,by decide⟩ from Fin.ext second]
      apply BitVec.eq_of_toNat_eq
      omega
    · exact others i (by omega)

theorem linked_zero (inode : Inode) : linked inode 0 = inode := by
  apply inode_ext
  · rw [linked,links_setLinks]
    exact Nat.mod_eq_of_lt (get16_lt _ _)
  · intro i out
    exact setLinks_other _ _ out

theorem linked_linked (inode : Inode) (n k : Nat) : linked (linked inode n) k = linked inode (n+k) := by
  apply inode_ext
  · simp only [linked,links_setLinks]
    omega
  · intro i out
    simp only [linked,setLinks_other _ _ out]

-- A block that is neither the descriptor table nor an inode bitmap.
structure Spared (m : Mount) (groups b : Nat) : Prop where
  table : slot b ≠ 2
  bitmaps : ∀ g < groups, slot (bitmapBlock m.device.disk g) ≠ slot b

-- A block that holds no part of the inode store.
structure Outside (m : Mount) (groups b : Nat) : Prop where
  table : slot b ≠ 2
  bitmaps : ∀ g < groups, slot (bitmapBlock m.device.disk g) ≠ slot b
  inodes : ∀ g < groups, ∀ k, k*8 < sInodesPerGroup m.superblock → slot (tableBlock m.device.disk g k) ≠ slot b

theorem Outside.spared (outside : Outside m groups b) : Spared m groups b := ⟨outside.table,outside.bitmaps⟩

theorem Outside.same (outside : Outside m groups b) (superblock : next.superblock = m.superblock)
    (table : blockImage next.device.disk 2 = blockImage m.device.disk 2) : Outside next groups b := by
  refine ⟨outside.table,?_,?_⟩ <;> simp only [superblock,bitmapBlock_same table,tableBlock_same table]
  · exact outside.bitmaps
  · exact outside.inodes

structure Filled (m next : Mount) (b : Nat) (buffer : Bytes) : Prop where
  sectors : next.device.sectorSize = 512
  superblock : next.superblock = m.superblock
  disk : next.device.disk = putBlock m.device.disk b buffer

theorem Filled.put (sectors : d.sectorSize = 512) (superblock : sb = m.superblock) (disk : d.disk = m.device.disk)
    (b : Nat) (buffer : Bytes) : Filled m ⟨d.put b buffer,sb⟩ b buffer :=
  ⟨(put_sectorSize d b buffer).trans sectors,superblock,by rw [put_disk,disk]⟩

theorem Filled.elsewhere (filled : Filled m next b buffer) (differ : slot c ≠ slot b) :
    blockImage next.device.disk c = blockImage m.device.disk c := by
  rw [filled.disk,blockImage_put_other _ _ differ.symm]

theorem Filled.table (filled : Filled m next b buffer) (outside : Outside m groups b) :
    blockImage next.device.disk 2 = blockImage m.device.disk 2 := filled.elsewhere (Ne.symm outside.table)

theorem Filled.taken (filled : Filled m next b buffer) (spared : Spared m groups b) (store : InodeStore m groups)
    (range : InRange m groups nr) : taken next nr = taken m nr := by
  obtain ⟨group,_⟩ := store.bounds range
  rw [Ext2Inodes.taken,groupOf_same filled.superblock,indexOf_same filled.superblock,
    bitmapBlock_same (filled.elsewhere (Ne.symm spared.table)),filled.elsewhere (spared.bitmaps _ group)]
  rfl

theorem Filled.stored (filled : Filled m next b buffer) (outside : Outside m groups b) (store : InodeStore m groups)
    (range : InRange m groups nr) : stored next nr = stored m nr := by
  obtain ⟨group,index,_⟩ := store.bounds range
  rw [Ext2Inodes.stored,groupOf_same filled.superblock,indexOf_same filled.superblock,
    tableBlock_same (filled.table outside),filled.elsewhere (outside.inodes _ group _ (by omega))]
  rfl

-- The data block of a directory and the links it lists. Before the first link the
-- rec_len of the terminator is whatever the block holds.
def dirBlock (m : Mount) (dir : Nat) : Bytes := blockImage m.device.disk (iBlock (stored m dir) 0)

structure Directory (m : Mount) (groups dir : Nat) (links : List Link) : Prop where
  store : InodeStore m groups
  range : InRange m groups dir
  allocated : taken m dir = true
  outside : Outside m groups (iBlock (stored m dir) 0)
  listed : Listed (dirBlock m dir) 0 links
  nonzero : ∀ link ∈ links, link.inode ≠ 0
  ended : get32 (dirBlock m dir) (totalSize links) = 0
  closed : links ≠ [] → get16 (dirBlock m dir) (totalSize links+4) = 1024-totalSize links

structure Linked (m next : Mount) (groups : Nat) (link : Link) : Prop where
  sectors : next.device.sectorSize = 512
  superblock : next.superblock = m.superblock
  table : blockImage next.device.disk 2 = blockImage m.device.disk 2
  bitmap : ∀ k, InRange m groups k → taken next k = taken m k
  inodes : ∀ k, InRange m groups k → stored next k = if k = link.inode then linked (stored m k) 1 else stored m k

-- A call that finds both inodes: the block is filled with the new records, then
-- the target is written with one link more.
structure AddedLink (m middle next : Mount) (dir : Nat) (links : List Link) (link : Link) (buffer : Bytes) : Prop where
  filled : Filled m middle (iBlock (stored m dir) 0) buffer
  record : PutRecord (dirBlock m dir) buffer (totalSize links) link
  wrote : Wrote middle next (linked (stored m link.inode) 1) link.inode

theorem Directory.walk (directory : Directory m groups dir links) (agree : Agree buffer (dirBlock m dir) 0 1024)
    (fits : totalSize links+8 ≤ 1024) : walkDirectory buffer =
      some (elementsOf buffer 0 links,elementAt buffer (totalSize links)) := by
  have listed := directory.listed.agree (agree.symm.narrow (Nat.le_refl _) (by omega))
  have ended : get32 buffer (0+totalSize links) = 0 := by
    rw [Nat.zero_add,← directory.ended]
    exact get32_agree (agree.narrow (by omega) (by omega))
  have few := length_totalSize links
  have walked := listed.walk directory.nonzero ended (by unfold word; omega) (show links.length < word by unfold word; omega)
  rwa [Nat.zero_add] at walked

-- A directory as ext2_add_link finds it, whatever its block holds.
structure Entry (m : Mount) (groups dir : Nat) : Prop where
  store : InodeStore m groups
  range : InRange m groups dir
  allocated : taken m dir = true
  outside : Outside m groups (iBlock (stored m dir) 0)

theorem Directory.entry (directory : Directory m groups dir links) : Entry m groups dir :=
  ⟨directory.store,directory.range,directory.allocated,directory.outside⟩

-- The shared buffer behind the block that is being worked on.
def SameTail (left right : Bytes) : Prop := ∀ i, 1024 ≤ i → left i = right i

theorem SameTail.trans (one : SameTail left middle) (two : SameTail middle right) : SameTail left right :=
  fun i high => (one i high).trans (two i high)

theorem readInode_tail (sectors : m.device.sectorSize = 512) (ran : ext2ReadInode m nr = some (ret,inode,next)) :
    SameTail next.device.rwBuffer m.device.rwBuffer := by
  unfold ext2ReadInode at ran
  split at ran
  · cases ran
  · dsimp only at ran
    split at ran
    · cases ran
      exact fun _ _ => rfl
    · cases ran
      intro i high
      show (ext2ReadBlocks m.device _ m.device.rwBuffer 1).2 i = _
      rw [read_block sectors]
      exact blit_outside (.inr (by omega))

theorem storeInode_tail (sectors : d.sectorSize = 512) (target : Nat) (small : k < 8) (inode : Inode) :
    SameTail (storeInode d target k inode).rwBuffer d.rwBuffer := by
  intro i high
  have whole : (storeInode d target k inode).rwBuffer = setInode (blit d.rwBuffer 0 d.disk (offset target) 1024) k inode := by
    simp only [storeInode,read_block sectors]
    rw [write_block (by exact sectors)]
    rfl
  rw [whole,setInode,dif_neg (by omega),blit_outside (.inr (by omega))]

theorem writeInode_tail (sectors : m.device.sectorSize = 512) (ran : ext2WriteInode m inode nr = some (ret,next)) :
    SameTail next.device.rwBuffer m.device.rwBuffer := by
  unfold ext2WriteInode at ran
  split at ran
  · cases ran
  · cases ran
    rw [write_block sectors]
    exact storeInode_tail (by exact sectors) _ (Nat.mod_lt _ (by decide)) inode

-- The buffer that is walked: the block of the directory, and what lies behind it.
def loaded (m : Mount) (dir : Nat) : Bytes := blit m.device.rwBuffer 0 m.device.disk (offset (iBlock (stored m dir) 0)) 1024

theorem loaded_agree (m : Mount) (dir : Nat) : Agree (loaded m dir) (dirBlock m dir) 0 1024 := buffer_agree _ _ _

theorem blit_tail (tail : SameTail left right) (source : Bytes) (from_ : Nat) : blit left 0 source from_ 1024 = blit right 0 source from_ 1024 := by
  funext i
  by_cases inside : i < 1024
  · rw [blit_inside (Nat.zero_le _) (by omega),blit_inside (Nat.zero_le _) (by omega)]
  · rw [blit_outside (.inr (by omega)),blit_outside (.inr (by omega)),tail i (by omega)]

-- What a call goes on with: an inode that is not there is read as zero bytes.
def fetched (m : Mount) (nr : Nat) : Inode := if taken m nr then stored m nr else zeroInode
def linkBlock (m : Mount) (dir : Nat) : Nat := iBlock (fetched m dir) 0
def linkBuffer (m : Mount) (dir : Nat) : Bytes := blit m.device.rwBuffer 0 m.device.disk (offset (linkBlock m dir)) 1024

theorem fetched_taken (allocated : taken m nr = true) : fetched m nr = stored m nr := by
  rw [fetched,if_pos allocated]

theorem SameDisk.fetched (same : SameDisk m next) (nr : Nat) : fetched next nr = fetched m nr := by
  rw [Ext2Directory.fetched,same.taken,same.stored]
  rfl

theorem fetch (store : InodeStore m groups) (range : InRange m groups nr) :
    ∃ ret after, SameDisk m after ∧ ext2ReadInode m nr = some (ret,fetched m nr,after) := by
  obtain ⟨after,same,ran⟩ := store.read range
  rw [fetched]
  cases allocated : taken m nr with
  | true =>
    rw [allocated,if_pos rfl] at ran
    exact ⟨_,after,same,ran⟩
  | false =>
    rw [allocated,if_neg (by decide)] at ran
    exact ⟨_,m,⟨rfl,rfl,rfl⟩,ran⟩

theorem addLink_begin (store : InodeStore m groups) (directory : InRange m groups dir) (range : InRange m groups nr)
    (name : Bytes) (type nameLen : Nat) :
    ∃ second, SameDisk m second ∧ ext2AddLink m dir name type nameLen nr =
      (walkDirectory (linkBuffer m dir)).bind fun walked =>
        let buffer := putRecord (linkBuffer m dir) walked.2.bufferPos nr name nameLen type
        (ext2WriteInode ⟨({second.device with rwBuffer := buffer} : Device).put (linkBlock m dir) buffer,second.superblock⟩
          (linked (fetched m nr) 1) nr).map fun wrote => (.noError,wrote.2) := by
  obtain ⟨_,first,same,readDir⟩ := fetch store directory
  obtain ⟨_,second,same',readInode⟩ := fetch (same.store store) ((inRange_same same.superblock).mpr range)
  have tail := (readInode_tail (same.sectors.trans store.sectors) readInode).trans (readInode_tail store.sectors readDir)
  rw [SameDisk.fetched same] at readInode
  have both : SameDisk m second := ⟨same'.sectors.trans same.sectors,same'.disk.trans same.disk,same'.superblock.trans same.superblock⟩
  have sectors : second.device.sectorSize = 512 := both.sectors.trans store.sectors
  have buffer : blit second.device.rwBuffer 0 second.device.disk (offset (iBlock (fetched m dir) 0)) 1024 = linkBuffer m dir := by
    rw [both.disk]
    exact blit_tail tail _ _
  refine ⟨second,both,?_⟩
  simp only [ext2AddLink,readDir,readInode,Option.bind_eq_bind,Option.bind_some,read_block sectors,buffer]
  congr 1
  funext walked
  rw [write_block (by exact sectors),← linked,← linkBlock]
  cases ext2WriteInode _ (linked (fetched m nr) 1) nr <;> rfl

theorem addLink_writes (store : InodeStore m groups) (directory : InRange m groups dir) (range : InRange m groups nr)
    (away : slot (linkBlock m dir) ≠ 2) (walked : walkDirectory (linkBuffer m dir) = some (passed,last)) (name : Bytes) (type nameLen : Nat) :
    ∃ middle next, ext2AddLink m dir name type nameLen nr = some (.noError,next) ∧
      Filled m middle (linkBlock m dir) (putRecord (linkBuffer m dir) last.bufferPos nr name nameLen type) ∧
      Wrote middle next (linked (fetched m nr) 1) nr ∧
      SameTail next.device.rwBuffer (putRecord (linkBuffer m dir) last.bufferPos nr name nameLen type) := by
  obtain ⟨second,same,ran⟩ := addLink_begin store directory range name type nameLen
  rw [walked,Option.bind_some] at ran
  dsimp only at ran
  generalize putRecord (linkBuffer m dir) last.bufferPos nr name nameLen type = buffer at ran ⊢
  have sectors : second.device.sectorSize = 512 := same.sectors.trans store.sectors
  have filled : Filled m ⟨({second.device with rwBuffer := buffer} : Device).put (linkBlock m dir) buffer,second.superblock⟩
      (linkBlock m dir) buffer := Filled.put (by exact sectors) same.superblock (by exact same.disk) _ _
  have after := store.same filled.sectors filled.superblock (filled.elsewhere (Ne.symm away))
  obtain ⟨next,wrote,effect⟩ := after.write ((inRange_same filled.superblock).mpr range) (linked (fetched m nr) 1)
  have tail := writeInode_tail filled.sectors wrote
  rw [wrote] at ran
  exact ⟨_,next,ran,filled,effect,tail⟩

theorem addLink_wrote (store : InodeStore m groups) (directory : InRange m groups dir) (range : InRange m groups nr)
    (away : slot (linkBlock m dir) ≠ 2) (ran : ext2AddLink m dir name type nameLen nr = some (ret,next)) :
    ∃ last middle, Filled m middle (linkBlock m dir) (putRecord (linkBuffer m dir) last nr name nameLen type) ∧
      Wrote middle next (linked (fetched m nr) 1) nr := by
  obtain ⟨second,_,begun⟩ := addLink_begin store directory range name type nameLen
  cases walked : walkDirectory (linkBuffer m dir) with
  | none =>
    rw [begun,walked] at ran
    cases ran
  | some outcome =>
    obtain ⟨passed,last⟩ := outcome
    obtain ⟨middle,after,ran',filled,wrote,_⟩ := addLink_writes store directory range away walked name type nameLen
    cases Option.some.inj (ran.symm.trans ran')
    exact ⟨last.bufferPos,middle,filled,wrote⟩

theorem Entry.reads (entry : Entry m groups dir) : linkBlock m dir = iBlock (stored m dir) 0 ∧ linkBuffer m dir = loaded m dir := by
  have block : linkBlock m dir = iBlock (stored m dir) 0 := by rw [linkBlock,fetched_taken entry.allocated]
  refine ⟨block,?_⟩
  rw [linkBuffer,block]
  rfl

theorem Entry.stuck (entry : Entry m groups dir) (range : InRange m groups link.inode)
    (endless : walkDirectory (loaded m dir) = none) : ext2AddLink m dir link.bytes link.type.toNat link.name.length link.inode = none := by
  obtain ⟨second,_,ran⟩ := addLink_begin entry.store entry.range range link.bytes link.type.toNat link.name.length
  rw [ran,entry.reads.2,endless]
  rfl

theorem Entry.add (entry : Entry m groups dir) (range : InRange m groups link.inode) (allocated : taken m link.inode = true)
    (walked : walkDirectory (loaded m dir) = some (passed,last)) :
    ∃ middle next, ext2AddLink m dir link.bytes link.type.toNat link.name.length link.inode = some (.noError,next) ∧
      Filled m middle (iBlock (stored m dir) 0) (putRecord (loaded m dir) last.bufferPos link.inode link.bytes link.name.length link.type.toNat) ∧
      Wrote middle next (linked (stored m link.inode) 1) link.inode ∧
      SameTail next.device.rwBuffer (putRecord (loaded m dir) last.bufferPos link.inode link.bytes link.name.length link.type.toNat) := by
  obtain ⟨block,buffer⟩ := entry.reads
  rw [← fetched_taken allocated,← block,← buffer]
  exact addLink_writes entry.store entry.range range (by rw [block]; exact entry.outside.table) (by rwa [buffer]) _ _ _

theorem Directory.add (directory : Directory m groups dir links) (range : InRange m groups link.inode)
    (allocated : taken m link.inode = true) (fits : totalSize links+link.size+8 ≤ 1024) :
    ∃ middle next buffer, AddedLink m middle next dir links link buffer ∧
      ext2AddLink m dir link.bytes link.type.toNat link.name.length link.inode = some (.noError,next) := by
  have agree := loaded_agree m dir
  obtain ⟨middle,next,ran,filled,wrote,_⟩ := directory.entry.add range allocated (directory.walk agree (by omega))
  have puts := putRecord_puts (loaded m dir) (directory.store.small range) (show totalSize links+link.size ≤ 1024 by omega)
  exact ⟨middle,next,_,⟨filled,⟨puts.before.trans (agree.narrow (Nat.le_refl _) (by omega)),puts.record,puts.inode,puts.recLen⟩,wrote⟩,ran⟩

theorem Entry.linked {middle : Mount} (entry : Entry m groups dir) (filled : Filled m middle (iBlock (stored m dir) 0) buffer)
    (wrote : Wrote middle next (linked (stored m link.inode) 1) link.inode) (range : InRange m groups link.inode)
    (allocated : taken m link.inode = true) : Linked m next groups link := by
  have table := filled.table entry.outside
  have store := entry.store.same filled.sectors filled.superblock table
  have inside : ∀ k, InRange m groups k → InRange middle groups k := fun k => (inRange_same filled.superblock).mpr
  refine ⟨wrote.sectors,wrote.superblock.trans filled.superblock,(wrote.table store (inside _ range)).trans table,?_,?_⟩
  · intro k belongs
    rw [wrote.taken store (inside _ range) (inside k belongs),filled.taken entry.outside.spared entry.store belongs]
    by_cases target : k = link.inode
    · rw [target,allocated]
      simp
    · simp [target]
  · intro k belongs
    rw [wrote.stored store (inside _ range) (inside k belongs),filled.stored entry.outside entry.store belongs]
    by_cases target : k = link.inode
    · rw [if_pos target,if_pos target,target]
    · rw [if_neg target,if_neg target]

theorem Entry.kept {middle : Mount} (entry : Entry m groups dir) (filled : Filled m middle (iBlock (stored m dir) 0) buffer)
    (wrote : Wrote middle next inode nr) (range : InRange m groups nr) (outside : Outside m groups b) :
    blockImage next.device.disk b = blockImage middle.device.disk b := by
  have table := filled.table entry.outside
  have outside' := outside.same filled.superblock table
  have store := entry.store.same filled.sectors filled.superblock table
  obtain ⟨group,index,_⟩ := store.bounds ((inRange_same filled.superblock).mpr range)
  exact wrote.elsewhere (outside'.bitmaps _ group) (outside'.inodes _ group _ (by omega))

theorem AddedLink.linked (added : AddedLink m middle next dir links link buffer) (directory : Directory m groups dir links)
    (range : InRange m groups link.inode) (allocated : taken m link.inode = true) : Linked m next groups link :=
  directory.entry.linked added.filled added.wrote range allocated

theorem Linked.block (effect : Linked m next groups link) (range : InRange m groups dir) :
    iBlock (stored next dir) 0 = iBlock (stored m dir) 0 := by
  rw [effect.inodes dir range]
  split
  · exact block_setLinks _ _ (by decide)
  · rfl

theorem Linked.entry (effect : Linked m next groups link) (entry : Entry m groups dir) : Entry next groups dir := by
  refine ⟨entry.store.same effect.sectors effect.superblock effect.table,(inRange_same effect.superblock).mpr entry.range,
    (effect.bitmap dir entry.range).trans entry.allocated,?_⟩
  rw [effect.block entry.range]
  exact entry.outside.same effect.superblock effect.table

theorem AddedLink.block (added : AddedLink m middle next dir links link buffer) (directory : Directory m groups dir links)
    (range : InRange m groups link.inode) (effect : Linked m next groups link) : Agree (dirBlock next dir) buffer 0 1024 := by
  rw [dirBlock,effect.block directory.range,directory.entry.kept added.filled added.wrote range directory.outside,added.filled.disk]
  exact blockImage_put_same _ _ rfl

theorem AddedLink.directory (added : AddedLink m middle next dir links link buffer) (directory : Directory m groups dir links)
    (range : InRange m groups link.inode) (fits : totalSize links+link.size+8 ≤ 1024) (effect : Linked m next groups link) :
    Directory next groups dir (links++[link]) := by
  have block := added.block directory range effect
  have puts := added.record
  have whole : totalSize (links++[link]) = totalSize links+link.size := totalSize_append links link
  have earlier : Agree (dirBlock m dir) (dirBlock next dir) 0 (totalSize links) :=
    puts.before.symm.trans (block.symm.narrow (Nat.le_refl _) (by omega))
  have record : Record (dirBlock next dir) (0+totalSize links) link := by
    rw [Nat.zero_add]
    exact puts.record.agree (block.symm.narrow (Nat.zero_le _) (by omega))
  obtain ⟨store,inside,allocated,outside⟩ := effect.entry directory.entry
  refine ⟨store,inside,allocated,outside,(directory.listed.agree earlier).append record,?_,?_,?_⟩
  · intro one member
    rcases List.mem_append.mp member with old | new
    · exact directory.nonzero one old
    · rw [List.mem_singleton.mp new]
      exact Nat.ne_of_gt range.1
  · rw [whole,get32_agree (block.narrow (Nat.zero_le _) (by omega))]
    exact puts.inode
  · intro _
    rw [whole,get16_agree (block.narrow (Nat.zero_le _) (by omega))]
    exact puts.recLen

structure LinkedAll (m next : Mount) (groups : Nat) (links : List Link) : Prop where
  superblock : next.superblock = m.superblock
  bitmap : ∀ k, InRange m groups k → taken next k = taken m k
  inodes : ∀ k, InRange m groups k → stored next k = linked (stored m k) (timesLinked links k)

theorem LinkedAll.nil (m : Mount) (groups : Nat) : LinkedAll m m groups [] :=
  ⟨rfl,fun _ _ => rfl,fun k _ => (linked_zero (stored m k)).symm⟩

theorem LinkedAll.cons {middle : Mount} (first : Linked m middle groups link) (rest : LinkedAll middle next groups links) :
    LinkedAll m next groups (link::links) := by
  have inside : ∀ k, InRange m groups k → InRange middle groups k := fun k => (inRange_same first.superblock).mpr
  refine ⟨rest.superblock.trans first.superblock,?_,?_⟩
  · intro k belongs
    exact (rest.bitmap k (inside k belongs)).trans (first.bitmap k belongs)
  · intro k belongs
    rw [rest.inodes k (inside k belongs),first.inodes k belongs,timesLinked,timesLinked,List.map_cons,List.count_cons]
    by_cases target : k = link.inode
    · rw [if_pos target,linked_linked,Nat.add_comm]
      simp [target]
    · rw [if_neg target]
      simp [Ne.symm target]

def Targets (m : Mount) (groups : Nat) (links : List Link) : Prop :=
  ∀ link ∈ links, InRange m groups link.inode ∧ taken m link.inode = true

-- The induction is on the links still to add; the invariant is that the block
-- lists those added so far.
theorem Directory.addAll (directory : Directory m groups dir before) (targets : Targets m groups links)
    (fits : totalSize (before++links)+8 ≤ 1024) :
    ∃ next, addLinks m dir links = some next ∧ Directory next groups dir (before++links) ∧ LinkedAll m next groups links := by
  induction links generalizing m before with
  | nil => exact ⟨m,rfl,by rwa [List.append_nil],LinkedAll.nil m groups⟩
  | cons link rest ih =>
      obtain ⟨range,allocated⟩ := targets link List.mem_cons_self
      have room : totalSize before+link.size+8 ≤ 1024 := by
        simp only [totalSize,List.map_append,List.sum_append,List.map_cons,List.sum_cons] at fits ⊢
        omega
      obtain ⟨middle,after,buffer,added,ran⟩ := directory.add range allocated room
      have effect := added.linked directory range allocated
      have longer := added.directory directory range room effect
      have later : Targets after groups rest := by
        intro one member
        obtain ⟨range',allocated'⟩ := targets one (List.mem_cons_of_mem _ member)
        exact ⟨(inRange_same effect.superblock).mpr range',(effect.bitmap _ range').trans allocated'⟩
      rw [show before++link::rest = before++[link]++rest by simp] at fits ⊢
      obtain ⟨next,runs,listed,all⟩ := ih longer later fits
      refine ⟨next,?_,listed,LinkedAll.cons effect all⟩
      rw [addLinks,ran]
      exact runs

-- What a later walk over the block shows. The buffer it is read into may hold
-- anything before.
theorem Directory.visited (directory : Directory m groups dir links) (fits : totalSize links+8 ≤ 1024) (buffer : Bytes) :
    let block := (ext2ReadBlocks m.device (iBlock (stored m dir) 0) buffer 1).2
    ∃ passed last, walkDirectory block = some (passed,last) ∧ passed.map (seen block) = links.map Link.entry ∧ last.inode = 0 ∧
      (links ≠ [] → (passed.map DirectoryElement.recLen).sum+last.recLen = 1024) := by
  rw [read_block directory.store.sectors]
  have agree := buffer_agree buffer m.device.disk (iBlock (stored m dir) 0)
  generalize blit buffer 0 m.device.disk (offset (iBlock (stored m dir) 0)) 1024 = block at agree
  have listed := directory.listed.agree (agree.symm.narrow (Nat.le_refl _) (by omega))
  refine ⟨_,_,directory.walk agree fits,listed.seen,?_,?_⟩
  · exact (get32_agree (agree.narrow (Nat.zero_le _) (by omega))).trans directory.ended
  · intro some_
    have last : (elementAt block (totalSize links)).recLen = 1024-totalSize links :=
      (get16_agree (agree.narrow (Nat.zero_le _) (by omega))).trans (directory.closed some_)
    rw [listed.recLens,last]
    omega

theorem LinkedAll.block (all : LinkedAll m next groups links) (range : InRange m groups dir) :
    iBlock (stored next dir) 0 = iBlock (stored m dir) 0 := by
  rw [all.inodes dir range]
  exact block_setLinks _ _ (by decide)

theorem LinkedAll.read (all : LinkedAll m next groups links) (store : InodeStore next groups) (range : InRange m groups nr) :
    readResult next nr =
      some (if taken m nr then (.noError,linked (stored m nr) (timesLinked links nr)) else (.notFound,zeroInode)) := by
  rw [store.read_result ((inRange_same all.superblock).mpr range),all.bitmap nr range,all.inodes nr range]

theorem directory_round_trip (directory : Directory m groups dir []) (targets : Targets m groups links)
    (fits : totalSize links+8 ≤ 1024) :
    ∃ next, addLinks m dir links = some next ∧
      (∀ buffer, let block := (ext2ReadBlocks next.device (iBlock (stored m dir) 0) buffer 1).2
        ∃ passed last, walkDirectory block = some (passed,last) ∧ passed.map (seen block) = links.map Link.entry ∧ last.inode = 0 ∧
          (links ≠ [] → (passed.map DirectoryElement.recLen).sum+last.recLen = 1024)) ∧
      (∀ link ∈ links, ∃ old new, readResult m link.inode = some (.noError,old) ∧ readResult next link.inode = some (.noError,new) ∧
        iLinksCount new = (iLinksCount old+timesLinked links link.inode)%65536 ∧
        ∀ i : Fin 128, i.val < 26 ∨ 28 ≤ i.val → new i = old i) ∧
      ∀ k, InRange m groups k → k ∉ links.map Link.inode → readResult next k = readResult m k ∧ (readResult m k).isSome := by
  obtain ⟨next,ran,listed,all⟩ := directory.addAll targets (by exact fits)
  rw [List.nil_append] at listed
  refine ⟨next,ran,?_,?_,?_⟩
  · intro buffer
    rw [← all.block directory.range]
    exact listed.visited fits buffer
  · intro link member
    obtain ⟨inside,allocated⟩ := targets link member
    refine ⟨stored m link.inode,linked (stored m link.inode) (timesLinked links link.inode),?_,?_,links_setLinks _ _,?_⟩
    · rw [directory.store.read_result inside,allocated,if_pos rfl]
    · rw [all.read listed.store inside,allocated,if_pos rfl]
    · intro i out
      exact setLinks_other _ _ out
  · intro k inside absent
    have none_ : timesLinked links k = 0 := List.count_eq_zero.mpr absent
    rw [all.read listed.store inside,directory.store.read_result inside,none_,linked_zero]
    exact ⟨rfl,rfl⟩

-- A root directory whose data block, 300, is still blank.
def rootInode (linksCount : Nat) : Inode := inodeAt (put16 (put32 blank 40 300) 26 linksCount) 0
def rootMount (linksCount : Nat) : Mount :=
  {laidMount with device := {laidMount.device with
    disk := putBlock (putBlock laidMount.device.disk 4 (setBit blank 1)) 5 (setInode blank 1 (rootInode linksCount))}}

def dot : Link := ⟨2,0#8,[0x2e#8],by decide⟩
def dotDot : Link := ⟨2,0#8,[0x2e#8,0x2e#8],by decide⟩

theorem rootMount_laidOut (linksCount : Nat) : LaidOut (rootMount linksCount) 1 := by
  have laid := laidMount_laidOut
  refine ⟨laid.sectors,laid.few,laid.blocksPerGroup,laid.inodesPerGroup,?_⟩
  have table : blockImage (rootMount linksCount).device.disk 2 = blockImage laidMount.device.disk 2 :=
    (blockImage_put_other _ _ (by decide)).trans (blockImage_put_other _ _ (by decide))
  rw [table]
  exact laid.descriptors

theorem rootMount_range (linksCount : Nat) : InRange (rootMount linksCount) 1 2 := by
  rw [InRange,(rootMount_laidOut linksCount).inodesPerGroup]
  decide

theorem laidOut_outside (laid : LaidOut m 1) (high : 219 ≤ b) (low : b < 8192) : Outside m 1 b := by
  refine ⟨?_,?_,?_⟩
  · rw [slot_small (by omega)]
    omega
  · intro g inside
    rw [(laid.blocks inside).1,slot_small (by omega),slot_small (by omega)]
    omega
  · intro g inside k below
    rw [laid.inodesPerGroup] at below
    rw [(laid.blocks inside).2 k (by omega),slot_small (by omega),slot_small (by omega)]
    omega

theorem rootMount_directory (allocated : taken (rootMount linksCount) 2 = true)
    (block : iBlock (stored (rootMount linksCount) 2) 0 = 300) (empty : get32 (dirBlock (rootMount linksCount) 2) 0 = 0) :
    Directory (rootMount linksCount) 1 2 [] := by
  have laid := rootMount_laidOut linksCount
  refine ⟨laid.store,rootMount_range linksCount,allocated,?_,trivial,fun _ absent => absurd absent List.not_mem_nil,empty,
    fun nonempty => absurd rfl nonempty⟩
  rw [block]
  exact laidOut_outside laid (by decide) (by decide)

theorem root_directory : Directory (rootMount 0) 1 2 [] :=
  rootMount_directory (by decide) (by decide) (by decide)
theorem full_directory : Directory (rootMount 65535) 1 2 [] :=
  rootMount_directory (by decide) (by decide) (by decide)

theorem directory_round_trip_root : ∃ next, addLinks (rootMount 0) 2 [dot,dotDot] = some next ∧
    ∀ buffer, let block := (ext2ReadBlocks next.device 300 buffer 1).2
      ∃ passed last, walkDirectory block = some (passed,last) ∧ passed.map (seen block) = [dot.entry,dotDot.entry] ∧
        last.inode = 0 ∧ (passed.map DirectoryElement.recLen).sum+last.recLen = 1024 := by
  have block : iBlock (stored (rootMount 0) 2) 0 = 300 := by decide
  have targets : Targets (rootMount 0) 1 [dot,dotDot] := by
    intro link member
    have two : link.inode = 2 := by
      simp only [List.mem_cons,List.not_mem_nil,or_false] at member
      rcases member with rfl | rfl <;> rfl
    rw [two]
    exact ⟨rootMount_range 0,root_directory.allocated⟩
  obtain ⟨next,ran,walked,_⟩ := directory_round_trip root_directory targets (by decide)
  refine ⟨next,ran,?_⟩
  intro buffer
  rw [← block]
  obtain ⟨passed,last,visits,entries,ended,sum⟩ := walked buffer
  exact ⟨passed,last,visits,entries,ended,sum (by decide)⟩

-- Without a link the block is not written, and what it holds at byte 4 need not
-- be 1024. A count of 65535 starts again at 0.
theorem round_trip_needs_links_and_room :
    (Directory (rootMount 0) 1 2 [] ∧ addLinks (rootMount 0) 2 [] = some (rootMount 0) ∧
      ∃ last, walkDirectory (ext2ReadBlocks (rootMount 0).device 300 blank 1).2 = some ([],last) ∧ last.recLen ≠ 1024) ∧
    (Directory (rootMount 65535) 1 2 [] ∧ Targets (rootMount 65535) 1 [dot] ∧ totalSize [dot]+8 ≤ 1024 ∧
      ∃ next old new, addLinks (rootMount 65535) 2 [dot] = some next ∧
        readResult (rootMount 65535) 2 = some (.noError,old) ∧ readResult next 2 = some (.noError,new) ∧
        iLinksCount old = 65535 ∧ iLinksCount new = 0) := by
  have targets : Targets (rootMount 65535) 1 [dot] := by
    intro link member
    rw [List.mem_singleton.mp member]
    exact ⟨rootMount_range 65535,full_directory.allocated⟩
  refine ⟨⟨root_directory,rfl,?_⟩,full_directory,targets,by decide,?_⟩
  · have block : iBlock (stored (rootMount 0) 2) 0 = 300 := by decide
    have agree := buffer_agree blank (rootMount 0).device.disk (iBlock (stored (rootMount 0) 2) 0)
    have walked := root_directory.walk agree (by decide)
    rw [block] at walked
    rw [read_block root_directory.store.sectors]
    refine ⟨_,walked,?_⟩
    decide
  · obtain ⟨next,ran,listed,all⟩ := full_directory.addAll targets (by decide)
    have range := rootMount_range 65535
    have old := full_directory.store.read_result range
    have new := all.read listed.store range
    rw [full_directory.allocated,if_pos rfl] at old new
    exact ⟨next,_,_,ran,old,new,by decide,by decide⟩

end KaracaOS.Ext2Directory
