import KaracaOS.Ext2FreshRoot
import KaracaOS.Ext2InodeCounts

namespace KaracaOS.Ext2Volumes
open ByteMemory Bitmap BlockDevice Ext2Fields Ext2Blocks Ext2Inodes Ext2Mounts Ext2Records Ext2Directory Ext2Appends Ext2Format
  Ext2FreshRoot StepRuns

-- A device, the context of its mount, and the blocks its callers have been given.
structure Volume where
  device : Device
  context : Option Bytes
  handed : List Nat

-- The calls of the driver. `old` is what the context of a mount held before.
inductive Operation where
  | mount (old : Bytes)
  | blocks (array : Nat → Nat) (count : Nat)
  | inode (inodeNr : Nat) (isDir : Bool)
  | write (inode : Inode) (inodeNr : Nat)
  | link (dir : Nat) (link : Link)
  | unmount

def Volume.after (v : Volume) (m : Mount) : Volume := {v with device := m.device,context := some m.superblock}

-- none: nothing is mounted, or the call leaves its arrays or never returns.
def perform (v : Volume) : Operation → Option Volume
  | .mount old =>
    match ext2MountDevice v.device old with
    | (.noError,m) => some (v.after m)
    | (_,m) => some {v with device := m.device}
  | .blocks array count => v.context.bind fun superblock =>
    match allocateBlocks ⟨v.device,superblock⟩ array count with
    | (.noError,blocks,m) => some {v.after m with handed := (List.range count).map blocks++v.handed}
    | (_,_,m) => some (v.after m)
  | .inode inodeNr isDir => v.context.bind fun superblock =>
    (allocateInode ⟨v.device,superblock⟩ inodeNr isDir true).map fun given => v.after given.2
  | .write inode inodeNr => v.context.bind fun superblock =>
    (ext2WriteInode ⟨v.device,superblock⟩ inode inodeNr).map fun wrote => v.after wrote.2
  | .link dir link => v.context.bind fun superblock =>
    (ext2AddLink ⟨v.device,superblock⟩ dir link.bytes link.type.toNat link.name.length link.inode).map fun added => v.after added.2
  | .unmount => v.context.bind fun superblock =>
    match ext2UnmountDevice ⟨v.device,superblock⟩ with
    | (.noError,m) => some {v with device := m.device,context := none}
    | (_,m) => some (v.after m)

-- A call that comes to its end, or one of which only the first block writes reach
-- the disk before the machine goes down with whatever its memory then holds.
inductive Event where
  | done (operation : Operation)
  | crash (operation : Operation) (writes : Nat) (memory : Bytes)

def Event.operation : Event → Operation
  | .done operation => operation
  | .crash operation _ _ => operation

def step (v : Volume) : Event → Option Volume
  | .done operation => perform v operation
  | .crash operation writes memory =>
    (perform {v with device := {v.device with images := []}} operation).bind fun next =>
      ((v.device.disk::next.device.images.reverse)[writes]?).map fun disk =>
        ⟨{v.device with disk := disk,rwBuffer := memory},none,v.handed⟩

-- Blocks for files: neither of the 218 that a group keeps for itself, nor behind
-- the end of the volume.
def DataBlock (total b : Nat) : Prop := 1 ≤ b ∧ 218 ≤ (b-1)%8192 ∧ b < total

-- What the calls rely on: blocks are asked for in a number that fits, inodes are
-- those of the volume, and a name goes into a data block.
def Allowed (groups total : Nat) (v : Volume) : Operation → Prop
  | .mount _ => True
  | .blocks _ count => 1 ≤ count ∧ count < word
  | .inode inodeNr _ => 1 ≤ inodeNr ∧ inodeNr ≤ groups*1712
  | .write _ inodeNr => 1 ≤ inodeNr ∧ inodeNr ≤ groups*1712
  | .link dir link => (1 ≤ dir ∧ dir ≤ groups*1712) ∧ (1 ≤ link.inode ∧ link.inode ≤ groups*1712) ∧
      ∀ superblock, v.context = some superblock → DataBlock total (linkBlock ⟨v.device,superblock⟩ dir)
  | .unmount => True

-- The descriptors of the groups, where the formatter put them.
structure Placed (table : Bytes) (g : Nat) : Prop where
  blockBitmap : bgBlockBitmap table g = g*8192+3
  inodeBitmap : bgInodeBitmap table g = g*8192+4
  inodeTable : bgInodeTable table g = g*8192+5

-- A disk of these groups on which every bit that is clear stands for a data block
-- that nobody has.
structure Keeps (groups total : Nat) (handed : List Nat) (disk : Bytes) : Prop where
  blocksPerGroup : sBlocksPerGroup (blockImage disk 1) = 8192
  inodesPerGroup : sInodesPerGroup (blockImage disk 1) = 1712
  placed : ∀ g < groups, Placed (tableOf disk) g
  ended : bgBlockBitmap (tableOf disk) groups = 0
  free : ∀ g < groups, ∀ n < 8192, bit (blockImage disk (g*8192+3)) n = false →
    DataBlock total (g*8192+n+1) ∧ g*8192+n+1 ∉ handed

structure Orderly (groups total : Nat) (v : Volume) : Prop where
  few : groups ≤ 31
  size : total < groups*8192
  sectors : v.device.sectorSize = 512
  disk : Keeps groups total v.handed v.device.disk
  context : ∀ superblock, v.context = some superblock → sBlocksPerGroup superblock = 8192 ∧ sInodesPerGroup superblock = 1712
  distinct : v.handed.Nodup
  data : ∀ b ∈ v.handed, DataBlock total b

-- A block write that takes nothing away.
inductive Harmless (groups : Nat) (disk : Bytes) : Nat → Bytes → Prop where
  | superblock : sBlocksPerGroup buffer = 8192 → sInodesPerGroup buffer = 1712 → Harmless groups disk 1 buffer
  | table : (∀ g < groups, Placed buffer g) → bgBlockBitmap buffer groups = 0 → Harmless groups disk 2 buffer
  | bitmap : g < groups → (∀ n < 8192, bit (blockImage disk (g*8192+3)) n = true → bit buffer n = true) →
      Harmless groups disk (g*8192+3) buffer
  | elsewhere : slot b ≠ 1 → slot b ≠ 2 → (∀ g < groups, slot b ≠ g*8192+3) → Harmless groups disk b buffer

variable {groups total g b nr dir count : Nat} {handed : List Nat} {disk buffer table : Bytes} {v next : Volume} {m after : Mount}
  {d e : Device} {link : Link} {inode : Inode}

theorem Placed.same (placed : Placed table g) (fields : SameTable buffer table) (small : g < 32) : Placed buffer g :=
  ⟨(fields.blockBitmap g small).trans placed.blockBitmap,(fields.inodeBitmap g small).trans placed.inodeBitmap,
    (fields.inodeTable g small).trans placed.inodeTable⟩

theorem Keeps.put (keeps : Keeps groups total handed disk) (few : groups ≤ 31) (harmless : Harmless groups disk b buffer) :
    Keeps groups total handed (putBlock disk b buffer) := by
  have bitmapSlot : ∀ g < groups, slot (g*8192+3) = g*8192+3 := fun g inside => slot_small (by omega)
  have others : ∀ c < 2147483648, slot b ≠ c → blockImage (putBlock disk b buffer) c = blockImage disk c := by
    intro c small differ
    apply blockImage_put_other
    rwa [slot_small small]
  have superblock : slot b ≠ 1 → sBlocksPerGroup (blockImage (putBlock disk b buffer) 1) = 8192 ∧
      sInodesPerGroup (blockImage (putBlock disk b buffer) 1) = 1712 := by
    intro away
    rw [others 1 (by decide) away]
    exact ⟨keeps.blocksPerGroup,keeps.inodesPerGroup⟩
  have descriptors : slot b ≠ 2 → (∀ g < groups, Placed (tableOf (putBlock disk b buffer)) g) ∧
      bgBlockBitmap (tableOf (putBlock disk b buffer)) groups = 0 := by
    intro away
    rw [tableOf,others 2 (by decide) away]
    exact ⟨keeps.placed,keeps.ended⟩
  have bitmaps : ∀ g < groups, slot b ≠ g*8192+3 → blockImage (putBlock disk b buffer) (g*8192+3) = blockImage disk (g*8192+3) :=
    fun g inside away => others _ (by omega) away
  cases harmless with
  | superblock blocks inodes =>
    obtain ⟨placed,ended⟩ := descriptors (by decide)
    have image : Agree (blockImage (putBlock disk 1 buffer) 1) buffer 0 1024 := blockImage_put_same _ _ rfl
    refine ⟨?_,?_,placed,ended,?_⟩
    · rw [sBlocksPerGroup,get32_agree (image.narrow (by decide) (by decide))]
      exact blocks
    · rw [sInodesPerGroup,get32_agree (image.narrow (by decide) (by decide))]
      exact inodes
    · intro g inside
      rw [bitmaps g inside (by rw [show slot 1 = 1 from rfl]; omega)]
      exact keeps.free g inside
  | table placed ended =>
    obtain ⟨blocks,inodes⟩ := superblock (by decide)
    have fields : SameTable (tableOf (putBlock disk 2 buffer)) buffer := .of_agree (blockImage_put_same _ _ rfl)
    refine ⟨blocks,inodes,?_,?_,?_⟩
    · exact fun g inside => (placed g inside).same fields (by omega)
    · exact (fields.blockBitmap groups (by omega)).trans ended
    · intro g inside
      rw [bitmaps g inside (by rw [show slot 2 = 2 from rfl]; omega)]
      exact keeps.free g inside
  | @bitmap h buffer here more =>
    have place := bitmapSlot h here
    obtain ⟨blocks,inodes⟩ := superblock (by omega)
    obtain ⟨placed,ended⟩ := descriptors (by omega)
    refine ⟨blocks,inodes,placed,ended,?_⟩
    intro g inside n small clear
    by_cases same : g = h
    · subst same
      rw [bit_agree (blockImage_put_same _ _ rfl) small] at clear
      apply keeps.free g inside n small
      by_contra set
      rw [more n small (Bool.eq_true_of_not_eq_false set)] at clear
      cases clear
    · rw [bitmaps g inside (by omega)] at clear
      exact keeps.free g inside n small clear
  | elsewhere one two three =>
    obtain ⟨blocks,inodes⟩ := superblock one
    obtain ⟨placed,ended⟩ := descriptors two
    refine ⟨blocks,inodes,placed,ended,?_⟩
    intro g inside
    rw [bitmaps g inside (three g inside)]
    exact keeps.free g inside

-- A call whose disk has a property after each of its block writes.
structure Passes (holds : Bytes → Prop) (d next : Device) : Prop where
  sectors : next.sectorSize = d.sectorSize
  disk : holds next.disk
  images : ∃ fresh, next.images = fresh++d.images ∧ ∀ image ∈ fresh, holds image

variable {holds : Bytes → Prop}

theorem Passes.still (start : holds d.disk) : Passes holds d d := ⟨rfl,start,[],rfl,by simp⟩

theorem Passes.put (passes : Passes holds d e) (memory : Bytes) (kept : holds (putBlock e.disk b buffer)) :
    Passes holds d (({e with rwBuffer := memory} : Device).put b buffer) := by
  obtain ⟨fresh,images,all⟩ := passes.images
  refine ⟨passes.sectors,kept,putBlock e.disk b buffer::fresh,?_,?_⟩
  · simp only [Device.put,images,List.cons_append]
  · intro image member
    rcases List.mem_cons.mp member with rfl | old
    · exact kept
    · exact all image old

-- A finished call, and the disks it passes on the way.
structure Moves (groups total : Nat) (v next : Volume) : Prop where
  passes : Passes (Keeps groups total v.handed) v.device next.device
  orderly : Orderly groups total next

theorem Orderly.keep (orderly : Orderly groups total v) (passes : Passes (Keeps groups total v.handed) v.device d)
    (context : ∀ superblock, kept = some superblock → sBlocksPerGroup superblock = 8192 ∧ sInodesPerGroup superblock = 1712) :
    Moves groups total v {v with device := d,context := kept} :=
  ⟨passes,orderly.few,orderly.size,passes.sectors.trans orderly.sectors,passes.disk,context,orderly.distinct,orderly.data⟩

theorem Orderly.put (orderly : Orderly groups total v) (passes : Passes (Keeps groups total v.handed) v.device e)
    (harmless : Harmless groups e.disk b buffer) : Passes (Keeps groups total v.handed) v.device (e.put b buffer) :=
  passes.put e.rwBuffer (passes.disk.put orderly.few harmless)

theorem Orderly.start (orderly : Orderly groups total v) : Passes (Keeps groups total v.handed) v.device v.device :=
  .still orderly.disk

theorem Orderly.laid (orderly : Orderly groups total v) (mounted : v.context = some superblock) : LaidOut ⟨v.device,superblock⟩ groups := by
  have few := orderly.few
  obtain ⟨blocks,inodes⟩ := orderly.context superblock mounted
  refine ⟨orderly.sectors,by omega,blocks,inodes,?_⟩
  intro g inside
  have placed := orderly.disk.placed g inside
  obtain ⟨bitmap,table⟩ := descriptor_inodes blank superblock g (by rw [blocks]; omega)
  rw [bitmap,table,blocks]
  exact ⟨placed.inodeBitmap,placed.inodeTable⟩

theorem laid_inRange (laid : LaidOut m groups) (bounds : 1 ≤ nr ∧ nr ≤ groups*1712) : InRange m groups nr := by
  rw [InRange,laid.inodesPerGroup]
  exact bounds

theorem DataBlock.harmless (data : DataBlock total b) (size : total < groups*8192) (few : groups ≤ 31) (disk buffer : Bytes) :
    Harmless groups disk b buffer := by
  obtain ⟨low,inside,high⟩ := data
  have small : slot b = b := slot_small (by omega)
  refine .elsewhere ?_ ?_ ?_
  · omega
  · omega
  · intro g _
    omega

theorem inode_harmless (few : groups ≤ 31) (inside : g < groups) (low : 4 ≤ k) (high : k < 219) (disk buffer : Bytes) :
    Harmless groups disk (g*8192+k) buffer := by
  have small : slot (g*8192+k) = g*8192+k := slot_small (by omega)
  refine .elsewhere ?_ ?_ ?_
  · omega
  · omega
  · intro h _
    omega

theorem mount_moves (orderly : Orderly groups total v) (ran : perform v (.mount old) = some next) : Moves groups total v next := by
  simp only [perform,mount_eq orderly.sectors,Option.some.injEq] at ran
  subst ran
  obtain ⟨blocks,inodes⟩ := mounted_fields v.device old
  have fields : sBlocksPerGroup (mountedSuperblock v.device old) = 8192 ∧ sInodesPerGroup (mountedSuperblock v.device old) = 1712 :=
    ⟨blocks.trans orderly.disk.blocksPerGroup,inodes.trans orderly.disk.inodesPerGroup⟩
  apply orderly.keep (orderly.put orderly.start (.superblock fields.1 fields.2))
  intro superblock same
  cases same
  exact fields

theorem unmount_moves (orderly : Orderly groups total v) (ran : perform v .unmount = some next) : Moves groups total v next := by
  obtain ⟨superblock,mounted,ran⟩ := Option.bind_eq_some_iff.mp ran
  simp only [ext2UnmountDevice,write_block orderly.sectors,Option.some.injEq] at ran
  subst ran
  obtain ⟨blocks,inodes⟩ := orderly.context superblock mounted
  apply orderly.keep (orderly.put orderly.start (.superblock ?_ ?_))
  · intro superblock none_
    cases none_
  · exact (get32_put16_away (by decide)).trans blocks
  · exact (get32_put16_away (by decide)).trans inodes

theorem Keeps.take {bits : List Nat} (keeps : Keeps groups total handed disk) (few : groups ≤ 31) (inside : g < groups)
    (bound : ∀ k ∈ bits, k < 8192)
    (marks : ∀ n < 8192, bit buffer n = (decide (n ∈ bits) || bit (blockImage disk (g*8192+3)) n)) :
    Keeps groups total (bits.map (fun n => g*8192+n+1)++handed) (putBlock disk (g*8192+3) buffer) := by
  have more : ∀ n < 8192, bit (blockImage disk (g*8192+3)) n = true → bit buffer n = true := by
    intro n small set
    rw [marks n small,set,Bool.or_true]
  obtain ⟨blocks,inodes,placed,ended,free⟩ := keeps.put few (.bitmap inside more)
  refine ⟨blocks,inodes,placed,ended,?_⟩
  intro h within n small clear
  obtain ⟨data,unused⟩ := free h within n small clear
  refine ⟨data,?_⟩
  intro member
  rcases List.mem_append.mp member with taken | given
  · obtain ⟨k,picked,same⟩ := List.mem_map.mp taken
    have low := bound k picked
    obtain rfl : h = g := by omega
    obtain rfl : k = n := by omega
    rw [bit_agree (blockImage_put_same _ _ rfl) small,marks k small,decide_eq_true picked,Bool.true_or] at clear
    cases clear
  · exact unused given

-- An allocation that found its blocks, in terms of the bits it picked in group g.
structure Picked (m next : Mount) (groups g : Nat) (bits taken : List Nat) : Prop where
  inside : g < groups
  distinct : bits.Nodup
  clear : ∀ k ∈ bits, k < 8192 ∧ bit (blockImage m.device.disk (g*8192+3)) k = false
  listed : taken = bits.map (fun n => g*8192+n+1)
  marks : ∃ bitmap, (∀ n < 8192, bit bitmap n = (decide (n ∈ bits) || bit (blockImage m.device.disk (g*8192+3)) n)) ∧
    next.device = (m.device.put (g*8192+3) bitmap).put 2
      (setBgFreeBlocksCount (tableOf m.device.disk) g (bgFreeBlocksCount (tableOf m.device.disk) g+word-bits.length))
  superblock : next.superblock = setFreeBlocksCount m.superblock (sFreeBlocksCount m.superblock+word-bits.length)

theorem allocation_picks (keeps : Keeps groups total handed m.device.disk) (few : groups ≤ 31) (sectors : m.device.sectorSize = 512)
    (perGroup : sBlocksPerGroup m.superblock = 8192) (positive : 1 ≤ count) (ran : allocateBlocks m array count = (ret,blocks,after)) :
    (ret = .notFound ∧ after = m) ∨ (ret = .noError ∧ ∃ g bits, Picked m after groups g bits ((List.range count).map blocks)) := by
  rw [allocateBlocks,read_local sectors] at ran
  cases groupLoop_cases ran with
  | ended => exact .inl ⟨rfl,rfl⟩
  | exhausted all => exact absurd keeps.ended (all groups (Nat.zero_le _) (by omega))
  | @took g before _ _ _ used enough gathered =>
    have inside : g < groups := by
      by_contra beyond
      exact used groups (Nat.zero_le _) (by omega) keeps.ended
    have place : bgBlockBitmap (blockImage m.device.disk 2) g = g*8192+3 := (keeps.placed g inside).blockBitmap
    rw [read_local sectors,place,perGroup] at gathered
    obtain ⟨bits,length,distinct,clear,listed⟩ := gather_list positive gathered
    have small : ∀ k ∈ bits, k < 8192 ∧ g*8192+k+1 < word := by
      intro k picked
      have low := (clear k picked).1
      exact ⟨low,by unfold word; omega⟩
    have marks := markBlocks_bit (blockImage m.device.disk (g*8192+3)) listed (Nat.mul_mod_left _ _) small
    refine .inr ⟨rfl,g,bits,inside,distinct,clear,?_,⟨_,fun n _ => marks n,?_⟩,?_⟩
    · rw [listed]
      exact List.map_congr_left (fun k picked => Nat.mod_eq_of_lt (small k picked).2)
    · rw [takeBlocks_eq sectors,read_local sectors,place,perGroup,length]
      rfl
    · rw [takeBlocks_eq sectors,length]

theorem blocks_moves (orderly : Orderly groups total v) (proper : 1 ≤ count ∧ count < word)
    (ran : perform v (.blocks array count) = some next) : Moves groups total v next := by
  obtain ⟨superblock,mounted,ran⟩ := Option.bind_eq_some_iff.mp ran
  have few := orderly.few
  obtain ⟨perGroup,inodes⟩ := orderly.context superblock mounted
  cases called : allocateBlocks ⟨v.device,superblock⟩ array count with
  | mk ret rest =>
    obtain ⟨blocks,m⟩ := rest
    rw [called] at ran
    rcases allocation_picks orderly.disk few orderly.sectors perGroup proper.1 called with ⟨rfl,rfl⟩ | ⟨rfl,g,bits,picked⟩
    · cases Option.some.inj ran
      apply orderly.keep orderly.start
      intro other same
      cases same
      exact ⟨perGroup,inodes⟩
    · cases Option.some.inj ran
      obtain ⟨bitmap,marks,device⟩ := picked.marks
      have bound : ∀ k ∈ bits, k < 8192 := fun k member => (picked.clear k member).1
      have table : Harmless groups (putBlock v.device.disk (g*8192+3) bitmap) 2
          (setBgFreeBlocksCount (tableOf v.device.disk) g (bgFreeBlocksCount (tableOf v.device.disk) g+word-bits.length)) := by
        refine .table ?_ ?_
        · intro h inside
          obtain ⟨blockBitmap,inodeBitmap,inodeTable⟩ := orderly.disk.placed h inside
          exact ⟨(blockBitmap_freeBlocks _ _ _ _).trans blockBitmap,(inodeBitmap_freeBlocks _ _ _ _).trans inodeBitmap,
            (inodeTable_freeBlocks _ _ _ _).trans inodeTable⟩
        · exact (blockBitmap_freeBlocks _ _ _ _).trans orderly.disk.ended
      have more : Harmless groups v.device.disk (g*8192+3) bitmap := by
        refine .bitmap picked.inside ?_
        intro n small set
        rw [marks n small,set,Bool.or_true]
      have fresh : ∀ b ∈ (List.range count).map blocks, DataBlock total b ∧ b ∉ v.handed := by
        intro b member
        rw [picked.listed] at member
        obtain ⟨k,chosen,rfl⟩ := List.mem_map.mp member
        exact orderly.disk.free g picked.inside k (bound k chosen) (picked.clear k chosen).2
      have kept : Keeps groups total ((List.range count).map blocks++v.handed) m.device.disk := by
        rw [device,picked.listed]
        exact (orderly.disk.take few picked.inside bound marks).put few table
      refine ⟨?_,few,orderly.size,?_,kept,?_,?_,?_⟩
      · show Passes _ _ m.device
        rw [device]
        exact orderly.put (orderly.put orderly.start more) table
      · show m.device.sectorSize = 512
        rw [device]
        exact orderly.sectors
      · intro other same
        cases same
        rw [picked.superblock,perGroup_setFreeBlocks,inodesPerGroup_setFreeBlocks]
        exact ⟨perGroup,inodes⟩
      · refine List.nodup_append.mpr ⟨?_,orderly.distinct,?_⟩
        · rw [picked.listed]
          exact picked.distinct.map (fun x y same => by omega)
        · intro b taken c given same
          subst same
          exact (fresh b taken).2 given
      · intro b member
        rcases List.mem_append.mp member with taken | given
        · exact (fresh b taken).1
        · exact orderly.data b given

theorem bookedTable_blocks (table : Bytes) (group : Nat) (isDir : Bool) (g : Nat) :
    bgBlockBitmap (bookedTable table group isDir) g = bgBlockBitmap table g ∧
    bgFreeBlocksCount (bookedTable table group isDir) g = bgFreeBlocksCount table g := by
  cases isDir with
  | false => exact ⟨get32_agree (agree_put16 (by omega)),freeBlocks_freeInodes _ _ _ _⟩
  | true => exact ⟨get32_agree ((agree_put16 (by omega)).trans (agree_put16 (by omega))),
      (freeBlocks_usedDirs _ _ _ _).trans (freeBlocks_freeInodes _ _ _ _)⟩

theorem inode_moves (orderly : Orderly groups total v) (bounds : 1 ≤ nr ∧ nr ≤ groups*1712)
    (ran : perform v (.inode nr isDir) = some next) : Moves groups total v next := by
  obtain ⟨superblock,mounted,ran⟩ := Option.bind_eq_some_iff.mp ran
  have laid := orderly.laid mounted
  have range := laid_inRange laid bounds
  obtain ⟨group,_⟩ := laid.store.bounds range
  have fields := orderly.context superblock mounted
  rw [Ext2InodeCounts.give_outcome laid.store range,Option.map_some,Option.some.injEq] at ran
  subst ran
  cases taken ⟨v.device,superblock⟩ nr with
  | true =>
    apply orderly.keep orderly.start
    intro other same
    cases same
    exact fields
  | false =>
    rw [if_neg (by decide),takeInode_eq laid.sectors]
    have table : ∀ disk, Harmless groups disk 2 (bookedTable (tableOf v.device.disk) (groupOf ⟨v.device,superblock⟩ nr) isDir) := by
      intro disk
      refine .table ?_ ?_
      · intro h inside
        obtain ⟨blockBitmap,inodeBitmap,inodeTable⟩ := orderly.disk.placed h inside
        obtain ⟨bitmaps,tables⟩ := Ext2InodeCounts.bookedTable_places (tableOf v.device.disk) (groupOf ⟨v.device,superblock⟩ nr) isDir h
        exact ⟨(bookedTable_blocks _ _ _ _).1.trans blockBitmap,bitmaps.trans inodeBitmap,tables.trans inodeTable⟩
      · exact (bookedTable_blocks _ _ _ _).1.trans orderly.disk.ended
    have place : bgInodeBitmap (blockImage v.device.disk 2) (groupOf ⟨v.device,superblock⟩ nr) = groupOf ⟨v.device,superblock⟩ nr*8192+4 :=
      (orderly.disk.placed _ group).inodeBitmap
    simp only [place]
    apply orderly.keep
    · exact orderly.put (orderly.put orderly.start (inode_harmless orderly.few group (by decide) (by decide) _ _)) (table _)
    · intro other same
      cases same
      exact ⟨(get32_put32_away (by decide)).trans fields.1,(get32_put32_away (by decide)).trans fields.2⟩

theorem storeInode_eq (sectors : d.sectorSize = 512) (target k : Nat) (inode : Inode) :
    ∃ buffer, storeInode d target k inode = ({d with rwBuffer := buffer} : Device).put target buffer := by
  refine ⟨setInode (blit d.rwBuffer 0 d.disk (offset target) 1024) k inode,?_⟩
  simp only [storeInode,read_block sectors]
  rw [write_block (by exact sectors)]

theorem writeInode_device (laid : LaidOut m groups) (bounds : 1 ≤ nr ∧ nr ≤ groups*1712) (inode : Inode) :
    ∃ g < groups, ∃ k < 214, ∃ bitmap buffer, ext2WriteInode m inode nr =
      some (.noError,⟨({m.device.put (g*8192+4) bitmap with rwBuffer := buffer} : Device).put (g*8192+5+k) buffer,m.superblock⟩) := by
  have range := laid_inRange laid bounds
  obtain ⟨group,index,_,_⟩ := laid.store.bounds range
  rw [laid.inodesPerGroup] at index
  obtain ⟨place,table⟩ := laid.blocks group
  have ran : ext2WriteInode m inode nr = some (.noError,
      ⟨storeInode (marked m nr) (tableBlock m.device.disk (groupOf m nr) (indexOf m nr/8)) (indexOf m nr%8) inode,m.superblock⟩) := by
    simp only [ext2WriteInode,laid.store.locate range,read_local laid.sectors,write_block laid.sectors]
    rfl
  have sectors : (marked m nr).sectorSize = 512 := (put_sectorSize _ _ _).trans laid.sectors
  obtain ⟨buffer,stores⟩ := storeInode_eq sectors (tableBlock m.device.disk (groupOf m nr) (indexOf m nr/8)) (indexOf m nr%8) inode
  rw [stores,marked,place,table _ (by omega)] at ran
  exact ⟨_,group,_,by omega,_,buffer,ran⟩

theorem write_passes (orderly : Orderly groups total v) (mounted : v.context = some superblock)
    (passes : Passes (Keeps groups total v.handed) v.device m.device) (same : m.superblock = superblock)
    (laid : LaidOut m groups) (bounds : 1 ≤ nr ∧ nr ≤ groups*1712) (ran : ext2WriteInode m inode nr = some (ret,after)) :
    Moves groups total v (v.after after) := by
  obtain ⟨g,inside,k,small,bitmap,buffer,wrote⟩ := writeInode_device laid bounds inode
  cases ran.symm.trans wrote
  have first := orderly.put passes (inode_harmless (k := 4) orderly.few inside (by decide) (by decide) m.device.disk bitmap)
  apply orderly.keep
  · apply first.put buffer
    rw [Nat.add_assoc]
    exact first.disk.put orderly.few (inode_harmless orderly.few inside (by omega) (by omega) _ _)
  · intro other equal
    cases equal
    rw [same]
    exact orderly.context superblock mounted

theorem write_moves (orderly : Orderly groups total v) (bounds : 1 ≤ nr ∧ nr ≤ groups*1712)
    (ran : perform v (.write inode nr) = some next) : Moves groups total v next := by
  obtain ⟨superblock,mounted,ran⟩ := Option.bind_eq_some_iff.mp ran
  obtain ⟨⟨ret,after⟩,wrote,rfl⟩ := Option.map_eq_some_iff.mp ran
  exact write_passes orderly mounted orderly.start rfl (orderly.laid mounted) bounds wrote

theorem readInode_memory (ran : ext2ReadInode m nr = some (ret,inode,after)) :
    ∃ memory, after = ⟨{m.device with rwBuffer := memory},m.superblock⟩ := by
  unfold ext2ReadInode at ran
  split at ran
  · cases ran
  · dsimp only at ran
    split at ran
    · cases ran
      exact ⟨m.device.rwBuffer,rfl⟩
    · cases ran
      exact ⟨_,rfl⟩

theorem addLink_parts (laid : LaidOut m groups) (range : InRange m groups dir)
    (ran : ext2AddLink m dir name type nameLen nr = some (ret,after)) :
    ∃ buffer inode status, ext2WriteInode ⟨({m.device with rwBuffer := buffer} : Device).put (linkBlock m dir) buffer,m.superblock⟩ inode nr =
      some (status,after) := by
  simp only [ext2AddLink,Option.bind_eq_bind,Option.bind_eq_some_iff,Option.pure_def,Option.some.injEq,Prod.mk.injEq] at ran
  obtain ⟨⟨_,directory,first⟩,readDir,⟨_,target,second⟩,readInode,⟨_,last⟩,_,⟨status,result⟩,wrote,_,rfl⟩ := ran
  obtain ⟨_,_,_,fetched⟩ := fetch laid.store range
  cases fetched.symm.trans readDir
  obtain ⟨one,rfl⟩ := readInode_memory readDir
  obtain ⟨two,rfl⟩ := readInode_memory readInode
  rw [write_block (by exact laid.sectors)] at wrote
  exact ⟨_,_,_,wrote⟩

theorem link_moves (orderly : Orderly groups total v) (allowed : Allowed groups total v (.link dir link))
    (ran : perform v (.link dir link) = some next) : Moves groups total v next := by
  obtain ⟨superblock,mounted,ran⟩ := Option.bind_eq_some_iff.mp ran
  obtain ⟨⟨ret,after⟩,added,rfl⟩ := Option.map_eq_some_iff.mp ran
  obtain ⟨directory,target,inside⟩ := allowed
  have laid := orderly.laid mounted
  obtain ⟨buffer,inode,status,wrote⟩ := addLink_parts laid (laid_inRange laid directory) added
  have harmless := (inside superblock mounted).harmless orderly.size orderly.few v.device.disk buffer
  have first := orderly.start.put buffer (orderly.disk.put orderly.few harmless)
  have middle := orderly.keep first (orderly.context · )
  refine write_passes orderly mounted first rfl ?_ target wrote
  exact middle.orderly.laid mounted

theorem perform_moves (orderly : Orderly groups total v) (allowed : Allowed groups total v operation)
    (ran : perform v operation = some next) : Moves groups total v next := by
  cases operation with
  | mount old => exact mount_moves orderly ran
  | blocks array count => exact blocks_moves orderly allowed ran
  | inode nr isDir => exact inode_moves orderly allowed ran
  | write inode nr => exact write_moves orderly allowed ran
  | link dir link => exact link_moves orderly allowed ran
  | unmount => exact unmount_moves orderly ran

theorem step_orderly (orderly : Orderly groups total v) (allowed : Allowed groups total v event.operation)
    (taken : step v event = some next) : Orderly groups total next := by
  cases event with
  | done operation => exact (perform_moves orderly allowed taken).orderly
  | crash operation writes memory =>
    obtain ⟨after,ran,reached⟩ := Option.bind_eq_some_iff.mp taken
    obtain ⟨disk,chosen,rfl⟩ := Option.map_eq_some_iff.mp reached
    have forgotten : Orderly groups total {v with device := {v.device with images := []}} :=
      ⟨orderly.few,orderly.size,orderly.sectors,orderly.disk,orderly.context,orderly.distinct,orderly.data⟩
    have moves := perform_moves forgotten (by cases operation <;> exact allowed) ran
    obtain ⟨fresh,images,all⟩ := moves.passes.images
    refine ⟨orderly.few,orderly.size,orderly.sectors,?_,(fun _ none_ => nomatch none_),orderly.distinct,orderly.data⟩
    rcases List.mem_cons.mp (List.mem_of_getElem? chosen) with rfl | later
    · exact orderly.disk
    · rw [images,List.append_nil] at later
      exact all disk (List.mem_reverse.mp later)

-- Counts and totals that are those of the bitmaps.
structure Counts (m : Mount) (groups : Nat) : Prop where
  blocks : ∀ g < groups, bgFreeBlocksCount (tableOf m.device.disk) g = (clearSet (blockImage m.device.disk (g*8192+3)) 8192).card
  inodes : ∀ g < groups, bgFreeInodesCount (tableOf m.device.disk) g = (clearSet (blockImage m.device.disk (g*8192+4)) 1712).card
  blockTotal : sFreeBlocksCount m.superblock = ∑ g ∈ Finset.range groups, bgFreeBlocksCount (tableOf m.device.disk) g
  inodeTotal : sFreeInodesCount m.superblock = ∑ g ∈ Finset.range groups, bgFreeInodesCount (tableOf m.device.disk) g

theorem Counts.same (counts : Counts m groups) (few : groups ≤ 31)
    (images : ∀ c < 2147483648, c = 2 ∨ (∃ g < groups, c = g*8192+3 ∨ c = g*8192+4) →
      blockImage after.device.disk c = blockImage m.device.disk c)
    (blocks : sFreeBlocksCount after.superblock = sFreeBlocksCount m.superblock)
    (inodes : sFreeInodesCount after.superblock = sFreeInodesCount m.superblock) : Counts after groups := by
  have table : tableOf after.device.disk = tableOf m.device.disk := images 2 (by decide) (.inl rfl)
  refine ⟨?_,?_,?_,?_⟩
  · intro g inside
    rw [table,images _ (by omega) (.inr ⟨g,inside,.inl rfl⟩)]
    exact counts.blocks g inside
  · intro g inside
    rw [table,images _ (by omega) (.inr ⟨g,inside,.inr rfl⟩)]
    exact counts.inodes g inside
  · rw [blocks,table]
    exact counts.blockTotal
  · rw [inodes,table]
    exact counts.inodeTotal

theorem put_apart (small : c < 2147483648) (differ : slot b ≠ c) (disk buffer : Bytes) :
    blockImage (putBlock disk b buffer) c = blockImage disk c := by
  apply blockImage_put_other
  rwa [slot_small small]

theorem counted_iff (laid : LaidOut m groups) : Ext2InodeCounts.Counted m groups ↔
    ∀ g < groups, bgFreeInodesCount (tableOf m.device.disk) g = (clearSet (blockImage m.device.disk (g*8192+4)) 1712).card := by
  apply forall₂_congr
  intro g inside
  rw [Ext2InodeCounts.freeInodes,Ext2InodeCounts.inodeBitmap,(laid.blocks inside).1,laid.inodesPerGroup,tableOf]

theorem Counts.consistent (counts : Counts m groups) (laid : LaidOut m groups) : Ext2InodeCounts.Consistent m groups :=
  ⟨laid.store,(counted_iff laid).mpr counts.inodes⟩

theorem Counts.enough {bits taken : List Nat} (counts : Counts m groups) (picked : Picked m after groups g bits taken) :
    bits.length ≤ bgFreeBlocksCount (tableOf m.device.disk) g ∧ bits.length ≤ sFreeBlocksCount m.superblock := by
  have subset : bits.toFinset ⊆ clearSet (blockImage m.device.disk (g*8192+3)) 8192 := by
    intro k member
    exact mem_clearSet.mpr (picked.clear k (List.mem_toFinset.mp member))
  have enough := Finset.card_le_card subset
  rw [List.toFinset_card_of_nodup picked.distinct,← counts.blocks g picked.inside] at enough
  refine ⟨enough,enough.trans ?_⟩
  rw [counts.blockTotal]
  exact Finset.single_le_sum (f := fun g => bgFreeBlocksCount (tableOf m.device.disk) g) (fun _ _ => Nat.zero_le _) (Finset.mem_range.mpr picked.inside)

theorem Counts.picked {bits taken : List Nat} (counts : Counts m groups) (few : groups ≤ 31) (picked : Picked m after groups g bits taken) :
    Counts after groups := by
  obtain ⟨bitmap,marks,device⟩ := picked.marks
  have inside := picked.inside
  have place : slot (g*8192+3) = g*8192+3 := slot_small (by omega)
  have disk : after.device.disk = putBlock (putBlock m.device.disk (g*8192+3) bitmap) 2
      (setBgFreeBlocksCount (tableOf m.device.disk) g (bgFreeBlocksCount (tableOf m.device.disk) g+word-bits.length)) := by
    rw [device,put_disk,put_disk]
  have fields : SameTable (tableOf after.device.disk)
      (setBgFreeBlocksCount (tableOf m.device.disk) g (bgFreeBlocksCount (tableOf m.device.disk) g+word-bits.length)) := by
    rw [disk]
    exact .of_agree (blockImage_put_same _ _ rfl)
  have images : ∀ c < 2147483648, c ≠ 2 → c ≠ g*8192+3 → blockImage after.device.disk c = blockImage m.device.disk c := by
    intro c small two here
    rw [disk,put_apart small (show slot 2 ≠ c from Ne.symm two),put_apart small (by omega)]
  -- The bits picked were clear.
  have subset : bits.toFinset ⊆ clearSet (blockImage m.device.disk (g*8192+3)) 8192 := by
    intro k member
    exact mem_clearSet.mpr (picked.clear k (List.mem_toFinset.mp member))
  have enough := (counts.enough picked).1
  have small : bgFreeBlocksCount (tableOf m.device.disk) g < 65536 := get16_lt _ _
  have free : ∀ h < groups, bgFreeBlocksCount (tableOf after.device.disk) h+(if h = g then bits.length else 0) =
      bgFreeBlocksCount (tableOf m.device.disk) h := by
    intro h within
    rw [fields.freeBlocks h (by omega),freeBlocks_freeBlocks]
    by_cases same : h = g
    · rw [if_pos same,if_pos same,same]
      unfold word
      omega
    · rw [if_neg same,if_neg same,Nat.add_zero]
  have inodes : ∀ h < groups, bgFreeInodesCount (tableOf after.device.disk) h = bgFreeInodesCount (tableOf m.device.disk) h := by
    intro h within
    exact (fields.freeInodes h (by omega)).trans (freeInodes_freeBlocks _ _ _ _)
  refine ⟨?_,?_,?_,?_⟩
  · intro h within
    have count := free h within
    by_cases same : h = g
    · subst same
      have marked : ∀ n < 8192, bit (blockImage after.device.disk (h*8192+3)) n =
          (decide (n ∈ bits.toFinset) || bit (blockImage m.device.disk (h*8192+3)) n) := by
        intro n bound
        rw [disk,put_apart (by omega) (by rw [show slot 2 = 2 from rfl]; omega),bit_agree (blockImage_put_same _ _ rfl) bound,marks n bound]
        simp only [List.mem_toFinset]
      have card := clearSet_card subset marked
      rw [List.toFinset_card_of_nodup picked.distinct,← counts.blocks h within] at card
      rw [if_pos rfl] at count
      omega
    · rw [if_neg same,Nat.add_zero] at count
      rw [count,images _ (by omega) (by omega) (by omega)]
      exact counts.blocks h within
  · intro h within
    rw [inodes h within,images _ (by omega) (by omega) (by omega)]
    exact counts.inodes h within
  · have sum : (∑ h ∈ Finset.range groups, bgFreeBlocksCount (tableOf after.device.disk) h)+bits.length =
        ∑ h ∈ Finset.range groups, bgFreeBlocksCount (tableOf m.device.disk) h := by
      apply sum_lowered inside
      · simpa using free g inside
      · intro h within differ
        simpa [differ] using free h within
    have total := counts.blockTotal
    have bound : sFreeBlocksCount m.superblock < 4294967296 := get32_lt _ _
    rw [picked.superblock,freeBlocks_setFreeBlocks]
    unfold word
    omega
  · rw [picked.superblock,freeInodes_setFreeBlocks,counts.inodeTotal]
    exact Finset.sum_congr rfl (fun h member => (inodes h (Finset.mem_range.mp member)).symm)

theorem Counts.wrote (counts : Counts m groups) (laid : LaidOut m groups) (range : InRange m groups nr) (allocated : taken m nr = true)
    (wrote : Wrote m after inode nr) : Counts after groups := by
  have few := laid.few
  have store := laid.store
  obtain ⟨group,index,_,_⟩ := store.bounds range
  rw [laid.inodesPerGroup] at index
  obtain ⟨place,table⟩ := laid.blocks group
  have same : tableOf after.device.disk = tableOf m.device.disk := wrote.table store range
  have laid' : LaidOut after groups := by
    refine ⟨wrote.sectors,few,?_,?_,?_⟩
    · rw [wrote.superblock]
      exact laid.blocksPerGroup
    · rw [wrote.superblock]
      exact laid.inodesPerGroup
    · rw [wrote.superblock,show blockImage after.device.disk 2 = blockImage m.device.disk 2 from same]
      exact laid.descriptors
  refine ⟨?_,(counted_iff laid').mp ((counts.consistent laid).wrote range wrote allocated).counted,?_,?_⟩
  · intro g inside
    have image : blockImage after.device.disk (g*8192+3) = blockImage m.device.disk (g*8192+3) := by
      apply wrote.elsewhere
      · rw [place,slot_small (by omega),slot_small (by omega)]
        omega
      · rw [table _ (by omega),slot_small (by omega),slot_small (by omega)]
        omega
    rw [same,image]
    exact counts.blocks g inside
  · rw [wrote.superblock,same]
    exact counts.blockTotal
  · rw [wrote.superblock,same]
    exact counts.inodeTotal

theorem Counts.gave (counts : Counts m groups) (laid : LaidOut m groups) (range : InRange m groups nr) (free : taken m nr = false)
    (given : after = takeInode m (blockImage m.device.disk 2) (Ext2InodeCounts.inodeBitmap m (groupOf m nr)) (groupOf m nr) (indexOf m nr) isDir)
    (laid' : LaidOut after groups) : Counts after groups := by
  have few := laid.few
  obtain ⟨group,index,_,_⟩ := laid.store.bounds range
  rw [laid.inodesPerGroup] at index
  have place : bgInodeBitmap (blockImage m.device.disk 2) (groupOf m nr) = groupOf m nr*8192+4 := (laid.blocks group).1
  have gave := Ext2InodeCounts.takeInode_gave laid.store range isDir
  rw [← given] at gave
  rw [takeInode_eq laid.sectors,place] at given
  have disk : after.device.disk = putBlock (putBlock m.device.disk (groupOf m nr*8192+4)
      (setBit (Ext2InodeCounts.inodeBitmap m (groupOf m nr)) (indexOf m nr))) 2 (bookedTable (blockImage m.device.disk 2) (groupOf m nr) isDir) := by
    rw [given,put_disk,put_disk]
  have fields : SameTable (tableOf after.device.disk) (bookedTable (blockImage m.device.disk 2) (groupOf m nr) isDir) := by
    rw [disk]
    exact .of_agree (blockImage_put_same _ _ rfl)
  have blocks : ∀ h < groups, bgFreeBlocksCount (tableOf after.device.disk) h = bgFreeBlocksCount (tableOf m.device.disk) h := by
    intro h within
    exact (fields.freeBlocks h (by omega)).trans (bookedTable_blocks _ _ _ _).2
  have consistent := (counts.consistent laid).gave range free gave
  refine ⟨?_,(counted_iff laid').mp consistent.counted,?_,?_⟩
  · intro h within
    have image : blockImage after.device.disk (h*8192+3) = blockImage m.device.disk (h*8192+3) := by
      rw [disk,put_apart (by omega) (by rw [show slot 2 = 2 from rfl]; omega),put_apart (by omega) (by rw [slot_small (by omega)]; omega)]
    rw [blocks h within,image]
    exact counts.blocks h within
  · have same : sFreeBlocksCount after.superblock = sFreeBlocksCount m.superblock := by
      rw [given]
      exact freeBlocks_setFreeInodes _ _
    rw [same,counts.blockTotal]
    exact Finset.sum_congr rfl (fun h member => (blocks h (Finset.mem_range.mp member)).symm)
  · -- The group had a free inode, so its count was not 0.
    have clear : bit (blockImage m.device.disk (groupOf m nr*8192+4)) (indexOf m nr) = false := by
      rw [← (laid.blocks group).1]
      exact free
    have some_ : bgFreeInodesCount (tableOf m.device.disk) (groupOf m nr) ≠ 0 := by
      rw [counts.inodes _ group]
      exact Finset.card_ne_zero_of_mem (mem_clearSet.mpr ⟨index,clear⟩)
    have small : bgFreeInodesCount (tableOf m.device.disk) (groupOf m nr) < 65536 := get16_lt _ _
    have sum : (∑ h ∈ Finset.range groups, bgFreeInodesCount (tableOf after.device.disk) h)+1 =
        ∑ h ∈ Finset.range groups, bgFreeInodesCount (tableOf m.device.disk) h := by
      apply sum_lowered group
      · have here := gave.counts _ group
        rw [if_pos rfl] at here
        rw [tableOf,here]
        unfold tableOf at some_ small ⊢
        omega
      · intro h within differ
        have there := gave.counts h (by omega)
        rwa [if_neg differ] at there
    have total := counts.inodeTotal
    have bound : sFreeInodesCount m.superblock < 4294967296 := get32_lt _ _
    have lowered : sFreeInodesCount after.superblock = (sFreeInodesCount m.superblock+word-1)%4294967296 := by
      rw [given]
      exact freeInodes_setFreeInodes _ _
    rw [lowered]
    unfold word
    omega

-- What a later mount starts from, too: the context, or the superblock on the disk.
def Volume.view (v : Volume) : Mount := ⟨v.device,v.context.getD (blockImage v.device.disk 1)⟩

-- Callers mount what is not mounted and write and link inodes that are allocated.
def Careful (groups total : Nat) (v : Volume) (operation : Operation) : Prop :=
  Allowed groups total v operation ∧
  match operation with
  | .mount _ => v.context = none
  | .write _ inodeNr => ∀ superblock, v.context = some superblock → taken ⟨v.device,superblock⟩ inodeNr = true
  | .link _ link => ∀ superblock, v.context = some superblock → taken ⟨v.device,superblock⟩ link.inode = true
  | _ => True

structure Balances (groups total : Nat) (v : Volume) : Prop where
  orderly : Orderly groups total v
  counts : Counts v.view groups
  conserved : sFreeBlocksCount v.view.superblock+v.handed.length+218*groups+1 = total
  closed : v.context = none → sState (blockImage v.device.disk 1) = ext2ValidFs

theorem view_mounted (mounted : v.context = some superblock) : v.view = ⟨v.device,superblock⟩ := by
  rw [Volume.view,mounted]
  rfl

theorem view_after (v : Volume) (m : Mount) : (v.after m).view = m := rfl

theorem counts_superblock (counts : Counts m groups) (few : groups ≤ 31) (disk : after.device.disk = putBlock m.device.disk 1 buffer)
    (blocks : sFreeBlocksCount after.superblock = sFreeBlocksCount m.superblock)
    (inodes : sFreeInodesCount after.superblock = sFreeInodesCount m.superblock) : Counts after groups := by
  refine counts.same few ?_ blocks inodes
  intro c small counted
  rw [disk,put_apart small]
  rw [show slot 1 = 1 from rfl]
  omega

theorem mount_balances (balances : Balances groups total v) (closed : v.context = none) (ran : perform v (.mount old) = some next) :
    Balances groups total next := by
  have orderly := (mount_moves balances.orderly ran).orderly
  simp only [perform,mount_eq balances.orderly.sectors,Option.some.injEq] at ran
  subst ran
  have counts := balances.counts
  have conserved := balances.conserved
  rw [Volume.view,closed,Option.getD_none] at counts conserved
  have image := buffer_agree old v.device.disk 1
  have blocks : sFreeBlocksCount (mountedSuperblock v.device old) = sFreeBlocksCount (blockImage v.device.disk 1) :=
    (freeBlocks_setState _ _).trans (get32_agree (image.narrow (by decide) (by decide)))
  refine ⟨orderly,?_,?_,fun none_ => nomatch none_⟩
  · apply counts_superblock counts orderly.few rfl blocks
    exact (freeInodes_setState _ _).trans (get32_agree (image.narrow (by decide) (by decide)))
  · rw [view_after]
    rwa [← blocks] at conserved

theorem unmount_balances (balances : Balances groups total v) (ran : perform v .unmount = some next) : Balances groups total next := by
  have orderly := (unmount_moves balances.orderly ran).orderly
  obtain ⟨superblock,mounted,ran⟩ := Option.bind_eq_some_iff.mp ran
  simp only [ext2UnmountDevice,write_block balances.orderly.sectors,Option.some.injEq] at ran
  subst ran
  have counts := balances.counts
  have conserved := balances.conserved
  rw [view_mounted mounted] at counts conserved
  have image : Agree (blockImage (putBlock v.device.disk 1 (setState superblock ext2ValidFs)) 1) (setState superblock ext2ValidFs) 0 1024 :=
    blockImage_put_same _ _ rfl
  have blocks : sFreeBlocksCount (blockImage (putBlock v.device.disk 1 (setState superblock ext2ValidFs)) 1) = sFreeBlocksCount superblock :=
    (get32_agree (image.narrow (by decide) (by decide))).trans (freeBlocks_setState _ _)
  refine ⟨orderly,?_,?_,?_⟩
  · apply counts_superblock counts orderly.few rfl blocks
    exact (get32_agree (image.narrow (by decide) (by decide))).trans (freeInodes_setState _ _)
  · rwa [← blocks] at conserved
  · intro _
    exact (get16_agree (image.narrow (by decide) (by decide))).trans (get16_put16 _ _ _)

theorem blocks_balances (balances : Balances groups total v) (proper : 1 ≤ count ∧ count < word)
    (ran : perform v (.blocks array count) = some next) : Balances groups total next := by
  have orderly := (blocks_moves balances.orderly proper ran).orderly
  obtain ⟨superblock,mounted,ran⟩ := Option.bind_eq_some_iff.mp ran
  have counts := balances.counts
  have conserved := balances.conserved
  rw [view_mounted mounted] at counts conserved
  cases called : allocateBlocks ⟨v.device,superblock⟩ array count with
  | mk ret rest =>
    obtain ⟨blocks,m⟩ := rest
    rw [called] at ran
    rcases allocation_picks balances.orderly.disk orderly.few balances.orderly.sectors (balances.orderly.context superblock mounted).1
      proper.1 called with ⟨rfl,rfl⟩ | ⟨rfl,g,bits,picked⟩
    · cases Option.some.inj ran
      exact ⟨orderly,counts,conserved,fun none_ => nomatch none_⟩
    · cases Option.some.inj ran
      refine ⟨orderly,counts.picked orderly.few picked,?_,fun none_ => nomatch none_⟩
      have length := congrArg List.length picked.listed
      rw [List.length_map,List.length_map,List.length_range] at length
      have enough := counts.enough picked
      have bound : sFreeBlocksCount superblock < 4294967296 := get32_lt _ _
      show sFreeBlocksCount m.superblock+((List.range count).map blocks++v.handed).length+218*groups+1 = total
      rw [picked.superblock,freeBlocks_setFreeBlocks,List.length_append,List.length_map,List.length_range,length]
      dsimp only at conserved enough bound ⊢
      unfold word
      omega

theorem inode_balances (balances : Balances groups total v) (bounds : 1 ≤ nr ∧ nr ≤ groups*1712)
    (ran : perform v (.inode nr isDir) = some next) : Balances groups total next := by
  have orderly := (inode_moves balances.orderly bounds ran).orderly
  obtain ⟨superblock,mounted,ran⟩ := Option.bind_eq_some_iff.mp ran
  have counts := balances.counts
  have conserved := balances.conserved
  rw [view_mounted mounted] at counts conserved
  have laid := balances.orderly.laid mounted
  have range := laid_inRange laid bounds
  rw [Ext2InodeCounts.give_outcome laid.store range,Option.map_some,Option.some.injEq] at ran
  subst ran
  refine ⟨orderly,?_,?_,fun none_ => nomatch none_⟩
  · cases free : taken ⟨v.device,superblock⟩ nr with
    | true => exact counts
    | false =>
      rw [free,if_neg (by decide)] at orderly
      exact counts.gave laid range free rfl (orderly.laid rfl)
  · rw [view_after]
    cases taken ⟨v.device,superblock⟩ nr with
    | true => exact conserved
    | false =>
      rw [if_neg (by decide),takeInode_eq laid.sectors]
      dsimp only
      rwa [freeBlocks_setFreeInodes]

theorem write_balances (balances : Balances groups total v) (careful : Careful groups total v (.write inode nr))
    (ran : perform v (.write inode nr) = some next) : Balances groups total next := by
  have orderly := (write_moves balances.orderly careful.1 ran).orderly
  obtain ⟨superblock,mounted,ran⟩ := Option.bind_eq_some_iff.mp ran
  obtain ⟨⟨ret,after⟩,called,rfl⟩ := Option.map_eq_some_iff.mp ran
  have counts := balances.counts
  have conserved := balances.conserved
  rw [view_mounted mounted] at counts conserved
  have laid := balances.orderly.laid mounted
  have range := laid_inRange laid careful.1
  obtain ⟨other,called',wrote⟩ := laid.store.write range inode
  cases called.symm.trans called'
  refine ⟨orderly,counts.wrote laid range (careful.2 superblock mounted) wrote,?_,fun none_ => nomatch none_⟩
  rw [view_after,wrote.superblock]
  exact conserved

theorem link_balances (balances : Balances groups total v) (careful : Careful groups total v (.link dir link))
    (ran : perform v (.link dir link) = some next) : Balances groups total next := by
  have orderly := (link_moves balances.orderly careful.1 ran).orderly
  obtain ⟨superblock,mounted,ran⟩ := Option.bind_eq_some_iff.mp ran
  obtain ⟨⟨ret,after⟩,called,rfl⟩ := Option.map_eq_some_iff.mp ran
  obtain ⟨⟨directory,target,inside⟩,allocated⟩ := careful
  have few := orderly.few
  have counts := balances.counts
  have conserved := balances.conserved
  rw [view_mounted mounted] at counts conserved
  have laid := balances.orderly.laid mounted
  have size := orderly.size
  obtain ⟨low,away,high⟩ := inside superblock mounted
  have place := slot_small (show linkBlock ⟨v.device,superblock⟩ dir < 2147483648 by omega)
  obtain ⟨_,middle,filled,wrote⟩ := addLink_wrote laid.store (laid_inRange laid directory) (laid_inRange laid target) (by omega) called
  have images : ∀ c < 2147483648, c = 2 ∨ (∃ g < groups, c = g*8192+3 ∨ c = g*8192+4) →
      blockImage middle.device.disk c = blockImage v.device.disk c := by
    intro c small counted
    rw [filled.disk,put_apart small]
    rw [place]
    omega
  have same := counts.same few images (by rw [filled.superblock]) (by rw [filled.superblock])
  have laid' : LaidOut middle groups := by
    refine ⟨filled.sectors,laid.few,?_,?_,?_⟩
    · rw [filled.superblock]
      exact laid.blocksPerGroup
    · rw [filled.superblock]
      exact laid.inodesPerGroup
    · rw [filled.superblock,images 2 (by decide) (.inl rfl)]
      exact laid.descriptors
  have spared : Spared ⟨v.device,superblock⟩ groups (linkBlock ⟨v.device,superblock⟩ dir) := by
    refine ⟨by omega,?_⟩
    intro g within
    rw [(laid.blocks within).1,slot_small (by omega),place]
    omega
  have still : taken middle link.inode = true :=
    (filled.taken spared laid.store (laid_inRange laid target)).trans (allocated superblock mounted)
  refine ⟨orderly,same.wrote laid' (laid_inRange laid' target) still wrote,?_,fun none_ => nomatch none_⟩
  rw [view_after,wrote.superblock,filled.superblock]
  exact conserved

theorem perform_balances (balances : Balances groups total v) (careful : Careful groups total v operation)
    (ran : perform v operation = some next) : Balances groups total next := by
  cases operation with
  | mount old => exact mount_balances balances careful.2 ran
  | blocks array count => exact blocks_balances balances careful.1 ran
  | inode nr isDir => exact inode_balances balances careful.1 ran
  | write inode nr => exact write_balances balances careful ran
  | link dir link => exact link_balances balances careful ran
  | unmount => exact unmount_balances balances ran

theorem freshSuperblock_state (nrKbytes : Nat) : sState (freshSuperblock nrKbytes) = ext2ValidFs := by
  unfold freshSuperblock fillSuperblock sState
  simp only [show ¬ 1024 < 512 by decide,if_false]
  rw [get16_agree (fun i low high => store_other _ (by omega)),get16_agree (agree_blit (by decide)),get16_agree (agree_blit (by decide)),
    get16_agree (agree_put16 (by decide)),get16_agree (agree_put32 (by decide)),get16_agree (agree_put32 (by decide)),
    get16_agree (agree_put32 (by decide)),get16_agree (agree_put16 (by decide)),get16_put16]
  rfl

theorem descriptorTable_behind (sb : Bytes) (n : Nat) : ∀ i, 32*n ≤ i → descriptorTable sb n i = 0#8 := by
  induction n with
  | zero => exact fun _ _ => rfl
  | succ n ih =>
    intro i behind
    rw [descriptorTable,List.range_succ,List.foldl_append]
    have away : Agree (fillBlockGroupDescriptor (descriptorTable sb n) sb n) (descriptorTable sb n) i 1 := fill_away _ _ n (.inr (by omega))
    exact (away i (Nat.le_refl _) (by omega)).trans (ih i (by omega))

theorem fill_inodes (table sb : Bytes) (g : Nat) : bgFreeInodesCount (fillBlockGroupDescriptor table sb g) g = 1712 := by
  unfold bgFreeInodesCount fillBlockGroupDescriptor
  rw [get16_agree (agree_fill (by omega)),get16_put16]

theorem descriptorTable_inodes (sb : Bytes) (n : Nat) : ∀ g < n, bgFreeInodesCount (descriptorTable sb n) g = 1712 := by
  induction n with
  | zero => exact fun g below => absurd below (Nat.not_lt_zero g)
  | succ n ih =>
    intro g below
    rw [descriptorTable,List.range_succ,List.foldl_append]
    show bgFreeInodesCount (fillBlockGroupDescriptor (descriptorTable sb n) sb n) g = 1712
    by_cases last : g = n
    · rw [last]
      exact fill_inodes _ _ _
    · rw [← ih g (by omega)]
      exact get16_agree (fill_away _ _ n (by omega))

theorem metadata_low (described : Described table total g) (small : n < 218) : g*8192+n+1 ∈ metadataBlocks table g := by
  have length : inodeTableLength = 214 := by decide
  rw [metadataBlocks,described.blockBitmap,described.inodeBitmap,described.inodeTable,length]
  simp only [List.mem_append,List.mem_cons,List.not_mem_nil,or_false,List.mem_map,List.mem_range]
  by_cases head : n < 4
  · exact .inl (by omega)
  · exact .inr ⟨n-4,by omega,by omega⟩

theorem sum_range (f : Nat → Nat) (n : Nat) : ((List.range n).map f).sum = ∑ g ∈ Finset.range n, f g := rfl

theorem countFree_fields (superblock table : Bytes) (groups : Nat) (few : groups ≤ 31) :
    sFreeBlocksCount (countFree superblock table groups) = ∑ g ∈ Finset.range groups, bgFreeBlocksCount table g ∧
    sFreeInodesCount (countFree superblock table groups) = ∑ g ∈ Finset.range groups, bgFreeInodesCount table g ∧
    sState (countFree superblock table groups) = sState superblock := by
  have bound : ∀ f : Nat → Nat, (∀ g, f g < 65536) → ∑ g ∈ Finset.range groups, f g < 4294967296 := by
    intro f small
    have most : ∑ g ∈ Finset.range groups, f g ≤ groups*65535 := by
      simpa using Finset.sum_le_card_nsmul (Finset.range groups) f 65535 (fun g _ => Nat.le_of_lt_succ (small g))
    omega
  rw [countFree]
  refine ⟨?_,?_,?_⟩
  · rw [freeBlocks_setFreeInodes,freeBlocks_setFreeBlocks,sum_range]
    exact Nat.mod_eq_of_lt (bound _ (fun g => get16_lt _ _))
  · rw [freeInodes_setFreeInodes,sum_range]
    exact Nat.mod_eq_of_lt (bound _ (fun g => get16_lt _ _))
  · exact (get16_agree (agree_put32 (by decide))).trans (get16_agree (agree_put32 (by decide)))

theorem freeCount_sum (room : 219 ≤ total%8192) :
    (∑ g ∈ Finset.range (total/8192+1), freeCount total g)+218*(total/8192+1)+1 = total := by
  have before : ∑ g ∈ Finset.range (total/8192), freeCount total g = total/8192*7974 := by
    rw [Finset.sum_congr rfl (fun g member => freeCount_full (Finset.mem_range.mp member)),Finset.sum_const,Finset.card_range,smul_eq_mul]
  rw [Finset.sum_range_succ,before,freeCount_last]
  omega

-- A volume as the write loop of the formatter leaves it.
def LaidDown (sizeInKb : Nat) (v : Volume) : Prop :=
  ∃ d layout, d.sizeInKb = sizeInKb ∧ Sized d ∧ layOut d (freshSuperblock d.sizeInKb) = some layout ∧ v = ⟨layout.device,none,[]⟩

theorem laidDown_balances (laidDown : LaidDown sizeInKb v) : Balances (sizeInKb%word/8192+1) (sizeInKb%word) v := by
  obtain ⟨d,layout,rfl,sized,laid,rfl⟩ := laidDown
  have count := sized.count
  have few := sized.groups
  have numbered := layOut_numbered sized.sectors laid
  have consistent := (layOut_consistent_iff sized.sectors laid).mpr ⟨sized.room,.inl (by omega)⟩
  obtain ⟨s,written,device,groups,table,superblock⟩ := layOut_written sized.sectors (by omega) laid
  rw [count] at few
  rw [count] at groups
  have described := numbered.described
  obtain ⟨_,blocksPerGroup,inodesPerGroup,_⟩ := freshSuperblock_fields d.sizeInKb
  obtain ⟨perGroup,perGroup'⟩ := perGroup_countFree (freshSuperblock d.sizeInKb) layout.table layout.groups
  obtain ⟨blockTotal,inodeTotal,state⟩ := countFree_fields (freshSuperblock d.sizeInKb) layout.table layout.groups (by omega)
  rw [← superblock] at perGroup perGroup' blockTotal inodeTotal state
  -- The head of group 0 and the inode bitmaps, as they are on the disk.
  have heads : ∀ g < layout.groups, ∃ bitmap, ∀ j < 218,
      Agree (blockImage layout.device.disk (g*8192+1+j)) ((groupBlocks layout.superblock layout.table bitmap).getD j blank) 0 1024 := by
    intro g inside
    obtain ⟨bitmap,_,holds⟩ := written.holds g inside
    rw [place_regular described inside (by omega),← device] at holds
    exact ⟨bitmap,holds⟩
  obtain ⟨first,holds⟩ := heads 0 (by omega)
  have one : Agree (blockImage layout.device.disk 1) layout.superblock 0 1024 := holds 0 (by decide)
  have two : Agree (blockImage layout.device.disk 2) layout.table 0 1024 := holds 1 (by decide)
  have fields : SameTable (tableOf layout.device.disk) layout.table := .of_agree two
  have bitmaps : ∀ g < layout.groups, blockImage layout.device.disk (g*8192+3) = writtenBitmap layout g := by
    intro g inside
    rw [writtenBitmap,(described g inside).blockBitmap]
  have inodes : ∀ g < layout.groups, ∀ n < 1712, bit (blockImage layout.device.disk (g*8192+4)) n = false := by
    intro g inside n below
    obtain ⟨bitmap,holds⟩ := heads g inside
    rw [bit_agree (holds 3 (by decide)) (by omega)]
    exact fresh_inodes below
  have full : ∀ g < layout.groups, clearSet (blockImage layout.device.disk (g*8192+4)) 1712 = Finset.range 1712 := by
    intro g inside
    ext n
    rw [mem_clearSet,Finset.mem_range]
    exact ⟨fun member => member.1,fun below => ⟨below,inodes g inside n below⟩⟩
  have sectors : layout.device.sectorSize = 512 := by
    rw [device]
    exact written.sectors
  have ended : bgBlockBitmap layout.table layout.groups = 0 := by
    have behind : Agree layout.table blank (32*layout.groups) 4 := by
      intro i low _
      rw [table]
      exact descriptorTable_behind _ _ i low
    exact get32_agree behind
  refine ⟨⟨few,by omega,sectors,⟨?_,?_,?_,?_,?_⟩,by simp,List.nodup_nil,by simp⟩,⟨?_,?_,?_,?_⟩,?_,?_⟩
  · rw [sBlocksPerGroup,get32_agree (one.narrow (by decide) (by decide))]
    exact perGroup.trans blocksPerGroup
  · rw [sInodesPerGroup,get32_agree (one.narrow (by decide) (by decide))]
    exact perGroup'.trans inodesPerGroup
  · intro g inside
    have regular := described g (by omega)
    exact Placed.same ⟨regular.blockBitmap,regular.inodeBitmap,regular.inodeTable⟩ fields (by omega)
  · rw [← groups]
    exact (fields.blockBitmap _ (by omega)).trans ended
  · intro g inside n small clear
    have regular := consistent g (by omega)
    rw [bitmaps g (by omega)] at clear
    have low : 218 ≤ n := by
      by_contra early
      have set := regular.metadata _ (metadata_low (described g (by omega)) (show n < 218 by omega))
      rw [show g*8192+n+1-(g*8192+1) = n by omega,clear] at set
      cases set
    have high := regular.inside n small clear
    rw [numbered.blocks] at high
    exact ⟨⟨by omega,by omega,high⟩,List.not_mem_nil⟩
  · intro g inside
    show bgFreeBlocksCount (tableOf layout.device.disk) g = _
    rw [fields.freeBlocks g (by omega),← (consistent g (by omega)).counted,← bitmaps g (by omega)]
    rfl
  · intro g inside
    show bgFreeInodesCount (tableOf layout.device.disk) g = (clearSet (blockImage layout.device.disk (g*8192+4)) 1712).card
    rw [fields.freeInodes g (by omega),table,descriptorTable_inodes _ _ g (by omega),full g (by omega),Finset.card_range]
  · refine (get32_agree (one.narrow (by decide) (by decide))).trans (blockTotal.trans ?_)
    rw [groups]
    exact Finset.sum_congr rfl (fun g member => (fields.freeBlocks g (by have := Finset.mem_range.mp member; omega)).symm)
  · refine (get32_agree (one.narrow (by decide) (by decide))).trans (inodeTotal.trans ?_)
    rw [groups]
    exact Finset.sum_congr rfl (fun g member => (fields.freeInodes g (by have := Finset.mem_range.mp member; omega)).symm)
  · have total : sFreeBlocksCount (blockImage layout.device.disk 1) =
        ∑ g ∈ Finset.range (d.sizeInKb%word/8192+1), freeCount (d.sizeInKb%word) g := by
      refine (get32_agree (one.narrow (by decide) (by decide))).trans (blockTotal.trans ?_)
      rw [← groups]
      exact Finset.sum_congr rfl (fun g member => (described g (Finset.mem_range.mp member)).freeBlocks)
    show sFreeBlocksCount (blockImage layout.device.disk 1)+0+218*(d.sizeInKb%word/8192+1)+1 = d.sizeInKb%word
    rw [total,Nat.add_zero]
    exact freeCount_sum (by have room := sized.room; omega)
  · intro _
    exact (get16_agree (one.narrow (by decide) (by decide))).trans (state.trans (freshSuperblock_state _))

-- A mount that a run of these calls can lead to.
def Running (sizeInKb : Nat) (m : Mount) (handed : List Nat) : Prop :=
  Reached (LaidDown sizeInKb) perform (Careful (sizeInKb%word/8192+1) (sizeInKb%word)) ⟨m.device,some m.superblock,handed⟩

variable {sizeInKb used : Nat} {nrs : List Nat} {links : List Link}

theorem running_inode (prepared : Prepared d nrs used m) (running : Running sizeInKb m handed) (low : 1 ≤ nr) (high : nr ≤ 1712)
    (fresh : nr ∉ nrs) (isDir : Bool) : ∃ next, allocateInode m nr isDir true = some (.noError,next) ∧ Prepared d (nr::nrs) used next ∧
      Running sizeInKb next handed := by
  obtain ⟨next,ran,after⟩ := prepared.inode low high fresh isDir
  refine ⟨next,ran,after,running.extend (.inode nr isDir) ⟨⟨low,by omega⟩,trivial⟩ ?_⟩
  simp only [perform,Option.bind_some]
  rw [show (⟨m.device,m.superblock⟩ : Mount) = m from rfl,ran]
  rfl

theorem running_takeInodes (prepared : Prepared d [] 0 m) (running : Running sizeInKb m handed) :
    ∃ next, takeInodes m = some next ∧ Prepared d [11,2,1] 0 next ∧ Running sizeInKb next handed := by
  obtain ⟨m1,ran1,prepared1,running1⟩ := running_inode prepared running (show 1 ≤ 1 by decide) (by decide) (by decide) false
  obtain ⟨m2,ran2,prepared2,running2⟩ := running_inode prepared1 running1 (show 1 ≤ 2 by decide) (by decide) (by decide) true
  obtain ⟨m3,ran3,prepared3,running3⟩ := running_inode prepared2 running2 (show 1 ≤ 11 by decide) (by decide) (by decide) true
  refine ⟨m3,?_,prepared3,running3⟩
  rw [takeInodes,ran1,Option.bind_eq_bind,Option.bind_some,ran2,Option.bind_some,ran3]
  rfl

theorem perform_blocks {v : Volume} (mounted : v.context = some superblock)
    (ran : allocateBlocks ⟨v.device,superblock⟩ array count = (.noError,blocks,m)) :
    perform v (.blocks array count) = some {v.after m with handed := (List.range count).map blocks++v.handed} := by
  rw [perform,mounted,Option.bind_some,ran]

theorem running_makeDir (prepared : Prepared d nrs used m) (running : Running sizeInKb m handed) (few : used < 6) (low : 1 ≤ nr)
    (high : nr ≤ 1712) (member : nr ∈ nrs) (dirBlock : Nat → Nat) :
    ∃ next, makeDir m dirBlock nr = some next ∧ Prepared d nrs (used+1) next ∧ Running sizeInKb next ((219+used)::handed) ∧
      ∀ k, 1 ≤ k → k ≤ 1712 → stored next k = if k = nr then setBlock createDirInode 0 (219+used) else stored m k := by
  obtain ⟨blocks,middle,ran,first,prepared',others⟩ := prepared.block few dirBlock
  obtain ⟨next,wrote,prepared'',inodes⟩ := prepared'.write low high member (setBlock createDirInode 0 (219+used))
  have given : Running sizeInKb middle ((219+used)::handed) := by
    refine running.extend (.blocks dirBlock 1) ⟨⟨by decide,by decide⟩,trivial⟩ ?_
    rw [perform_blocks rfl ran,List.range_one,List.map_cons,List.map_nil,first]
    rfl
  have written : Running sizeInKb next ((219+used)::handed) := by
    refine given.extend (.write (setBlock createDirInode 0 (219+used)) nr) ⟨⟨low,by omega⟩,?_⟩ ?_
    · intro superblock same
      cases same
      rw [show (⟨middle.device,middle.superblock⟩ : Mount) = middle from rfl,prepared'.allocated low high]
      exact decide_eq_true member
    · simp only [perform,Option.bind_some]
      rw [show (⟨middle.device,middle.superblock⟩ : Mount) = middle from rfl,wrote]
      rfl
  refine ⟨next,?_,prepared'',written,?_⟩
  · rw [makeDir,ran]
    dsimp only
    rw [first,wrote]
    rfl
  · intro k below above
    rw [inodes k below above,first_stored prepared'.laid below above,others _ (by omega) (by omega),← first_stored prepared.laid below above]

theorem addLinks_cons (ran : addLinks m dir (link::links) = some after) :
    ∃ middle, ext2AddLink m dir link.bytes link.type.toNat link.name.length link.inode = some (.noError,middle) ∧
      addLinks middle dir links = some after := by
  rw [addLinks] at ran
  split at ran
  · rename_i middle called
    exact ⟨middle,called,ran⟩
  · cases ran

theorem first_bounds (perGroup : sInodesPerGroup m.superblock = 1712) (range : InRange m 1 nr) : 1 ≤ nr ∧ nr ≤ (count+1)*1712 := by
  rw [InRange,perGroup] at range
  exact ⟨range.1,range.2.trans (Nat.mul_le_mul_right 1712 (Nat.le_add_left 1 count))⟩

theorem running_links (running : Running sizeInKb m handed) (perGroup : sInodesPerGroup m.superblock = 1712) (entry : Entry m 1 dir)
    (data : DataBlock (sizeInKb%word) (iBlock (stored m dir) 0))
    (targets : ∀ link ∈ links, Entry m 1 link.inode) (ran : addLinks m dir links = some after) :
    Running sizeInKb after handed ∧ after.superblock = m.superblock ∧
      ∀ other, Entry m 1 other → Entry after 1 other ∧ iBlock (stored after other) 0 = iBlock (stored m other) 0 := by
  induction links generalizing m with
  | nil =>
    cases Option.some.inj ran
    exact ⟨running,rfl,fun other known => ⟨known,rfl⟩⟩
  | cons link rest ih =>
    obtain ⟨middle,called,later⟩ := addLinks_cons ran
    have target := targets link List.mem_cons_self
    obtain ⟨block,_⟩ := entry.reads
    obtain ⟨_,filling,filled,wrote⟩ := addLink_wrote entry.store entry.range target.range (by rw [block]; exact entry.outside.table) called
    rw [block] at filled
    rw [fetched_taken target.allocated] at wrote
    have effect := entry.linked filled wrote target.range target.allocated
    have known : ∀ other, Entry m 1 other → Entry middle 1 other ∧ iBlock (stored middle other) 0 = iBlock (stored m other) 0 :=
      fun other entry => ⟨effect.entry entry,effect.block entry.range⟩
    have next : Running sizeInKb middle handed := by
      refine running.extend (.link dir link) ⟨⟨first_bounds perGroup entry.range,first_bounds perGroup target.range,?_⟩,?_⟩ ?_
      · intro superblock same
        cases same
        rw [show (⟨m.device,m.superblock⟩ : Mount) = m from rfl,block]
        exact data
      · intro superblock same
        cases same
        exact target.allocated
      · simp only [perform,Option.bind_some]
        rw [show (⟨m.device,m.superblock⟩ : Mount) = m from rfl,called]
        rfl
    obtain ⟨final,superblock,kept⟩ := ih next (by rw [effect.superblock]; exact perGroup) (known dir entry).1 (by rw [(known dir entry).2]; exact data)
      (fun one member => (known _ (targets one (List.mem_cons_of_mem _ member))).1) later
    refine ⟨final,superblock.trans effect.superblock,?_⟩
    intro other entry
    obtain ⟨here,same⟩ := known other entry
    obtain ⟨there,same'⟩ := kept other here
    exact ⟨there,same'.trans same⟩

-- The device of a formatter that reported success, with the blocks of the root
-- directory and of lost+found in use.
def Formatted (sizeInKb : Nat) (v : Volume) : Prop :=
  ∃ d stack, d.sizeInKb = sizeInKb ∧ Sized d ∧ ext2FormatDevice d stack = some (.noError,v.device) ∧ v.context = none ∧ v.handed = [220,219]

-- Behind its write loop the formatter is a run of the driver's calls.
theorem formatted_reached (formatted : Formatted sizeInKb v) :
    Reached (LaidDown sizeInKb) perform (Careful (sizeInKb%word/8192+1) (sizeInKb%word)) v := by
  obtain ⟨d,stack,rfl,sized,returned,closed,given⟩ := formatted
  obtain ⟨layout,laid⟩ := sized.layOut
  obtain ⟨sectors,prepared⟩ := sized.prepared laid stack.context
  have room := sized.room
  have start : Running d.sizeInKb ⟨layout.device.put 1 (mountedSuperblock layout.device stack.context),mountedSuperblock layout.device stack.context⟩ [] := by
    refine (Reached.start ⟨d,layout,rfl,sized,laid,rfl⟩).extend (.mount stack.context) ⟨trivial,rfl⟩ ?_
    simp only [perform,mount_eq sectors]
    rfl
  obtain ⟨m1,ran1,prepared1,running1⟩ := running_takeInodes prepared start
  obtain ⟨m2,ran2,prepared2,running2,inodes2⟩ := running_makeDir prepared1 running1 (by decide) (show 1 ≤ 2 by decide) (by decide)
    (by decide) stack.rootDirBlock
  obtain ⟨m3,ran3,prepared3,running3,inodes3⟩ := running_makeDir prepared2 running2 (by decide) (show 1 ≤ 11 by decide) (by decide)
    (by decide) stack.lostfoundDirBlock
  have rootBlock : iBlock (stored m3 2) 0 = 219 := by
    rw [inodes3 2 (by decide) (by decide),if_neg (by decide),inodes2 2 (by decide) (by decide),if_pos rfl]
    exact block_setBlock _ (by decide)
  have lostBlock : iBlock (stored m3 11) 0 = 220 := by
    rw [inodes3 11 (by decide) (by decide),if_pos rfl]
    exact block_setBlock _ (by decide)
  have rooted := prepared3.rooted (by decide) (by decide) rootBlock lostBlock
  -- The calls in between were followed; the rest is the links and the unmount.
  rw [format_eq sized.sectors,laid,Option.bind_some,mount_eq sectors] at returned
  simp only [makeRoot,ran1,ran2,ran3,Option.bind_eq_bind,Option.bind_some] at returned
  obtain ⟨device,linked,same⟩ := Option.map_eq_some_iff.mp returned
  cases same
  obtain ⟨m4,root,linked⟩ := Option.bind_eq_some_iff.mp linked
  obtain ⟨m5,lost,linked⟩ := Option.bind_eq_some_iff.mp linked
  have unmounted := Option.some.inj linked
  have targets : ∀ link ∈ rootLinks, Entry m3 1 link.inode := by
    intro link member
    simp only [rootLinks,List.mem_cons,List.not_mem_nil,or_false] at member
    rcases member with rfl | rfl | rfl
    · exact rooted.root
    · exact rooted.root
    · exact rooted.lost
  obtain ⟨running4,superblock,known⟩ := running_links running3 rooted.laid.inodesPerGroup rooted.root
    (by rw [rootBlock]; exact ⟨by decide,by decide,by omega⟩) targets root
  obtain ⟨rootEntry,_⟩ := known 2 rooted.root
  obtain ⟨lostEntry,lostSame⟩ := known 11 rooted.lost
  have targets' : ∀ link ∈ [lostDot,dotDot], Entry m4 1 link.inode := by
    intro link member
    simp only [List.mem_cons,List.not_mem_nil,or_false] at member
    rcases member with rfl | rfl
    · exact lostEntry
    · exact rootEntry
  obtain ⟨running5,_,known'⟩ := running_links running4 (by rw [superblock]; exact rooted.laid.inodesPerGroup) lostEntry
    (by rw [lostSame,lostBlock]; exact ⟨by decide,by decide,by omega⟩) targets' lost
  obtain ⟨final,_⟩ := known' 11 lostEntry
  refine running5.extend .unmount ⟨trivial,trivial⟩ ?_
  have volume : v = ⟨(ext2UnmountDevice m5).2.device,none,[220,219]⟩ := by
    rw [unmounted,← closed,← given]
  rw [volume,unmount_disk final.store.sectors]
  simp only [perform,Option.bind_some,ext2UnmountDevice,write_block final.store.sectors]

theorem formatted_balances (formatted : Formatted sizeInKb v) : Balances (sizeInKb%word/8192+1) (sizeInKb%word) v :=
  (formatted_reached formatted).invariant (Balances _ _) (fun _ start => laidDown_balances start)
    (fun _ _ _ balances careful ran => perform_balances balances careful ran)

-- In every run on a formatted device the counts are those of the bitmaps, no block
-- is lost, and a volume that is not mounted is marked valid with these counts.
theorem books_balance (path : Reached (Formatted sizeInKb) perform (Careful (sizeInKb%word/8192+1) (sizeInKb%word)) v) :
    Counts v.view (sizeInKb%word/8192+1) ∧
    sFreeBlocksCount v.view.superblock+v.handed.length+218*(sizeInKb%word/8192+1)+1 = sizeInKb%word ∧
    (v.context = none → sState (blockImage v.device.disk 1) = ext2ValidFs) := by
  have balances := path.invariant (Balances _ _) (fun _ start => formatted_balances start)
    (fun _ _ _ balances careful ran => perform_balances balances careful ran)
  exact ⟨balances.counts,balances.conserved,balances.closed⟩

theorem megabyte_formatted : ∃ v, Formatted 1000 v := by
  obtain ⟨device,returned,_⟩ := emptyDevice_sized.freshRoot_iff.mpr ⟨by decide,linksEnd_unused (by decide)⟩ blank zeroStack
  exact ⟨⟨device,none,[220,219]⟩,_,_,rfl,emptyDevice_sized,returned,rfl,rfl⟩

theorem mount_ran (orderly : Orderly groups total v) (old : Bytes) : ∃ next superblock, perform v (.mount old) = some next ∧
    next.context = some superblock ∧ next.handed = v.handed := by
  refine ⟨v.after ⟨v.device.put 1 (mountedSuperblock v.device old),mountedSuperblock v.device old⟩,mountedSuperblock v.device old,?_,rfl,rfl⟩
  simp only [perform,mount_eq orderly.sectors]

-- Mounted, with inode 12 given out.
theorem megabyte_balances : ∃ v : Volume, v.context.isSome ∧ v.handed = [220,219] ∧ Counts v.view 1 ∧
    sFreeBlocksCount v.view.superblock+v.handed.length+218*1+1 = 1000 := by
  obtain ⟨v,formatted⟩ := megabyte_formatted
  have balances := formatted_balances formatted
  obtain ⟨closed,given⟩ : v.context = none ∧ v.handed = [220,219] := formatted.choose_spec.choose_spec.2.2.2
  obtain ⟨middle,superblock,ran,mounted,handed⟩ := mount_ran balances.orderly blank
  have orderly := (mount_moves balances.orderly ran).orderly
  have range := laid_inRange (orderly.laid mounted) (show 1 ≤ 12 ∧ 12 ≤ (1000%word/8192+1)*1712 by decide)
  have called := Ext2InodeCounts.give_outcome (orderly.laid mounted).store range false
  have path : Reached (Formatted 1000) perform (Careful (1000%word/8192+1) (1000%word)) middle :=
    (Reached.start formatted).extend (.mount blank) ⟨trivial,closed⟩ ran
  obtain ⟨next,given',isMounted,same⟩ : ∃ next : Volume, perform middle (.inode 12 false) = some next ∧ next.context.isSome ∧
      next.handed = middle.handed := by
    simp only [perform,mounted,Option.bind_some,called,Option.map_some]
    exact ⟨_,rfl,rfl,rfl⟩
  obtain ⟨counts,conserved,_⟩ := books_balance
    (path.extend (.inode 12 false) ⟨show 1 ≤ 12 ∧ 12 ≤ (1000%word/8192+1)*1712 by decide,trivial⟩ given')
  exact ⟨next,isMounted,same.trans (handed.trans given),counts,conserved⟩

theorem perform_handed (ran : perform v operation = some next) : v.handed <:+ next.handed := by
  cases operation with
  | mount old =>
    rw [perform] at ran
    split at ran <;> cases ran <;> exact List.suffix_refl _
  | blocks array count =>
    obtain ⟨_,_,ran⟩ := Option.bind_eq_some_iff.mp ran
    split at ran <;> cases ran
    · exact List.suffix_append _ _
    · exact List.suffix_refl _
  | inode nr isDir =>
    obtain ⟨_,_,ran⟩ := Option.bind_eq_some_iff.mp ran
    obtain ⟨_,_,rfl⟩ := Option.map_eq_some_iff.mp ran
    exact List.suffix_refl _
  | write inode nr =>
    obtain ⟨_,_,ran⟩ := Option.bind_eq_some_iff.mp ran
    obtain ⟨_,_,rfl⟩ := Option.map_eq_some_iff.mp ran
    exact List.suffix_refl _
  | link dir link =>
    obtain ⟨_,_,ran⟩ := Option.bind_eq_some_iff.mp ran
    obtain ⟨_,_,rfl⟩ := Option.map_eq_some_iff.mp ran
    exact List.suffix_refl _
  | unmount =>
    obtain ⟨_,_,ran⟩ := Option.bind_eq_some_iff.mp ran
    split at ran <;> cases ran <;> exact List.suffix_refl _

theorem step_handed (taken : step v event = some next) : v.handed <:+ next.handed := by
  cases event with
  | done operation => exact perform_handed taken
  | crash operation writes memory =>
    obtain ⟨_,_,reached⟩ := Option.bind_eq_some_iff.mp taken
    obtain ⟨_,_,rfl⟩ := Option.map_eq_some_iff.mp reached
    exact List.suffix_refl _

-- Also with crashes between any two block writes and mounts at any time, no block
-- is ever given out twice, and none that holds the volume's own data or its first
-- two directories.
theorem blocks_never_twice (path : Reached (Formatted sizeInKb) step
      (fun v event => Allowed (sizeInKb%word/8192+1) (sizeInKb%word) v event.operation) v) :
    v.handed.Nodup ∧ [220,219] <:+ v.handed ∧ (∀ b ∈ v.handed, DataBlock (sizeInKb%word) b) ∧
    ∀ g ≤ sizeInKb%word/8192, ∀ n < 8192, g*8192+n+1 ∈ v.handed → bit (blockImage v.device.disk (g*8192+3)) n = true := by
  have orderly : Orderly (sizeInKb%word/8192+1) (sizeInKb%word) v :=
    path.invariant (Orderly _ _) (fun _ start => (formatted_balances start).orderly)
      (fun _ _ _ orderly allowed taken => step_orderly orderly allowed taken)
  have grown : [220,219] <:+ v.handed := by
    refine path.invariant (fun v => [220,219] <:+ v.handed) ?_ (fun _ _ _ grown _ taken => grown.trans (step_handed taken))
    rintro v ⟨_,_,_,_,_,_,given⟩
    rw [given]
  refine ⟨orderly.distinct,grown,orderly.data,?_⟩
  intro g inside n small member
  by_contra clear
  exact (orderly.disk.free g (by omega) n small (Bool.eq_false_of_not_eq_true clear)).2 member

-- A mount that crashes behind its only write, and another one.
theorem megabyte_crashed : ∃ v : Volume, v.context.isSome ∧ v.handed.Nodup ∧ [220,219] <:+ v.handed := by
  obtain ⟨v,formatted⟩ := megabyte_formatted
  have orderly := (formatted_balances formatted).orderly
  have crashed : ∃ middle, step v (.crash (.mount blank) 1 blank) = some middle := by
    simp only [step,perform,mount_eq (show ({v.device with images := []} : Device).sectorSize = 512 from orderly.sectors)]
    exact ⟨_,rfl⟩
  obtain ⟨middle,crashed⟩ := crashed
  obtain ⟨next,superblock,ran,mounted,_⟩ := mount_ran (step_orderly orderly (by exact trivial) crashed) blank
  have path : Reached (Formatted 1000) step (fun v event => Allowed (1000%word/8192+1) (1000%word) v event.operation) next :=
    ((Reached.start formatted).extend (.crash (.mount blank) 1 blank) trivial crashed).extend (.done (.mount blank)) trivial ran
  obtain ⟨distinct,grown,_⟩ := blocks_never_twice path
  exact ⟨next,by rw [mounted]; rfl,distinct,grown⟩

end KaracaOS.Ext2Volumes
