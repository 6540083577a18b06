import KaracaOS.Ext2Mounts
import KaracaOS.Ext2Links

namespace KaracaOS.Ext2InodeCounts
open ByteMemory Bitmap BlockDevice Ext2Fields Ext2Inodes Ext2Mounts Ext2Records Ext2Directory Ext2Links StepRuns

-- The variables that the search of allocate_inode leaves to the code behind it.
structure Search where
  i : Nat
  j : Nat
  k : Nat
  inodeBitmap : Bytes
  allocatedInode : Nat
  found : Bool

-- The loop over the bytes stops at the first one that is not full.
def byteLoop (perGroup : Nat) : Nat → Search → Search
  | 0,s => s
  | left+1,s =>
    if s.inodeBitmap s.j = 0xFF#8 then byteLoop perGroup left {s with j := s.j+1}
    else
      let k := firstClear (s.inodeBitmap s.j)
      {s with k := k,allocatedInode := (s.i*perGroup+s.j*8+k+1)%word,found := true}

def searchGroup (m : Mount) (table : Bytes) (s : Search) : Search :=
  if bgFreeInodesCount table s.i ≠ 0 then
    byteLoop (sInodesPerGroup m.superblock) 1024
      {s with j := 0,inodeBitmap := (ext2ReadBlocks m.device (bgInodeBitmap table s.i) blank 1).2}
  else s

-- The loop over the groups goes on after a hit.
def groupLoop (m : Mount) (table : Bytes) : Nat → Search → Search
  | 0,s => s
  | left+1,s => groupLoop m table left {searchGroup m table s with i := (searchGroup m table s).i+1}

def searchInode (m : Mount) (allocatedInode : Nat) : Search :=
  groupLoop m (ext2ReadBlocks m.device 2 blank 1).2 32 ⟨0,0,0,blank,allocatedInode,false⟩

-- allocate_inode with allocate_given FALSE. none: a hit is booked in a
-- descriptor that is not in desc_table[32].
def automaticInode (m : Mount) (allocatedInode : Nat) (isDir : Bool) : Option (SysRet × Nat × Mount) :=
  let s := searchInode m allocatedInode
  if s.found then
    if s.i < 32 then
      some (.noError,s.allocatedInode,takeInode m (ext2ReadBlocks m.device 2 blank 1).2 s.inodeBitmap s.i (s.j*8+s.k) isDir)
    else none
  else some (.noError,s.allocatedInode,m)

-- The descriptors it looks at: all of the search, and the one behind `if (found)`.
def usedDescriptors (m : Mount) (allocatedInode : Nat) : List Nat :=
  List.range 32 ++ if (searchInode m allocatedInode).found then [(searchInode m allocatedInode).i] else []

def inodeBitmap (m : Mount) (g : Nat) : Bytes := blockImage m.device.disk (bitmapBlock m.device.disk g)
def freeInodes (m : Mount) (g : Nat) : Nat := (clearSet (inodeBitmap m g) (sInodesPerGroup m.superblock)).card

def Counted (m : Mount) (groups : Nat) : Prop := ∀ g < groups, bgFreeInodesCount (blockImage m.device.disk 2) g = freeInodes m g

structure Consistent (m : Mount) (groups : Nat) : Prop where
  store : InodeStore m groups
  counted : Counted m groups

-- One free inode more in use, and nothing else.
structure Picks (m next : Mount) (groups nr : Nat) : Prop where
  range : InRange m groups nr
  free : taken m nr = false
  bitmaps : ∀ g < groups, ∀ n < 8192,
    bit (inodeBitmap next g) n = (decide (g = groupOf m nr ∧ n = indexOf m nr) || bit (inodeBitmap m g) n)
  counts : ∀ g < groups, bgFreeInodesCount (blockImage next.device.disk 2) g+(if g = groupOf m nr then 1 else 0) =
    bgFreeInodesCount (blockImage m.device.disk 2) g
  total : sFreeInodesCount next.superblock+1 = sFreeInodesCount m.superblock

def PicksFree (m : Mount) (groups allocatedInode : Nat) (isDir : Bool) : Prop :=
  (∃ nr next, automaticInode m allocatedInode isDir = some (.noError,nr,next) ∧ Picks m next groups nr) ∧
  ∀ i ∈ usedDescriptors m allocatedInode, i ≤ 31

variable {m next : Mount} {table : Bytes} {groups nr g : Nat} {s : Search} {inode : Inode}

theorem byteLoop_ends (perGroup left : Nat) (s : Search) : (byteLoop perGroup left s).i = s.i ∧
    (byteLoop perGroup left s).found = (s.found || (scan s.inodeBitmap left s.j).isSome) := by
  induction left generalizing s with
  | zero => exact ⟨rfl,by simp [byteLoop,scan]⟩
  | succ left ih =>
    rw [byteLoop,scan]
    by_cases full : s.inodeBitmap s.j = 0xFF#8
    · rw [if_pos full,if_pos full]
      exact ih {s with j := s.j+1}
    · rw [if_neg full,if_neg full]
      exact ⟨rfl,by simp⟩

def groupHits (m : Mount) (table : Bytes) (i : Nat) : Bool :=
  bgFreeInodesCount table i ≠ 0 ∧ (scan (ext2ReadBlocks m.device (bgInodeBitmap table i) blank 1).2 1024 0).isSome

theorem searchGroup_ends (m : Mount) (table : Bytes) (s : Search) : (searchGroup m table s).i = s.i ∧
    (searchGroup m table s).found = (s.found || groupHits m table s.i) := by
  rw [searchGroup,groupHits]
  by_cases some_ : bgFreeInodesCount table s.i ≠ 0
  · rw [if_pos some_]
    obtain ⟨place,hit⟩ := byteLoop_ends (sInodesPerGroup m.superblock) 1024
      {s with j := 0,inodeBitmap := (ext2ReadBlocks m.device (bgInodeBitmap table s.i) blank 1).2}
    refine ⟨place,hit.trans ?_⟩
    simp [some_]
  · rw [if_neg some_]
    exact ⟨rfl,by simp [some_]⟩

-- Whatever the groups hold, the loop is left with i behind the last of them.
theorem groupLoop_ends (m : Mount) (table : Bytes) (left : Nat) (s : Search) : (groupLoop m table left s).i = s.i+left ∧
    (groupLoop m table left s).found = (s.found || (List.range' s.i left).any (groupHits m table)) := by
  induction left generalizing s with
  | zero => exact ⟨rfl,by simp [groupLoop]⟩
  | succ left ih =>
    obtain ⟨place,hit⟩ := searchGroup_ends m table s
    rw [groupLoop,List.range'_succ,List.any_cons,place]
    obtain ⟨final,found⟩ := ih {searchGroup m table s with i := s.i+1}
    refine ⟨final.trans (show s.i+1+left = s.i+(left+1) by omega),found.trans ?_⟩
    rw [hit,Bool.or_assoc]

theorem search_ends (m : Mount) (allocatedInode : Nat) : (searchInode m allocatedInode).i = 32 ∧
    (searchInode m allocatedInode).found = searchHits m (ext2ReadBlocks m.device 2 blank 1).2 := by
  obtain ⟨final,found⟩ := groupLoop_ends m (ext2ReadBlocks m.device 2 blank 1).2 32 ⟨0,0,0,blank,allocatedInode,false⟩
  refine ⟨final,found.trans ?_⟩
  rw [searchHits,List.range_eq_range',Bool.false_or]
  rfl

theorem allocateInode_automatic (m : Mount) (allocatedInode : Nat) (isDir : Bool) :
    allocateInode m allocatedInode isDir false = (automaticInode m allocatedInode isDir).map fun r => (r.1,r.2.2) := by
  obtain ⟨final,found⟩ := search_ends m allocatedInode
  simp only [allocateInode,automaticInode,final,found,Bool.false_eq_true,if_false,Nat.lt_irrefl]
  cases searchHits m (ext2ReadBlocks m.device 2 blank 1).2 <;> rfl

-- A group with a free inode counts it, and its bitmap has a byte that is not full.
theorem Consistent.hits (consistent : Consistent m groups) (range : InRange m groups nr) (free : taken m nr = false)
    (allocatedInode : Nat) : (searchInode m allocatedInode).found = true := by
  obtain ⟨group,index,small,_⟩ := consistent.store.bounds range
  have few := consistent.store.few
  have clear : bit (inodeBitmap m (groupOf m nr)) (indexOf m nr) = false := free
  rw [(search_ends m allocatedInode).2,searchHits,List.any_eq_true]
  refine ⟨groupOf m nr,List.mem_range.mpr (by omega),decide_eq_true ⟨?_,?_⟩⟩
  · rw [read_local consistent.store.sectors,consistent.counted _ group]
    exact Finset.card_ne_zero_of_mem (mem_clearSet.mpr ⟨index,clear⟩)
  · rw [read_local consistent.store.sectors,read_local consistent.store.sectors]
    by_contra none_
    have full := scan_exhausted (Option.not_isSome_iff_eq_none.mp none_) (indexOf m nr/8) (Nat.zero_le _) (by omega)
    have set := full_bit (indexOf m nr%8) (Nat.mod_lt _ (by decide))
    rw [← full] at set
    have clear : (inodeBitmap m (groupOf m nr) (indexOf m nr/8)).getLsbD (indexOf m nr%8) = false := clear
    exact absurd (set.symm.trans clear) (by decide)

theorem uses_last (found : (searchInode m allocatedInode).found = true) : 32 ∈ usedDescriptors m allocatedInode := by
  rw [usedDescriptors,if_pos found,(search_ends m allocatedInode).1]
  exact List.mem_append.mpr (.inr (List.mem_singleton.mpr rfl))

theorem automatic_inode_never_picked (consistent : Consistent m groups) (range : InRange m groups nr) (free : taken m nr = false)
    (allocatedInode : Nat) (isDir : Bool) : ¬ PicksFree m groups allocatedInode isDir := by
  rintro ⟨_,bound⟩
  exact absurd (bound 32 (uses_last (consistent.hits range free allocatedInode))) (by decide)

theorem laidMount_consistent : Consistent laidMount 1 := by
  refine ⟨laidMount_laidOut.store,?_⟩
  intro g inside
  cases (show g = 0 by omega)
  have blank_ : inodeBitmap laidMount 0 = blockImage blank 4 := by
    rw [inodeBitmap,(laidMount_laidOut.blocks inside).1]
    exact blockImage_put_other _ _ (by decide)
  have all : clearSet (inodeBitmap laidMount 0) 1712 = Finset.range 1712 := by
    ext n
    rw [mem_clearSet,Finset.mem_range,blank_,and_iff_left]
    rw [bit,blockImage,blit]
    split <;> simp [blank]
  rw [freeInodes,laidMount_laidOut.inodesPerGroup,all,Finset.card_range]
  decide

theorem laidMount_two : InRange laidMount 1 2 ∧ taken laidMount 2 = false := by
  refine ⟨?_,by decide⟩
  rw [InRange,laidMount_laidOut.inodesPerGroup]
  decide

theorem automatic_file_never_picked : Consistent laidMount 1 ∧ ¬ PicksFree laidMount 1 0 false :=
  ⟨laidMount_consistent,automatic_inode_never_picked laidMount_consistent laidMount_two.1 laidMount_two.2 0 false⟩

-- Every inode is free; the directory that is found is booked behind the table.
theorem automatic_directory_behind_table : Consistent laidMount 1 ∧ taken laidMount 2 = false ∧ 32 ∈ usedDescriptors laidMount 0 ∧
    automaticInode laidMount 0 true = none ∧ ¬ PicksFree laidMount 1 0 true := by
  have found := laidMount_consistent.hits laidMount_two.1 laidMount_two.2 0
  have last := uses_last found
  refine ⟨laidMount_consistent,laidMount_two.2,last,?_,fun picks => absurd (picks.2 32 last) (by decide)⟩
  simp only [automaticInode,found,(search_ends laidMount 0).1,if_true,Nat.lt_irrefl,if_false]

inductive Operation where
  | give (inodeNr : Nat) (isDir : Bool)
  | write (inode : Inode) (inodeNr : Nat)
  | link (dir : Nat) (name : Bytes) (type nameLen inode : Nat)

def perform (m : Mount) : Operation → Option Mount
  | .give inodeNr isDir => (allocateInode m inodeNr isDir true).map Prod.snd
  | .write inode inodeNr => (ext2WriteInode m inode inodeNr).map Prod.snd
  | .link dir name type nameLen inode => (ext2AddLink m dir name type nameLen inode).map Prod.snd

def Operation.Within (m : Mount) (groups : Nat) : Operation → Prop
  | .give inodeNr _ => InRange m groups inodeNr
  | .write _ inodeNr => InRange m groups inodeNr
  | .link dir _ _ _ inode => InRange m groups dir ∧ InRange m groups inode

-- What nothing checks: an inode that is written is allocated, and the block a
-- name goes into is neither the descriptor table nor an inode bitmap.
def Operation.Careful (m : Mount) (groups : Nat) : Operation → Prop
  | .give _ _ => True
  | .write _ inodeNr => taken m inodeNr = true
  | .link dir _ _ _ inode => taken m inode = true ∧ Spared m groups (linkBlock m dir)

-- The effect on the bitmaps and the places of the store.
structure Marked (m next : Mount) (groups nr : Nat) : Prop where
  store : InodeStore next groups
  perGroup : sInodesPerGroup next.superblock = sInodesPerGroup m.superblock
  bitmaps : ∀ g < groups, ∀ n < 8192,
    bit (inodeBitmap next g) n = (decide (g = groupOf m nr ∧ n = indexOf m nr) || bit (inodeBitmap m g) n)

theorem Marked.free (marked : Marked m next groups nr) (store : InodeStore m groups) (range : InRange m groups nr) (inside : g < groups) :
    freeInodes next g+(if g = groupOf m nr ∧ taken m nr = false then 1 else 0) = freeInodes m g := by
  obtain ⟨_,index,_⟩ := store.bounds range
  have most := store.perGroup.2
  rw [freeInodes,freeInodes,marked.perGroup]
  by_cases here : g = groupOf m nr
  · have marks : ∀ n < sInodesPerGroup m.superblock, bit (inodeBitmap next g) n = (decide (n = indexOf m nr) || bit (inodeBitmap m g) n) := by
      intro n below
      rw [marked.bitmaps g inside n (by omega)]
      simp [here]
    rw [← clear_marked index marks]
    subst here
    show _ = _+(if taken m nr then 0 else 1)
    cases taken m nr <;> simp
  · rw [if_neg (fun both => here both.1),Nat.add_zero]
    congr 1
    refine Finset.filter_congr ?_
    intro n member
    rw [marked.bitmaps g inside n (by have := Finset.mem_range.mp member; omega)]
    simp [here]

theorem Wrote.marked (wrote : Wrote m next inode nr) (store : InodeStore m groups) (range : InRange m groups nr) : Marked m next groups nr := by
  refine ⟨wrote.store store range,by rw [wrote.superblock],?_⟩
  intro g inside n bound
  rw [inodeBitmap,bitmapBlock_same (wrote.table store range)]
  exact wrote.bitmap store range inside bound

-- ext2_write_inode leaves the counts as they are, so they match afterwards only
-- if no bit was set.
theorem Consistent.write_iff (consistent : Consistent m groups) (range : InRange m groups nr) (wrote : Wrote m next inode nr) :
    Counted next groups ↔ taken m nr = true := by
  have store := consistent.store
  have marked := Wrote.marked wrote store range
  have table := wrote.table store range
  constructor
  · intro counted
    have group := (store.bounds range).1
    have free := marked.free store range group
    rw [← counted _ group,← consistent.counted _ group,table] at free
    by_contra missing
    rw [if_pos ⟨rfl,Bool.eq_false_of_not_eq_true missing⟩] at free
    omega
  · intro allocated g inside
    have free := marked.free store range inside
    rw [allocated,if_neg (by simp),Nat.add_zero] at free
    rw [table,consistent.counted g inside,free]

theorem Consistent.wrote (consistent : Consistent m groups) (range : InRange m groups nr) (wrote : Wrote m next inode nr)
    (allocated : taken m nr = true) : Consistent next groups :=
  ⟨wrote.store consistent.store range,(consistent.write_iff range wrote).mpr allocated⟩

theorem Consistent.filled (consistent : Consistent m groups) (spared : Spared m groups b) (filled : Filled m next b buffer) :
    Consistent next groups := by
  have table : blockImage next.device.disk 2 = blockImage m.device.disk 2 := filled.elsewhere (Ne.symm spared.table)
  refine ⟨consistent.store.same filled.sectors filled.superblock table,?_⟩
  intro g inside
  rw [table,consistent.counted g inside,freeInodes,freeInodes,filled.superblock,inodeBitmap,inodeBitmap,bitmapBlock_same table,
    filled.elsewhere (spared.bitmaps g inside)]

theorem Consistent.link (consistent : Consistent m groups) (directory : InRange m groups dir) (range : InRange m groups nr)
    (allocated : taken m nr = true) (spared : Spared m groups (linkBlock m dir))
    (ran : ext2AddLink m dir name type nameLen nr = some (ret,next)) : Consistent next groups := by
  obtain ⟨_,middle,filled,wrote⟩ := addLink_wrote consistent.store directory range spared.table ran
  exact (consistent.filled spared filled).wrote ((inRange_same filled.superblock).mpr range) wrote
    ((filled.taken spared consistent.store range).trans allocated)

theorem bookedTable_places (table : Bytes) (group : Nat) (isDir : Bool) (g : Nat) :
    bgInodeBitmap (bookedTable table group isDir) g = bgInodeBitmap table g ∧
    bgInodeTable (bookedTable table group isDir) g = bgInodeTable table g := by
  cases isDir with
  | false => exact ⟨inodeBitmap_freeInodes _ _ _ _,inodeTable_freeInodes _ _ _ _⟩
  | true => exact ⟨(inodeBitmap_usedDirs _ _ _ _).trans (inodeBitmap_freeInodes _ _ _ _),
      (inodeTable_usedDirs _ _ _ _).trans (inodeTable_freeInodes _ _ _ _)⟩

theorem bookedTable_counts (table : Bytes) (group : Nat) (isDir : Bool) (g : Nat) :
    bgFreeInodesCount (bookedTable table group isDir) g =
      if g = group then (bgFreeInodesCount table group+65536-1)%65536 else bgFreeInodesCount table g := by
  rw [← freeInodes_freeInodes]
  cases isDir with
  | false => rfl
  | true => exact freeInodes_usedDirs _ _ _ _

structure Gave (m next : Mount) (groups nr : Nat) : Prop where
  marked : Marked m next groups nr
  counts : ∀ g < groups, bgFreeInodesCount (blockImage next.device.disk 2) g =
    if g = groupOf m nr then (bgFreeInodesCount (blockImage m.device.disk 2) (groupOf m nr)+65536-1)%65536
    else bgFreeInodesCount (blockImage m.device.disk 2) g

theorem booked_gave (store : InodeStore m groups) (range : InRange m groups nr) (isDir : Bool) (sectors : next.device.sectorSize = 512)
    (perGroup : sInodesPerGroup next.superblock = sInodesPerGroup m.superblock)
    (disk : next.device.disk = putBlock (putBlock m.device.disk (bitmapBlock m.device.disk (groupOf m nr))
      (setBit (inodeBitmap m (groupOf m nr)) (indexOf m nr))) 2 (bookedTable (blockImage m.device.disk 2) (groupOf m nr) isDir)) :
    Gave m next groups nr := by
  have few := store.few
  obtain ⟨group,_⟩ := store.bounds range
  have fields : SameTable (blockImage next.device.disk 2) (bookedTable (blockImage m.device.disk 2) (groupOf m nr) isDir) := by
    rw [disk]
    exact .of_agree (blockImage_put_same _ _ rfl)
  have bitmaps : ∀ g < groups, bitmapBlock next.device.disk g = bitmapBlock m.device.disk g := by
    intro g inside
    rw [bitmapBlock,fields.inodeBitmap g (by omega),(bookedTable_places _ _ _ _).1]
    rfl
  have tables : ∀ g < groups, ∀ k, tableBlock next.device.disk g k = tableBlock m.device.disk g k := by
    intro g inside k
    rw [tableBlock,fields.inodeTable g (by omega),(bookedTable_places _ _ _ _).2]
    rfl
  refine ⟨⟨store.moved sectors perGroup bitmaps tables,perGroup,?_⟩,?_⟩
  · intro g inside n bound
    rw [inodeBitmap,bitmaps g inside,disk,blockImage_put_other _ _ (Ne.symm (store.bitmapTable g inside))]
    by_cases here : g = groupOf m nr
    · rw [here,Ext2Blocks.bit_agree (blockImage_put_same _ _ rfl) bound,bit_setBit]
      simp
    · rw [blockImage_put_other _ _ (store.bitmaps _ group g inside (Ne.symm here))]
      simp [here,inodeBitmap]
  · intro g inside
    rw [fields.freeInodes g (by omega),bookedTable_counts]

theorem takeInode_gave (store : InodeStore m groups) (range : InRange m groups nr) (isDir : Bool) : Gave m
    (takeInode m (blockImage m.device.disk 2) (inodeBitmap m (groupOf m nr)) (groupOf m nr) (indexOf m nr) isDir) groups nr := by
  rw [takeInode_eq store.sectors,← bitmapBlock]
  refine booked_gave store range isDir ?_ (inodesPerGroup_setFreeInodes _ _) ?_
  · rw [put_sectorSize,put_sectorSize,store.sectors]
  · rw [put_disk,put_disk]

theorem Consistent.gave (consistent : Consistent m groups) (range : InRange m groups nr) (free : taken m nr = false)
    (gave : Gave m next groups nr) : Consistent next groups := by
  refine ⟨gave.marked.store,?_⟩
  intro g inside
  have left := gave.marked.free consistent.store range inside
  have small : bgFreeInodesCount (blockImage m.device.disk 2) (groupOf m nr) < 65536 := get16_lt _ _
  rw [gave.counts g inside]
  by_cases here : g = groupOf m nr
  · rw [if_pos ⟨here,free⟩] at left
    rw [if_pos here,← here,consistent.counted g inside]
    rw [← here,consistent.counted g inside] at small
    omega
  · rw [if_neg (fun both => here both.1),Nat.add_zero] at left
    rw [if_neg here,consistent.counted g inside,left]

theorem give_outcome (store : InodeStore m groups) (range : InRange m groups nr) (isDir : Bool) :
    allocateInode m nr isDir true = some (if taken m nr then (.unavailable,m) else
      (.noError,takeInode m (blockImage m.device.disk 2) (inodeBitmap m (groupOf m nr)) (groupOf m nr) (indexOf m nr) isDir)) := by
  simp only [allocateInode,if_true,store.locate range,read_local store.sectors]
  show (if taken m nr then _ else _) = _
  cases taken m nr <;> rfl

theorem Consistent.perform (consistent : Consistent m groups) (within : operation.Within m groups) (careful : operation.Careful m groups)
    (ran : perform m operation = some next) : Consistent next groups := by
  have store := consistent.store
  cases operation with
  | give nr isDir =>
    obtain ⟨⟨ret,after⟩,called,rfl⟩ := Option.map_eq_some_iff.mp ran
    rw [give_outcome store within isDir] at called
    cases allocated : taken m nr with
    | true =>
      rw [allocated,if_pos rfl] at called
      cases called
      exact consistent
    | false =>
      rw [allocated,if_neg (by decide)] at called
      cases called
      exact consistent.gave within allocated (takeInode_gave store within isDir)
  | write inode nr =>
    obtain ⟨⟨ret,after⟩,called,rfl⟩ := Option.map_eq_some_iff.mp ran
    obtain ⟨other,called',wrote⟩ := store.write within inode
    cases called.symm.trans called'
    exact consistent.wrote within wrote careful
  | link dir name type nameLen nr =>
    obtain ⟨⟨ret,after⟩,called,rfl⟩ := Option.map_eq_some_iff.mp ran
    exact consistent.link within.1 within.2 careful.1 careful.2 called

theorem inode_counts_kept (path : Reached (Consistent · groups) perform
    (fun m operation => operation.Within m groups ∧ operation.Careful m groups) m) : Consistent m groups :=
  path.invariant (Consistent · groups) (fun _ start => start)
    (fun _ _ _ consistent admitted taken => consistent.perform admitted.1 admitted.2 taken)

theorem laidMount_reached (admits : Mount → Operation → Prop) : Reached (Consistent · 1) perform admits laidMount :=
  .start laidMount_consistent

theorem inode_counts_kept_given : ∃ m, Reached (Consistent · 1) perform
      (fun m operation => operation.Within m 1 ∧ operation.Careful m 1) m ∧
    bgFreeInodesCount (blockImage m.device.disk 2) 0 = 1711 ∧ Consistent m 1 := by
  obtain ⟨range,free⟩ := laidMount_two
  have called := give_outcome laidMount_laidOut.store range true
  rw [free,if_neg (by decide)] at called
  have path : Reached (Consistent · 1) perform (fun m operation => operation.Within m 1 ∧ operation.Careful m 1) _ :=
    (laidMount_reached _).extend (.give 2 true) ⟨range,trivial⟩ (by rw [perform,called]; rfl)
  refine ⟨_,path,?_,inode_counts_kept path⟩
  have group : groupOf laidMount 2 = 0 := by decide
  have before : bgFreeInodesCount (blockImage laidMount.device.disk 2) 0 = 1712 := by decide
  rw [(takeInode_gave laidMount_laidOut.store range true).counts 0 (by decide),group,if_pos rfl,before]

-- ext2_write_inode on an inode nobody allocated.
theorem unallocated_write_uncounted : ∃ m, Reached (Consistent · 1) perform (fun m operation => operation.Within m 1) m ∧ ¬ Counted m 1 := by
  obtain ⟨range,free⟩ := laidMount_two
  obtain ⟨next,called,wrote⟩ := laidMount_laidOut.store.write range zeroInode
  have path : Reached (Consistent · 1) perform (fun m operation => operation.Within m 1) next :=
    (laidMount_reached _).extend (.write zeroInode 2) range (by rw [perform,called]; rfl)
  refine ⟨next,path,?_⟩
  rw [laidMount_consistent.write_iff range wrote,free]
  decide

end KaracaOS.Ext2InodeCounts
