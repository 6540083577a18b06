import KaracaOS.Ext2Blocks
import KaracaOS.Ext2Inodes

namespace KaracaOS.Ext2Mounts
open ByteMemory Bitmap BlockDevice Ext2Fields Ext2Blocks Ext2Inodes StepRuns

-- `old` is what the context held before.
def ext2MountDevice (d : Device) (old : Bytes) : SysRet × Mount :=
  if d.sectorSize ≠ 512 then (.outOfRange,⟨d,old⟩) else
  match ext2ReadBlocks d 1 old 1 with
  | (.noError,superblock) =>
    let superblock := setState superblock ext2ErrorFs
    let (ret,d) := ext2WriteBlocks d 1 superblock 1
    (ret,⟨d,superblock⟩)
  | (ret,superblock) => (ret,⟨d,superblock⟩)

def ext2UnmountDevice (m : Mount) : SysRet × Mount :=
  let superblock := setState m.superblock ext2ValidFs
  match ext2WriteBlocks m.device 1 superblock 1 with
  | (.noError,d) => (.noError,⟨d,blank⟩)
  | (ret,d) => (ret,⟨d,superblock⟩)

-- The part of allocate_inode behind `if (found)`.
def takeInode (m : Mount) (table bitmap : Bytes) (group index : Nat) (isDir : Bool) : Mount :=
  let superblock := setFreeInodesCount m.superblock (sFreeInodesCount m.superblock+word-1)
  let device := (ext2WriteBlocks m.device (bgInodeBitmap table group) (setBit bitmap index) 1).2
  let table := setBgFreeInodesCount table group (bgFreeInodesCount table group+65536-1)
  let table := if isDir then setBgUsedDirsCount table group (bgUsedDirsCount table group+1) else table
  ⟨(ext2WriteBlocks device 2 table 1).2,superblock⟩

def bookedTable (table : Bytes) (group : Nat) (isDir : Bool) : Bytes :=
  let table := setBgFreeInodesCount table group (bgFreeInodesCount table group+65536-1)
  if isDir then setBgUsedDirsCount table group (bgUsedDirsCount table group+1) else table

theorem takeInode_eq {m : Mount} (sectors : m.device.sectorSize = 512) (table bitmap : Bytes) (group index : Nat) (isDir : Bool) :
    takeInode m table bitmap group index isDir =
      ⟨(m.device.put (bgInodeBitmap table group) (setBit bitmap index)).put 2 (bookedTable table group isDir),
        setFreeInodesCount m.superblock (sFreeInodesCount m.superblock+word-1)⟩ := by
  simp only [takeInode,bookedTable]
  rw [write_block sectors,write_block ((put_sectorSize _ _ _).trans sectors)]

-- The search leaves its loop over the groups with i = 32, so a hit is booked in
-- desc_table[32], behind the array (none).
def searchHits (m : Mount) (table : Bytes) : Bool :=
  (List.range 32).any fun i => bgFreeInodesCount table i ≠ 0 ∧
    (scan (ext2ReadBlocks m.device (bgInodeBitmap table i) blank 1).2 1024 0).isSome

def allocateInode (m : Mount) (allocatedInode : Nat) (isDir allocateGiven : Bool) : Option (SysRet × Mount) :=
  let table := (ext2ReadBlocks m.device 2 blank 1).2
  if allocateGiven then
    match locate m allocatedInode with
    | none => none
    | some (group,index) =>
      let bitmap := (ext2ReadBlocks m.device (bgInodeBitmap table group) blank 1).2
      if bit bitmap index then some (.unavailable,m) else some (.noError,takeInode m table bitmap group index isDir)
  else if searchHits m table then none
  else some (.noError,m)

-- A device and the context of its mount, which lives in memory only.
structure Machine where
  device : Device
  context : Option Bytes

inductive Operation where
  | mount
  | blocks (array : Nat → Nat) (count : Nat)
  | inode (inodeNr : Nat) (isDir : Bool)
  | unmount

def perform (s : Machine) : Operation → Option Machine
  | .mount =>
    match ext2MountDevice s.device blank with
    | (.noError,m) => some ⟨m.device,some m.superblock⟩
    | (_,m) => some ⟨m.device,s.context⟩
  | .blocks array count =>
    match s.context with
    | none => none
    | some superblock =>
      let (_,_,m) := allocateBlocks ⟨s.device,superblock⟩ array count
      some ⟨m.device,some m.superblock⟩
  | .inode inodeNr isDir =>
    match s.context with
    | none => none
    | some superblock =>
      match allocateInode ⟨s.device,superblock⟩ inodeNr isDir true with
      | none => none
      | some (_,m) => some ⟨m.device,some m.superblock⟩
  | .unmount =>
    match s.context with
    | none => none
    | some superblock =>
      match ext2UnmountDevice ⟨s.device,superblock⟩ with
      | (.noError,m) => some ⟨m.device,none⟩
      | (_,m) => some ⟨m.device,some m.superblock⟩

-- An operation that comes to its end, or one of which only the first block
-- writes reach the disk before the context is lost.
inductive Event where
  | done (operation : Operation)
  | crash (operation : Operation) (writes : Nat)

def Event.operation : Event → Operation
  | .done operation => operation
  | .crash operation _ => operation

def step (s : Machine) : Event → Option Machine
  | .done operation => perform s operation
  | .crash operation writes =>
    match perform {s with device := {s.device with images := []}} operation with
    | none => none
    | some next => ((s.device.disk::next.device.images.reverse)[writes]?).map fun disk => ⟨{s.device with disk := disk},none⟩

def CountsMatch (superblock table : Bytes) : Prop :=
  sFreeBlocksCount superblock = ∑ i ∈ Finset.range 32, bgFreeBlocksCount table i ∧
  sFreeInodesCount superblock = ∑ i ∈ Finset.range 32, bgFreeInodesCount table i
instance (superblock table : Bytes) : Decidable (CountsMatch superblock table) := inferInstanceAs (Decidable (_ ∧ _))

def Truthful (disk : Bytes) : Prop :=
  sState (blockImage disk 1) = ext2ValidFs → CountsMatch (blockImage disk 1) (blockImage disk 2)
instance (disk : Bytes) : Decidable (Truthful disk) := inferInstanceAs (Decidable (_ → _))

def Formatted (s : Machine) : Prop :=
  s.context = none ∧ s.device.sectorSize = 512 ∧ sState (blockImage s.device.disk 1) = ext2ValidFs ∧
    CountsMatch (blockImage s.device.disk 1) (blockImage s.device.disk 2)

-- What the operations rely on without a check: a device that is mounted was
-- unmounted before, or no count was lost; and a group with an inode to give
-- counts it as free.
def Operation.Careful (s : Machine) : Operation → Prop
  | .mount => sState (blockImage s.device.disk 1) = ext2ValidFs ∨ CountsMatch (blockImage s.device.disk 1) (blockImage s.device.disk 2)
  | .inode inodeNr _ => ∀ superblock group index, s.context = some superblock →
      locate ⟨s.device,superblock⟩ inodeNr = some (group,index) →
      bit (blockImage s.device.disk (bgInodeBitmap (blockImage s.device.disk 2) group)) index = true ∨
        bgFreeInodesCount (blockImage s.device.disk 2) group ≠ 0
  | _ => True

-- Bit 1 of s_state. Mounting sets it and allocations only ever set bits, also in
-- a bitmap that the descriptors place into block 1.
def unclean (disk : Bytes) : Bool := bit (blockImage disk 1) 465

theorem unclean_truthful (marked : unclean disk = true) : Truthful disk := by
  intro valid
  have byte : (blockImage disk 1 58).getLsbD 1 = true := marked
  have value : (blockImage disk 1 58).toNat = 1 := by
    have low := get8_lt (blockImage disk 1) 58
    have high := get8_lt (blockImage disk 1) 59
    have state : get8 (blockImage disk 1) 58+256*get8 (blockImage disk 1) 59 = 1 := valid
    show get8 (blockImage disk 1) 58 = 1
    omega
  have known : blockImage disk 1 58 = 1#8 := BitVec.eq_of_toNat_eq value
  rw [known] at byte
  cases byte

theorem unclean_put_other (buffer : Bytes) (away : slot b ≠ 1) : unclean (putBlock disk b buffer) = unclean disk := by
  rw [unclean,blockImage_put_other _ _ (by exact away)]
  rfl

theorem unclean_put_more (more : ∀ n, bit (blockImage disk b) n = true → bit buffer n = true) (marked : unclean disk = true) :
    unclean (putBlock disk b buffer) = true := by
  by_cases here : slot b = 1
  · have same : blockImage disk b = blockImage disk 1 := by
      unfold blockImage offset
      rw [here]
      rfl
    rw [unclean,bit_agree (blockImage_put_same disk buffer (by rw [here]; rfl)) (by decide)]
    exact more 465 (by rw [same]; exact marked)
  · rwa [unclean_put_other buffer here]

theorem CountsMatch.agree (counts : CountsMatch superblock table) (one : Agree superblock' superblock 0 1024)
    (two : Agree table' table 0 1024) : CountsMatch superblock' table' := by
  have same := SameTable.of_agree two
  have blocks : sFreeBlocksCount superblock' = sFreeBlocksCount superblock := get32_agree (one.narrow (by decide) (by decide))
  have inodes : sFreeInodesCount superblock' = sFreeInodesCount superblock := get32_agree (one.narrow (by decide) (by decide))
  rw [CountsMatch,blocks,inodes,Finset.sum_congr rfl (fun i inside => same.freeBlocks i (Finset.mem_range.mp inside)),
    Finset.sum_congr rfl (fun i inside => same.freeInodes i (Finset.mem_range.mp inside))]
  exact counts

-- The disk tells the truth, and a mounted one is marked and counted in memory.
structure Sound (s : Machine) : Prop where
  sectors : s.device.sectorSize = 512
  truthful : Truthful s.device.disk
  mounted : ∀ superblock, s.context = some superblock →
    unclean s.device.disk = true ∧ CountsMatch superblock (blockImage s.device.disk 2)

-- One operation: the new state is sound, and so is every disk on the way.
structure Passes (s next : Machine) : Prop where
  sound : Sound next
  images : ∃ fresh, next.device.images = fresh ++ s.device.images ∧ ∀ disk ∈ fresh, Truthful disk

theorem Passes.still (sound : Sound next) (same : next.device.images = s.device.images) : Passes s next :=
  ⟨sound,[],same,by simp⟩

variable {s next : Machine} {m : Mount}

theorem mount_passes (sound : Sound s) (careful : Operation.Careful s .mount) (ran : perform s .mount = some next) :
    Passes s next := by
  have image : blit blank 0 s.device.disk (offset 1) 1024 = blockImage s.device.disk 1 := rfl
  have counts : CountsMatch (blockImage s.device.disk 1) (blockImage s.device.disk 2) := careful.elim sound.truthful id
  simp only [perform,ext2MountDevice,sound.sectors,ne_eq,not_true_eq_false,if_false,read_block sound.sectors,image,
    write_block sound.sectors,Option.some.injEq] at ran
  subst ran
  have marked : unclean (putBlock s.device.disk 1 (setState (blockImage s.device.disk 1) ext2ErrorFs)) = true := by
    rw [unclean,bit_agree (blockImage_put_same _ _ rfl) (by decide)]
    show (put16 (blockImage s.device.disk 1) 58 2 58).getLsbD 1 = true
    rw [put16,put8_other (by decide),put8,store_same]
    decide
  refine ⟨⟨sound.sectors,unclean_truthful marked,?_⟩,[_],rfl,?_⟩
  · intro superblock context
    cases Option.some.inj context
    refine ⟨marked,?_⟩
    show CountsMatch _ (blockImage (putBlock s.device.disk 1 _) 2)
    rw [blockImage_put_other _ _ (by decide)]
    simpa [CountsMatch] using counts
  · intro disk member
    cases List.mem_singleton.mp member
    exact unclean_truthful marked

theorem unmount_passes (sound : Sound s) (ran : perform s .unmount = some next) : Passes s next := by
  cases context : s.context with
  | none => simp [perform,context] at ran
  | some superblock =>
    obtain ⟨_,counts⟩ := sound.mounted superblock context
    simp only [perform,context,ext2UnmountDevice,write_block sound.sectors,Option.some.injEq] at ran
    subst ran
    have truthful : Truthful (putBlock s.device.disk 1 (setState superblock ext2ValidFs)) := by
      intro _
      have kept : CountsMatch (setState superblock ext2ValidFs) (blockImage s.device.disk 2) := by simpa [CountsMatch] using counts
      refine kept.agree (blockImage_put_same _ _ rfl) ?_
      rw [blockImage_put_other _ _ (by decide)]
      exact .refl _ _ _
    refine ⟨⟨sound.sectors,truthful,fun _ context => by cases context⟩,[_],rfl,?_⟩
    intro disk member
    cases List.mem_singleton.mp member
    exact truthful

theorem two_writes_pass (sound : Sound s) (context : s.context = some superblock)
    (more : ∀ n, bit (blockImage s.device.disk b) n = true → bit bitmap n = true) (counts : CountsMatch superblock' table) :
    Passes s ⟨(s.device.put b bitmap).put 2 table,some superblock'⟩ := by
  obtain ⟨marked,_⟩ := sound.mounted superblock context
  have first : unclean (putBlock s.device.disk b bitmap) = true := unclean_put_more more marked
  have second : unclean (putBlock (putBlock s.device.disk b bitmap) 2 table) = true := by
    rwa [unclean_put_other table (by decide)]
  refine ⟨⟨sound.sectors,unclean_truthful second,?_⟩,[_,_],rfl,?_⟩
  · intro given same
    cases Option.some.inj same
    exact ⟨second,counts.agree (.refl _ _ _) (blockImage_put_same _ _ rfl)⟩
  · intro disk member
    simp only [List.mem_cons,List.not_mem_nil,or_false] at member
    rcases member with rfl | rfl
    · exact unclean_truthful second
    · exact unclean_truthful first

theorem blocks_counted (counts : CountsMatch superblock table) (inside : g < 32) (enough : count ≤ bgFreeBlocksCount table g) :
    CountsMatch (setFreeBlocksCount superblock (sFreeBlocksCount superblock+word-count))
      (setBgFreeBlocksCount table g (bgFreeBlocksCount table g+word-count)) := by
  have small : bgFreeBlocksCount table g < 65536 := get16_lt _ _
  have total : sFreeBlocksCount superblock < 4294967296 := get32_lt _ _
  have lowered : (∑ i ∈ Finset.range 32, bgFreeBlocksCount (setBgFreeBlocksCount table g (bgFreeBlocksCount table g+word-count)) i)+count =
      ∑ i ∈ Finset.range 32, bgFreeBlocksCount table i := by
    refine sum_lowered inside ?_ ?_
    · rw [freeBlocks_freeBlocks,if_pos rfl]
      unfold word
      omega
    · intro j _ differ
      rw [freeBlocks_freeBlocks,if_neg differ]
  refine ⟨?_,by simpa using counts.2⟩
  rw [freeBlocks_setFreeBlocks]
  have sum := counts.1
  unfold word at *
  omega

theorem blocks_pass (sound : Sound s) (ran : perform s (.blocks array count) = some next) : Passes s next := by
  cases context : s.context with
  | none => simp [perform,context] at ran
  | some superblock =>
    cases called : allocateBlocks ⟨s.device,superblock⟩ array count with
    | mk ret rest =>
      obtain ⟨blocks,m⟩ := rest
      simp only [perform,context,called,Option.some.injEq] at ran
      subst ran
      have same : Sound ⟨s.device,some superblock⟩ := ⟨sound.sectors,sound.truthful,fun given equal => sound.mounted given (context.trans equal)⟩
      rw [allocateBlocks,read_local (by exact sound.sectors)] at called
      cases groupLoop_cases called with
      | ended => exact .still same rfl
      | exhausted _ => exact .still same rfl
      | took _ inside _ enough _ =>
        rw [takeBlocks_eq (by exact sound.sectors),read_local (by exact sound.sectors)]
        refine two_writes_pass sound context ?_ (blocks_counted (sound.mounted superblock context).2 (by omega) enough)
        intro n set
        rw [markBlocks,setBits_bit,set,Bool.or_true]

theorem inodes_counted (counts : CountsMatch superblock table) (inside : g < 32) (some_ : bgFreeInodesCount table g ≠ 0) :
    CountsMatch (setFreeInodesCount superblock (sFreeInodesCount superblock+word-1))
      (setBgFreeInodesCount table g (bgFreeInodesCount table g+65536-1)) := by
  have small : bgFreeInodesCount table g < 65536 := get16_lt _ _
  have total : sFreeInodesCount superblock < 4294967296 := get32_lt _ _
  have lowered : (∑ i ∈ Finset.range 32, bgFreeInodesCount (setBgFreeInodesCount table g (bgFreeInodesCount table g+65536-1)) i)+1 =
      ∑ i ∈ Finset.range 32, bgFreeInodesCount table i := by
    refine sum_lowered inside ?_ ?_
    · rw [freeInodes_freeInodes,if_pos rfl]
      omega
    · intro j _ differ
      rw [freeInodes_freeInodes,if_neg differ]
  refine ⟨by simpa using counts.1,?_⟩
  rw [freeInodes_setFreeInodes]
  have sum := counts.2
  unfold word
  omega

theorem dirs_counted (counts : CountsMatch superblock table) (isDir : Bool) (g value : Nat) :
    CountsMatch superblock (if isDir then setBgUsedDirsCount table g value else table) := by
  cases isDir with
  | false => exact counts
  | true => simpa [CountsMatch] using counts

theorem locate_inside (found : locate m inodeNr = some (group,index)) : group < 32 := by
  simp only [locate] at found
  split at found
  · rename_i bounds
    cases Option.some.inj found
    exact bounds.2.1
  · cases found

theorem inode_passes (sound : Sound s) (careful : Operation.Careful s (.inode inodeNr isDir))
    (ran : perform s (.inode inodeNr isDir) = some next) : Passes s next := by
  cases context : s.context with
  | none => simp [perform,context] at ran
  | some superblock =>
    have same : Sound ⟨s.device,some superblock⟩ := ⟨sound.sectors,sound.truthful,fun given equal => sound.mounted given (context.trans equal)⟩
    cases found : locate ⟨s.device,superblock⟩ inodeNr with
    | none => simp [perform,context,allocateInode,found] at ran
    | some place =>
      obtain ⟨group,index⟩ := place
      have allowed := careful superblock group index context found
      simp only [perform,context,allocateInode,found,read_local sound.sectors,if_true] at ran
      cases set : bit (blockImage s.device.disk (bgInodeBitmap (blockImage s.device.disk 2) group)) index with
      | true =>
        simp only [set,if_true,Option.some.injEq] at ran
        subst ran
        exact .still same rfl
      | false =>
        have some_ : bgFreeInodesCount (blockImage s.device.disk 2) group ≠ 0 := allowed.resolve_left (by simp [set])
        simp only [set,Bool.false_eq_true,if_false,Option.some.injEq] at ran
        rw [takeInode_eq (by exact sound.sectors)] at ran
        subst ran
        refine two_writes_pass sound context ?_
          (dirs_counted (inodes_counted (sound.mounted superblock context).2 (locate_inside found) some_) isDir _ _)
        intro n before
        rw [bit_setBit,before,Bool.or_true]

theorem perform_passes (sound : Sound s) (careful : operation.Careful s) (ran : perform s operation = some next) : Passes s next := by
  cases operation with
  | mount => exact mount_passes sound careful ran
  | blocks array count => exact blocks_pass sound ran
  | inode inodeNr isDir => exact inode_passes sound careful ran
  | unmount => exact unmount_passes sound ran

theorem step_sound (sound : Sound s) (careful : event.operation.Careful s) (taken : step s event = some next) : Sound next := by
  cases event with
  | done operation => exact (perform_passes sound careful taken).sound
  | crash operation writes =>
    simp only [step] at taken
    split at taken
    · cases taken
    · rename_i after ran
      obtain ⟨disk,chosen,rfl⟩ := Option.map_eq_some_iff.mp taken
      have forgotten : Sound {s with device := {s.device with images := []}} := ⟨sound.sectors,sound.truthful,sound.mounted⟩
      obtain ⟨_,fresh,images,truthful⟩ := perform_passes forgotten (by cases operation <;> exact careful) ran
      refine ⟨sound.sectors,?_,fun _ context => by cases context⟩
      rcases List.mem_cons.mp (List.mem_of_getElem? chosen) with rfl | later
      · exact sound.truthful
      · rw [images,List.append_nil] at later
        exact truthful disk (List.mem_reverse.mp later)

theorem valid_superblock_truthful (path : Reached Formatted step (fun s event => event.operation.Careful s) s) :
    Truthful s.device.disk := by
  have initial : ∀ s, Formatted s → Sound s := by
    rintro s ⟨context,sectors,_,counts⟩
    exact ⟨sectors,fun _ => counts,fun superblock given => by rw [context] at given; cases given⟩
  exact (path.invariant Sound initial (fun s event next sound careful taken => step_sound sound careful taken)).truthful

-- One free block in one group, counted in the superblock too.
def formattedDisk : Bytes :=
  putBlock oneFreeDisk 1 (setState (put32 (put32 (put32 blank 12 1) 32 8192) 40 1712) ext2ValidFs)
def formattedMachine : Machine := ⟨⟨512,8192,formattedDisk,blank,[]⟩,none⟩

theorem formattedMachine_formatted : Formatted formattedMachine := ⟨rfl,rfl,by decide,by decide⟩

theorem three_steps {a b c : Event} (ran : follow step s [a,b,c] = some last) :
    ∃ one two, step s a = some one ∧ step one b = some two ∧ step two c = some last := by
  obtain ⟨one,first,ran⟩ := Option.bind_eq_some_iff.mp ran
  obtain ⟨two,second,ran⟩ := Option.bind_eq_some_iff.mp ran
  obtain ⟨three,third,ran⟩ := Option.bind_eq_some_iff.mp ran
  cases Option.some.inj ran
  exact ⟨one,two,first,second,third⟩

theorem valid_superblock_truthful_cycle : ∃ s,
    Reached Formatted step (fun s event => event.operation.Careful s) s ∧ s.context = none ∧ s.device.images.length = 4 ∧
      Truthful s.device.disk := by
  let events : List Event := [.done .mount,.done (.blocks (fun _ => 0) 1),.done .unmount]
  have ends : (follow step formattedMachine events).any (fun s => decide (s.context = none ∧ s.device.images.length = 4)) = true := by
    decide
  obtain ⟨s,ran,closed⟩ := (Option.any_eq_true _ _).mp ends
  obtain ⟨mounted,taken,first,second,third⟩ := three_steps ran
  have path : Reached Formatted step (fun s event => event.operation.Careful s) s :=
    (((Reached.start formattedMachine_formatted).extend (.done .mount) (.inl (by decide)) first).extend
      (.done (.blocks (fun _ => 0) 1)) trivial second).extend (.done .unmount) trivial third
  exact ⟨s,path,(of_decide_eq_true closed).1,(of_decide_eq_true closed).2,valid_superblock_truthful path⟩

-- Mount, take a block, lose the context, mount and unmount: the superblock is
-- valid again and still counts the block as free.
theorem remount_after_crash_lies : ∃ s, Reached Formatted step any s ∧ ¬ Truthful s.device.disk := by
  let events : List Event := [.done .mount,.crash (.blocks (fun _ => 0) 1) 2,.done .mount,.done .unmount]
  have ends : (follow step formattedMachine events).any (fun s => decide (¬ Truthful s.device.disk)) = true := by decide
  obtain ⟨s,ran,lies⟩ := (Option.any_eq_true _ _).mp ends
  exact ⟨s,(Reached.start formattedMachine_formatted).follow ran,of_decide_eq_true lies⟩

end KaracaOS.Ext2Mounts
