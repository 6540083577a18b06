import KaracaOS.Ext2Appends

namespace KaracaOS.Ext2Links
open ByteMemory Bitmap BlockDevice Ext2Fields Ext2Inodes Ext2Records Ext2Directory Ext2Appends

-- The headers the walk comes to.
inductive Reads (buffer : Bytes) : Nat → Prop where
  | first : Reads buffer 0
  | next : Reads buffer pos → get32 buffer pos ≠ 0 → Reads buffer ((pos+get16 buffer (pos+4))%word)

def EndsInside (buffer : Bytes) : Prop :=
  ∃ passed last, walkDirectory buffer = some (passed,last) ∧ ∀ element ∈ passed++[last], element.bufferPos < 1024

-- Each record in use leads forward, to a header in the block.
def Forward (buffer : Bytes) : Prop :=
  ∀ pos, Reads buffer pos → get32 buffer pos ≠ 0 → 0 < get16 buffer (pos+4) ∧ pos+get16 buffer (pos+4) < 1024

variable {buffer left right : Bytes} {m next : Mount} {groups dir nr pos : Nat} {link : Link} {sizes : List Nat}

theorem Forward.walk (forward : Forward buffer) (read : Reads buffer pos) (inside : pos < 1024) (enough : 1024 ≤ pos+fuel) :
    ∃ passed last, dirWalk buffer fuel (elementAt buffer pos) = some (passed,last) ∧
      ∀ element ∈ passed++[last], element.bufferPos < 1024 := by
  induction fuel generalizing pos with
  | zero => omega
  | succ fuel ih =>
    rw [dirWalk]
    by_cases unused : (elementAt buffer pos).inode = 0
    · rw [if_pos unused]
      refine ⟨[],_,rfl,?_⟩
      intro element member
      rw [List.mem_singleton.mp member]
      exact inside
    · rw [if_neg unused]
      obtain ⟨positive,below⟩ := forward pos read unused
      have step : (pos+get16 buffer (pos+4))%word = pos+get16 buffer (pos+4) := Nat.mod_eq_of_lt (by unfold word; omega)
      have onward : ext2DirWalkNext buffer (elementAt buffer pos) = elementAt buffer (pos+get16 buffer (pos+4)) := congrArg _ step
      have later := read.next unused
      rw [step] at later
      obtain ⟨passed,last,ran,within⟩ := ih later below (by omega)
      rw [onward,ran]
      refine ⟨elementAt buffer pos::passed,last,rfl,?_⟩
      intro element member
      rcases List.mem_cons.mp member with rfl | rest
      · exact inside
      · exact within element rest

theorem Reads.position (read : Reads buffer pos) (walk : Walk buffer n) : ∃ k ≤ n, pos = posAt buffer k := by
  induction read with
  | first => exact ⟨0,Nat.zero_le _,rfl⟩
  | next _ used ih =>
    obtain ⟨k,upto,rfl⟩ := ih
    have before : k ≠ n := by
      rintro rfl
      exact used walk.ended
    exact ⟨k+1,by omega,rfl⟩

theorem walk_ends_inside_iff (buffer : Bytes) : EndsInside buffer ↔ Forward buffer := by
  constructor
  · rintro ⟨passed,last,ran,within⟩ pos read used
    obtain ⟨walk,final,elements⟩ := walkDirectory_positions ran
    have bound : ∀ k ≤ passed.length, posAt buffer k < 1024 := by
      intro k upto
      by_cases ending : k = passed.length
      · rw [ending,← final]
        exact within last (by simp)
      · refine within (elementAt buffer (posAt buffer k)) (List.mem_append.mpr (.inl ?_))
        rw [elements]
        exact List.mem_map.mpr ⟨k,List.mem_range.mpr (by omega),rfl⟩
    obtain ⟨k,upto,rfl⟩ := read.position walk
    have before : k ≠ passed.length := by
      rintro rfl
      exact used walk.ended
    have here := bound k upto
    have there := bound (k+1) (by omega)
    have length := get16_lt buffer (posAt buffer k+4)
    rw [posAt,Nat.mod_eq_of_lt (by unfold word; omega)] at there
    exact ⟨walk.advances (by omega),there⟩
  · intro forward
    exact forward.walk .first (by decide) (by decide)

-- A record of length zero that is in use.
theorem zero_length_never_ends : ¬ EndsInside (put32 blank 0 1) := by
  rintro ⟨passed,last,ran,_⟩
  obtain ⟨walk,_,_⟩ := walkDirectory_positions ran
  cases count : passed.length with
  | zero =>
    rw [count] at walk
    exact absurd walk.ended (by decide)
  | succ n =>
    rw [count] at walk
    exact absurd (walk.advances (Nat.succ_pos n)) (by decide)

-- Records of the given lengths one after the other, and a header without an
-- inode that ends them, all in one block.
def Sequence (block : Bytes) : Nat → List Nat → Prop
  | pos,[] => pos+8 ≤ 1024 ∧ get32 block pos = 0
  | pos,size::rest =>
    get32 block pos ≠ 0 ∧ get16 block (pos+4) = size ∧ 8+get8 block (pos+6) ≤ size ∧ size%4 = 0 ∧ Sequence block (pos+size) rest

theorem Sequence.bound (sequence : Sequence buffer pos sizes) : pos+sizes.sum+8 ≤ 1024 ∧ sizes.length ≤ sizes.sum := by
  induction sizes generalizing pos with
  | nil => exact ⟨sequence.1,Nat.zero_le _⟩
  | cons size rest ih =>
    obtain ⟨_,_,wide,_,tail⟩ := sequence
    have later := ih tail
    rw [List.sum_cons,List.length_cons]
    omega

theorem Sequence.ended (sequence : Sequence buffer pos sizes) : get32 buffer (pos+sizes.sum) = 0 := by
  induction sizes generalizing pos with
  | nil => exact sequence.2
  | cons size rest ih =>
    have tail := ih sequence.2.2.2.2
    rwa [Nat.add_assoc,← List.sum_cons] at tail

theorem Sequence.agree (sequence : Sequence left pos sizes) (agree : Agree left right 0 1024) : Sequence right pos sizes := by
  induction sizes generalizing pos with
  | nil =>
    obtain ⟨inside,unused⟩ := sequence
    exact ⟨inside,by rwa [← get32_agree (agree.narrow (Nat.zero_le _) (by omega))]⟩
  | cons size rest ih =>
    have bound := sequence.bound.1
    obtain ⟨used,length,wide,whole,tail⟩ := sequence
    rw [List.sum_cons] at bound
    refine ⟨?_,?_,?_,whole,ih tail⟩
    · rwa [← get32_agree (agree.narrow (Nat.zero_le _) (by omega))]
    · rwa [← get16_agree (agree.narrow (Nat.zero_le _) (by omega))]
    · rwa [← get8_agree (agree.narrow (Nat.zero_le _) (by omega))]

theorem Sequence.walk (sequence : Sequence buffer pos sizes) (enough : sizes.length < fuel) :
    ∃ passed, dirWalk buffer fuel (elementAt buffer pos) = some (passed,elementAt buffer (pos+sizes.sum)) := by
  induction sizes generalizing pos fuel with
  | nil =>
    obtain ⟨fuel,rfl⟩ : ∃ k, fuel = k+1 := ⟨fuel-1,by omega⟩
    have unused : (elementAt buffer pos).inode = 0 := sequence.2
    exact ⟨[],by rw [dirWalk,if_pos unused]; rfl⟩
  | cons size rest ih =>
    have bound := sequence.bound.1
    obtain ⟨used,length,_,_,tail⟩ := sequence
    rw [List.length_cons] at enough
    obtain ⟨fuel,rfl⟩ : ∃ k, fuel = k+1 := ⟨fuel-1,by omega⟩
    have used : (elementAt buffer pos).inode ≠ 0 := used
    have onward : ext2DirWalkNext buffer (elementAt buffer pos) = elementAt buffer (pos+size) := by
      show elementAt buffer ((pos+get16 buffer (pos+4))%word) = _
      rw [length,Nat.mod_eq_of_lt]
      rw [List.sum_cons] at bound
      unfold word
      omega
    obtain ⟨passed,ran⟩ := ih tail (by omega : rest.length < fuel)
    refine ⟨elementAt buffer pos::passed,?_⟩
    rw [dirWalk,if_neg used,onward,ran,List.sum_cons,Nat.add_assoc]
    rfl

theorem Sequence.append (sequence : Sequence left pos sizes) (agree : Agree right left pos sizes.sum)
    (record : Sequence right (pos+sizes.sum) [size]) : Sequence right pos (sizes++[size]) := by
  induction sizes generalizing pos with
  | nil => exact record
  | cons head rest ih =>
    obtain ⟨used,length,wide,whole,tail⟩ := sequence
    rw [List.sum_cons] at agree record
    refine ⟨?_,?_,?_,whole,ih tail (agree.narrow (by omega) (by omega)) (by rwa [Nat.add_assoc])⟩
    · rwa [get32_agree (agree.narrow (Nat.le_refl _) (by omega))]
    · rwa [get16_agree (agree.narrow (by omega) (by omega))]
    · rwa [get8_agree (agree.narrow (by omega) (by omega))]

-- The new record and a terminator that closes the block are in it when it is
-- read back, behind the old records, and no byte behind the block is written.
structure AddedInside (m next : Mount) (dir : Nat) (link : Link) (sizes : List Nat) : Prop where
  old : Agree (blockImage next.device.disk (iBlock (stored m dir) 0)) (dirBlock m dir) 0 sizes.sum
  record : Record (blockImage next.device.disk (iBlock (stored m dir) 0)) sizes.sum link
  sequence : Sequence (blockImage next.device.disk (iBlock (stored m dir) 0)) 0 (sizes++[link.size])
  closed : get16 (blockImage next.device.disk (iBlock (stored m dir) 0)) (sizes.sum+link.size+4) = 1024-(sizes.sum+link.size)
  tail : SameTail next.device.rwBuffer m.device.rwBuffer

def NotOverrun (m : Mount) (dir : Nat) (link : Link) (sizes : List Nat) : Prop :=
  ∃ ret next, ext2AddLink m dir link.bytes link.type.toNat link.name.length link.inode = some (ret,next) ∧
    ((ret = .noError ∧ AddedInside m next dir link sizes) ∨
      (ret ≠ .noError ∧ blockImage next.device.disk (iBlock (stored m dir) 0) = dirBlock m dir))

-- Whatever happens, the call reports success.
theorem addLink_succeeds (ran : ext2AddLink m dir name type nameLen nr = some (ret,next)) : ret = .noError := by
  simp only [ext2AddLink,Option.bind_eq_bind,Option.bind_eq_some_iff,Option.pure_def,Option.some.injEq,Prod.mk.injEq] at ran
  obtain ⟨_,_,_,_,_,_,_,_,success,_⟩ := ran
  exact success.symm

theorem Entry.addInside (entry : Entry m groups dir) (range : InRange m groups link.inode)
    (sequence : Sequence (dirBlock m dir) 0 sizes) (fits : sizes.sum+link.size+8 ≤ 1024) :
    ∃ next, ext2AddLink m dir link.bytes link.type.toNat link.name.length link.inode = some (.noError,next) ∧
      AddedInside m next dir link sizes := by
  obtain ⟨block,same⟩ := entry.reads
  have agree := loaded_agree m dir
  have few := sequence.bound.2
  obtain ⟨passed,walked⟩ := (sequence.agree agree.symm).walk (show sizes.length < word by unfold word; omega)
  rw [Nat.zero_add] at walked
  obtain ⟨middle,next,ran,filled,wrote,tail⟩ := addLink_writes entry.store entry.range range (by rw [block]; exact entry.outside.table)
    (by rw [same]; exact walked) link.bytes link.type.toNat link.name.length
  rw [block,same] at filled
  rw [same] at tail
  have last : (elementAt (loaded m dir) sizes.sum).bufferPos = sizes.sum := rfl
  rw [last] at filled tail
  obtain ⟨before,record,ended,length⟩ := putRecord_record (loaded m dir) sizes.sum (entry.store.small range)
  have behind : SameTail (putRecord (loaded m dir) sizes.sum link.inode link.bytes link.name.length link.type.toNat) m.device.rwBuffer := by
    intro i high
    rw [putRecord_behind (loaded m dir) link (by omega)]
    exact blit_outside (.inr (by omega))
  generalize putRecord (loaded m dir) sizes.sum link.inode link.bytes link.name.length link.type.toNat = written at *
  have back : Agree (blockImage next.device.disk (iBlock (stored m dir) 0)) written 0 1024 := by
    rw [entry.kept filled wrote range entry.outside,filled.disk]
    exact blockImage_put_same _ _ rfl
  have old : Agree (blockImage next.device.disk (iBlock (stored m dir) 0)) (dirBlock m dir) 0 sizes.sum :=
    (back.narrow (Nat.le_refl _) (by omega)).trans (before.trans (agree.narrow (Nat.le_refl _) (by omega)))
  have added := record.agree (back.symm.narrow (Nat.zero_le _) (by omega))
  have unused : get32 (blockImage next.device.disk (iBlock (stored m dir) 0)) (sizes.sum+link.size) = 0 :=
    (get32_agree (back.narrow (Nat.zero_le _) (by omega))).trans ended
  refine ⟨next,ran,old,added,sequence.append old ?_,?_,tail.trans behind⟩
  · rw [Nat.zero_add]
    refine ⟨?_,added.recLen,?_,?_,by omega,unused⟩
    · rw [added.inode]
      exact Nat.ne_of_gt range.1
    · rw [added.nameLen]
      exact link.size_bounds.1
    · unfold Link.size recordLength nameLenWithPadding
      omega
  · rw [get16_agree (back.narrow (Nat.zero_le _) (by omega)),length]
    unfold word
    omega

theorem NotOverrun.fits (inside : NotOverrun m dir link sizes) : sizes.sum+link.size+8 ≤ 1024 := by
  obtain ⟨ret,next,ran,⟨_,added⟩ | ⟨failed,_⟩⟩ := inside
  · have bound := added.sequence.bound.1
    rw [List.sum_append,List.sum_singleton] at bound
    omega
  · exact absurd (addLink_succeeds ran) failed

theorem directory_not_overrun_iff (entry : Entry m groups dir) (range : InRange m groups link.inode)
    (sequence : Sequence (dirBlock m dir) 0 sizes) : NotOverrun m dir link sizes ↔ sizes.sum+link.size+8 ≤ 1024 := by
  constructor
  · exact NotOverrun.fits
  · intro fits
    obtain ⟨next,ran,added⟩ := Entry.addInside entry range sequence fits
    exact ⟨.noError,next,ran,.inl ⟨rfl,added⟩⟩

theorem blank_root_not_overrun : Sequence (dirBlock (rootMount 0) 2) 0 [] ∧ NotOverrun (rootMount 0) 2 dot [] := by
  have empty : Sequence (dirBlock (rootMount 0) 2) 0 [] := ⟨by decide,root_directory.ended⟩
  exact ⟨empty,(directory_not_overrun_iff root_directory.entry (rootMount_range 0) empty).mpr (by decide)⟩

theorem Filled.entry (filled : Filled m next b buffer) (outside : Outside m groups b) (entry : Entry m groups dir) : Entry next groups dir := by
  have table := filled.table outside
  refine ⟨entry.store.same filled.sectors filled.superblock table,(inRange_same filled.superblock).mpr entry.range,
    (filled.taken outside.spared entry.store entry.range).trans entry.allocated,?_⟩
  rw [filled.stored outside entry.store entry.range]
  exact entry.outside.same filled.superblock table

-- One record of 1012 bytes and the terminator behind it, four bytes before the
-- end of the block.
def crowdedBlock : Bytes := putHeader blank 0 2 1012 1 2
def crowdedMount : Mount := {rootMount 0 with device := (rootMount 0).device.put 300 crowdedBlock}

theorem crowded_root_overrun : Entry crowdedMount 1 2 ∧ InRange crowdedMount 1 dot.inode ∧
    Sequence (dirBlock crowdedMount 2) 0 [1012] ∧ ¬ NotOverrun crowdedMount 2 dot [1012] := by
  have laid := rootMount_laidOut 0
  have filled : Filled (rootMount 0) crowdedMount 300 crowdedBlock := Filled.put laid.sectors rfl rfl _ _
  have outside : Outside (rootMount 0) 1 300 := laidOut_outside laid (by decide) (by decide)
  have entry := Filled.entry filled outside root_directory.entry
  have block : iBlock (stored crowdedMount 2) 0 = 300 := by
    rw [filled.stored outside laid.store (rootMount_range 0)]
    decide
  have agree : Agree crowdedBlock (dirBlock crowdedMount 2) 0 1024 := by
    rw [dirBlock,block,filled.disk]
    exact (blockImage_put_same _ _ rfl).symm
  have sequence : Sequence crowdedBlock 0 [1012] := ⟨by decide,by decide,by decide,by decide,by decide,by decide⟩
  exact ⟨entry,entry.range,sequence.agree agree,fun inside => absurd inside.fits (by decide)⟩

def Missing (m : Mount) (nr : Nat) : Prop := ∃ inode after, ext2ReadInode m nr = some (.notFound,inode,after)

def Refuses (m : Mount) (dir : Nat) (name : Bytes) (type nameLen nr : Nat) : Prop :=
  ∃ ret next, ext2AddLink m dir name type nameLen nr = some (ret,next) ∧ ret ≠ .noError ∧
    ∀ b, blockImage next.device.disk b = blockImage m.device.disk b

-- No call is ever refused, so the rule holds only where it says nothing.
theorem missing_inode_refused_iff (m : Mount) (dir : Nat) (name : Bytes) (type nameLen nr : Nat) :
    (Missing m dir ∨ Missing m nr → Refuses m dir name type nameLen nr) ↔ ¬ (Missing m dir ∨ Missing m nr) := by
  constructor
  · intro rule missing
    obtain ⟨ret,next,ran,failed,_⟩ := rule missing
    exact failed (addLink_succeeds ran)
  · exact fun present missing => absurd missing present

theorem missing_target_taken (store : InodeStore m groups) (directory : InRange m groups dir) (range : InRange m groups nr)
    (outside : Outside m groups (linkBlock m dir)) (missing : taken m nr = false)
    (ran : ext2AddLink m dir name type nameLen nr = some (ret,next)) : taken next nr = true ∧ stored next nr = linked zeroInode 1 := by
  obtain ⟨_,middle,filled,wrote⟩ := addLink_wrote store directory range outside.table ran
  have inside := (inRange_same filled.superblock).mpr range
  have store' := store.same filled.sectors filled.superblock (filled.table outside)
  rw [wrote.taken store' inside inside,wrote.stored store' inside inside,fetched,missing,if_pos rfl]
  exact ⟨by simp,rfl⟩

theorem missing_of_free (store : InodeStore m groups) (range : InRange m groups nr) (free : taken m nr = false) : Missing m nr := by
  obtain ⟨_,_,ran⟩ := store.read range
  rw [free,if_neg (by decide)] at ran
  exact ⟨_,_,ran⟩

-- Neither inode 2 nor inode 3 is there: the name goes into block 0, and inode 3
-- is marked as allocated.
theorem link_between_missing_inodes : Missing laidMount 2 ∧ Missing laidMount 3 ∧ ¬ Refuses laidMount 2 dot.bytes 0 1 3 ∧
    ∃ next, ext2AddLink laidMount 2 dot.bytes 0 1 3 = some (.noError,next) ∧ taken next 3 = true ∧
      get32 (blockImage next.device.disk 0) 0 = 3 := by
  have laid := laidMount_laidOut
  have two : InRange laidMount 1 2 := by
    rw [InRange,laid.inodesPerGroup]
    decide
  have three : InRange laidMount 1 3 := by
    rw [InRange,laid.inodesPerGroup]
    decide
  have free : taken laidMount 2 = false := by decide
  have free' : taken laidMount 3 = false := by decide
  have block : linkBlock laidMount 2 = 0 := by decide
  have outside : Outside laidMount 1 0 := by
    refine ⟨by decide,?_,?_⟩
    · intro g inside
      rw [(laid.blocks inside).1,slot_small (by omega)]
      exact Nat.succ_ne_zero _
    · intro g inside k below
      rw [laid.inodesPerGroup] at below
      rw [(laid.blocks inside).2 k (by omega),slot_small (by omega),slot_small (by decide)]
      omega
  have empty : Sequence (linkBuffer laidMount 2) 0 [] := ⟨by decide,by decide⟩
  obtain ⟨passed,walked⟩ := empty.walk (show ([] : List Nat).length < word by decide)
  obtain ⟨middle,next,ran,filled,wrote,_⟩ := addLink_writes laid.store two three (by rw [block]; decide) walked dot.bytes 0 1
  rw [block] at filled
  refine ⟨missing_of_free laid.store two free,missing_of_free laid.store three free',?_,next,ran,
    (missing_target_taken laid.store two three (by rwa [block]) free' ran).1,?_⟩
  · rintro ⟨ret,other,called,failed,_⟩
    exact failed (addLink_succeeds called)
  · have outside' := outside.same filled.superblock (filled.table outside)
    have store := laid.store.same filled.sectors filled.superblock (filled.table outside)
    obtain ⟨group,index,_⟩ := store.bounds ((inRange_same filled.superblock).mpr three)
    rw [wrote.elsewhere (outside'.bitmaps _ group) (outside'.inodes _ group _ (by omega)),filled.disk,
      get32_agree ((blockImage_put_same _ _ rfl).narrow (Nat.le_refl _) (by decide))]
    obtain ⟨_,record,_⟩ := putRecord_record (linkBuffer laidMount 2) 0 (show (⟨3,0#8,[0x2e#8],by decide⟩ : Link).inode < word by decide)
    exact record.inode

end KaracaOS.Ext2Links
