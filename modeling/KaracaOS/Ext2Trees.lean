import KaracaOS.Ext2Volumes

namespace KaracaOS.Ext2Trees
open ByteMemory Bitmap BlockDevice Ext2Fields Ext2Inodes Ext2Records Ext2Directory Ext2Appends Ext2Format Ext2FreshRoot Ext2Volumes StepRuns
open Ext2Blocks hiding Volume
open Ext2Mounts hiding Operation Event perform step Passes Formatted

-- What the directories are to list, by their inode numbers.
def grown (tree : Nat → Option (List Link)) : Operation → Nat → Option (List Link)
  | .link dir link => Function.update tree dir ((tree dir).map fun links => links++[link])
  | _ => tree

-- A call that goes down before its first block write leaves the lists as they
-- were; behind it they are those of the whole call.
def follow (tree : Nat → Option (List Link)) : Event → Nat → Option (List Link)
  | .done operation => grown tree operation
  | .crash _ 0 _ => tree
  | .crash operation (_+1) _ => grown tree operation

structure System where
  volume : Volume
  tree : Nat → Option (List Link)

def step (s : System) (event : Event) : Option System := (Ext2Volumes.step s.volume event).map fun volume => ⟨volume,follow s.tree event⟩

-- An inode where the formatter's groups have it.
def inodeOn (disk : Bytes) (nr : Nat) : Inode := inodeAt (blockImage disk ((nr-1)/1712*8192+5+(nr-1)%1712/8)) ((nr-1)%1712%8)
def givenOn (disk : Bytes) (nr : Nat) : Bool := bit (blockImage disk ((nr-1)/1712*8192+4)) ((nr-1)%1712)
def blockOn (disk : Bytes) (nr : Nat) : Nat := iBlock (inodeOn disk nr) 0

-- A disk on which a directory lists its links.
structure Lists (groups total : Nat) (disk : Bytes) (dir : Nat) (links : List Link) : Prop where
  bounds : 1 ≤ dir ∧ dir ≤ groups*1712
  given : givenOn disk dir = true
  data : DataBlock total (blockOn disk dir)
  listed : Listed (blockImage disk (blockOn disk dir)) 0 links
  nonzero : ∀ link ∈ links, link.inode ≠ 0
  ended : get32 (blockImage disk (blockOn disk dir)) (totalSize links) = 0
  closed : links ≠ [] → get16 (blockImage disk (blockOn disk dir)) (totalSize links+4) = 1024-totalSize links
  fits : totalSize links+8 ≤ 1024

structure Shows (groups total : Nat) (disk : Bytes) (tree : Nat → Option (List Link)) : Prop where
  lists : ∀ dir links, tree dir = some links → Lists groups total disk dir links
  apart : ∀ one two, (tree one).isSome → (tree two).isSome → blockOn disk one = blockOn disk two → one = two

-- The calls keep to what their callers keep to: inodes of the volume, inodes of
-- directories not written from outside, and links to inodes that have been given
-- out, for which the directory has room.
def Suits (groups : Nat) (s : System) : Operation → Prop
  | .mount _ => True
  | .blocks _ count => 1 ≤ count ∧ count < word
  | .inode inodeNr _ => 1 ≤ inodeNr ∧ inodeNr ≤ groups*1712
  | .write _ inodeNr => (1 ≤ inodeNr ∧ inodeNr ≤ groups*1712) ∧ s.tree inodeNr = none
  | .link dir link => (1 ≤ link.inode ∧ link.inode ≤ groups*1712) ∧ givenOn s.volume.device.disk link.inode = true ∧
      ∃ links, s.tree dir = some links ∧ totalSize links+link.size+8 ≤ 1024
  | .unmount => True

variable {groups total g nr dir b : Nat} {disk next buffer : Bytes} {tree : Nat → Option (List Link)} {links : List Link} {link : Link}
  {m after : Mount} {v w : Volume} {operation : Operation} {inode : Inode} {s : System}

theorem laid_places (laid : LaidOut m groups) (bounds : 1 ≤ nr ∧ nr ≤ groups*1712) :
    taken m nr = givenOn m.device.disk nr ∧ stored m nr = inodeOn m.device.disk nr := by
  have group : groupOf m nr = (nr-1)/1712 := by rw [groupOf,laid.inodesPerGroup]
  have index : indexOf m nr = (nr-1)%1712 := by rw [indexOf,laid.inodesPerGroup]
  obtain ⟨bitmap,table⟩ := laid.blocks (show (nr-1)/1712 < groups by omega)
  constructor
  · rw [taken,group,index,bitmap,givenOn]
  · rw [stored,group,index,table _ (by omega),inodeOn]

theorem data_outside (laid : LaidOut m groups) (data : DataBlock total b) (size : total < groups*8192) : Outside m groups b := by
  have few := laid.few
  obtain ⟨low,inside,high⟩ := data
  have small : slot b = b := slot_small (by omega)
  refine ⟨by omega,?_,?_⟩
  · intro h within
    rw [(laid.blocks within).1,slot_small (show h*8192+4 < 2147483648 by omega)]
    omega
  · intro h within k below
    rw [laid.inodesPerGroup] at below
    rw [(laid.blocks within).2 k (by omega),slot_small (show h*8192+5+k < 2147483648 by omega)]
    omega

theorem Lists.directory (lists : Lists groups total m.device.disk dir links) (laid : LaidOut m groups) (size : total < groups*8192) :
    Directory m groups dir links := by
  obtain ⟨bounds,given,data,listed,nonzero,ended,closed,_⟩ := lists
  obtain ⟨allocated,place⟩ := laid_places laid bounds
  have block : iBlock (stored m dir) 0 = blockOn m.device.disk dir := by rw [place,blockOn]
  refine ⟨laid.store,laid_inRange laid bounds,allocated.trans given,?_,?_,nonzero,?_,?_⟩
  · rw [block]
    exact data_outside laid data size
  all_goals rw [dirBlock,block]
  · exact listed
  · exact ended
  · exact closed

theorem Directory.lists (directory : Directory m groups dir links) (laid : LaidOut m groups) (bounds : 1 ≤ dir ∧ dir ≤ groups*1712)
    (data : DataBlock total (iBlock (stored m dir) 0)) (fits : totalSize links+8 ≤ 1024) : Lists groups total m.device.disk dir links := by
  obtain ⟨allocated,place⟩ := laid_places laid bounds
  have block : blockOn m.device.disk dir = iBlock (stored m dir) 0 := by rw [place,blockOn]
  refine ⟨bounds,allocated.symm.trans directory.allocated,?_,?_,directory.nonzero,?_,?_,fits⟩
  all_goals rw [block]
  · exact data
  · exact directory.listed
  · exact directory.ended
  · exact directory.closed

theorem Lists.wider {fewer : Nat} (lists : Lists fewer total disk dir links) (more : fewer ≤ groups) : Lists groups total disk dir links := by
  obtain ⟨⟨low,high⟩,given,data,listed,nonzero,ended,closed,fits⟩ := lists
  exact ⟨⟨low,high.trans (Nat.mul_le_mul_right 1712 more)⟩,given,data,listed,nonzero,ended,closed,fits⟩

-- What a directory lists is in its bit, its inode's first block number and that block.
structure Same (disk next : Bytes) (dir : Nat) : Prop where
  given : givenOn disk dir = true → givenOn next dir = true
  block : blockOn next dir = blockOn disk dir
  image : blockImage next (blockOn disk dir) = blockImage disk (blockOn disk dir)

theorem Lists.same (lists : Lists groups total disk dir links) (same : Same disk next dir) : Lists groups total next dir links := by
  obtain ⟨bounds,given,data,listed,nonzero,ended,closed,fits⟩ := lists
  refine ⟨bounds,same.given given,?_,?_,nonzero,?_,?_,fits⟩
  · rwa [same.block]
  all_goals rw [same.block,same.image]
  · exact listed
  · exact ended
  · exact closed

theorem Shows.same (shows_ : Shows groups total disk tree) (same : ∀ dir, (tree dir).isSome → Same disk next dir) :
    Shows groups total next tree := by
  constructor
  · intro dir links known
    exact (shows_.lists dir links known).same (same dir (by simp [known]))
  · intro one two first second equal
    rw [(same one first).block,(same two second).block] at equal
    exact shows_.apart one two first second equal

theorem put_same (one : slot b ≠ slot ((dir-1)/1712*8192+4)) (two : slot b ≠ slot ((dir-1)/1712*8192+5+(dir-1)%1712/8))
    (three : slot b ≠ slot (blockOn disk dir)) : Same disk (putBlock disk b buffer) dir := by
  have place : blockOn (putBlock disk b buffer) dir = blockOn disk dir := by
    rw [blockOn,inodeOn,blockImage_put_other _ _ two]
    rfl
  refine ⟨?_,place,blockImage_put_other _ _ three⟩
  rw [givenOn,givenOn,blockImage_put_other _ _ one]
  exact id

theorem Shows.counts (shows_ : Shows groups total disk tree) (few : groups ≤ 31) (size : total < groups*8192)
    (low : 1 ≤ slot b%8192 ∧ slot b%8192 ≤ 3) : Shows groups total (putBlock disk b buffer) tree := by
  apply shows_.same
  intro dir known
  obtain ⟨links,known⟩ := Option.isSome_iff_exists.mp known
  obtain ⟨bounds,_,⟨first,inside,last⟩,_⟩ := shows_.lists dir links known
  apply put_same
  · rw [slot_small (show (dir-1)/1712*8192+4 < 2147483648 by omega)]
    omega
  · rw [slot_small (show (dir-1)/1712*8192+5+(dir-1)%1712/8 < 2147483648 by omega)]
    omega
  · rw [slot_small (show blockOn disk dir < 2147483648 by omega)]
    omega

theorem Shows.mark (shows_ : Shows groups total disk tree) (few : groups ≤ 31) (size : total < groups*8192) (inside : g < groups)
    (more : ∀ n < 1712, bit (blockImage disk (g*8192+4)) n = true → bit buffer n = true) : Shows groups total (putBlock disk (g*8192+4) buffer) tree := by
  have place : slot (g*8192+4) = g*8192+4 := slot_small (by omega)
  apply shows_.same
  intro dir known
  obtain ⟨links,known⟩ := Option.isSome_iff_exists.mp known
  obtain ⟨bounds,_,⟨first,within,last⟩,_⟩ := shows_.lists dir links known
  have two : slot (g*8192+4) ≠ slot ((dir-1)/1712*8192+5+(dir-1)%1712/8) := by
    rw [place,slot_small (show (dir-1)/1712*8192+5+(dir-1)%1712/8 < 2147483648 by omega)]
    omega
  have three : slot (g*8192+4) ≠ slot (blockOn disk dir) := by
    rw [place,slot_small (show blockOn disk dir < 2147483648 by omega)]
    omega
  by_cases here : (dir-1)/1712 = g
  · refine ⟨?_,?_,blockImage_put_other _ _ three⟩
    · rw [givenOn,givenOn,here]
      intro given
      rw [bit_agree (blockImage_put_same _ _ rfl) (by omega)]
      exact more _ (by omega) given
    · rw [blockOn,inodeOn,blockImage_put_other _ _ two]
      rfl
  · refine put_same ?_ two three
    rw [place,slot_small (show (dir-1)/1712*8192+4 < 2147483648 by omega)]
    omega

theorem laid_same {next : Mount} (laid : LaidOut m groups) (sectors : next.device.sectorSize = 512) (superblock : next.superblock = m.superblock)
    (table : blockImage next.device.disk 2 = blockImage m.device.disk 2) : LaidOut next groups := by
  refine ⟨sectors,laid.few,?_,?_,?_⟩
  · rw [superblock]
    exact laid.blocksPerGroup
  · rw [superblock]
    exact laid.inodesPerGroup
  · rw [superblock,table]
    exact laid.descriptors

theorem wrote_same (laid : LaidOut m groups) (wrote : Wrote m after inode nr) (bounds : 1 ≤ nr ∧ nr ≤ groups*1712)
    (lists : Lists groups total m.device.disk dir links) (size : total < groups*8192) (keeps : dir = nr → iBlock inode 0 = blockOn m.device.disk dir) :
    Same m.device.disk after.device.disk dir := by
  have range := laid_inRange laid bounds
  have inside := laid_inRange laid lists.bounds
  obtain ⟨group,index,_⟩ := laid.store.bounds range
  have outside := data_outside laid lists.data size
  obtain ⟨allocated,place⟩ := laid_places laid lists.bounds
  obtain ⟨allocated',place'⟩ := laid_places (laid_same laid wrote.sectors wrote.superblock (wrote.table laid.store range)) lists.bounds
  refine ⟨?_,?_,wrote.elsewhere (outside.bitmaps _ group) (outside.inodes _ group _ (by omega))⟩
  · intro given
    rw [← allocated',wrote.taken laid.store range inside,allocated,given,Bool.or_true]
  · rw [blockOn,← place',wrote.stored laid.store range inside]
    by_cases target : dir = nr
    · rw [if_pos target]
      exact keeps target
    · rw [if_neg target,place]
      rfl

theorem write_shows (shows_ : Shows groups total m.device.disk tree) (laid : LaidOut m groups) (few : groups ≤ 31) (size : total < groups*8192)
    (bounds : 1 ≤ nr ∧ nr ≤ groups*1712) (keeps : (tree nr).isSome → iBlock inode 0 = blockOn m.device.disk nr)
    (ran : ext2WriteInode m inode nr = some (ret,after)) : Passes (fun disk => Shows groups total disk tree) m.device after.device := by
  have range := laid_inRange laid bounds
  obtain ⟨group,index,_,_⟩ := laid.store.bounds range
  rw [laid.inodesPerGroup] at index
  obtain ⟨place,table⟩ := laid.blocks group
  obtain ⟨next,ran',wrote⟩ := laid.store.write range inode
  cases ran.symm.trans ran'
  have form : ext2WriteInode m inode nr = some (.noError,
      ⟨storeInode (marked m nr) (tableBlock m.device.disk (groupOf m nr) (indexOf m nr/8)) (indexOf m nr%8) inode,m.superblock⟩) := by
    simp only [ext2WriteInode,laid.store.locate range,read_local laid.sectors,write_block laid.sectors]
    rfl
  have sectors : (marked m nr).sectorSize = 512 := (put_sectorSize _ _ _).trans laid.sectors
  obtain ⟨buffer,stores⟩ := storeInode_eq sectors (tableBlock m.device.disk (groupOf m nr) (indexOf m nr/8)) (indexOf m nr%8) inode
  rw [stores] at form
  cases ran.symm.trans form
  have first : Passes (fun disk => Shows groups total disk tree) m.device (marked m nr) := by
    apply (Passes.still shows_).put m.device.rwBuffer
    rw [place]
    apply shows_.mark few size group
    intro n _ set
    rw [bit_setBit,set,Bool.or_true]
  apply first.put buffer
  apply shows_.same
  intro dir known
  obtain ⟨links,listed⟩ := Option.isSome_iff_exists.mp known
  apply wrote_same laid wrote bounds (shows_.lists dir links listed) size
  rintro rfl
  exact keeps known

theorem link_parts (directory : Directory m groups dir links) (range : InRange m groups link.inode) (allocated : taken m link.inode = true)
    (fits : totalSize links+link.size+8 ≤ 1024)
    (ran : ext2AddLink m dir link.bytes link.type.toNat link.name.length link.inode = some (ret,after)) :
    ∃ middle buffer status, PutRecord (dirBlock m dir) buffer (totalSize links) link ∧ Filled m middle (iBlock (stored m dir) 0) buffer ∧
      middle.device.images = putBlock m.device.disk (iBlock (stored m dir) 0) buffer::m.device.images ∧
      ext2WriteInode middle (linked (stored m link.inode) 1) link.inode = some (status,after) := by
  have store := directory.store
  simp only [ext2AddLink,Option.bind_eq_bind,Option.bind_eq_some_iff,Option.pure_def,Option.some.injEq,Prod.mk.injEq] at ran
  obtain ⟨⟨_,found,first⟩,readDir,⟨_,target,second⟩,readInode,⟨passed,last⟩,walked,⟨status,result⟩,wrote,_,rfl⟩ := ran
  obtain ⟨_,_,same,fetchedDir⟩ := fetch store directory.range
  cases fetchedDir.symm.trans readDir
  obtain ⟨_,_,_,fetchedInode⟩ := fetch (same.store store) ((inRange_same same.superblock).mpr range)
  rw [SameDisk.fetched same,fetched_taken allocated] at fetchedInode
  cases fetchedInode.symm.trans readInode
  rw [fetched_taken directory.allocated] at walked wrote
  obtain ⟨one,rfl⟩ := readInode_memory readDir
  obtain ⟨two,rfl⟩ := readInode_memory readInode
  dsimp only at walked wrote
  rw [read_block (by exact store.sectors)] at walked wrote
  rw [write_block (by exact store.sectors)] at wrote
  dsimp only at walked wrote
  have agree := buffer_agree two m.device.disk (iBlock (stored m dir) 0)
  generalize blit two 0 m.device.disk (offset (iBlock (stored m dir) 0)) 1024 = read at agree walked wrote
  rw [directory.walk agree (by omega)] at walked
  cases walked
  have puts := putRecord_puts read (store.small range) (show totalSize links+link.size ≤ 1024 by omega)
  have place : (elementAt read (totalSize links)).bufferPos = totalSize links := rfl
  rw [place] at wrote
  generalize putRecord read (totalSize links) link.inode link.bytes link.name.length link.type.toNat = buffer at puts wrote
  refine ⟨_,buffer,status,⟨puts.before.trans (agree.narrow (Nat.le_refl _) (by omega)),puts.record,puts.inode,puts.recLen⟩,?_,?_,wrote⟩
  · exact Filled.put (d := {m.device with rwBuffer := buffer}) (by exact store.sectors) rfl rfl _ _
  · rfl

theorem data_places (data : DataBlock total b) (few : groups ≤ 31) (size : total < groups*8192) (bounds : 1 ≤ nr ∧ nr ≤ groups*1712)
    (disk buffer : Bytes) : givenOn (putBlock disk b buffer) nr = givenOn disk nr ∧ blockOn (putBlock disk b buffer) nr = blockOn disk nr := by
  obtain ⟨first,inside,last⟩ := data
  have place : slot b = b := slot_small (by omega)
  constructor
  · rw [givenOn,blockImage_put_other]
    · rfl
    · rw [place,slot_small (show (nr-1)/1712*8192+4 < 2147483648 by omega)]
      omega
  · rw [blockOn,inodeOn,blockImage_put_other]
    · rfl
    · rw [place,slot_small (show (nr-1)/1712*8192+5+(nr-1)%1712/8 < 2147483648 by omega)]
      omega

theorem data_same (one : Lists groups total disk dir links) (data : DataBlock total b) (few : groups ≤ 31) (size : total < groups*8192)
    (differ : b ≠ blockOn disk dir) : Same disk (putBlock disk b buffer) dir := by
  obtain ⟨given,block⟩ := data_places data few size one.bounds disk buffer
  obtain ⟨_,_,low⟩ := data
  obtain ⟨_,_,high⟩ := one.data
  refine ⟨fun set => given.trans set,block,blockImage_put_other _ _ ?_⟩
  rwa [slot_small (show b < 2147483648 by omega),slot_small (show blockOn disk dir < 2147483648 by omega)]

theorem Lists.append (lists : Lists groups total disk dir links) (few : groups ≤ 31) (size : total < groups*8192)
    (puts : PutRecord (blockImage disk (blockOn disk dir)) buffer (totalSize links) link) (real : link.inode ≠ 0)
    (room : totalSize links+link.size+8 ≤ 1024) : Lists groups total (putBlock disk (blockOn disk dir) buffer) dir (links++[link]) := by
  obtain ⟨given,block⟩ := data_places lists.data few size lists.bounds disk buffer
  have image := blockImage_put_same disk buffer (rfl : slot (blockOn disk dir) = slot (blockOn disk dir))
  have whole : totalSize (links++[link]) = totalSize links+link.size := totalSize_append links link
  have earlier : Agree (blockImage disk (blockOn disk dir)) (blockImage (putBlock disk (blockOn disk dir) buffer) (blockOn disk dir)) 0 (totalSize links) :=
    puts.before.symm.trans (image.symm.narrow (Nat.le_refl _) (by omega))
  have record : Record (blockImage (putBlock disk (blockOn disk dir) buffer) (blockOn disk dir)) (0+totalSize links) link := by
    rw [Nat.zero_add]
    exact puts.record.agree (image.symm.narrow (Nat.zero_le _) (by omega))
  refine ⟨lists.bounds,given.trans lists.given,?_,?_,?_,?_,?_,by omega⟩
  · rw [block]
    exact lists.data
  · rw [block]
    exact (lists.listed.agree earlier).append record
  · intro entry member
    rcases List.mem_append.mp member with old | new
    · exact lists.nonzero entry old
    · rwa [List.mem_singleton.mp new]
  · rw [block,whole,get32_agree (image.narrow (Nat.zero_le _) (by omega))]
    exact puts.inode
  · intro _
    rw [block,whole,get16_agree (image.narrow (Nat.zero_le _) (by omega))]
    exact puts.recLen

theorem Shows.append (shows_ : Shows groups total disk tree) (known : tree dir = some links) (few : groups ≤ 31) (size : total < groups*8192)
    (puts : PutRecord (blockImage disk (blockOn disk dir)) buffer (totalSize links) link) (real : link.inode ≠ 0)
    (room : totalSize links+link.size+8 ≤ 1024) :
    Shows groups total (putBlock disk (blockOn disk dir) buffer) (Function.update tree dir (some (links++[link]))) := by
  have here := shows_.lists dir links known
  have present : ∀ other, (Function.update tree dir (some (links++[link])) other).isSome → (tree other).isSome := by
    intro other longer
    by_cases same : other = dir
    · rw [same,known]
      rfl
    · rwa [Function.update_of_ne same] at longer
  constructor
  · intro other listed there
    by_cases same : other = dir
    · subst same
      simp only [Function.update_self,Option.some.injEq] at there
      rw [← there]
      exact here.append few size puts real room
    · rw [Function.update_of_ne same] at there
      have old := shows_.lists other listed there
      apply old.same (data_same old here.data few size ?_)
      intro equal
      exact same (shows_.apart dir other (by simp [known]) (by simp [there]) equal).symm
  · intro one two first second equal
    obtain ⟨listed,there⟩ := Option.isSome_iff_exists.mp (present one first)
    obtain ⟨listed',there'⟩ := Option.isSome_iff_exists.mp (present two second)
    rw [(data_places here.data few size (shows_.lists one listed there).bounds disk buffer).2,
      (data_places here.data few size (shows_.lists two listed' there').bounds disk buffer).2] at equal
    exact shows_.apart one two (present one first) (present two second) equal

theorem Passes.trans {holds : Bytes → Prop} {d e f : Device} (first : Passes holds d e) (rest : Passes holds e f) : Passes holds d f := by
  obtain ⟨early,images,some_⟩ := first.images
  obtain ⟨late,images',all⟩ := rest.images
  refine ⟨rest.sectors.trans first.sectors,rest.disk,late++early,?_,?_⟩
  · rw [images',images,List.append_assoc]
  · intro image member
    rcases List.mem_append.mp member with fresh | old
    · exact all image fresh
    · exact some_ image old

theorem link_shows (shows_ : Shows groups total m.device.disk tree) (laid : LaidOut m groups) (few : groups ≤ 31) (size : total < groups*8192)
    (known : tree dir = some links) (bounds : 1 ≤ link.inode ∧ link.inode ≤ groups*1712) (given : givenOn m.device.disk link.inode = true)
    (room : totalSize links+link.size+8 ≤ 1024)
    (ran : ext2AddLink m dir link.bytes link.type.toNat link.name.length link.inode = some (ret,after)) :
    Passes (fun disk => Shows groups total disk (Function.update tree dir (some (links++[link])))) m.device after.device := by
  have here := shows_.lists dir links known
  obtain ⟨allocated,place⟩ := laid_places laid bounds
  have block : iBlock (stored m dir) 0 = blockOn m.device.disk dir := by rw [(laid_places laid here.bounds).2,blockOn]
  obtain ⟨middle,buffer,status,puts,filled,images,wrote⟩ :=
    link_parts (here.directory laid size) (laid_inRange laid bounds) (allocated.trans given) room ran
  rw [dirBlock,block] at puts
  rw [block] at filled images
  have longer := shows_.append known few size puts (Nat.ne_of_gt bounds.1) room
  rw [← filled.disk] at longer images
  have table : blockImage middle.device.disk 2 = blockImage m.device.disk 2 := by
    obtain ⟨low,inside,high⟩ := here.data
    apply filled.elsewhere
    rw [slot_small (show blockOn m.device.disk dir < 2147483648 by omega),slot_small (show 2 < 2147483648 by decide)]
    omega
  have first : Passes (fun disk => Shows groups total disk (Function.update tree dir (some (links++[link])))) m.device middle.device := by
    refine ⟨filled.sectors.trans laid.sectors.symm,longer,[middle.device.disk],images,?_⟩
    intro image member
    rw [List.mem_singleton.mp member]
    exact longer
  apply Passes.trans first
  refine write_shows longer (laid_same laid filled.sectors filled.superblock table) few size bounds ?_ wrote
  intro _
  rw [linked,block_setLinks _ _ (by decide),place,filled.disk]
  exact ((data_places here.data few size bounds m.device.disk buffer).2).symm

theorem Shows.put {d e : Device} (passes : Passes (fun disk => Shows groups total disk tree) d e) (few : groups ≤ 31) (size : total < groups*8192)
    (low : 1 ≤ slot b%8192 ∧ slot b%8192 ≤ 3) : Passes (fun disk => Shows groups total disk tree) d (e.put b buffer) :=
  passes.put e.rwBuffer (passes.disk.counts few size low)

theorem mount_shows (orderly : Orderly groups total v) (shows_ : Shows groups total v.device.disk tree)
    (ran : perform v (.mount old) = some w) : Passes (fun disk => Shows groups total disk tree) v.device w.device := by
  simp only [perform,mount_eq orderly.sectors,Option.some.injEq] at ran
  subst ran
  exact Shows.put (.still shows_) orderly.few orderly.size (by decide)

theorem unmount_shows (orderly : Orderly groups total v) (shows_ : Shows groups total v.device.disk tree)
    (ran : perform v .unmount = some w) : Passes (fun disk => Shows groups total disk tree) v.device w.device := by
  obtain ⟨superblock,mounted,ran⟩ := Option.bind_eq_some_iff.mp ran
  simp only [ext2UnmountDevice,write_block orderly.sectors,Option.some.injEq] at ran
  subst ran
  exact Shows.put (.still shows_) orderly.few orderly.size (by decide)

theorem blocks_shows (orderly : Orderly groups total v) (shows_ : Shows groups total v.device.disk tree) (positive : 1 ≤ count)
    (ran : perform v (.blocks array count) = some w) : Passes (fun disk => Shows groups total disk tree) v.device w.device := by
  obtain ⟨superblock,mounted,ran⟩ := Option.bind_eq_some_iff.mp ran
  have few := orderly.few
  obtain ⟨perGroup,_⟩ := orderly.context superblock mounted
  cases called : allocateBlocks ⟨v.device,superblock⟩ array count with
  | mk ret rest =>
    obtain ⟨blocks,m⟩ := rest
    rw [called] at ran
    rcases allocation_picks orderly.disk few orderly.sectors perGroup positive called with ⟨rfl,rfl⟩ | ⟨rfl,g,bits,picked⟩
    · cases Option.some.inj ran
      exact .still shows_
    · cases Option.some.inj ran
      obtain ⟨bitmap,_,device⟩ := picked.marks
      have inside := picked.inside
      have group : 1 ≤ slot (g*8192+3)%8192 ∧ slot (g*8192+3)%8192 ≤ 3 := by
        rw [slot_small (by omega)]
        omega
      show Passes _ v.device m.device
      rw [device]
      exact Shows.put (Shows.put (.still shows_) few orderly.size group) few orderly.size (by decide)

theorem inode_shows (orderly : Orderly groups total v) (shows_ : Shows groups total v.device.disk tree) (bounds : 1 ≤ nr ∧ nr ≤ groups*1712)
    (ran : perform v (.inode nr isDir) = some w) : Passes (fun disk => Shows groups total disk tree) v.device w.device := by
  obtain ⟨superblock,mounted,ran⟩ := Option.bind_eq_some_iff.mp ran
  have laid := orderly.laid mounted
  have range := laid_inRange laid bounds
  obtain ⟨group,_⟩ := laid.store.bounds range
  rw [Ext2InodeCounts.give_outcome laid.store range,Option.map_some,Option.some.injEq] at ran
  subst ran
  cases taken ⟨v.device,superblock⟩ nr with
  | true => exact .still shows_
  | false =>
    rw [if_neg (by decide),takeInode_eq laid.sectors]
    have place : bgInodeBitmap (blockImage v.device.disk 2) (groupOf ⟨v.device,superblock⟩ nr) = groupOf ⟨v.device,superblock⟩ nr*8192+4 :=
      (orderly.disk.placed _ group).inodeBitmap
    simp only [place]
    refine Shows.put ((Passes.still shows_).put v.device.rwBuffer (shows_.mark orderly.few orderly.size group ?_)) orderly.few orderly.size (by decide)
    intro n _ set
    have same : Ext2InodeCounts.inodeBitmap ⟨v.device,superblock⟩ (groupOf ⟨v.device,superblock⟩ nr) =
        blockImage v.device.disk (groupOf ⟨v.device,superblock⟩ nr*8192+4) := by rw [← place]; rfl
    rw [bit_setBit,same,set,Bool.or_true]

theorem perform_shows (orderly : Orderly groups total v) (shows_ : Shows groups total v.device.disk tree)
    (suits : Suits groups ⟨v,tree⟩ operation) (ran : perform v operation = some w) :
    Passes (fun disk => Shows groups total disk (grown tree operation)) v.device w.device := by
  cases operation with
  | mount old => exact mount_shows orderly shows_ ran
  | blocks array count => exact blocks_shows orderly shows_ suits.1 ran
  | inode nr isDir => exact inode_shows orderly shows_ suits ran
  | write inode nr =>
    obtain ⟨superblock,mounted,ran⟩ := Option.bind_eq_some_iff.mp ran
    obtain ⟨⟨ret,after⟩,wrote,rfl⟩ := Option.map_eq_some_iff.mp ran
    refine write_shows (m := ⟨v.device,superblock⟩) shows_ (orderly.laid mounted) orderly.few orderly.size suits.1 ?_ wrote
    intro known
    have none_ : tree nr = none := suits.2
    have some_ : (tree nr).isSome := known
    simp [none_] at some_
  | link dir link =>
    obtain ⟨superblock,mounted,ran⟩ := Option.bind_eq_some_iff.mp ran
    obtain ⟨⟨ret,after⟩,added,rfl⟩ := Option.map_eq_some_iff.mp ran
    obtain ⟨bounds,given,links,known,room⟩ := suits
    have passes := link_shows (m := ⟨v.device,superblock⟩) shows_ (orderly.laid mounted) orderly.few orderly.size known bounds given room added
    rw [grown,show tree dir = some links from known]
    exact passes
  | unmount => exact unmount_shows orderly shows_ ran

theorem suits_allowed (shows_ : Shows groups total v.device.disk tree) (orderly : Orderly groups total v) (suits : Suits groups ⟨v,tree⟩ operation) :
    Allowed groups total v operation := by
  cases operation with
  | mount old => trivial
  | blocks array count => exact suits
  | inode nr isDir => exact suits
  | write inode nr => exact suits.1
  | link dir link =>
    obtain ⟨bounds,_,links,known,_⟩ := suits
    have lists := shows_.lists dir links known
    refine ⟨lists.bounds,bounds,?_⟩
    intro superblock mounted
    obtain ⟨allocated,place⟩ := laid_places (orderly.laid mounted) lists.bounds
    rw [linkBlock,fetched_taken (allocated.trans lists.given),place]
    exact lists.data
  | unmount => trivial

structure Good (groups total : Nat) (s : System) : Prop where
  orderly : Orderly groups total s.volume
  shows : Shows groups total s.volume.device.disk s.tree

theorem step_good {next : System} (good : Good groups total s) (suits : Suits groups s event.operation) (taken : step s event = some next) :
    Good groups total next := by
  obtain ⟨orderly,shows_⟩ := good
  obtain ⟨volume,reached,rfl⟩ := Option.map_eq_some_iff.mp taken
  refine ⟨step_orderly orderly (suits_allowed shows_ orderly suits) reached,?_⟩
  cases event with
  | done operation => exact (perform_shows orderly shows_ suits reached).disk
  | crash operation writes memory =>
    obtain ⟨after,ran,reached⟩ := Option.bind_eq_some_iff.mp reached
    obtain ⟨disk,chosen,rfl⟩ := Option.map_eq_some_iff.mp reached
    have forgotten : Orderly groups total {s.volume with device := {s.volume.device with images := []}} :=
      ⟨orderly.few,orderly.size,orderly.sectors,orderly.disk,orderly.context,orderly.distinct,orderly.data⟩
    have passes := perform_shows forgotten shows_ (by cases operation <;> exact suits) ran
    obtain ⟨fresh,images,all⟩ := passes.images
    cases writes with
    | zero =>
      cases Option.some.inj chosen
      exact shows_
    | succ writes =>
      rw [List.getElem?_cons_succ,images] at chosen
      have member : disk ∈ fresh := by simpa using List.mem_of_getElem? chosen
      exact all disk member

def freshTree : Nat → Option (List Link) := fun dir => if dir = 2 then some rootLinks else if dir = 11 then some [lostDot,dotDot] else none

-- A formatted device whose first two data blocks did not begin with an entry before.
def Fresh (sizeInKb : Nat) (s : System) : Prop :=
  (∃ d stack, d.sizeInKb = sizeInKb ∧ Sized d ∧ get32 (blockImage d.disk 219) 0 = 0 ∧ get32 (blockImage d.disk 220) 0 = 0 ∧
    ext2FormatDevice d stack = some (.noError,s.volume.device)) ∧
  s.volume.context = none ∧ s.volume.handed = [220,219] ∧ s.tree = freshTree

theorem root_empty {d : Device} (rooted : Rooted d m) (root : get32 (blockImage d.disk 219) 0 = 0) : Directory m 1 2 [] := by
  obtain ⟨store,range,allocated,outside⟩ := rooted.root
  refine ⟨store,range,allocated,outside,trivial,by simp,?_,by simp⟩
  rw [dirBlock,rooted.rootBlock,rooted.kept 219 (by decide) (by decide)]
  exact root

theorem rooted_directories {d : Device} (rooted : Rooted d m) (root : get32 (blockImage d.disk 219) 0 = 0) (lost : get32 (blockImage d.disk 220) 0 = 0) :
    ∃ middle next, addLinks m 2 rootLinks = some middle ∧ addLinks middle 11 [lostDot,dotDot] = some next ∧ LaidOut next 1 ∧
      (Directory next 1 2 rootLinks ∧ iBlock (stored next 2) 0 = 219) ∧ Directory next 1 11 [lostDot,dotDot] ∧ iBlock (stored next 11) 0 = 220 := by
  obtain ⟨block,appendedRoot,_,_⟩ := appends_unused root rootLinks_small (by decide) d.rwBuffer
  rw [← rooted.loaded_root] at appendedRoot
  obtain ⟨middle,ran,appended⟩ := appends_ran rooted.root rooted.targets.1 appendedRoot
  obtain ⟨_,ran',listed,_⟩ := (root_empty rooted root).addAll rooted.targets.1 (by decide)
  cases Option.some.inj (ran.symm.trans ran')
  -- lost+found is still empty.
  have laid := laidOut_appended rooted.laid appended
  have rootBlock : iBlock (stored middle 2) 0 = 219 := (appended.blocks 2 rooted.root.range).trans rooted.rootBlock
  have lostBlock : iBlock (stored middle 11) 0 = 220 := (appended.blocks 11 rooted.lost.range).trans rooted.lostBlock
  have image : blockImage middle.device.disk 220 = blockImage d.disk 220 := by
    rw [appended.others 220 (laidOut_outside rooted.laid (by decide) (by decide)) (by rw [rooted.rootBlock]; decide),rooted.kept 220 (by decide) (by decide)]
  have empty : Directory middle 1 11 [] := by
    obtain ⟨store,range,allocated,outside⟩ := appended.entry rooted.lost
    refine ⟨store,range,allocated,outside,trivial,by simp,?_,by simp⟩
    rw [dirBlock,lostBlock,image]
    exact lost
  have targets := targets_same rooted.targets.2 appended
  have small : ∀ link ∈ [lostDot,dotDot], link.inode ≠ 0 ∧ link.inode < word := by decide
  obtain ⟨block',appendedLost,_,_⟩ := appends_unused lost small (by decide) block
  rw [← rooted.loaded_lost appended] at appendedLost
  obtain ⟨next,more,appended'⟩ := appends_ran (appended.entry rooted.lost) targets appendedLost
  obtain ⟨_,more',listed',_⟩ := empty.addAll targets (by decide)
  cases Option.some.inj (more.symm.trans more')
  have rootBlock' : iBlock (stored next 2) 0 = 219 := (appended'.blocks 2 listed.range).trans rootBlock
  have kept : dirBlock next 2 = dirBlock middle 2 := by
    rw [dirBlock,dirBlock,rootBlock,rootBlock',appended'.others 219 (laidOut_outside laid (by decide) (by decide)) (by rw [lostBlock]; decide)]
  obtain ⟨store,range,allocated,outside⟩ := appended'.entry listed.entry
  refine ⟨middle,next,ran,more,laidOut_appended laid appended',⟨⟨store,range,allocated,outside,?_,listed.nonzero,?_,?_⟩,rootBlock'⟩,listed',
    (appended'.blocks 11 empty.range).trans lostBlock⟩
  all_goals rw [kept]
  · exact listed.listed
  · exact listed.ended
  · exact listed.closed

theorem fresh_formatted (fresh : Fresh sizeInKb s) : Formatted sizeInKb s.volume := by
  obtain ⟨⟨d,stack,size,sized,_,_,returned⟩,closed,given,_⟩ := fresh
  exact ⟨d,stack,size,sized,returned,closed,given⟩

theorem fresh_good (fresh : Fresh sizeInKb s) : Good (sizeInKb%word/8192+1) (sizeInKb%word) s := by
  have orderly := (formatted_balances (fresh_formatted fresh)).orderly
  obtain ⟨⟨d,stack,rfl,sized,root,lost,returned⟩,_,_,tree⟩ := fresh
  obtain ⟨made,rooted,ran⟩ := sized.format stack
  obtain ⟨middle,next,first,second,laid,⟨rootLists,rootBlock⟩,lostLists,lostBlock⟩ := rooted_directories rooted root lost
  rw [first,Option.bind_some,second,Option.map_some,Option.map_some] at ran
  have device : s.volume.device = next.device.put 1 (setState next.superblock ext2ValidFs) := by
    rw [← unmount_disk laid.sectors]
    exact congrArg Prod.snd (Option.some.inj (returned.symm.trans ran))
  have room := sized.room
  have rooted' : Lists 1 (d.sizeInKb%word) next.device.disk 2 rootLinks :=
    Directory.lists rootLists laid (by decide) (by rw [rootBlock]; exact ⟨by decide,by decide,by omega⟩) (by decide)
  have lost' : Lists 1 (d.sizeInKb%word) next.device.disk 11 [lostDot,dotDot] :=
    Directory.lists lostLists laid (by decide) (by rw [lostBlock]; exact ⟨by decide,by decide,by omega⟩) (by decide)
  have places : blockOn next.device.disk 2 = 219 ∧ blockOn next.device.disk 11 = 220 := by
    rw [← rootBlock,← lostBlock,(laid_places laid (by decide)).2,(laid_places laid (by decide)).2]
    exact ⟨rfl,rfl⟩
  have shows_ : Shows (d.sizeInKb%word/8192+1) (d.sizeInKb%word) next.device.disk freshTree := by
    constructor
    · intro dir links known
      unfold freshTree at known
      split at known
      · rename_i two
        cases Option.some.inj known
        rw [two]
        exact rooted'.wider (Nat.le_add_left 1 _)
      · split at known
        · rename_i eleven
          cases Option.some.inj known
          rw [eleven]
          exact lost'.wider (Nat.le_add_left 1 _)
        · cases known
    · intro one two first second equal
      have only : ∀ dir, (freshTree dir).isSome → dir = 2 ∨ dir = 11 := by
        intro dir some_
        by_contra neither
        obtain ⟨other,another⟩ := not_or.mp neither
        simp [freshTree,other,another] at some_
      rcases only one first with rfl | rfl <;> rcases only two second with rfl | rfl
      · rfl
      · rw [places.1,places.2] at equal
        cases equal
      · rw [places.1,places.2] at equal
        cases equal
      · rfl
  refine ⟨orderly,?_⟩
  rw [device,tree]
  exact shows_.counts orderly.few orderly.size (by decide)

-- Every directory lists its links and those that any run of the calls has added to
-- it, in order; a link that a crash cuts short is there wholly or not at all.
theorem links_survive (path : Reached (Fresh sizeInKb) step (fun s event => Suits (sizeInKb%word/8192+1) s event.operation) s)
    (known : s.tree dir = some links) (mounted : s.volume.context = some superblock) :
    ∃ inode, readResult ⟨s.volume.device,superblock⟩ dir = some (.noError,inode) ∧ ∀ buffer,
      let block := (ext2ReadBlocks s.volume.device (iBlock inode 0) buffer 1).2
      ∃ passed last, walkDirectory block = some (passed,last) ∧ passed.map (seen block) = links.map Link.entry ∧ last.inode = 0 := by
  have good : Good (sizeInKb%word/8192+1) (sizeInKb%word) s :=
    path.invariant (Good _ _) (fun _ start => fresh_good start) (fun _ _ _ good suits taken => step_good good suits taken)
  have laid := good.orderly.laid mounted
  have lists := good.shows.lists dir links known
  have directory := lists.directory (m := ⟨s.volume.device,superblock⟩) laid good.orderly.size
  refine ⟨stored ⟨s.volume.device,superblock⟩ dir,?_,?_⟩
  · rw [directory.store.read_result directory.range,directory.allocated,if_pos rfl]
  · intro buffer
    obtain ⟨passed,last,walked,shown,ended,_⟩ := directory.visited lists.fits buffer
    exact ⟨passed,last,walked,shown,ended⟩

theorem step_done {volume : Volume} (ran : perform s.volume operation = some volume) : step s (.done operation) = some ⟨volume,grown s.tree operation⟩ := by
  simp only [step,Ext2Volumes.step,ran,Option.map_some,follow]

def newLink : Link := ⟨11,0#8,[0x78#8],by decide⟩

-- A second name for lost+found, and a mount that crashes behind its write.
theorem megabyte_lists : ∃ (s : System) (superblock : Bytes), s.volume.context = some superblock ∧ s.tree 2 = some (rootLinks++[newLink]) ∧
    ∃ inode, readResult ⟨s.volume.device,superblock⟩ 2 = some (.noError,inode) ∧ ∀ buffer,
      let block := (ext2ReadBlocks s.volume.device (iBlock inode 0) buffer 1).2
      ∃ passed last, walkDirectory block = some (passed,last) ∧ passed.map (seen block) = (rootLinks++[newLink]).map Link.entry ∧ last.inode = 0 := by
  obtain ⟨device,returned,_⟩ := emptyDevice_sized.freshRoot_iff.mpr ⟨by decide,linksEnd_unused (by decide)⟩ blank zeroStack
  have start : Fresh 1000 ⟨⟨device,none,[220,219]⟩,freshTree⟩ := ⟨⟨_,zeroStack,rfl,emptyDevice_sized,by decide,by decide,returned⟩,rfl,rfl,rfl⟩
  have good := fresh_good start
  obtain ⟨one,superblock,ran,mounted,_⟩ := mount_ran good.orderly blank
  have taken : step ⟨⟨device,none,[220,219]⟩,freshTree⟩ (.done (.mount blank)) = some ⟨one,freshTree⟩ := step_done ran
  have path : Reached (Fresh 1000) step (fun s event => Suits (1000%word/8192+1) s event.operation) ⟨one,freshTree⟩ :=
    (Reached.start start).extend (.done (.mount blank)) trivial taken
  have good : Good (1000%word/8192+1) (1000%word) ⟨one,freshTree⟩ := step_good good (by exact trivial) taken
  have laid := good.orderly.laid mounted
  have root := good.shows.lists 2 rootLinks rfl
  have lost := good.shows.lists 11 [lostDot,dotDot] rfl
  have target := lost.directory (m := ⟨one.device,superblock⟩) laid good.orderly.size
  obtain ⟨_,next,_,_,added⟩ := (root.directory (m := ⟨one.device,superblock⟩) laid good.orderly.size).add
    (show InRange _ _ newLink.inode from target.range) target.allocated (by decide)
  have ran : perform one (.link 2 newLink) = some (one.after next) := by
    simp only [perform,mounted,Option.bind_some,show newLink.inode = 11 from rfl] at added ⊢
    rw [added]
    rfl
  have suits : Suits (1000%word/8192+1) ⟨one,freshTree⟩ (.link 2 newLink) := ⟨by decide,lost.given,rootLinks,rfl,by decide⟩
  have taken : step ⟨one,freshTree⟩ (.done (.link 2 newLink)) = some ⟨one.after next,grown freshTree (.link 2 newLink)⟩ := step_done ran
  have path := path.extend (.done (.link 2 newLink)) suits taken
  have good : Good (1000%word/8192+1) (1000%word) ⟨one.after next,grown freshTree (.link 2 newLink)⟩ :=
    step_good good (by exact suits) taken
  have crashed : ∃ two, step ⟨one.after next,grown freshTree (.link 2 newLink)⟩ (.crash (.mount blank) 1 blank) =
      some ⟨two,grown freshTree (.link 2 newLink)⟩ := by
    have sectors : ({(one.after next).device with images := []} : Device).sectorSize = 512 := good.orderly.sectors
    simp only [step,Ext2Volumes.step,perform,mount_eq sectors]
    exact ⟨_,rfl⟩
  obtain ⟨two,taken⟩ := crashed
  have path := path.extend (.crash (.mount blank) 1 blank) trivial taken
  have good : Good (1000%word/8192+1) (1000%word) ⟨two,grown freshTree (.link 2 newLink)⟩ :=
    step_good good (by exact trivial) taken
  obtain ⟨three,superblock,ran,mounted,_⟩ := mount_ran good.orderly blank
  have taken : step ⟨two,grown freshTree (.link 2 newLink)⟩ (.done (.mount blank)) = some ⟨three,grown freshTree (.link 2 newLink)⟩ := step_done ran
  have path := path.extend (.done (.mount blank)) trivial taken
  have known : grown freshTree (.link 2 newLink) 2 = some (rootLinks++[newLink]) := rfl
  exact ⟨_,superblock,mounted,known,links_survive path known mounted⟩

end KaracaOS.Ext2Trees
