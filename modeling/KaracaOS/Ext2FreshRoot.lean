import KaracaOS.Ext2Format
import KaracaOS.Ext2Appends

namespace KaracaOS.Ext2FreshRoot
open ByteMemory Bitmap BlockDevice Ext2Fields Ext2Blocks Ext2Inodes Ext2Mounts Ext2Records Ext2Directory Ext2Appends Ext2Format

def freshEntries : List (Nat × List Byte) :=
  [(2,[0x2e#8]),(2,[0x2e#8,0x2e#8]),(11,(List.range 10).map (chars "lost+found"))]

def rootLinks : List Link := [dot,dotDot,lostFound]

variable {d : Device} {m next : Mount} {old after buffer : Bytes}

theorem appendLink_behind (appended : appendLink buffer link = some after) (small : link.inode < word) (zero : ZeroFrom buffer stop)
    (bound : stop ≤ 900000) :
    ∃ n, Walk buffer n ∧ posAt buffer n < stop+65536 ∧ Agree after buffer 0 (posAt buffer n) ∧ Record after (posAt buffer n) link ∧
      ZeroFrom after (stop+66000) := by
  obtain ⟨⟨passed,last⟩,ran,rfl⟩ := Option.map_eq_some_iff.mp appended
  obtain ⟨walk,position,_⟩ := walkDirectory_positions ran
  dsimp only
  rw [position]
  obtain ⟨before,record,_⟩ := putRecord_record buffer (posAt buffer passed.length) small
  have early : posAt buffer passed.length < stop+65536 := by
    cases count : passed.length with
    | zero => exact Nat.lt_of_lt_of_le (by decide : 0 < 65536) (Nat.le_add_left _ _)
    | succ n =>
      rw [count] at walk
      obtain ⟨step,inside⟩ := walk.step zero (by omega) (Nat.lt_succ_self n)
      have length := get16_lt buffer (posAt buffer n+4)
      omega
  refine ⟨passed.length,walk,early,before,record,?_⟩
  intro i high
  have bounds := link.size_bounds
  rw [putRecord_behind buffer link (by omega)]
  exact zero i (by omega)

-- An entry that was there before is still walked, or the walk leaves the block.
theorem old_entry_remains (zero : ZeroFrom old 1024) (used : get32 old 0 ≠ 0) (appended : appendLinks old rootLinks = some after) :
    ∃ memory, listing (blit memory 0 after 0 1024) ≠ some freshEntries := by
  obtain ⟨first,one,rest⟩ := Option.bind_eq_some_iff.mp appended
  obtain ⟨second,two,rest⟩ := Option.bind_eq_some_iff.mp rest
  obtain ⟨third,three,same⟩ := Option.bind_eq_some_iff.mp rest
  cases Option.some.inj same
  obtain ⟨count,walk,early,before,record,zero1⟩ := appendLink_behind one (by decide) zero (by decide)
  cases count with
  | zero => exact absurd walk.ended used
  | succ n =>
    have put : PutBehind old first n := ⟨walk,zero,before,record⟩
    obtain ⟨count2,walk2,_,before2,_,zero2⟩ := appendLink_behind two (by decide) zero1 (by decide)
    have late2 := put.late (.refl _ _ _) walk2 zero1 (by decide)
    have kept2 : Agree second first 0 (posAt old (n+1)+12) := before2.narrow (Nat.le_refl 0) (by omega)
    obtain ⟨count3,walk3,_,before3,_,_⟩ := appendLink_behind three (by decide) zero2 (by decide)
    have late3 := put.late kept2 walk3 zero2 (by decide)
    have kept : Agree after first 0 (posAt old (n+1)+12) := (before3.narrow (Nat.le_refl 0) (by omega)).trans kept2
    by_contra none_
    have all : ∀ memory, listing (blit memory 0 after 0 1024) = some freshEntries := fun memory => not_not.mp (not_exists.mp none_ memory)
    have block : ∀ memory, ∀ i < 1024, blit memory 0 after 0 1024 i = after i := by
      intro memory i inside
      rw [blit_inside (Nat.zero_le _) (by omega),Nat.zero_add,Nat.sub_zero]
    have behind : ∀ memory, ∀ i, 1024 ≤ i → blit memory 0 after 0 1024 i = memory i := fun memory i high => blit_outside (.inr (by omega))
    by_cases inside : posAt old (n+1) < 1024
    · rcases put.shown (behind blank) inside (fun i low small => (block blank i small).trans (kept i (Nat.zero_le _) (by omega))) (all blank)
        with ⟨k,inode,empty⟩ | ⟨k,name,new,short⟩
      · match k with
        | 0 | 1 | 2 => simp [freshEntries] at empty
        | k+3 => simp [freshEntries] at empty
      · match k with
        | 0 =>
          simp only [freshEntries,List.getElem?_cons_succ,List.getElem?_cons_zero,Option.some.injEq,Prod.mk.injEq] at new
          rw [← new.2] at short
          simp at short
        | 1 => simp [freshEntries] at new
        | k+2 => simp [freshEntries] at new
    · have sameOld : ∀ i < 1024, after i = old i := fun i small =>
        (kept i (Nat.zero_le _) (by omega)).trans (before i (Nat.zero_le _) (by omega))
      have whole : blit blank 0 after 0 1024 = old := by
        funext i
        by_cases small : i < 1024
        · exact (block blank i small).trans (sameOld i small)
        · rw [behind blank i (by omega),zero i (by omega)]
          rfl
      obtain ⟨walkOld,shown⟩ := listing_shows (whole ▸ all blank)
      obtain ⟨walkMemory,_⟩ := listing_shows (all fun _ => 0xFF#8)
      have three_ : n+1 = 2+1 := walk.unique walkOld
      obtain rfl : n = 2 := Nat.succ.inj three_
      have last := shown 2 (by decide)
      have long : get8 old (posAt old 2+6) = 10 := by
        have names := congrArg (fun entry => entry.map fun pair => pair.2.length) last
        simp only [Option.map_some,elementName_length] at names
        simpa [freshEntries] using names.symm
      have named : posAt old 2+6 < 1024 := by
        by_contra beyond
        rw [get8,zero _ (by omega)] at long
        cases long
      exact walk.beyond zero (by omega) named (fun i _ small => (block _ i (by omega)).trans (sameOld i (by omega))) (behind _) walkMemory

theorem laidOut_first (sectors : m.device.sectorSize = 512) (blocksPerGroup : sBlocksPerGroup m.superblock = 8192)
    (inodesPerGroup : sInodesPerGroup m.superblock = 1712) (inodeBitmap : bgInodeBitmap (blockImage m.device.disk 2) 0 = 4)
    (inodeTable : bgInodeTable (blockImage m.device.disk 2) 0 = 5) : LaidOut m 1 := by
  refine ⟨sectors,by decide,blocksPerGroup,inodesPerGroup,?_⟩
  intro g inside
  obtain rfl : g = 0 := Nat.lt_one_iff.mp inside
  obtain ⟨bitmap,table⟩ := descriptor_inodes blank m.superblock 0 (by omega)
  rw [bitmap,table,inodeBitmap,inodeTable,Nat.zero_mul]
  exact ⟨rfl,rfl⟩

theorem first_table (laid : LaidOut m 1) :
    bgInodeBitmap (blockImage m.device.disk 2) 0 = 4 ∧ bgInodeTable (blockImage m.device.disk 2) 0 = 5 := by
  obtain ⟨bitmap,table⟩ := laid.descriptors 0 (by decide)
  obtain ⟨four,five⟩ := descriptor_inodes blank m.superblock 0 (by omega)
  rw [bitmap,table,four,five,Nat.zero_mul]
  exact ⟨rfl,rfl⟩

theorem first_inRange (laid : LaidOut m 1) (low : 1 ≤ nr) (high : nr ≤ 1712) : InRange m 1 nr := by
  rw [InRange,laid.inodesPerGroup]
  exact ⟨low,by omega⟩

theorem first_place (laid : LaidOut m 1) (low : 1 ≤ nr) (high : nr ≤ 1712) : groupOf m nr = 0 ∧ indexOf m nr = nr-1 := by
  rw [groupOf,indexOf,laid.inodesPerGroup]
  omega

theorem first_taken (laid : LaidOut m 1) (low : 1 ≤ nr) (high : nr ≤ 1712) :
    taken m nr = bit (blockImage m.device.disk 4) (nr-1) := by
  obtain ⟨group,index⟩ := first_place laid low high
  rw [taken,group,index,(laid.blocks (show 0 < 1 by decide)).1,Nat.zero_mul,Nat.zero_add]

theorem first_stored (laid : LaidOut m 1) (low : 1 ≤ nr) (high : nr ≤ 1712) :
    stored m nr = inodeAt (blockImage m.device.disk (5+(nr-1)/8)) ((nr-1)%8) := by
  obtain ⟨group,index⟩ := first_place laid low high
  rw [stored,group,index,(laid.blocks (show 0 < 1 by decide)).2 _ (by omega),Nat.zero_mul,Nat.zero_add]

-- The mount while the root is being made: which inodes and how many of the data
-- blocks are taken. The blocks 219 and 220 are still as they were on the disk d.
structure Prepared (d : Device) (nrs : List Nat) (used : Nat) (m : Mount) : Prop where
  sectors : m.device.sectorSize = 512
  blocksPerGroup : sBlocksPerGroup m.superblock = 8192
  inodesPerGroup : sInodesPerGroup m.superblock = 1712
  blockBitmap : bgBlockBitmap (blockImage m.device.disk 2) 0 = 3
  inodeBitmap : bgInodeBitmap (blockImage m.device.disk 2) 0 = 4
  inodeTable : bgInodeTable (blockImage m.device.disk 2) 0 = 5
  free : 6 ≤ bgFreeBlocksCount (blockImage m.device.disk 2) 0+used
  full : ∀ j < 27, blockImage m.device.disk 3 j = 0xFF#8
  open_ : blockImage m.device.disk 3 27 = pushOnes (2+used) 0#8
  inodes : ∀ n < 1712, bit (blockImage m.device.disk 4) n = decide (n+1 ∈ nrs)
  kept : ∀ b, 219 ≤ b → b ≤ 220 → blockImage m.device.disk b = blockImage d.disk b
  tail : SameTail m.device.rwBuffer d.rwBuffer

theorem Prepared.laid (prepared : Prepared d nrs used m) : LaidOut m 1 :=
  laidOut_first prepared.sectors prepared.blocksPerGroup prepared.inodesPerGroup prepared.inodeBitmap prepared.inodeTable

theorem Prepared.allocated (prepared : Prepared d nrs used m) (low : 1 ≤ nr) (high : nr ≤ 1712) :
    taken m nr = decide (nr ∈ nrs) := by
  rw [first_taken prepared.laid low high,prepared.inodes _ (by omega),Nat.sub_add_cancel low]

theorem put_image (differ : b ≠ c) (one : b < 8192) (two : c < 8192) (disk buffer : Bytes) :
    blockImage (putBlock disk b buffer) c = blockImage disk c := by
  apply blockImage_put_other
  rw [slot_small (by omega),slot_small (by omega)]
  exact differ

-- What has to be shown of a call: the counts and bitmaps, and that it leaves the
-- rest alone.
structure Moved (m next : Mount) : Prop where
  sectors : next.device.sectorSize = 512
  blocksPerGroup : sBlocksPerGroup next.superblock = sBlocksPerGroup m.superblock
  inodesPerGroup : sInodesPerGroup next.superblock = sInodesPerGroup m.superblock
  head : Agree (blockImage next.device.disk 2) (blockImage m.device.disk 2) 0 12
  data : ∀ b, 219 ≤ b → b ≤ 220 → blockImage next.device.disk b = blockImage m.device.disk b
  tail : SameTail next.device.rwBuffer m.device.rwBuffer

theorem Prepared.move (prepared : Prepared d nrs used m) (moved : Moved m next)
    (free : 6 ≤ bgFreeBlocksCount (blockImage next.device.disk 2) 0+used') (full : ∀ j < 27, blockImage next.device.disk 3 j = 0xFF#8)
    (open_ : blockImage next.device.disk 3 27 = pushOnes (2+used') 0#8)
    (inodes : ∀ n < 1712, bit (blockImage next.device.disk 4) n = decide (n+1 ∈ nrs')) : Prepared d nrs' used' next := by
  have head := moved.head
  refine ⟨moved.sectors,moved.blocksPerGroup.trans prepared.blocksPerGroup,moved.inodesPerGroup.trans prepared.inodesPerGroup,
    ?_,?_,?_,free,full,open_,inodes,?_,moved.tail.trans prepared.tail⟩
  · exact (get32_agree (head.narrow (by decide) (by decide))).trans prepared.blockBitmap
  · exact (get32_agree (head.narrow (by decide) (by decide))).trans prepared.inodeBitmap
  · exact (get32_agree (head.narrow (by decide) (by decide))).trans prepared.inodeTable
  · intro b low high
    rw [moved.data b low high,prepared.kept b low high]

theorem put_twice (small : b < 219) (bitmap : Bytes) (sectors : m.device.sectorSize = 512) (head : Agree table (blockImage m.device.disk 2) 0 12)
    (blocksPerGroup : sBlocksPerGroup sb = sBlocksPerGroup m.superblock) (inodesPerGroup : sInodesPerGroup sb = sInodesPerGroup m.superblock) :
    Moved m ⟨(m.device.put b bitmap).put 2 table,sb⟩ := by
  refine ⟨sectors,blocksPerGroup,inodesPerGroup,?_,?_,fun _ _ => rfl⟩
  · have last : Agree (blockImage (putBlock (putBlock m.device.disk b bitmap) 2 table) 2) table 0 1024 := blockImage_put_same _ _ rfl
    exact (last.narrow (by decide) (by decide)).trans head
  · intro c low high
    show blockImage (putBlock (putBlock m.device.disk b bitmap) 2 table) c = _
    rw [put_image (by omega) (by decide) (by omega),put_image (by omega) (by omega) (by omega)]

theorem takeInode_moved (prepared : Prepared d nrs used m) (bitmap : Bytes) (index : Nat) (isDir : Bool) :
    Moved m (takeInode m (blockImage m.device.disk 2) bitmap 0 index isDir) ∧
      ∃ table, Agree table (blockImage m.device.disk 2) 0 14 ∧
        (takeInode m (blockImage m.device.disk 2) bitmap 0 index isDir).device.disk = putBlock (putBlock m.device.disk 4 (setBit bitmap index)) 2 table := by
  obtain ⟨table,head,writes⟩ : ∃ table, Agree table (blockImage m.device.disk 2) 0 14 ∧
      takeInode m (blockImage m.device.disk 2) bitmap 0 index isDir =
        ⟨(m.device.put 4 (setBit bitmap index)).put 2 table,setFreeInodesCount m.superblock (sFreeInodesCount m.superblock+word-1)⟩ := by
    refine ⟨bookedTable (blockImage m.device.disk 2) 0 isDir,?_,by rw [takeInode_eq prepared.sectors,prepared.inodeBitmap]⟩
    cases isDir
    · exact agree_put16 (by omega)
    · exact (agree_put16 (by omega)).trans (agree_put16 (by omega))
  rw [writes]
  refine ⟨put_twice (by decide) _ prepared.sectors (head.narrow (Nat.le_refl 0) (by decide)) ?_ ?_,table,head,rfl⟩
  · exact get32_put32_away (by decide)
  · exact get32_put32_away (by decide)

theorem Prepared.inode (prepared : Prepared d nrs used m) (low : 1 ≤ nr) (high : nr ≤ 1712) (fresh : nr ∉ nrs)
    (isDir : Bool) : ∃ next, allocateInode m nr isDir true = some (.noError,next) ∧ Prepared d (nr::nrs) used next := by
  have laid := prepared.laid
  obtain ⟨group,index⟩ := first_place laid low high
  have located := laid.store.locate (first_inRange laid low high)
  rw [group,index] at located
  have clear : bit (blockImage m.device.disk 4) (nr-1) = false := by
    rw [prepared.inodes _ (by omega),Nat.sub_add_cancel low]
    exact decide_eq_false fresh
  have ran : allocateInode m nr isDir true =
      some (.noError,takeInode m (blockImage m.device.disk 2) (blockImage m.device.disk 4) 0 (nr-1) isDir) := by
    simp only [allocateInode,if_true,located,read_local prepared.sectors,prepared.inodeBitmap,clear]
    rfl
  obtain ⟨moved,table,head,disk⟩ := takeInode_moved prepared (blockImage m.device.disk 4) (nr-1) isDir
  generalize takeInode m (blockImage m.device.disk 2) (blockImage m.device.disk 4) 0 (nr-1) isDir = next at ran moved disk
  have three : blockImage next.device.disk 3 = blockImage m.device.disk 3 := by
    rw [disk,put_image (by decide) (by decide) (by decide),put_image (by decide) (by decide) (by decide)]
  have two : Agree (blockImage next.device.disk 2) (blockImage m.device.disk 2) 0 14 := by
    rw [disk]
    exact ((blockImage_put_same _ _ rfl).narrow (Nat.le_refl 0) (by decide)).trans head
  refine ⟨next,ran,prepared.move moved ?_ ?_ ?_ ?_⟩
  · rw [bgFreeBlocksCount,get16_agree (two.narrow (by decide) (by decide))]
    exact prepared.free
  · rw [three]
    exact prepared.full
  · rw [three]
    exact prepared.open_
  · intro n small
    rw [disk,put_image (by decide) (by decide) (by decide),bit_agree (blockImage_put_same _ _ rfl) (by omega),bit_setBit,prepared.inodes n small,
      Bool.eq_iff_iff]
    simp only [Bool.or_eq_true,decide_eq_true_eq,List.mem_cons]
    rw [show n = nr-1 ↔ n+1 = nr by omega]

theorem gather_first (full : ∀ i, j ≤ i → i < k → bitmap i = 0xFF#8) (open_ : bitmap k ≠ 0xFF#8) (before : j ≤ k) (enough : k < j+left)
    (base : Nat) (blocks : Nat → Nat) :
    gather bitmap base 1 left j 0 blocks = (true,Function.update blocks 0 ((base+k*8+firstClear (bitmap k)+1)%word)) := by
  induction left generalizing j with
  | zero => omega
  | succ left ih =>
    rw [gather]
    by_cases here : j = k
    · rw [here,if_neg open_]
      rfl
    · rw [if_pos (full j (Nat.le_refl _) (by omega))]
      exact ih (fun i low high => full i (by omega) high) (by omega) (by omega)

theorem pushed_next : ∀ n : Fin 6, pushOnes (2+n.val) 0#8 ≠ 0xFF#8 ∧ firstClear (pushOnes (2+n.val) 0#8) = 2+n.val ∧
    pushOnes (2+n.val) 0#8 ||| 1#8 <<< (2+n.val) = pushOnes (2+(n.val+1)) 0#8 := by decide

theorem allocateBlocks_moved (prepared : Prepared d nrs used m) (few : used < 6) (blocks : Nat → Nat) :
    ∃ next table, allocateBlocks m blocks 1 = (.noError,Function.update blocks 0 (219+used),next) ∧ Moved m next ∧
      bgFreeBlocksCount (blockImage m.device.disk 2) 0 = bgFreeBlocksCount table 0+1 ∧
      next.device.disk = putBlock (putBlock m.device.disk 3 (setBit (blockImage m.device.disk 3) (218+used))) 2 table := by
  obtain ⟨notFull,clear,_⟩ := pushed_next ⟨used,few⟩
  have found : gather (blockImage m.device.disk 3) (0*sBlocksPerGroup m.superblock) 1 1024 0 0 blocks =
      (true,Function.update blocks 0 (219+used)) := by
    rw [gather_first (fun i _ below => prepared.full i below) (by rw [prepared.open_]; exact notFull) (Nat.zero_le 27) (by decide),
      prepared.open_,clear,Nat.zero_mul,show (0+27*8+(2+used)+1)%word = 219+used by unfold word; omega]
  have enough : 1 ≤ bgFreeBlocksCount (blockImage m.device.disk 2) 0 := by
    have free := prepared.free
    omega
  have small : bgFreeBlocksCount (blockImage m.device.disk 2) 0 < 65536 := get16_lt _ _
  have mark : markBlocks (blockImage m.device.disk 3) (sBlocksPerGroup m.superblock) (Function.update blocks 0 (219+used)) 1 =
      setBit (blockImage m.device.disk 3) (218+used) := by
    have index : groupBit 8192 (219+used) = 218+used := by
      unfold groupBit word
      omega
    simp only [markBlocks,List.range_one,List.foldl_cons,List.foldl_nil,Function.update_self,prepared.blocksPerGroup,index]
  have ran : allocateBlocks m blocks 1 = (.noError,Function.update blocks 0 (219+used),
      takeBlocks m (blockImage m.device.disk 2) (blockImage m.device.disk 3) 0 1 (Function.update blocks 0 (219+used))) := by
    rw [allocateBlocks,groupLoop]
    simp only [read_local prepared.sectors,prepared.blockBitmap,found]
    rw [if_neg (by decide),if_neg (Nat.not_lt.mpr enough)]
  rw [takeBlocks_eq prepared.sectors,prepared.blockBitmap,mark] at ran
  refine ⟨_,_,ran,put_twice (by decide) _ prepared.sectors ?_ ?_ ?_,?_,rfl⟩
  · exact agree_put16 (by decide)
  · exact perGroup_setFreeBlocks _ _
  · exact inodesPerGroup_setFreeBlocks _ _
  · rw [freeBlocks_freeBlocks,if_pos rfl]
    unfold word
    omega

theorem Prepared.block (prepared : Prepared d nrs used m) (few : used < 6) (blocks : Nat → Nat) :
    ∃ blocks' next, allocateBlocks m blocks 1 = (.noError,blocks',next) ∧ blocks' 0 = 219+used ∧ Prepared d nrs (used+1) next ∧
      ∀ b < 8192, 4 ≤ b → blockImage next.device.disk b = blockImage m.device.disk b := by
  obtain ⟨next,table,ran,moved,count,disk⟩ := allocateBlocks_moved prepared few blocks
  have others : ∀ b < 8192, 4 ≤ b → blockImage next.device.disk b = blockImage m.device.disk b := by
    intro b below high
    rw [disk,put_image (by omega) (by decide) below,put_image (by omega) (by decide) below]
  have three : ∀ j < 1024, blockImage next.device.disk 3 j = setBit (blockImage m.device.disk 3) (218+used) j := by
    intro j below
    rw [disk,put_image (by decide) (by decide) (by decide)]
    exact blockImage_put_same _ _ rfl j (Nat.zero_le _) (by omega)
  refine ⟨_,next,ran,Function.update_self _ _ _,prepared.move moved ?_ ?_ ?_ ?_,others⟩
  · have image : Agree (blockImage next.device.disk 2) table 0 1024 := by
      rw [disk]
      exact blockImage_put_same _ _ rfl
    have free := prepared.free
    rw [(SameTable.of_agree image).freeBlocks 0 (by decide)]
    omega
  · intro j below
    rw [three j (by omega),setBit,store_other _ (by omega)]
    exact prepared.full j below
  · rw [three 27 (by omega),setBit,show (218+used)/8 = 27 by omega,show (218+used)%8 = 2+used by omega,store_same,prepared.open_]
    exact (pushed_next ⟨used,few⟩).2.2
  · rw [others 4 (by decide) (Nat.le_refl 4)]
    exact prepared.inodes

theorem Prepared.write (prepared : Prepared d nrs used m) (low : 1 ≤ nr) (high : nr ≤ 1712) (member : nr ∈ nrs) (inode : Inode) :
    ∃ next, ext2WriteInode m inode nr = some (.noError,next) ∧ Prepared d nrs used next ∧
      ∀ k, 1 ≤ k → k ≤ 1712 → stored next k = if k = nr then inode else stored m k := by
  have laid := prepared.laid
  have range := first_inRange laid low high
  obtain ⟨next,ran,wrote⟩ := laid.store.write range inode
  obtain ⟨group,index⟩ := first_place laid low high
  obtain ⟨bitmap,table⟩ := laid.blocks (show 0 < 1 by decide)
  have others : ∀ b < 8192, b ≠ 4 → b < 5 ∨ 219 ≤ b → blockImage next.device.disk b = blockImage m.device.disk b := by
    intro b below four out
    apply wrote.elsewhere
    · rw [group,bitmap,slot_small (by omega),slot_small (by omega)]
      omega
    · rw [group,index,table _ (by omega),slot_small (by omega),slot_small (by omega)]
      omega
  have three := others 3 (by decide) (by decide) (by decide)
  have two := others 2 (by decide) (by decide) (by decide)
  have moved : Moved m next := by
    refine ⟨wrote.sectors,by rw [wrote.superblock],by rw [wrote.superblock],?_,?_,writeInode_tail prepared.sectors ran⟩
    · rw [two]
      exact .refl _ _ _
    · intro b first last
      exact others b (by omega) (by omega) (.inr first)
  refine ⟨next,ran,prepared.move moved ?_ ?_ ?_ ?_,?_⟩
  · rw [two]
    exact prepared.free
  · rw [three]
    exact prepared.full
  · rw [three]
    exact prepared.open_
  · intro n small
    have bits := wrote.bitmap laid.store range (show 0 < 1 by decide) (show n < 8192 by omega)
    rw [bitmap,group,index,Nat.zero_mul,Nat.zero_add,prepared.inodes n small] at bits
    rw [bits,Bool.eq_iff_iff]
    simp only [Bool.or_eq_true,decide_eq_true_eq,true_and]
    constructor
    · rintro (rfl | old)
      · rwa [Nat.sub_add_cancel low]
      · exact old
    · exact .inr
  · intro k first last
    exact wrote.stored laid.store range (first_inRange laid first last)

theorem block_setBlock (inode : Inode) (small : block < word) : iBlock (setBlock inode 0 block) 0 = block := by
  rw [iBlock,setBlock,get32_agree ((setInode_inodeAt _).narrow (by decide) (by decide)),get32_put32]
  exact Nat.mod_eq_of_lt small

-- The two directories as ext2_add_link finds them.
structure Rooted (d : Device) (m : Mount) : Prop where
  laid : LaidOut m 1
  root : Entry m 1 2
  lost : Entry m 1 11
  rootBlock : iBlock (stored m 2) 0 = 219
  lostBlock : iBlock (stored m 11) 0 = 220
  kept : ∀ b, 219 ≤ b → b ≤ 220 → blockImage m.device.disk b = blockImage d.disk b
  tail : SameTail m.device.rwBuffer d.rwBuffer

theorem Prepared.rooted (prepared : Prepared d nrs used m) (root : 2 ∈ nrs) (lost : 11 ∈ nrs) (rootBlock : iBlock (stored m 2) 0 = 219)
    (lostBlock : iBlock (stored m 11) 0 = 220) : Rooted d m := by
  have laid := prepared.laid
  have entry : ∀ nr, 1 ≤ nr → nr ≤ 1712 → nr ∈ nrs → 219 ≤ iBlock (stored m nr) 0 → iBlock (stored m nr) 0 < 8192 → Entry m 1 nr := by
    intro nr low high member first last
    refine ⟨laid.store,first_inRange laid low high,?_,laidOut_outside laid first last⟩
    rw [prepared.allocated low high]
    exact decide_eq_true member
  refine ⟨laid,entry 2 (by decide) (by decide) root ?_ ?_,entry 11 (by decide) (by decide) lost ?_ ?_,rootBlock,lostBlock,prepared.kept,
    prepared.tail⟩
  · rw [rootBlock]
  · rw [rootBlock]
    decide
  · rw [lostBlock]
    decide
  · rw [lostBlock]
    decide

theorem Prepared.takeInodes (prepared : Prepared d [] 0 m) : ∃ next, Ext2Format.takeInodes m = some next ∧ Prepared d [11,2,1] 0 next := by
  obtain ⟨m1,ran1,prepared1⟩ := prepared.inode (show 1 ≤ 1 by decide) (by decide) (by decide) false
  obtain ⟨m2,ran2,prepared2⟩ := prepared1.inode (show 1 ≤ 2 by decide) (by decide) (by decide) true
  obtain ⟨m3,ran3,prepared3⟩ := prepared2.inode (show 1 ≤ 11 by decide) (by decide) (by decide) true
  refine ⟨m3,?_,prepared3⟩
  rw [Ext2Format.takeInodes,ran1,Option.bind_eq_bind,Option.bind_some,ran2,Option.bind_some,ran3]
  rfl

theorem Prepared.makeDir (prepared : Prepared d nrs used m) (few : used < 6) (low : 1 ≤ nr) (high : nr ≤ 1712) (member : nr ∈ nrs)
    (dirBlock : Nat → Nat) : ∃ next, Ext2Format.makeDir m dirBlock nr = some next ∧ Prepared d nrs (used+1) next ∧
      ∀ k, 1 ≤ k → k ≤ 1712 → stored next k = if k = nr then setBlock createDirInode 0 (219+used) else stored m k := by
  obtain ⟨blocks,middle,ran,first,prepared',others⟩ := prepared.block few dirBlock
  obtain ⟨next,wrote,prepared'',inodes⟩ := prepared'.write low high member (setBlock createDirInode 0 (219+used))
  refine ⟨next,?_,prepared'',?_⟩
  · rw [Ext2Format.makeDir,ran]
    dsimp only
    rw [first,wrote]
    rfl
  · intro k below above
    rw [inodes k below above,first_stored prepared'.laid below above,others _ (by omega) (by omega),← first_stored prepared.laid below above]

theorem Prepared.makeRoot (prepared : Prepared d [] 0 m) (stack : Stack) : ∃ made, Rooted d made ∧ Ext2Format.makeRoot m stack =
    (addLinks made 2 rootLinks).bind fun m => (addLinks m 11 [lostDot,dotDot]).map fun m => (ext2UnmountDevice m).2.device := by
  obtain ⟨m1,ran1,prepared1⟩ := prepared.takeInodes
  obtain ⟨m2,ran2,prepared2,inodes2⟩ := prepared1.makeDir (by decide) (show 1 ≤ 2 by decide) (by decide) (by decide) stack.rootDirBlock
  obtain ⟨m3,ran3,prepared3,inodes3⟩ := prepared2.makeDir (by decide) (show 1 ≤ 11 by decide) (by decide) (by decide) stack.lostfoundDirBlock
  refine ⟨m3,prepared3.rooted (by decide) (by decide) ?_ ?_,?_⟩
  · rw [inodes3 2 (by decide) (by decide),if_neg (by decide),inodes2 2 (by decide) (by decide),if_pos rfl]
    exact block_setBlock _ (by decide)
  · rw [inodes3 11 (by decide) (by decide),if_pos rfl]
    exact block_setBlock _ (by decide)
  · rw [Ext2Format.makeRoot,ran1,Option.bind_eq_bind,Option.bind_some,ran2,Option.bind_some,ran3,Option.bind_some,rootLinks]
    simp only [Option.map_eq_bind]
    rfl

-- What ext2_add_link finds in block b of a disk, with the memory behind the buffer.
def found (memory disk : Bytes) (b : Nat) : Bytes := blit memory 0 disk (offset b) 1024

theorem found_same (tail : SameTail left right) (image : blockImage disk b = blockImage disk' c) : found left disk b = found right disk' c := by
  funext i
  by_cases inside : i < 1024
  · have byte := congrFun image i
    rw [blockImage_byte _ _ inside,blockImage_byte _ _ inside] at byte
    rw [found,found,blit_inside (Nat.zero_le _) (by omega),blit_inside (Nat.zero_le _) (by omega),Nat.sub_zero,byte]
  · rw [found,found,blit_outside (.inr (by omega)),blit_outside (.inr (by omega)),tail i (by omega)]

theorem Rooted.loaded_root (rooted : Rooted d m) : loaded m 2 = found d.rwBuffer d.disk 219 := by
  rw [loaded,rooted.rootBlock]
  exact found_same rooted.tail (rooted.kept 219 (by decide) (by decide))

theorem Rooted.targets (rooted : Rooted d m) : Targets m 1 rootLinks ∧ Targets m 1 [lostDot,dotDot] := by
  have two : InRange m 1 2 ∧ taken m 2 = true := ⟨rooted.root.range,rooted.root.allocated⟩
  have eleven : InRange m 1 11 ∧ taken m 11 = true := ⟨rooted.lost.range,rooted.lost.allocated⟩
  constructor
  · intro link member
    simp only [rootLinks,List.mem_cons,List.not_mem_nil,or_false] at member
    rcases member with rfl | rfl | rfl
    · exact two
    · exact two
    · exact eleven
  · intro link member
    simp only [List.mem_cons,List.not_mem_nil,or_false] at member
    rcases member with rfl | rfl
    · exact eleven
    · exact two

theorem Rooted.loaded_lost (rooted : Rooted d m) (appended : Appended m next 1 2 block) : loaded next 11 = found block d.disk 220 := by
  have outside := laidOut_outside rooted.laid (show 219 ≤ 220 by decide) (by decide)
  have image : blockImage next.device.disk 220 = blockImage d.disk 220 := by
    rw [appended.others 220 outside (by rw [rooted.rootBlock]; decide),rooted.kept 220 (by decide) (by decide)]
  rw [loaded,appended.blocks 11 rooted.lost.range,rooted.lostBlock]
  refine found_same ?_ image
  intro i high
  rw [← appended.holds,loaded,blit_outside (.inr (by omega))]

-- The links of both directories, or the walk that never ends.
theorem Rooted.links (rooted : Rooted d m) (root : appendLinks (found d.rwBuffer d.disk 219) rootLinks = some block)
    (lost : appendLinks (found block d.disk 220) [lostDot,dotDot] = some block') :
    ∃ middle next, addLinks m 2 rootLinks = some middle ∧ addLinks middle 11 [lostDot,dotDot] = some next ∧
      Appended m middle 1 2 block ∧ Appended middle next 1 11 block' := by
  rw [← rooted.loaded_root] at root
  obtain ⟨middle,ran,appended⟩ := appends_ran rooted.root rooted.targets.1 root
  rw [← rooted.loaded_lost appended] at lost
  have targets : Targets middle 1 [lostDot,dotDot] := targets_same rooted.targets.2 appended
  obtain ⟨next,ran',appended'⟩ := appends_ran (appended.entry rooted.lost) targets lost
  exact ⟨middle,next,ran,ran',appended,appended'⟩

def mountedSuperblock (d : Device) (context : Bytes) : Bytes := setState (blit context 0 d.disk (offset 1) 1024) ext2ErrorFs

theorem mount_eq (sectors : d.sectorSize = 512) (context : Bytes) : ext2MountDevice d context =
    (.noError,⟨d.put 1 (mountedSuperblock d context),mountedSuperblock d context⟩) := by
  simp only [ext2MountDevice,sectors,ne_eq,not_true_eq_false,if_false,read_block sectors,write_block sectors]
  rfl

theorem mounted_fields (d : Device) (context : Bytes) :
    sBlocksPerGroup (mountedSuperblock d context) = sBlocksPerGroup (blockImage d.disk 1) ∧
    sInodesPerGroup (mountedSuperblock d context) = sInodesPerGroup (blockImage d.disk 1) := by
  have image := buffer_agree context d.disk 1
  constructor
  · exact (get32_put16_away (by decide)).trans (get32_agree (image.narrow (by decide) (by decide)))
  · exact (get32_put16_away (by decide)).trans (get32_agree (image.narrow (by decide) (by decide)))

-- The walk over the root directory by a later mount. The context and the buffer
-- may hold anything before.
def rootListing (d : Device) (context buffer : Bytes) : Option (List (Nat × List Byte)) :=
  (ext2ReadInode (ext2MountDevice d context).2 2).bind fun read =>
    listing (ext2ReadBlocks read.2.2.device (iBlock read.2.1 0) buffer 1).2

theorem unmount_disk (sectors : m.device.sectorSize = 512) :
    (ext2UnmountDevice m).2.device = m.device.put 1 (setState m.superblock ext2ValidFs) := by
  simp only [ext2UnmountDevice,write_block sectors]

theorem rootListing_eq (laid : LaidOut m 1) (root : Entry m 1 2) (rootBlock : iBlock (stored m 2) 0 = 219) (context buffer : Bytes) :
    rootListing (ext2UnmountDevice m).2.device context buffer = listing (found buffer m.device.disk 219) := by
  rw [unmount_disk laid.sectors]
  have sectors : (m.device.put 1 (setState m.superblock ext2ValidFs)).sectorSize = 512 := laid.sectors
  have one : Agree (blockImage (m.device.put 1 (setState m.superblock ext2ValidFs)).disk 1) (setState m.superblock ext2ValidFs) 0 1024 :=
    blockImage_put_same _ _ rfl
  have others : ∀ b < 8192, b ≠ 1 → blockImage (m.device.put 1 (setState m.superblock ext2ValidFs)).disk b = blockImage m.device.disk b :=
    fun b below differ => put_image (Ne.symm differ) (by decide) below _ _
  generalize m.device.put 1 (setState m.superblock ext2ValidFs) = closed at sectors one others
  obtain ⟨blocks,inodes⟩ := mounted_fields closed context
  have images : ∀ b < 8192, b ≠ 1 → blockImage (closed.put 1 (mountedSuperblock closed context)).disk b = blockImage m.device.disk b := by
    intro b below differ
    rw [put_disk,put_image (Ne.symm differ) (by decide) below,others b below differ]
  obtain ⟨bitmap,table⟩ := first_table laid
  have blocksPerGroup : sBlocksPerGroup (mountedSuperblock closed context) = 8192 := by
    rw [blocks,sBlocksPerGroup,get32_agree (one.narrow (by decide) (by decide))]
    exact (get32_put16_away (by decide)).trans laid.blocksPerGroup
  have inodesPerGroup : sInodesPerGroup (mountedSuperblock closed context) = 1712 := by
    rw [inodes,sInodesPerGroup,get32_agree (one.narrow (by decide) (by decide))]
    exact (get32_put16_away (by decide)).trans laid.inodesPerGroup
  rw [rootListing,mount_eq sectors]
  -- The new mount finds the first group where it was.
  have kept : (closed.put 1 (mountedSuperblock closed context)).sectorSize = 512 := sectors
  generalize mountedSuperblock closed context = superblock at blocksPerGroup inodesPerGroup images kept ⊢
  have laid' : LaidOut ⟨closed.put 1 superblock,superblock⟩ 1 := by
    refine laidOut_first kept blocksPerGroup inodesPerGroup ?_ ?_
    · rw [images 2 (by decide) (by decide)]
      exact bitmap
    · rw [images 2 (by decide) (by decide)]
      exact table
  have allocated : taken ⟨closed.put 1 superblock,superblock⟩ 2 = true := by
    rw [first_taken laid' (by decide) (by decide),images 4 (by decide) (by decide),← first_taken laid (by decide) (by decide)]
    exact root.allocated
  have inode : stored ⟨closed.put 1 superblock,superblock⟩ 2 = stored m 2 := by
    rw [first_stored laid' (by decide) (by decide),images _ (by decide) (by decide),← first_stored laid (by decide) (by decide)]
  obtain ⟨after,same,ran⟩ := laid'.store.read_taken (first_inRange laid' (by decide) (by decide)) allocated
  rw [ran,Option.bind_some,inode,rootBlock,read_block (same.sectors.trans kept),same.disk]
  exact congrArg listing (found_same (fun _ _ => rfl) (images 219 (by decide) (by decide)))

-- At most 31 groups, the last of them with room for data.
structure Sized (d : Device) : Prop where
  sectors : d.sectorSize = 512
  groups : blockGroupCount (freshSuperblock d.sizeInKb) ≤ 31
  room : 225 ≤ d.sizeInKb%word%8192

theorem Sized.count (sized : Sized d) : blockGroupCount (freshSuperblock d.sizeInKb) = d.sizeInKb%word/8192+1 := by
  have few := sized.groups
  rcases groupCount_cases d.sizeInKb with ⟨_,count⟩ | ⟨_,count⟩
  · exact count
  · omega

theorem Sized.layOut (sized : Sized d) : ∃ layout, Ext2Format.layOut d (freshSuperblock d.sizeInKb) = some layout := by
  have few := sized.groups
  have count := sized.count
  have described := descriptorTable_described d.sizeInKb (show blockGroupCount (freshSuperblock d.sizeInKb) ≤ 64 by omega) (d.sizeInKb%word/8192)
    (by omega)
  have room := sized.room
  have length : inodeTableLength = 214 := by decide
  apply layOut_returns sized.sectors (by omega)
  · rw [groupBitmap,if_pos rfl,count,Nat.add_sub_cancel,← count,described.freeBlocks,freeCount_last,length,padLastGroup,if_neg (by omega)]

theorem first_bitmap (sized : Sized d) (described : Described table (d.sizeInKb%word) 0)
    (written : groupBitmap table (blockGroupCount (freshSuperblock d.sizeInKb)) 0 = some bitmap) (low : j ≤ 27) :
    bitmap j = initialBlockBitmap j := by
  have room := sized.room
  have count := sized.count
  have length : inodeTableLength = 214 := by decide
  unfold groupBitmap at written
  split at written
  · rename_i last
    have zero : d.sizeInKb%word/8192 = 0 := by omega
    have free := freeCount_last (d.sizeInKb%word)
    rw [zero] at free
    rw [described.freeBlocks,free,length] at written
    obtain ⟨_,byte⟩ := padded_byte written (show j < 1024 by omega)
    rw [byte,if_pos (by omega)]
  · rw [Option.some.inj written]

theorem fresh_inodes (below : n < 1712) : bit initialInodeBitmap n = false := by
  have byte : initialInodeBitmap (n/8) = 0#8 := by
    unfold initialInodeBitmap setupInitialInodeBitmap
    rw [fill_outside (.inl (by omega)),fill_inside (Nat.zero_le _) (by omega)]
  rw [bit,byte,BitVec.getLsbD_zero]

theorem perGroup_countFree (superblock table : Bytes) (groups : Nat) :
    sBlocksPerGroup (countFree superblock table groups) = sBlocksPerGroup superblock ∧
    sInodesPerGroup (countFree superblock table groups) = sInodesPerGroup superblock := by
  unfold countFree sBlocksPerGroup sInodesPerGroup setFreeInodesCount setFreeBlocksCount
  simp (disch := decide) only [get32_put32_away,and_self]

theorem Sized.prepared (sized : Sized d) (laid : Ext2Format.layOut d (freshSuperblock d.sizeInKb) = some layout) (context : Bytes) :
    layout.device.sectorSize = 512 ∧ Prepared d [] 0 ⟨layout.device.put 1 (mountedSuperblock layout.device context),mountedSuperblock layout.device context⟩ := by
  have few := sized.groups
  have count := sized.count
  have room := sized.room
  obtain ⟨s,written,device,groups,table,superblock⟩ := layOut_written sized.sectors (by omega) laid
  have described : ∀ g < layout.groups, Described layout.table (d.sizeInKb%word) g := by
    rw [table]
    exact descriptorTable_described d.sizeInKb (by omega)
  obtain ⟨bitmap,chosen,holds⟩ := written.holds 0 (by omega)
  rw [groups] at chosen
  rw [← device] at holds
  have one : Agree (blockImage layout.device.disk 1) layout.superblock 0 1024 := holds 0 (by decide)
  have two : Agree (blockImage layout.device.disk 2) layout.table 0 1024 := holds 1 (by decide)
  have three : Agree (blockImage layout.device.disk 3) bitmap 0 1024 := holds 2 (by decide)
  have four : Agree (blockImage layout.device.disk 4) initialInodeBitmap 0 1024 := holds 3 (by decide)
  have sectors : layout.device.sectorSize = 512 := by
    rw [device]
    exact written.sectors
  have data : ∀ b, 219 ≤ b → b ≤ 220 → blockImage layout.device.disk b = blockImage d.disk b := by
    intro b low high
    rw [device]
    apply written.others b (by omega)
    intro g inside
    rw [place_regular described inside (by omega)]
    omega
  have buffer : layout.device.rwBuffer = d.rwBuffer := by
    rw [device]
    exact written.buffer
  have fields := SameTable.of_agree two
  have head := described 0 (by omega)
  obtain ⟨blocks,inodes⟩ := mounted_fields layout.device context
  obtain ⟨blocksPerGroup,inodesPerGroup⟩ := perGroup_countFree (freshSuperblock d.sizeInKb) layout.table layout.groups
  rw [← superblock] at blocksPerGroup inodesPerGroup
  obtain ⟨_,eightThousand,seventeenHundred,_⟩ := freshSuperblock_fields d.sizeInKb
  have images : ∀ b < 8192, b ≠ 1 → blockImage (layout.device.put 1 (mountedSuperblock layout.device context)).disk b =
      blockImage layout.device.disk b := fun b below differ => put_image (Ne.symm differ) (by decide) below _ _
  refine ⟨sectors,sectors,?_,?_,?_,?_,?_,?_,?_,?_,?_,?_,?_⟩
  · rw [blocks,sBlocksPerGroup,get32_agree (one.narrow (by decide) (by decide))]
    exact blocksPerGroup.trans eightThousand
  · rw [inodes,sInodesPerGroup,get32_agree (one.narrow (by decide) (by decide))]
    exact inodesPerGroup.trans seventeenHundred
  · rw [images 2 (by decide) (by decide),fields.blockBitmap 0 (by decide),head.blockBitmap]
  · rw [images 2 (by decide) (by decide),fields.inodeBitmap 0 (by decide),head.inodeBitmap]
  · rw [images 2 (by decide) (by decide),fields.inodeTable 0 (by decide),head.inodeTable]
  · rw [images 2 (by decide) (by decide),fields.freeBlocks 0 (by decide),head.freeBlocks,Nat.add_zero]
    by_cases only : d.sizeInKb%word/8192 = 0
    · have free := freeCount_last (d.sizeInKb%word)
      rw [only] at free
      omega
    · rw [freeCount_full (by omega)]
      decide
  · intro j below
    rw [images 3 (by decide) (by decide),three j (Nat.zero_le _) (by omega),first_bitmap sized head chosen (by omega),initial_byte,if_pos below]
  · rw [images 3 (by decide) (by decide),three 27 (by decide) (by decide),first_bitmap sized head chosen (by decide),initial_byte]
    rfl
  · intro n below
    rw [images 4 (by decide) (by decide),bit_agree four (by omega),fresh_inodes below]
    rfl
  · intro b low high
    rw [images b (by omega) (by omega),data b low high]
  · intro i _
    exact congrFun buffer i

theorem Sized.format (sized : Sized d) (stack : Stack) : ∃ made, Rooted d made ∧ ext2FormatDevice d stack =
    ((addLinks made 2 rootLinks).bind fun m => (addLinks m 11 [lostDot,dotDot]).map fun m => (ext2UnmountDevice m).2.device).map
      fun device => (.noError,device) := by
  obtain ⟨layout,laid⟩ := sized.layOut
  obtain ⟨sectors,prepared⟩ := sized.prepared laid stack.context
  obtain ⟨made,rooted,ran⟩ := prepared.makeRoot stack
  refine ⟨made,rooted,?_⟩
  rw [format_eq sized.sectors,laid,Option.bind_some,mount_eq sectors]
  dsimp only
  rw [ran]

theorem laidOut_appended (laid : LaidOut m 1) (appended : Appended m next 1 dir buffer) : LaidOut next 1 := by
  refine ⟨appended.sectors,laid.few,?_,?_,?_⟩
  · rw [appended.superblock]
    exact laid.blocksPerGroup
  · rw [appended.superblock]
    exact laid.inodesPerGroup
  · rw [appended.table,appended.superblock]
    exact laid.descriptors

-- The formatter leaves in block 219 what appending to its old contents gives.
theorem Sized.ends (sized : Sized d) (stack : Stack) (root : appendLinks (found d.rwBuffer d.disk 219) rootLinks = some block)
    (lost : appendLinks (found block d.disk 220) [lostDot,dotDot] = some block') :
    ∃ device, ext2FormatDevice d stack = some (.noError,device) ∧
      ∀ context buffer, rootListing device context buffer = listing (blit buffer 0 block 0 1024) := by
  obtain ⟨made,rooted,ran⟩ := sized.format stack
  obtain ⟨middle,next,links,links',appended,appended'⟩ := rooted.links root lost
  rw [links,Option.bind_some,links'] at ran
  refine ⟨_,ran,?_⟩
  intro context buffer
  have laid := laidOut_appended rooted.laid appended
  have entry := appended.entry rooted.root
  have place : iBlock (stored middle 2) 0 = 219 := (appended.blocks 2 rooted.root.range).trans rooted.rootBlock
  have place' : iBlock (stored next 2) 0 = 219 := (appended'.blocks 2 entry.range).trans place
  rw [rootListing_eq (laidOut_appended laid appended') (appended'.entry entry) place']
  have differ : slot 219 ≠ slot (iBlock (stored middle 11) 0) := by
    rw [appended.blocks 11 rooted.lost.range,rooted.lostBlock]
    decide
  have image : blockImage next.device.disk 219 = blockImage middle.device.disk 219 :=
    appended'.others 219 (laidOut_outside laid (by decide) (by decide)) differ
  have holds := appended.holds
  rw [loaded,place] at holds
  rw [found_same (fun _ _ => rfl) image]
  apply congrArg listing
  funext i
  by_cases inside : i < 1024
  · have byte := congrFun holds i
    rw [blit_inside (Nat.zero_le _) (by omega)] at byte
    rw [found,blit_inside (Nat.zero_le _) (by omega),blit_inside (Nat.zero_le _) (by omega),byte,Nat.zero_add,Nat.sub_zero]
  · rw [found,blit_outside (.inr (by omega)),blit_outside (.inr (by omega))]

theorem Sized.returned (sized : Sized d) (returned : ext2FormatDevice d stack = some (.noError,device)) :
    ∃ block block', appendLinks (found d.rwBuffer d.disk 219) rootLinks = some block ∧
      appendLinks (found block d.disk 220) [lostDot,dotDot] = some block' := by
  obtain ⟨made,rooted,ran⟩ := sized.format stack
  rw [ran] at returned
  obtain ⟨_,both,_⟩ := Option.map_eq_some_iff.mp returned
  obtain ⟨middle,links,rest⟩ := Option.bind_eq_some_iff.mp both
  obtain ⟨next,links',_⟩ := Option.map_eq_some_iff.mp rest
  cases root : appendLinks (found d.rwBuffer d.disk 219) rootLinks with
  | none =>
    rw [← rooted.loaded_root] at root
    rw [appends_never rooted.root rooted.targets.1 root] at links
    cases links
  | some block =>
    have again := root
    rw [← rooted.loaded_root] at again
    obtain ⟨middle',links'',appended⟩ := appends_ran rooted.root rooted.targets.1 again
    cases Option.some.inj (links.symm.trans links'')
    cases lost : appendLinks (found block d.disk 220) [lostDot,dotDot] with
    | none =>
      rw [← rooted.loaded_lost appended] at lost
      rw [appends_never (appended.entry rooted.lost) (targets_same rooted.targets.2 appended) lost] at links'
      cases links'
    | some block' => exact ⟨block,block',rfl,lost⟩

-- Whatever is in memory, the formatter returns and every later walk over the root
-- directory ends and shows the three links.
def FreshRoot (d : Device) : Prop := ∀ rwBuffer stack, ∃ device, ext2FormatDevice {d with rwBuffer := rwBuffer} stack = some (.noError,device) ∧
  ∀ context buffer, rootListing device context buffer = some freshEntries

-- Both walks of ext2_add_link over the block come to an end.
def LinksEnd (disk : Bytes) (b : Nat) : Prop := ∀ memory, ∃ passed last, walkDirectory (found memory disk b) = some (passed,last) ∧
  (walkDirectory (putRecord (found memory disk b) last.bufferPos 11 lostDot.bytes 1 0)).isSome

theorem linksEnd_iff (disk : Bytes) (b : Nat) : LinksEnd disk b ↔ ∀ memory, ∃ block', appendLinks (found memory disk b) [lostDot,dotDot] = some block' := by
  refine forall_congr' fun memory => ?_
  constructor
  · rintro ⟨passed,last,first,second⟩
    obtain ⟨walked,second⟩ := Option.isSome_iff_exists.mp second
    have one : appendLink (found memory disk b) lostDot = some (putRecord (found memory disk b) last.bufferPos 11 lostDot.bytes 1 0) := by
      rw [appendLink,first]
      rfl
    apply Option.isSome_iff_exists.mp
    rw [appendLinks,one,Option.bind_some,appendLinks,appendLink,second]
    rfl
  · rintro ⟨block',appended⟩
    obtain ⟨middle,one,rest⟩ := Option.bind_eq_some_iff.mp appended
    obtain ⟨_,two,_⟩ := Option.bind_eq_some_iff.mp rest
    obtain ⟨⟨passed,last⟩,first,rfl⟩ := Option.map_eq_some_iff.mp one
    obtain ⟨walked,second,_⟩ := Option.map_eq_some_iff.mp two
    exact ⟨passed,last,first,Option.isSome_iff_exists.mpr ⟨walked,second⟩⟩

theorem found_start (memory disk : Bytes) (b : Nat) : get32 (found memory disk b) 0 = get32 (blockImage disk b) 0 :=
  get32_agree ((buffer_agree memory disk b).narrow (Nat.le_refl 0) (by decide))

theorem appends_unused (unused : get32 (blockImage disk b) 0 = 0) (small : ∀ link ∈ links, link.inode ≠ 0 ∧ link.inode < word)
    (fits : totalSize links+8 ≤ 1024) (memory : Bytes) : ∃ block, appendLinks (found memory disk b) links = some block ∧
      SameTail block memory ∧ ∀ buffer, listing (blit buffer 0 block 0 1024) = some (links.map fun link => (link.inode,link.name)) := by
  obtain ⟨block,appended,listed,ended,tail⟩ := appends_listed (show Listed (found memory disk b) 0 [] from trivial) small
    ((found_start memory disk b).trans unused) fits
  rw [List.nil_append] at listed ended
  refine ⟨block,appended,?_,?_⟩
  · intro i high
    rw [tail i high,found,blit_outside (.inr (by omega))]
  · intro buffer
    have same : Agree block (blit buffer 0 block 0 1024) 0 1024 := by
      intro i _ inside
      rw [blit_inside (Nat.zero_le _) (by omega),Nat.zero_add,Nat.sub_zero]
    refine listing_listed (listed.agree (same.narrow (Nat.le_refl 0) (by omega))) (fun link member => (small link member).1) ?_ fits
    exact (get32_agree (same.symm.narrow (Nat.zero_le _) (by omega))).trans ended

theorem rootLinks_small : ∀ link ∈ rootLinks, link.inode ≠ 0 ∧ link.inode < word := by
  intro link member
  simp only [rootLinks,List.mem_cons,List.not_mem_nil,or_false] at member
  rcases member with rfl | rfl | rfl <;> decide

theorem Sized.freshRoot_iff (sized : Sized d) : FreshRoot d ↔ get32 (blockImage d.disk 219) 0 = 0 ∧ LinksEnd d.disk 220 := by
  have sizedWith : ∀ rwBuffer, Sized {d with rwBuffer := rwBuffer} := fun rwBuffer => ⟨sized.sectors,sized.groups,sized.room⟩
  rw [linksEnd_iff]
  constructor
  · intro fresh
    have unused : get32 (blockImage d.disk 219) 0 = 0 := by
      by_contra used
      obtain ⟨device,returned,shown⟩ := fresh blank zeroStack
      obtain ⟨block,block',root,lost⟩ := (sizedWith blank).returned returned
      obtain ⟨device',returned',listings⟩ := (sizedWith blank).ends zeroStack root lost
      cases (Option.some.inj (returned.symm.trans returned'))
      have zero : ZeroFrom (found blank d.disk 219) 1024 := fun i high => blit_outside (.inr (by omega))
      rw [← found_start blank] at used
      obtain ⟨memory,wrong⟩ := old_entry_remains zero used root
      exact wrong ((listings blank memory).symm.trans (shown blank memory))
    refine ⟨unused,?_⟩
    intro memory
    obtain ⟨device,returned,_⟩ := fresh memory zeroStack
    obtain ⟨block,block',root,lost⟩ := (sizedWith memory).returned returned
    obtain ⟨block'',root',tail,_⟩ := appends_unused unused rootLinks_small (by decide) memory
    cases Option.some.inj (root.symm.trans root')
    refine ⟨block',?_⟩
    rw [← found_same tail (rfl : blockImage d.disk 220 = blockImage d.disk 220)]
    exact lost
  · rintro ⟨unused,ends⟩ rwBuffer stack
    obtain ⟨block,root,tail,shown⟩ := appends_unused unused rootLinks_small (by decide) rwBuffer
    obtain ⟨block',lost⟩ := ends rwBuffer
    rw [← found_same tail (rfl : blockImage d.disk 220 = blockImage d.disk 220)] at lost
    obtain ⟨device,returned,listings⟩ := (sizedWith rwBuffer).ends stack root lost
    exact ⟨device,returned,fun context buffer => (listings context buffer).trans (shown buffer)⟩

theorem fresh_roots_iff (sized : Sized d) (sized' : Sized d') : FreshRoot d ∧ FreshRoot d' ↔
    (get32 (blockImage d.disk 219) 0 = 0 ∧ LinksEnd d.disk 220) ∧ get32 (blockImage d'.disk 219) 0 = 0 ∧ LinksEnd d'.disk 220 := by
  rw [sized.freshRoot_iff,sized'.freshRoot_iff]

theorem linksEnd_unused (unused : get32 (blockImage disk b) 0 = 0) : LinksEnd disk b := by
  rw [linksEnd_iff]
  intro memory
  have small : ∀ link ∈ [lostDot,dotDot], link.inode ≠ 0 ∧ link.inode < word := by
    intro link member
    simp only [List.mem_cons,List.not_mem_nil,or_false] at member
    rcases member with rfl | rfl <;> decide
  obtain ⟨block,appended,_⟩ := appends_unused unused small (by decide) memory
  exact ⟨block,appended⟩

theorem emptyDevice_sized : Sized (emptyDevice 1000) := ⟨rfl,by decide,by decide⟩

theorem fresh_roots_empty : FreshRoot (emptyDevice 1000) ∧ FreshRoot (emptyDevice 1000) :=
  (fresh_roots_iff emptyDevice_sized emptyDevice_sized).mpr
    ⟨⟨by decide,linksEnd_unused (by decide)⟩,by decide,linksEnd_unused (by decide)⟩

-- Block 219 still holds the file x of an older file system.
def usedDevice : Device := {emptyDevice 1000 with disk := putBlock blank 219 (putRecord blank 0 12 (fun _ => 0x78#8) 1 0)}

theorem usedDevice_sized : Sized usedDevice := ⟨rfl,by decide,by decide⟩

theorem old_file_in_new_root : Sized usedDevice ∧ Sized (emptyDevice 1000) ∧ usedDevice.sizeInKb = (emptyDevice 1000).sizeInKb ∧
    (ext2FormatDevice usedDevice zeroStack).bind (fun returned => rootListing returned.2 blank blank) = some ((12,[0x78#8])::freshEntries) ∧
    (ext2FormatDevice (emptyDevice 1000) zeroStack).bind (fun returned => rootListing returned.2 blank blank) = some freshEntries := by
  have appended : (appendLinks (found blank usedDevice.disk 219) rootLinks).bind (fun block => listing (blit blank 0 block 0 1024)) =
      some ((12,[0x78#8])::freshEntries) := by decide
  obtain ⟨block,root,shown⟩ := Option.bind_eq_some_iff.mp appended
  obtain ⟨block',lost⟩ := (linksEnd_iff usedDevice.disk 220).mp (linksEnd_unused (by decide)) block
  obtain ⟨device,returned,listings⟩ := usedDevice_sized.ends zeroStack root lost
  obtain ⟨device',returned',shown'⟩ := emptyDevice_sized.freshRoot_iff.mpr ⟨by decide,linksEnd_unused (by decide)⟩ blank zeroStack
  refine ⟨usedDevice_sized,emptyDevice_sized,rfl,?_,?_⟩
  · rw [returned]
    exact (listings blank blank).trans shown
  · rw [show emptyDevice 1000 = {emptyDevice 1000 with rwBuffer := blank} from rfl,returned']
    exact shown' blank blank

end KaracaOS.Ext2FreshRoot
