import KaracaOS.BlockDevice

namespace KaracaOS.Ext2Fields
open ByteMemory BlockDevice

-- ext2_superblock_t by byte offset, for the fields that the code reads or changes.
def sBlocksCount (sb : Bytes) : Nat := get32 sb 4
def sFreeBlocksCount (sb : Bytes) : Nat := get32 sb 12
def sFreeInodesCount (sb : Bytes) : Nat := get32 sb 16
def sLogBlockSize (sb : Bytes) : Nat := get32 sb 24
def sBlocksPerGroup (sb : Bytes) : Nat := get32 sb 32
def sInodesPerGroup (sb : Bytes) : Nat := get32 sb 40
def sState (sb : Bytes) : Nat := get16 sb 58
def sInodeSize (sb : Bytes) : Nat := get16 sb 88

def ext2ValidFs : Nat := 1
def ext2ErrorFs : Nat := 2

def setFreeBlocksCount (sb : Bytes) (value : Nat) : Bytes := put32 sb 12 value
def setFreeInodesCount (sb : Bytes) (value : Nat) : Bytes := put32 sb 16 value
def setState (sb : Bytes) (value : Nat) : Bytes := put16 sb 58 value

-- ext2_block_group_descriptor_t desc_table[32]: 32 bytes each, one block in all.
def bgBlockBitmap (table : Bytes) (i : Nat) : Nat := get32 table (32*i)
def bgInodeBitmap (table : Bytes) (i : Nat) : Nat := get32 table (32*i+4)
def bgInodeTable (table : Bytes) (i : Nat) : Nat := get32 table (32*i+8)
def bgFreeBlocksCount (table : Bytes) (i : Nat) : Nat := get16 table (32*i+12)
def bgFreeInodesCount (table : Bytes) (i : Nat) : Nat := get16 table (32*i+14)
def bgUsedDirsCount (table : Bytes) (i : Nat) : Nat := get16 table (32*i+16)

def setBgFreeBlocksCount (table : Bytes) (i value : Nat) : Bytes := put16 table (32*i+12) value
def setBgFreeInodesCount (table : Bytes) (i value : Nat) : Bytes := put16 table (32*i+14) value
def setBgUsedDirsCount (table : Bytes) (i value : Nat) : Bytes := put16 table (32*i+16) value

-- ext2_mount_context_t; nothing here uses its cwd.
structure Mount where
  device : Device
  superblock : Bytes

variable {sb table table' : Bytes}

@[simp] theorem freeBlocks_setFreeBlocks (sb : Bytes) (value : Nat) :
    sFreeBlocksCount (setFreeBlocksCount sb value) = value%4294967296 := get32_put32 _ _ _
@[simp] theorem freeInodes_setFreeInodes (sb : Bytes) (value : Nat) :
    sFreeInodesCount (setFreeInodesCount sb value) = value%4294967296 := get32_put32 _ _ _
@[simp] theorem freeInodes_setFreeBlocks (sb : Bytes) (value : Nat) :
    sFreeInodesCount (setFreeBlocksCount sb value) = sFreeInodesCount sb := get32_agree (agree_put32 (by decide))
@[simp] theorem freeBlocks_setFreeInodes (sb : Bytes) (value : Nat) :
    sFreeBlocksCount (setFreeInodesCount sb value) = sFreeBlocksCount sb := get32_agree (agree_put32 (by decide))
@[simp] theorem freeBlocks_setState (sb : Bytes) (value : Nat) :
    sFreeBlocksCount (setState sb value) = sFreeBlocksCount sb := get32_agree (agree_put16 (by decide))
@[simp] theorem freeInodes_setState (sb : Bytes) (value : Nat) :
    sFreeInodesCount (setState sb value) = sFreeInodesCount sb := get32_agree (agree_put16 (by decide))
@[simp] theorem perGroup_setFreeBlocks (sb : Bytes) (value : Nat) :
    sBlocksPerGroup (setFreeBlocksCount sb value) = sBlocksPerGroup sb := get32_agree (agree_put32 (by decide))

@[simp] theorem inodesPerGroup_setFreeBlocks (sb : Bytes) (value : Nat) :
    sInodesPerGroup (setFreeBlocksCount sb value) = sInodesPerGroup sb := get32_agree (agree_put32 (by decide))

theorem freeBlocks_freeBlocks (table : Bytes) (i value j : Nat) : bgFreeBlocksCount (setBgFreeBlocksCount table i value) j =
    if j = i then value%65536 else bgFreeBlocksCount table j := by
  by_cases here : j = i
  · subst here
    simp [bgFreeBlocksCount,setBgFreeBlocksCount,get16_put16]
  · rw [if_neg here]
    exact get16_agree (agree_put16 (by omega))
theorem freeInodes_freeInodes (table : Bytes) (i value j : Nat) : bgFreeInodesCount (setBgFreeInodesCount table i value) j =
    if j = i then value%65536 else bgFreeInodesCount table j := by
  by_cases here : j = i
  · subst here
    simp [bgFreeInodesCount,setBgFreeInodesCount,get16_put16]
  · rw [if_neg here]
    exact get16_agree (agree_put16 (by omega))
@[simp] theorem freeInodes_freeBlocks (table : Bytes) (i value j : Nat) :
    bgFreeInodesCount (setBgFreeBlocksCount table i value) j = bgFreeInodesCount table j := get16_agree (agree_put16 (by omega))
@[simp] theorem freeBlocks_freeInodes (table : Bytes) (i value j : Nat) :
    bgFreeBlocksCount (setBgFreeInodesCount table i value) j = bgFreeBlocksCount table j := get16_agree (agree_put16 (by omega))
@[simp] theorem freeBlocks_usedDirs (table : Bytes) (i value j : Nat) :
    bgFreeBlocksCount (setBgUsedDirsCount table i value) j = bgFreeBlocksCount table j := get16_agree (agree_put16 (by omega))
@[simp] theorem freeInodes_usedDirs (table : Bytes) (i value j : Nat) :
    bgFreeInodesCount (setBgUsedDirsCount table i value) j = bgFreeInodesCount table j := get16_agree (agree_put16 (by omega))
@[simp] theorem blockBitmap_freeBlocks (table : Bytes) (i value j : Nat) :
    bgBlockBitmap (setBgFreeBlocksCount table i value) j = bgBlockBitmap table j := get32_agree (agree_put16 (by omega))
@[simp] theorem inodeBitmap_freeBlocks (table : Bytes) (i value j : Nat) :
    bgInodeBitmap (setBgFreeBlocksCount table i value) j = bgInodeBitmap table j := get32_agree (agree_put16 (by omega))
@[simp] theorem inodeTable_freeBlocks (table : Bytes) (i value j : Nat) :
    bgInodeTable (setBgFreeBlocksCount table i value) j = bgInodeTable table j := get32_agree (agree_put16 (by omega))

@[simp] theorem inodesPerGroup_setFreeInodes (sb : Bytes) (value : Nat) :
    sInodesPerGroup (setFreeInodesCount sb value) = sInodesPerGroup sb := get32_agree (agree_put32 (by decide))
@[simp] theorem inodeBitmap_freeInodes (table : Bytes) (i value j : Nat) :
    bgInodeBitmap (setBgFreeInodesCount table i value) j = bgInodeBitmap table j := get32_agree (agree_put16 (by omega))
@[simp] theorem inodeTable_freeInodes (table : Bytes) (i value j : Nat) :
    bgInodeTable (setBgFreeInodesCount table i value) j = bgInodeTable table j := get32_agree (agree_put16 (by omega))
@[simp] theorem inodeBitmap_usedDirs (table : Bytes) (i value j : Nat) :
    bgInodeBitmap (setBgUsedDirsCount table i value) j = bgInodeBitmap table j := get32_agree (agree_put16 (by omega))
@[simp] theorem inodeTable_usedDirs (table : Bytes) (i value j : Nat) :
    bgInodeTable (setBgUsedDirsCount table i value) j = bgInodeTable table j := get32_agree (agree_put16 (by omega))

structure SameTable (table table' : Bytes) : Prop where
  blockBitmap : ∀ i < 32, bgBlockBitmap table i = bgBlockBitmap table' i
  inodeBitmap : ∀ i < 32, bgInodeBitmap table i = bgInodeBitmap table' i
  inodeTable : ∀ i < 32, bgInodeTable table i = bgInodeTable table' i
  freeBlocks : ∀ i < 32, bgFreeBlocksCount table i = bgFreeBlocksCount table' i
  freeInodes : ∀ i < 32, bgFreeInodesCount table i = bgFreeInodesCount table' i

theorem SameTable.of_agree (agree : Agree table table' 0 1024) : SameTable table table' :=
  ⟨fun i small => get32_agree (agree.narrow (by omega) (by omega)),fun i small => get32_agree (agree.narrow (by omega) (by omega)),
    fun i small => get32_agree (agree.narrow (by omega) (by omega)),fun i small => get16_agree (agree.narrow (by omega) (by omega)),
    fun i small => get16_agree (agree.narrow (by omega) (by omega))⟩

theorem sum_lowered {f g : Nat → Nat} (inside : i < n) (here : g i+c = f i) (others : ∀ j < n, j ≠ i → g j = f j) :
    (∑ j ∈ Finset.range n, g j)+c = ∑ j ∈ Finset.range n, f j := by
  have member : i ∈ Finset.range n := Finset.mem_range.mpr inside
  rw [← Finset.add_sum_erase _ g member,← Finset.add_sum_erase _ f member]
  have rest : ∑ j ∈ (Finset.range n).erase i, g j = ∑ j ∈ (Finset.range n).erase i, f j := by
    apply Finset.sum_congr rfl
    intro j belongs
    obtain ⟨differ,below⟩ := Finset.mem_erase.mp belongs
    exact others j (Finset.mem_range.mp below) differ
  omega

end KaracaOS.Ext2Fields
