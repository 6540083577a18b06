import KaracaOS.ByteMemory
import KaracaOS.SysDefs

namespace KaracaOS.BlockDevice
open ByteMemory

-- block_device_t on a disk that gives back what was last written to it. The
-- images are kept for statements about interrupted calls and never read by the
-- code: the disk after each finished ext2_write_blocks, the newest first.
structure Device where
  sectorSize : Nat
  sizeInKb : Nat
  disk : Bytes
  rwBuffer : Bytes
  images : List Bytes

def blank : Bytes := fun _ => 0#8

-- One 512-byte sector of the IDE disk. block_dev.c has no return statement in
-- either call; the callers see no error from a disk that works.
def blockDevRead (d : Device) (sectorNum : Nat) (buffer : Bytes) (at_ : Nat) : SysRet × Bytes :=
  (.noError,blit buffer at_ d.disk (sectorNum*512) 512)

def blockDevWrite (d : Device) (sectorNum : Nat) (buffer : Bytes) (from_ : Nat) : SysRet × Device :=
  (.noError,{d with disk := blit d.disk (sectorNum*512) buffer from_ 512})

def readSectors (d : Device) (first : Nat) : Nat → Nat → Bytes → SysRet × Bytes
  | 0,_,buffer => (.noError,buffer)
  | left+1,i,buffer =>
    match blockDevRead d ((first+i)%word) buffer (i*d.sectorSize) with
    | (.noError,buffer) => readSectors d first left (i+1) buffer
    | (ret,buffer) => (ret,buffer)

def writeSectors (first : Nat) (buffer : Bytes) : Nat → Nat → Device → SysRet × Device
  | 0,_,d => (.noError,d)
  | left+1,i,d =>
    match blockDevWrite d ((first+i)%word) buffer (i*d.sectorSize) with
    | (.noError,d) => writeSectors first buffer left (i+1) d
    | (ret,d) => (ret,d)

def ext2ReadBlocks (d : Device) (blockId : Nat) (buffer : Bytes) (count : Nat) : SysRet × Bytes :=
  let sectorsPerBlock := 1024/d.sectorSize
  readSectors d (blockId*sectorsPerBlock) (count*sectorsPerBlock) 0 buffer

def ext2WriteBlocks (d : Device) (blockId : Nat) (buffer : Bytes) (count : Nat) : SysRet × Device :=
  let sectorsPerBlock := 1024/d.sectorSize
  match writeSectors (blockId*sectorsPerBlock) buffer (count*sectorsPerBlock) 0 d with
  | (.noError,d) => (.noError,{d with images := d.disk::d.images})
  | (ret,d) => (ret,d)

-- The sector number is a uint32_t, so block numbers count modulo 2^31.
def slot (blockId : Nat) : Nat := blockId%2147483648
def offset (blockId : Nat) : Nat := 1024*slot blockId

def blockImage (disk : Bytes) (blockId : Nat) : Bytes := blit blank 0 disk (offset blockId) 1024
def putBlock (disk : Bytes) (blockId : Nat) (buffer : Bytes) : Bytes := blit disk (offset blockId) buffer 0 1024

def Device.put (d : Device) (blockId : Nat) (buffer : Bytes) : Device :=
  {d with disk := putBlock d.disk blockId buffer,images := putBlock d.disk blockId buffer::d.images}

variable {d : Device}

theorem blit_twice (bytes : Bytes) (at_ : Nat) (source : Bytes) (from_ : Nat) :
    blit (blit bytes at_ source from_ 512) (at_+512) source (from_+512) 512 = blit bytes at_ source from_ 1024 := by
  funext i
  simp only [blit]
  split_ifs
  · rw [show from_+512+(i-(at_+512)) = from_+(i-at_) by omega]
  · omega
  · rfl
  · omega
  · omega
  · rfl

theorem sector_offset (b : Nat) : (b*2+0)%word*512 = offset b ∧ (b*2+(0+1))%word*512 = offset b+512 := by
  unfold offset slot word
  omega

theorem read_block (sectors : d.sectorSize = 512) (b : Nat) (buffer : Bytes) :
    ext2ReadBlocks d b buffer 1 = (.noError,blit buffer 0 d.disk (offset b) 1024) := by
  obtain ⟨first,second⟩ := sector_offset b
  simp only [ext2ReadBlocks,sectors,Nat.reduceDiv,Nat.one_mul,readSectors,blockDevRead,first,second,Nat.zero_mul]
  rw [show (0+1)*512 = 0+512 from rfl,blit_twice]

theorem read_local (sectors : d.sectorSize = 512) (b : Nat) : ext2ReadBlocks d b blank 1 = (.noError,blockImage d.disk b) :=
  read_block sectors b blank

theorem write_block (sectors : d.sectorSize = 512) (b : Nat) (buffer : Bytes) :
    ext2WriteBlocks d b buffer 1 = (.noError,d.put b buffer) := by
  obtain ⟨first,second⟩ := sector_offset b
  simp only [ext2WriteBlocks,sectors,Nat.reduceDiv,Nat.one_mul,writeSectors,blockDevWrite,first,second,Nat.zero_mul]
  rw [show (0+1)*512 = 0+512 from rfl,blit_twice]
  simp only [Device.put,putBlock,sectors]

@[simp] theorem put_sectorSize (d : Device) (b : Nat) (buffer : Bytes) : (d.put b buffer).sectorSize = d.sectorSize := rfl
@[simp] theorem put_disk (d : Device) (b : Nat) (buffer : Bytes) : (d.put b buffer).disk = putBlock d.disk b buffer := rfl
theorem slot_small (small : b < 2147483648) : slot b = b := Nat.mod_eq_of_lt small

theorem blockImage_byte (disk : Bytes) (b : Nat) (inside : i < 1024) : blockImage disk b i = disk (offset b+i) := by
  rw [blockImage,blit_inside (Nat.zero_le _) (by omega)]
  rfl

theorem get32_image (disk : Bytes) (b : Nat) (inside : k+4 ≤ 1024) : get32 (blockImage disk b) k = get32 disk (offset b+k) := by
  simp only [get32,get16,get8,Nat.add_assoc,blockImage_byte disk b (show k < 1024 by omega),blockImage_byte disk b (show k+1 < 1024 by omega),
    blockImage_byte disk b (show k+2 < 1024 by omega),blockImage_byte disk b (show k+(2+1) < 1024 by omega)]

theorem get16_image (disk : Bytes) (b : Nat) (inside : k+2 ≤ 1024) : get16 (blockImage disk b) k = get16 disk (offset b+k) := by
  simp only [get16,get8,Nat.add_assoc,blockImage_byte disk b (show k < 1024 by omega),blockImage_byte disk b (show k+1 < 1024 by omega)]

theorem blockImage_put_same (disk : Bytes) (buffer : Bytes) (same : slot b = slot c) :
    Agree (blockImage (putBlock disk b buffer) c) buffer 0 1024 := by
  intro i _ high
  rw [blockImage_byte _ _ (by omega),putBlock]
  unfold offset
  rw [same,blit_inside (by omega) (by omega)]
  congr 1
  omega

theorem blockImage_put_other (disk : Bytes) (buffer : Bytes) (differ : slot b ≠ slot c) :
    blockImage (putBlock disk b buffer) c = blockImage disk c := by
  funext i
  by_cases inside : i < 1024
  · rw [blockImage_byte _ _ inside,blockImage_byte _ _ inside,putBlock,blit_outside]
    unfold offset
    omega
  · rw [blockImage,blockImage,blit_outside (by omega),blit_outside (by omega)]

end KaracaOS.BlockDevice
