import KaracaOS.BlockDevice
import KaracaOS.MemoryManager

namespace KaracaOS.Fat16Volume
open ByteMemory Bitmap BlockDevice MemoryManager

-- fat16_boot_sector_t by byte offset, for the fields that the code reads and the
-- one that it should.
def sectorsPerCluster (bs : Bytes) : Nat := get8 bs 13
def reservedSectors (bs : Bytes) : Nat := get16 bs 14
def nrOfFATCopies (bs : Bytes) : Nat := get8 bs 16
def nrPossibleRootEntries (bs : Bytes) : Nat := get16 bs 17
def sectorsPerFAT (bs : Bytes) : Nat := get16 bs 22

-- fat16_context_t. In place of the pointer `buffer` stands the memory from there on.
structure Context where
  device : Device
  bootSector : Bytes
  fatStart : Nat
  rootDirStart : Nat
  dataAreaStartCluster : Nat
  buffer : Bytes

def Context.sectorsPerCluster (c : Context) : Nat := Fat16Volume.sectorsPerCluster c.bootSector
def Context.clusterSize (c : Context) : Nat := c.sectorsPerCluster*c.device.sectorSize%word

-- Where block_dev_read gets the i-th sector of a cluster from.
def Context.sectorOf (c : Context) (cluster i : Nat) : Nat := (cluster*c.sectorsPerCluster%word+i)%word

def readSectorsOf (c : Context) (cluster : Nat) : Nat → Nat → Bytes → Bytes
  | 0,_,buffer => buffer
  | left+1,i,buffer =>
    readSectorsOf c cluster left (i+1) (blockDevRead c.device (c.sectorOf cluster i) buffer (c.device.sectorSize*i)).2

def fat16ReadCluster (c : Context) (cluster : Nat) (outBuffer : Bytes) : Bytes :=
  readSectorsOf c cluster c.sectorsPerCluster 0 outBuffer

-- The bits of an int as a number.
def asInt (bits : Nat) : Int := if bits < 2147483648 then bits else (bits : Int)-word

-- fat_size_in_sectors; a product that does not fit its int keeps the low 32 bits.
def fatSizeInSectors (d : Device) (bs : Bytes) : Nat :=
  let totalClusters := d.sizeInKb*2%word/sectorsPerCluster bs
  let fatSize := totalClusters*2%word
  fatSize/d.sectorSize

def dirStartOf (d : Device) (bs : Bytes) : Nat := (reservedSectors bs+fatSizeInSectors d bs*nrOfFATCopies bs)%word

def dataStartOf (d : Device) (bs : Bytes) : Nat :=
  (((asInt (dirStartOf d bs)).tdiv (sectorsPerCluster bs)+
    (nrPossibleRootEntries bs*32/d.sectorSize/sectorsPerCluster bs : Nat))%(word : Int)).toNat

def bufferAddress : Nat := 0xD0010000

def bootSectorOf (d : Device) : Bytes := (blockDevRead d 0 blank 0).2

-- none: a division by zero, or mm_alloc without a free frame. `memory` is what the
-- buffer holds when it is handed out.
def fat16CreateContext (d : Device) (mm : Mm) (memory : Bytes) : Option (Except SysRet Context × Mm) :=
  let bs := bootSectorOf d
  if sectorsPerCluster bs = 0 ∨ d.sectorSize = 0 then none
  else
    match mmAlloc mm bufferAddress (d.sectorSize*sectorsPerCluster bs%word) with
    | none => none
    | some (.error ret,mm) => some (.error ret,mm)
    | some (.ok _,mm) => some (.ok ⟨d,bs,reservedSectors bs,dirStartOf d bs,dataStartOf d bs,memory⟩,mm)

def rootDirSectors (sectorSize nrEntries : Nat) : Nat := (nrEntries*32+sectorSize-1)/sectorSize

-- The layout of the FAT16 format: the copies of the FAT behind the reserved
-- sectors, then the root directory, then cluster 2.
structure Geometry (c : Context) : Prop where
  root : c.rootDirStart = reservedSectors c.bootSector+nrOfFATCopies c.bootSector*sectorsPerFAT c.bootSector
  data : c.dataAreaStartCluster*c.sectorsPerCluster =
    c.rootDirStart+rootDirSectors c.device.sectorSize (nrPossibleRootEntries c.bootSector)
  clusters : ∀ cluster, 2 ≤ cluster → cluster < 65536 → ∀ i < c.sectorsPerCluster,
    c.sectorOf (cluster-2+c.dataAreaStartCluster) i =
      c.rootDirStart+rootDirSectors c.device.sectorSize (nrPossibleRootEntries c.bootSector)+(cluster-2)*c.sectorsPerCluster+i

def FollowsBootSector (d : Device) (mm : Mm) (memory : Bytes) : Prop :=
  ∃ outcome next, fat16CreateContext d mm memory = some (outcome,next) ∧ ∀ c, outcome = .ok c → Geometry c

-- The size that the code computes for the FAT is the recorded one, and the root
-- directory starts and ends at whole clusters.
structure Recorded (d : Device) (bs : Bytes) : Prop where
  fat : dirStartOf d bs = reservedSectors bs+nrOfFATCopies bs*sectorsPerFAT bs
  start : sectorsPerCluster bs ∣ dirStartOf d bs
  sectors : d.sectorSize ∣ nrPossibleRootEntries bs*32
  clusters : sectorsPerCluster bs ∣ nrPossibleRootEntries bs*32/d.sectorSize

variable {c : Context} {d : Device} {bs : Bytes}

-- A cluster that is read leaves nothing of what the same bytes held before.
def Covered (c : Context) (left i j : Nat) : Prop := ∃ k, i ≤ k ∧ k < i+left ∧ c.device.sectorSize*k ≤ j ∧ j < c.device.sectorSize*k+512

theorem readSectors_succ (c : Context) (cluster left i : Nat) (buffer : Bytes) : readSectorsOf c cluster (left+1) i buffer =
    readSectorsOf c cluster left (i+1) (blit buffer (c.device.sectorSize*i) c.device.disk (c.sectorOf cluster i*512) 512) := rfl

theorem readSectors_uncovered (away : ¬ Covered c left i j) (cluster : Nat) (buffer : Bytes) :
    readSectorsOf c cluster left i buffer j = buffer j := by
  induction left generalizing i buffer with
  | zero => rfl
  | succ left ih =>
    have later : ¬ Covered c left (i+1) j := fun ⟨k,low,high,inside⟩ => away ⟨k,by omega,by omega,inside⟩
    rw [readSectors_succ,ih later]
    refine blit_outside ?_
    by_contra inside
    exact away ⟨i,Nat.le_refl _,by omega,by omega,by omega⟩

theorem readSectors_covered (inside : Covered c left i j) (cluster : Nat) (one two : Bytes) :
    readSectorsOf c cluster left i one j = readSectorsOf c cluster left i two j := by
  induction left generalizing i one two with
  | zero =>
    obtain ⟨k,low,high,_⟩ := inside
    omega
  | succ left ih =>
    rw [readSectors_succ,readSectors_succ]
    by_cases later : Covered c left (i+1) j
    · exact ih later _ _
    · rw [readSectors_uncovered later,readSectors_uncovered later]
      obtain ⟨k,low,high,first,last⟩ := inside
      have here : k = i := by
        by_contra other
        exact later ⟨k,by omega,by omega,first,last⟩
      subst here
      rw [blit_inside first last,blit_inside first last]

theorem readSectors_buffer (c : Context) (memory : Bytes) (cluster left i : Nat) (buffer : Bytes) :
    readSectorsOf {c with buffer := memory} cluster left i buffer = readSectorsOf c cluster left i buffer := by
  induction left generalizing i buffer with
  | zero => rfl
  | succ left ih => exact ih (i+1) _

@[simp] theorem readCluster_buffer (c : Context) (memory : Bytes) (cluster : Nat) (buffer : Bytes) :
    fat16ReadCluster {c with buffer := memory} cluster buffer = fat16ReadCluster c cluster buffer :=
  readSectors_buffer c memory cluster c.sectorsPerCluster 0 buffer

theorem readCluster_again (c : Context) (one two : Nat) (buffer : Bytes) :
    fat16ReadCluster c two (fat16ReadCluster c one buffer) = fat16ReadCluster c two buffer := by
  funext j
  by_cases inside : Covered c c.sectorsPerCluster 0 j
  · exact readSectors_covered inside two _ _
  · rw [fat16ReadCluster,fat16ReadCluster,fat16ReadCluster,readSectors_uncovered inside,readSectors_uncovered inside,
      readSectors_uncovered inside]

def clusterByte (c : Context) (cluster j : Nat) : Byte := c.device.disk (c.sectorOf cluster (j/512)*512+j%512)

theorem sectorsPerCluster_small (c : Context) : c.sectorsPerCluster < 256 := get8_lt _ _

theorem clusterSize_sectors (sectors : c.device.sectorSize = 512) : c.clusterSize = c.sectorsPerCluster*512 := by
  have small := sectorsPerCluster_small c
  rw [Context.clusterSize,sectors]
  exact Nat.mod_eq_of_lt (by unfold word; omega)

theorem readSectors_byte (sectors : c.device.sectorSize = 512) (cluster left i : Nat) (buffer : Bytes) (j : Nat) :
    readSectorsOf c cluster left i buffer j = if 512*i ≤ j ∧ j < 512*(i+left) then clusterByte c cluster j else buffer j := by
  induction left generalizing i buffer with
  | zero => rw [readSectorsOf,if_neg (by omega)]
  | succ left ih =>
    rw [readSectors_succ,ih,sectors]
    by_cases here : 512*i ≤ j ∧ j < 512*i+512
    · rw [if_neg (by omega),if_pos (by omega),blit_inside here.1 here.2,clusterByte]
      refine congrArg c.device.disk ?_
      rw [show j/512 = i by omega]
      omega
    · rw [blit_outside (by omega)]
      split_ifs
      · rfl
      · omega
      · omega
      · rfl

theorem readCluster_byte (sectors : c.device.sectorSize = 512) (cluster : Nat) (buffer : Bytes) (j : Nat) :
    fat16ReadCluster c cluster buffer j = if j < c.clusterSize then clusterByte c cluster j else buffer j := by
  rw [fat16ReadCluster,readSectors_byte sectors,clusterSize_sectors sectors]
  congr 1
  exact propext (by omega)

theorem clusterByte_linear (room : cluster*c.sectorsPerCluster+c.sectorsPerCluster ≤ word) (inside : j < c.sectorsPerCluster*512) :
    clusterByte c cluster j = c.device.disk (cluster*c.sectorsPerCluster*512+j) := by
  rw [clusterByte,Context.sectorOf,Nat.mod_eq_of_lt (show cluster*c.sectorsPerCluster < word by omega),Nat.mod_eq_of_lt (by omega)]
  refine congrArg c.device.disk ?_
  omega

theorem rootDirSectors_eq (positive : 0 < t) : rootDirSectors t n = n*32/t+(if t ∣ n*32 then 0 else 1) := by
  have split := Nat.div_add_mod (n*32) t
  have below := Nat.mod_lt (n*32) positive
  have sum : n*32+t-1 = t*(n*32/t)+(n*32%t+t-1) := by omega
  rw [rootDirSectors,sum,Nat.mul_add_div positive]
  congr 1
  split
  · rename_i whole
    rw [Nat.eq_zero_of_dvd_of_lt ((Nat.dvd_mod_iff (Nat.dvd_refl t)).mpr whole) below,Nat.zero_add]
    exact Nat.div_eq_of_lt (by omega)
  · rename_i partial_
    have some_ : n*32%t ≠ 0 := fun none => partial_ (Nat.dvd_of_mod_eq_zero none)
    rw [show n*32%t+t-1 = t*1+(n*32%t-1) by omega,Nat.mul_add_div positive,Nat.div_eq_of_lt (by omega)]

theorem whole_clusters (s a n : Nat) (sector : 0 < t) :
    (a/s+n*32/t/s)*s = a+rootDirSectors t n ↔ s ∣ a ∧ t ∣ n*32 ∧ s ∣ n*32/t := by
  have first := Nat.div_add_mod a s
  have second := Nat.div_add_mod (n*32/t) s
  have starts : s ∣ a ↔ a%s = 0 := Nat.dvd_iff_mod_eq_zero
  have ends : s ∣ n*32/t ↔ n*32/t%s = 0 := Nat.dvd_iff_mod_eq_zero
  rw [rootDirSectors_eq sector,Nat.add_mul,Nat.mul_comm (a/s),Nat.mul_comm (n*32/t/s),starts,ends]
  split
  · rename_i whole
    simp only [whole,true_and]
    omega
  · rename_i partial_
    simp only [partial_,false_and,and_false,iff_false]
    omega

theorem dataStart_whole (small : dirStartOf d bs < 2147483648) : dataStartOf d bs =
    (dirStartOf d bs/sectorsPerCluster bs+nrPossibleRootEntries bs*32/d.sectorSize/sectorsPerCluster bs)%word := by
  rw [dataStartOf,asInt,if_pos small]
  norm_cast

theorem recorded_small (equal : dirStartOf d bs = reservedSectors bs+nrOfFATCopies bs*sectorsPerFAT bs) : dirStartOf d bs ≤ 16776960 := by
  have reserved : reservedSectors bs < 65536 := get16_lt _ _
  have copies : nrOfFATCopies bs < 256 := get8_lt _ _
  have fat : sectorsPerFAT bs < 65536 := get16_lt _ _
  have product := Nat.mul_le_mul (Nat.le_of_lt_succ copies) (Nat.le_of_lt_succ fat)
  omega

theorem sectorOf_data (start : c.dataAreaStartCluster*c.sectorsPerCluster = first)
    (room : first+(cluster-2)*c.sectorsPerCluster+c.sectorsPerCluster ≤ word) (inside : i < c.sectorsPerCluster) :
    c.sectorOf (cluster-2+c.dataAreaStartCluster) i = first+(cluster-2)*c.sectorsPerCluster+i := by
  have product : (cluster-2+c.dataAreaStartCluster)*c.sectorsPerCluster = first+(cluster-2)*c.sectorsPerCluster := by
    rw [Nat.add_mul,start,Nat.add_comm]
  rw [Context.sectorOf,product,Nat.mod_eq_of_lt (show first+(cluster-2)*c.sectorsPerCluster < word by omega),Nat.mod_eq_of_lt (by omega)]

def createdContext (d : Device) (bs memory : Bytes) : Context := ⟨d,bs,reservedSectors bs,dirStartOf d bs,dataStartOf d bs,memory⟩

theorem geometry_recorded (d : Device) (bs memory : Bytes) (sector : 0 < d.sectorSize) :
    Geometry (createdContext d bs memory) ↔ Recorded d bs := by
  have entries : nrPossibleRootEntries bs < 65536 := get16_lt _ _
  have size : Fat16Volume.sectorsPerCluster bs < 256 := get8_lt _ _
  have roots : rootDirSectors d.sectorSize (nrPossibleRootEntries bs) ≤ 2097121 := by
    have most := Nat.div_le_self (nrPossibleRootEntries bs*32) d.sectorSize
    rw [rootDirSectors_eq sector]
    split <;> omega
  have exact_ := whole_clusters (Fat16Volume.sectorsPerCluster bs) (dirStartOf d bs) (nrPossibleRootEntries bs) sector
  have starts : dirStartOf d bs ≤ 16776960 → dataStartOf d bs =
      dirStartOf d bs/Fat16Volume.sectorsPerCluster bs+nrPossibleRootEntries bs*32/d.sectorSize/Fat16Volume.sectorsPerCluster bs := by
    intro small
    have one := Nat.div_le_self (dirStartOf d bs) (Fat16Volume.sectorsPerCluster bs)
    have two := Nat.div_le_self (nrPossibleRootEntries bs*32/d.sectorSize) (Fat16Volume.sectorsPerCluster bs)
    have three := Nat.div_le_self (nrPossibleRootEntries bs*32) d.sectorSize
    rw [dataStart_whole (by omega),Nat.mod_eq_of_lt (by unfold word; omega)]
  constructor
  · intro geometry
    have fat : dirStartOf d bs = _ := geometry.root
    have data : dataStartOf d bs*Fat16Volume.sectorsPerCluster bs = dirStartOf d bs+_ := geometry.data
    rw [starts (recorded_small fat)] at data
    obtain ⟨start,sectors,clusters⟩ := exact_.mp data
    exact ⟨fat,start,sectors,clusters⟩
  · intro recorded
    have small := recorded_small recorded.fat
    have data : dataStartOf d bs*Fat16Volume.sectorsPerCluster bs = dirStartOf d bs+rootDirSectors d.sectorSize (nrPossibleRootEntries bs) := by
      rw [starts small]
      exact exact_.mpr ⟨recorded.start,recorded.sectors,recorded.clusters⟩
    refine ⟨recorded.fat,data,?_⟩
    intro number _ high i inside
    have product := Nat.mul_le_mul (show number-2 ≤ 65533 by omega) (Nat.le_of_lt_succ size)
    have inside : i < Fat16Volume.sectorsPerCluster bs := inside
    refine sectorOf_data data ?_ inside
    show dirStartOf d bs+rootDirSectors d.sectorSize (nrPossibleRootEntries bs)+(number-2)*Fat16Volume.sectorsPerCluster bs+
      Fat16Volume.sectorsPerCluster bs ≤ word
    unfold word
    omega

theorem create_divides (zero : Fat16Volume.sectorsPerCluster (bootSectorOf d) = 0 ∨ d.sectorSize = 0) (mm : Mm) (memory : Bytes) :
    fat16CreateContext d mm memory = none := if_pos zero

theorem create_cases (cluster : Fat16Volume.sectorsPerCluster (bootSectorOf d) ≠ 0) (sector : d.sectorSize ≠ 0) (mm : Mm) (memory : Bytes) :
    (bit mm.vmAllocBitmap (bufferAddress/4096) = true ∧ fat16CreateContext d mm memory = some (.error .memAllocError,mm)) ∨
    (bit mm.vmAllocBitmap (bufferAddress/4096) = false ∧
      ((∃ f < frameCount, bit mm.pageAllocBitmap f = false) ∧
        (∃ next, fat16CreateContext d mm memory = some (.ok (createdContext d (bootSectorOf d) memory),next)) ∨
      (¬ ∃ f < frameCount, bit mm.pageAllocBitmap f = false) ∧ fat16CreateContext d mm memory = none)) := by
  have guard : ¬ (Fat16Volume.sectorsPerCluster (bootSectorOf d) = 0 ∨ d.sectorSize = 0) := not_or.mpr ⟨cluster,sector⟩
  cases reserved : bit mm.vmAllocBitmap (bufferAddress/4096) with
  | true =>
    refine .inl ⟨rfl,?_⟩
    rw [fat16CreateContext,if_neg guard,mmAlloc_taken reserved]
  | false =>
    refine .inr ⟨rfl,?_⟩
    by_cases free : ∃ f < frameCount, bit mm.pageAllocBitmap f = false
    · obtain ⟨f,inside,clear⟩ := free
      obtain ⟨j,first,_⟩ := find_exists clear inside
      refine .inl ⟨⟨f,inside,clear⟩,allocated mm (bufferAddress/4096) j
        (sizeInBlocks (d.sectorSize*Fat16Volume.sectorsPerCluster (bootSectorOf d)%word)),?_⟩
      rw [fat16CreateContext,if_neg guard,mmAlloc_fresh reserved first]
      rfl
    · refine .inr ⟨free,?_⟩
      have stuck : mmAlloc mm bufferAddress (d.sectorSize*Fat16Volume.sectorsPerCluster (bootSectorOf d)%word) = none := by
        cases called : mmAlloc mm bufferAddress (d.sectorSize*Fat16Volume.sectorsPerCluster (bootSectorOf d)%word) with
        | none => rfl
        | some outcome =>
          obtain ⟨result,next⟩ := outcome
          rcases mmAlloc_cases called with ⟨taken,_⟩ | ⟨j,_,first,_⟩
          · rw [reserved] at taken
            cases taken
          · exact absurd ⟨j,first.1,first.2.1⟩ free
      rw [fat16CreateContext,if_neg guard,stuck]

theorem boot_sector_followed_iff (d : Device) (mm : Mm) (memory : Bytes) : FollowsBootSector d mm memory ↔
    Fat16Volume.sectorsPerCluster (bootSectorOf d) ≠ 0 ∧ d.sectorSize ≠ 0 ∧
      (bit mm.vmAllocBitmap (bufferAddress/4096) = true ∨
        (∃ f < frameCount, bit mm.pageAllocBitmap f = false) ∧ Recorded d (bootSectorOf d)) := by
  by_cases divides : Fat16Volume.sectorsPerCluster (bootSectorOf d) = 0 ∨ d.sectorSize = 0
  · have stuck := create_divides divides mm memory
    constructor
    · rintro ⟨outcome,next,ran,_⟩
      rw [stuck] at ran
      cases ran
    · rintro ⟨cluster,sector,_⟩
      exact absurd divides (not_or.mpr ⟨cluster,sector⟩)
  · obtain ⟨cluster,sector⟩ := not_or.mp divides
    have geometry := geometry_recorded d (bootSectorOf d) memory (Nat.pos_of_ne_zero sector)
    rcases create_cases cluster sector mm memory with ⟨reserved,ran⟩ | ⟨reserved,⟨free,next,ran⟩ | ⟨full,ran⟩⟩
    · refine iff_of_true ⟨_,_,ran,?_⟩ ⟨cluster,sector,.inl reserved⟩
      intro c error
      cases error
    · constructor
      · rintro ⟨outcome,_,again,right⟩
        rw [ran] at again
        cases Option.some.inj again
        exact ⟨cluster,sector,.inr ⟨free,geometry.mp (right _ rfl)⟩⟩
      · rintro ⟨_,_,refused | ⟨_,recorded⟩⟩
        · rw [reserved] at refused
          cases refused
        · refine ⟨_,_,ran,?_⟩
          intro c same
          cases same
          exact geometry.mpr recorded
    · refine iff_of_false ?_ ?_
      · rintro ⟨_,_,again,_⟩
        rw [ran] at again
        cases again
      · rintro ⟨_,_,refused | ⟨free,_⟩⟩
        · rw [reserved] at refused
          cases refused
        · exact full free

def bootSector (clusterSectors reserved copies entries fat : Nat) : Bytes :=
  put16 (put16 (put8 (put16 (put8 blank 13 clusterSectors) 14 reserved) 16 copies) 17 entries) 22 fat

-- 16 MiB in clusters of four sectors, with one reserved sector: the root directory
-- starts at sector 65, in the middle of a cluster.
def oddDevice : Device := ⟨512,16384,bootSector 4 1 2 512 32,blank,[]⟩
def freeMemory : Mm := ⟨blank,blank,0,⟨fun _ => 0#32,fun _ => 0#32⟩⟩

theorem odd_root_misplaced : dirStartOf oddDevice (bootSectorOf oddDevice) = 65 ∧ ¬ FollowsBootSector oddDevice freeMemory blank ∧
    fat16CreateContext ⟨512,16384,blank,blank,[]⟩ freeMemory blank = none := by
  have start : dirStartOf oddDevice (bootSectorOf oddDevice) = 65 := by decide
  have size : Fat16Volume.sectorsPerCluster (bootSectorOf oddDevice) = 4 := by decide
  refine ⟨start,?_,create_divides (.inl (by decide)) _ _⟩
  rintro ⟨outcome,next,ran,right⟩
  have geometry := geometry_recorded oddDevice (bootSectorOf oddDevice) blank (show 0 < 512 by decide)
  rcases create_cases (by rw [size]; decide) (show 512 ≠ 0 by decide) freeMemory blank with ⟨reserved,_⟩ | ⟨_,⟨_,after,created⟩ | ⟨full,_⟩⟩
  · exact absurd reserved (by decide)
  · rw [created] at ran
    cases Option.some.inj ran
    have whole := (geometry.mp (right _ rfl)).start
    rw [start,size] at whole
    exact absurd whole (by decide)
  · exact full ⟨0,by decide,rfl⟩

end KaracaOS.Fat16Volume
