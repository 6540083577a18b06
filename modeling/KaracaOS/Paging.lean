import KaracaOS.SysDefs

namespace KaracaOS.Paging

-- The two arrays that paging.c writes through page_dir and page_tables, each
-- entry the 32-bit word the hardware reads.
structure Tables where
  pageDir : Nat → BitVec 32
  pageTables : Nat → BitVec 32

-- A counted loop that rewrites each entry of [first,stop) once.
def sweep (entries : Nat → BitVec 32) (first stop : Nat) (rewrite : Nat → BitVec 32 → BitVec 32) : Nat → BitVec 32 :=
  fun n => if first ≤ n ∧ n < stop then rewrite n (entries n) else entries n

-- page_directory_start of linker.ld, and the tables one page behind it.
def pageDirectoryStart : Nat := 0x500000
def pageTablesStart : Nat := pageDirectoryStart+0x1000

def kernelTable (entries : Nat → BitVec 32) (table base : Nat) : Nat → BitVec 32 :=
  sweep entries (table*1024) (table*1024+1024) fun n value =>
    (value &&& 0xFFF#32) ||| (1#32 ||| BitVec.ofNat 32 (base+(n-table*1024)*0x1000))

def archPagingInitLower (t : Tables) : Tables :=
  let directory := sweep t.pageDir 0 1024 fun i _ =>
    1#32 ||| 2#32 ||| (BitVec.ofNat 32 (pageTablesStart+i*0x1000) >>> 12) <<< 12
  let identity := sweep t.pageTables 0 (1024*1024) fun n _ =>
    2#32 ||| (BitVec.ofNat 32 (n*0x1000) >>> 12) <<< 12
  let lower := sweep identity 0 (10*1024) fun _ value => value ||| 1#32
  let directory := sweep directory 768 772 fun _ value => value ||| 1#32
  ⟨directory,kernelTable (kernelTable (kernelTable (kernelTable lower 768 0) 769 0x400000) 770 0x800000) 771 0xC00000⟩

def archPagingMap (t : Tables) (virtAddr physAddr : Nat) : SysRet × Tables :=
  let table := virtAddr/4096
  (.noError,
   {pageDir := Function.update t.pageDir (table/1024) (t.pageDir (table/1024) ||| (1#32 ||| 2#32)),
    pageTables := Function.update t.pageTables table
      (0xFFF#32 ||| (1#32 ||| 2#32 ||| (BitVec.ofNat 32 physAddr &&& ~~~0xFFF#32)))})

def archPagingUnmap (t : Tables) (virtAddr : Nat) : SysRet × Tables :=
  (.noError,{t with pageTables := Function.update t.pageTables (virtAddr/4096) 0#32})

def archPagingVirtToPhys (t : Tables) (virtAddr : Nat) : Nat :=
  (t.pageTables (virtAddr/4096) &&& ~~~0xFFF#32).toNat

-- The frame number in a virtual page's entry, as mm.c computes it.
def frame (t : Tables) (page : Nat) : Nat := archPagingVirtToPhys t (page*4096)/4096

theorem align_down (x : BitVec 32) : x &&& ~~~0xFFF#32 = (x >>> 12) <<< 12 := by
  apply BitVec.eq_of_getLsbD_eq
  intro i bound
  interval_cases i <;> simp

theorem align_toNat (x : BitVec 32) : (x &&& ~~~0xFFF#32).toNat = x.toNat/4096*4096 := by
  have small := x.isLt
  rw [align_down,BitVec.toNat_shiftLeft,BitVec.toNat_ushiftRight,Nat.shiftLeft_eq,Nat.shiftRight_eq_div_pow]
  omega

theorem mapped_entry (x : BitVec 32) :
    (0xFFF#32 ||| (1#32 ||| 2#32 ||| (x &&& ~~~0xFFF#32))) &&& ~~~0xFFF#32 = x &&& ~~~0xFFF#32 := by
  apply BitVec.eq_of_getLsbD_eq
  intro i bound
  interval_cases i <;> simp

theorem frame_map_same (t : Tables) (page : Nat) (low : phys < word) (here : virt/4096 = page) :
    frame (archPagingMap t virt phys).2 page = phys/4096 := by
  unfold frame archPagingVirtToPhys archPagingMap
  dsimp only
  rw [here,Nat.mul_div_cancel _ (by decide),Function.update_self,mapped_entry,align_toNat,BitVec.toNat_ofNat]
  unfold word at low
  omega

theorem frame_map_other (t : Tables) (phys : Nat) (away : page ≠ virt/4096) :
    frame (archPagingMap t virt phys).2 page = frame t page := by
  unfold frame archPagingVirtToPhys archPagingMap
  dsimp only
  rw [Nat.mul_div_cancel _ (by decide),Function.update_of_ne away]

theorem frame_unmap_other (t : Tables) (away : page ≠ virt/4096) :
    frame (archPagingUnmap t virt).2 page = frame t page := by
  unfold frame archPagingVirtToPhys archPagingUnmap
  dsimp only
  rw [Nat.mul_div_cancel _ (by decide),Function.update_of_ne away]

theorem frame_unmap_same (t : Tables) (virt : Nat) : frame (archPagingUnmap t virt).2 (virt/4096) = 0 := by
  unfold frame archPagingVirtToPhys archPagingUnmap
  dsimp only
  rw [Nat.mul_div_cancel _ (by decide),Function.update_self]
  rfl

end KaracaOS.Paging
