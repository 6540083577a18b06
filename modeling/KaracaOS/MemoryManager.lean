import KaracaOS.Bitmap
import KaracaOS.Ownership
import KaracaOS.Paging

namespace KaracaOS.MemoryManager
open ByteMemory Bitmap Ownership Paging

-- The globals of mm.c, with the page tables that its calls into paging.c change.
-- mm_page_alloc_bitmap and mm_vm_alloc_bitmap hold 131072 bytes each; a byte
-- index past that belongs to whatever the linker put behind the array.
structure Mm where
  pageAllocBitmap : Bytes
  vmAllocBitmap : Bytes
  availableBlockCount : Nat
  tables : Tables

def bitmapBytes : Nat := 131072
def frameCount : Nat := 1048576

-- none: the while loop has read all 131072 bytes and goes on behind the array.
def mmFindEmptyBlockPhysical (s : Mm) : Option (Except SysRet Nat) :=
  match scan s.pageAllocBitmap bitmapBytes 0 with
  | none => none
  | some blockNr =>
    let i := firstClear (s.pageAllocBitmap blockNr)
    if i = 8 then some (.error .notFound) else some (.ok ((blockNr*8+i)*4096 % word))

def sizeInBlocks (size : Nat) : Nat := if size/4096 = 0 then 1 else size/4096

-- The loop of mm_alloc: page k of the request onto frame k behind the found one.
def mapBlocks (t : Tables) (vmBlock j blocks : Nat) : SysRet × Tables :=
  (List.range blocks).foldl
    (fun result k => archPagingMap result.2 ((vmBlock*4096+k*4096) % word) ((j*4096+k*4096) % word)) (.noError,t)

-- .ok carries *ret_addr. The return value of the frame search is ignored by the
-- code, so a failed search leaves empty_block unset and the call undefined.
def mmAlloc (s : Mm) (vaddr size : Nat) : Option (Except SysRet Nat × Mm) :=
  let vmBlock := vaddr/4096
  if bit s.vmAllocBitmap vmBlock then some (.error .memAllocError,s) else
  match mmFindEmptyBlockPhysical s with
  | some (.ok emptyBlock) =>
    let j := emptyBlock/4096
    match mapBlocks s.tables vmBlock j (sizeInBlocks size) with
    | (.noError,mapped) =>
      some (.ok (vmBlock*4096),
        {s with
          tables := mapped
          pageAllocBitmap := setBit s.pageAllocBitmap j
          vmAllocBitmap := setBit s.vmAllocBitmap vmBlock})
    | (ret,mapped) => some (.error ret,{s with tables := mapped})
  | _ => none

def mmFree (s : Mm) (addr : Nat) : SysRet × Mm :=
  let vmBlock := addr/4096
  let physBlock := archPagingVirtToPhys s.tables (vmBlock*4096)/4096
  (.noError,
    {s with
      tables := (archPagingUnmap s.tables addr).2
      pageAllocBitmap := clearBit s.pageAllocBitmap physBlock
      vmAllocBitmap := clearBit s.vmAllocBitmap vmBlock})

-- The lowest-numbered free frame.
def FirstFree (s : Mm) (j : Nat) : Prop :=
  j < frameCount ∧ bit s.pageAllocBitmap j = false ∧ ∀ i < j, bit s.pageAllocBitmap i = true

theorem FirstFree.unique (one : FirstFree s j) (two : FirstFree s i) : i = j := by
  rcases Nat.lt_trichotomy i j with less | same | more
  · have set := one.2.2 i less
    rw [two.2.1] at set
    cases set
  · exact same
  · have set := two.2.2 j more
    rw [one.2.1] at set
    cases set

theorem find_first (found : mmFindEmptyBlockPhysical s = some result) :
    ∃ j, FirstFree s j ∧ result = .ok (j*4096) := by
  unfold mmFindEmptyBlockPhysical at found
  split at found
  · cases found
  · rename_i blockNr scanned
    obtain ⟨_,high,free,before⟩ := scan_found scanned
    have small := firstClear_lt free
    have bound : blockNr < 131072 := by simpa [bitmapBytes] using high
    dsimp only at found
    rw [if_neg (Nat.ne_of_lt small)] at found
    cases Option.some.inj found
    have byteOf : (blockNr*8+firstClear (s.pageAllocBitmap blockNr))/8 = blockNr := by omega
    have bitOf : (blockNr*8+firstClear (s.pageAllocBitmap blockNr))%8 = firstClear (s.pageAllocBitmap blockNr) := by omega
    refine ⟨blockNr*8+firstClear (s.pageAllocBitmap blockNr),⟨?_,?_,?_⟩,?_⟩
    · unfold frameCount
      omega
    · rw [bit,byteOf,bitOf]
      exact firstClear_clear small
    · intro i less
      rw [bit]
      by_cases earlier : i/8 < blockNr
      · rw [before (i/8) (Nat.zero_le _) earlier]
        exact full_bit _ (Nat.mod_lt _ (by decide))
      · have here : i/8 = blockNr := by omega
        rw [here]
        exact firstClear_least (by omega)
    · congr 1
      unfold word
      omega

theorem find_exists (free : bit s.pageAllocBitmap f = false) (inside : f < frameCount) :
    ∃ j, FirstFree s j ∧ mmFindEmptyBlockPhysical s = some (.ok (j*4096)) := by
  cases found : mmFindEmptyBlockPhysical s with
  | some result =>
    obtain ⟨j,first,equal⟩ := find_first found
    exact ⟨j,first,by rw [equal]⟩
  | none =>
    unfold mmFindEmptyBlockPhysical at found
    split at found
    · rename_i empty
      have full := scan_exhausted empty (f/8) (Nat.zero_le _) (by unfold frameCount at inside; unfold bitmapBytes; omega)
      rw [bit,full,full_bit _ (Nat.mod_lt _ (by decide))] at free
      cases free
    · dsimp only at found
      split at found <;> cases found

theorem find_of_first (first : FirstFree s j) : mmFindEmptyBlockPhysical s = some (.ok (j*4096)) := by
  obtain ⟨i,other,found⟩ := find_exists first.2.1 first.1
  rw [first.unique other] at found
  exact found

theorem mapBlocks_ret (t : Tables) (vmBlock j blocks : Nat) : (mapBlocks t vmBlock j blocks).1 = .noError := by
  unfold mapBlocks
  induction blocks with
  | zero => rfl
  | succ blocks ih => simp [List.range_succ,archPagingMap]

theorem mapBlocks_one (t : Tables) (vmBlock j : Nat) :
    mapBlocks t vmBlock j 1 = archPagingMap t (vmBlock*4096 % word) (j*4096 % word) := by
  simp [mapBlocks,List.range_succ]

def allocated (s : Mm) (vmBlock j blocks : Nat) : Mm :=
  {s with
    tables := (mapBlocks s.tables vmBlock j blocks).2
    pageAllocBitmap := setBit s.pageAllocBitmap j
    vmAllocBitmap := setBit s.vmAllocBitmap vmBlock}

theorem mmAlloc_taken (reserved : bit s.vmAllocBitmap (vaddr/4096) = true) :
    mmAlloc s vaddr size = some (.error .memAllocError,s) := by
  simp [mmAlloc,reserved]

theorem mmAlloc_fresh (unreserved : bit s.vmAllocBitmap (vaddr/4096) = false) (first : FirstFree s j) :
    mmAlloc s vaddr size = some (.ok (vaddr/4096*4096),allocated s (vaddr/4096) j (sizeInBlocks size)) := by
  have ret := mapBlocks_ret s.tables (vaddr/4096) j (sizeInBlocks size)
  simp only [mmAlloc,unreserved,find_of_first first,Nat.mul_div_cancel j (by decide : 0 < 4096)]
  split
  · rename_i absurdly
    cases absurdly
  · split
    · rename_i mapped equal
      simp [allocated,equal]
    · rename_i bad mapped other equal
      rw [equal] at ret
      exact absurd ret other

theorem mmAlloc_cases (called : mmAlloc s vaddr size = some (result,next)) :
    (bit s.vmAllocBitmap (vaddr/4096) = true ∧ result = .error .memAllocError ∧ next = s) ∨
    ∃ j, bit s.vmAllocBitmap (vaddr/4096) = false ∧ FirstFree s j ∧ result = .ok (vaddr/4096*4096) ∧
      next = allocated s (vaddr/4096) j (sizeInBlocks size) := by
  cases reserved : bit s.vmAllocBitmap (vaddr/4096) with
  | true =>
    rw [mmAlloc_taken reserved] at called
    cases Option.some.inj called
    exact .inl ⟨rfl,rfl,rfl⟩
  | false =>
    cases found : mmFindEmptyBlockPhysical s with
    | none => simp [mmAlloc,reserved,found] at called
    | some outcome =>
      obtain ⟨j,first,_⟩ := find_first found
      rw [mmAlloc_fresh reserved first] at called
      cases Option.some.inj called
      exact .inr ⟨j,rfl,first,rfl,rfl⟩

def freeFrames (s : Mm) : Finset Nat := clearSet s.pageAllocBitmap frameCount

theorem freeFrames_allocated (first : FirstFree s j) (vmBlock blocks : Nat) :
    (freeFrames (allocated s vmBlock j blocks)).card+1 = (freeFrames s).card := by
  have taken : {j} ⊆ clearSet s.pageAllocBitmap frameCount := by
    rw [Finset.singleton_subset_iff,mem_clearSet]
    exact ⟨first.1,first.2.1⟩
  have count := clearSet_card taken (show ∀ n < frameCount, bit (allocated s vmBlock j blocks).pageAllocBitmap n = _ by
    intro n _
    simp only [allocated,bit_setBit,Finset.mem_singleton])
  rwa [Finset.card_singleton] at count

theorem mmAlloc_progress (vaddr size : Nat) (some_ : 0 < (freeFrames s).card) (unreserved : bit s.vmAllocBitmap (vaddr/4096) = false) :
    ∃ j, FirstFree s j ∧ mmAlloc s vaddr size = some (.ok (vaddr/4096*4096),allocated s (vaddr/4096) j (sizeInBlocks size)) := by
  obtain ⟨f,member⟩ := Finset.card_pos.mp some_
  obtain ⟨inside,free⟩ := mem_clearSet.mp member
  obtain ⟨j,first,_⟩ := find_exists free inside
  exact ⟨j,first,mmAlloc_fresh unreserved first⟩

theorem single_block (small : size < 8192) : sizeInBlocks size = 1 := by
  unfold sizeInBlocks
  split
  · rfl
  · omega

theorem frame_allocated_same (inside : vmBlock < frameCount) (bounded : j < frameCount) :
    frame (allocated s vmBlock j 1).tables vmBlock = j := by
  unfold frameCount at inside bounded
  unfold allocated
  rw [mapBlocks_one,Nat.mod_eq_of_lt (show vmBlock*4096 < word by unfold word; omega),
    Nat.mod_eq_of_lt (show j*4096 < word by unfold word; omega)]
  dsimp only
  rw [frame_map_same _ _ (by unfold word; omega) (Nat.mul_div_cancel _ (by decide))]
  exact Nat.mul_div_cancel _ (by decide)

theorem frame_allocated_other (inside : vmBlock < frameCount) (away : page ≠ vmBlock) :
    frame (allocated s vmBlock j 1).tables page = frame s.tables page := by
  unfold frameCount at inside
  unfold allocated
  rw [mapBlocks_one,Nat.mod_eq_of_lt (show vmBlock*4096 < word by unfold word; omega)]
  exact frame_map_other _ _ (by rwa [Nat.mul_div_cancel _ (by decide)])

def usedFrames (s : Mm) : Set Nat := {f | bit s.pageAllocBitmap f = true}

-- Pages that are reserved virtually and each mapped onto a marked frame of its own.
structure Backed (s : Mm) (pages : Set Nat) : Prop where
  reserved : ∀ page ∈ pages, bit s.vmAllocBitmap page = true
  owned : Owns (usedFrames s) (frame s.tables) pages

theorem Backed.empty (s : Mm) : Backed s ∅ := ⟨by simp,Owns.empty⟩

theorem Backed.subset (backed : Backed s pages) (fewer : pages' ⊆ pages) : Backed s pages' :=
  ⟨fun page member => backed.reserved page (fewer member),backed.owned.subset fewer⟩

theorem Backed.alloc (backed : Backed s pages) (inside : vmBlock < frameCount) (first : FirstFree s j)
    (unreserved : bit s.vmAllocBitmap vmBlock = false) :
    Backed (allocated s vmBlock j 1) (insert vmBlock pages) := by
  have away : ∀ page ∈ pages, page ≠ vmBlock := by
    intro page member same
    have set := backed.reserved page member
    rw [same,unreserved] at set
    cases set
  have same : frame (allocated s vmBlock j 1).tables vmBlock = j := frame_allocated_same inside first.1
  refine ⟨?_,backed.owned.insert ?_ ?_ ?_ ?_⟩
  · rintro page (rfl | member)
    · simp [allocated]
    · simp [allocated,backed.reserved page member]
  · rw [same]
    simp [usedFrames,first.2.1]
  · rw [same]
    simp [usedFrames,allocated]
  · intro f used
    have set : bit s.pageAllocBitmap f = true := used
    simp [usedFrames,allocated,set]
  · exact fun page member => frame_allocated_other inside (away page member)

theorem Backed.free (backed : Backed s pages) (member : page ∈ pages) :
    Backed (mmFree s (page*4096)).2 (pages \ {page}) := by
  have block : page*4096/4096 = page := Nat.mul_div_cancel _ (by decide)
  refine ⟨?_,backed.owned.remove member ?_ ?_⟩
  · rintro other ⟨present,differ⟩
    have apart : other ≠ page := differ
    simp [mmFree,block,backed.reserved other present,apart]
  · rintro f ⟨used,differ⟩
    have set : bit s.pageAllocBitmap f = true := used
    have apart : f ≠ archPagingVirtToPhys s.tables (page*4096)/4096 := differ
    simp [usedFrames,mmFree,block,set,apart]
  · intro other _ differ
    exact frame_unmap_other _ (by rwa [block])

end KaracaOS.MemoryManager
