import KaracaOS.ReservedFrames

namespace KaracaOS.MemoryCalls
open ByteMemory Bitmap Paging MemoryManager BootMap FrameRuns ReservedFrames StepRuns

variable {s mid next : Mm} {vaddr size blocks vmBlock j : Nat} {result : Except SysRet Nat}

-- The bytes that the while loop of mm_find_empty_block_physical looks at. The
-- bit loop stays with the last of them.
inductive Scans (bitmap : Bytes) : Nat → Prop where
  | first : Scans bitmap 0
  | next : Scans bitmap blockNr → bitmap blockNr = 0xFF#8 → Scans bitmap (blockNr+1)

def Full (s : Mm) : Prop := ∀ f < frameCount, bit s.pageAllocBitmap f = true

def SearchExact (s : Mm) : Prop :=
  (∀ i, Scans s.pageAllocBitmap i → i < bitmapBytes) ∧
  (¬ Full s → ∃ j, FirstFree s j ∧ mmFindEmptyBlockPhysical s = some (.ok (j*4096))) ∧
  (Full s → mmFindEmptyBlockPhysical s = some (.error .notFound))

theorem scans_iff (bitmap : Bytes) (i : Nat) : Scans bitmap i ↔ ∀ t < i, bitmap t = 0xFF#8 := by
  constructor
  · intro scans
    induction scans with
    | first =>
      intro t less
      omega
    | @next blockNr _ full ih =>
      intro t less
      by_cases last : t = blockNr
      · rw [last]
        exact full
      · exact ih t (by omega)
  · intro full
    induction i with
    | zero => exact .first
    | succ i ih => exact .next (ih (fun t less => full t (by omega))) (full i (by omega))

theorem full_bytes (full : Full s) : ∀ i < bitmapBytes, s.pageAllocBitmap i = 0xFF#8 := by
  intro i inside
  refine full_of_bits (fun b small => ?_)
  have set := full (8*i+b) (by unfold frameCount; unfold bitmapBytes at inside; omega)
  rwa [bit,show (8*i+b)/8 = i by omega,show (8*i+b)%8 = b by omega] at set

theorem search_exact_iff (s : Mm) : SearchExact s ↔ ∃ f < frameCount, bit s.pageAllocBitmap f = false := by
  constructor
  · intro exact_
    by_contra none_
    have full : Full s := by
      intro f inside
      by_contra clear
      exact none_ ⟨f,inside,by simpa using clear⟩
    exact Nat.lt_irrefl _ (exact_.1 _ ((scans_iff _ _).mpr (full_bytes full)))
  · rintro ⟨f,inside,free⟩
    have notFull : ¬ Full s := by
      intro full
      rw [full f inside] at free
      cases free
    refine ⟨?_,fun _ => find_exists free inside,fun full => absurd full notFull⟩
    intro i scans
    by_contra beyond
    have full := (scans_iff _ _).mp scans (f/8) (by unfold frameCount at inside; unfold bitmapBytes at beyond; omega)
    rw [bit,full,full_bit _ (Nat.mod_lt _ (by decide))] at free
    cases free

-- No memory at all: every frame stays reserved and the search leaves the array.
theorem full_bitmap_overrun : Full ⟨fun _ => 0xFF#8,fun _ => 0,0,powerOn.tables⟩ ∧
    Scans (fun _ => 0xFF#8) bitmapBytes ∧ ¬ SearchExact ⟨fun _ => 0xFF#8,fun _ => 0,0,powerOn.tables⟩ := by
  have scans : Scans (fun _ => 0xFF#8) bitmapBytes := (scans_iff _ _).mpr (fun _ _ => rfl)
  exact ⟨fun f _ => full_bit _ (Nat.mod_lt _ (by decide)),scans,fun exact_ => Nat.lt_irrefl _ (exact_.1 _ scans)⟩

def present (t : Tables) (page : Nat) : Bool := (t.pageTables page).getLsbD 0

def Overlaps (vaddr size page : Nat) : Prop := page*4096 < vaddr+size ∧ vaddr < page*4096+4096

-- The call returns, and it has given the whole range or changed nothing.
def WholeOrNothing (s : Mm) (vaddr size : Nat) : Prop :=
  ∃ result next, mmAlloc s vaddr size = some (result,next) ∧
    (∀ addr, result = .ok addr → ∀ page, Overlaps vaddr size page →
      bit s.vmAllocBitmap page = false ∧ bit next.vmAllocBitmap page = true ∧ present next.tables page = true) ∧
    (∀ ret, result = .error ret → next.pageAllocBitmap = s.pageAllocBitmap ∧ next.vmAllocBitmap = s.vmAllocBitmap ∧
      next.tables.pageTables = s.tables.pageTables) ∧
    ∀ page, bit s.vmAllocBitmap page = true → next.tables.pageTables page = s.tables.pageTables page

theorem present_map (t : Tables) (virt phys : Nat) : present (archPagingMap t virt phys).2 (virt/4096) = true := by
  unfold present archPagingMap
  dsimp only
  rw [Function.update_self]
  simp

theorem present_map_kept (t : Tables) (virt phys : Nat) (there : present t page = true) :
    present (archPagingMap t virt phys).2 page = true := by
  by_cases here : page = virt/4096
  · rw [here]
    exact present_map t virt phys
  · unfold present archPagingMap
    dsimp only
    rw [Function.update_of_ne here]
    exact there

def pageOf (vmBlock k : Nat) : Nat := (vmBlock*4096+k*4096)%word/4096

theorem pageOf_zero (inside : vmBlock < frameCount) : pageOf vmBlock 0 = vmBlock := by
  unfold frameCount at inside
  unfold pageOf word
  omega

theorem present_mapBlocks (t : Tables) (vmBlock j : Nat) (less : k < blocks) :
    present (mapBlocks t vmBlock j blocks).2 (pageOf vmBlock k) = true := by
  unfold mapBlocks
  induction blocks with
  | zero => omega
  | succ blocks ih =>
    rw [List.range_succ,List.foldl_append,List.foldl_cons,List.foldl_nil]
    by_cases last : k = blocks
    · rw [last]
      exact present_map _ _ _
    · exact present_map_kept _ _ _ (ih (by omega))

theorem mapBlocks_one_other (t : Tables) (j : Nat) (inside : vmBlock < frameCount) (other : page ≠ vmBlock) :
    (mapBlocks t vmBlock j 1).2.pageTables page = t.pageTables page := by
  unfold frameCount at inside
  rw [mapBlocks_one,Nat.mod_eq_of_lt (show vmBlock*4096 < word by unfold word; omega)]
  unfold archPagingMap
  dsimp only
  rw [Nat.mul_div_cancel _ (by decide),Function.update_of_ne other]

theorem mmAlloc_whole_iff (s : Mm) (aligned : vaddr % 4096 = 0) (low : vaddr < word) (some_ : 0 < size) :
    WholeOrNothing s vaddr size ↔ bit s.vmAllocBitmap (vaddr/4096) = true ∨
      (size ≤ 4096 ∧ ∃ f < frameCount, bit s.pageAllocBitmap f = false) := by
  have inside : vaddr/4096 < frameCount := by
    unfold frameCount
    unfold word at low
    omega
  by_cases reserved : bit s.vmAllocBitmap (vaddr/4096) = true
  · refine iff_of_true ⟨_,_,mmAlloc_taken reserved,?_,fun _ _ => ⟨rfl,rfl,rfl⟩,fun _ _ => rfl⟩ (.inl reserved)
    intro addr no
    cases no
  · have unreserved : bit s.vmAllocBitmap (vaddr/4096) = false := by simpa using reserved
    constructor
    · rintro ⟨result,next,ran,whole,_,_⟩
      rcases mmAlloc_cases ran with ⟨set,_,_⟩ | ⟨j,_,first,rfl,rfl⟩
      · exact .inl set
      · refine .inr ⟨?_,j,first.1,first.2.1⟩
        by_contra large
        -- the second page is neither checked nor marked
        obtain ⟨clear,set,_⟩ := whole _ rfl (vaddr/4096+1) ⟨by omega,by omega⟩
        simp [allocated,clear] at set
    · intro settled
      obtain ⟨small,f,bounded,free⟩ := settled.resolve_left reserved
      obtain ⟨j,first,_⟩ := find_exists free bounded
      have one := single_block (show size < 8192 by omega)
      refine ⟨_,_,mmAlloc_fresh unreserved first,?_,fun _ no => (by cases no),?_⟩
      · rintro addr _ page ⟨before,after⟩
        obtain rfl : page = vaddr/4096 := by omega
        have there := present_mapBlocks s.tables (vaddr/4096) j (show 0 < sizeInBlocks size by rw [one]; decide)
        rw [pageOf_zero inside] at there
        exact ⟨unreserved,by simp [allocated],there⟩
      · intro page set
        have other : page ≠ vaddr/4096 := by
          rintro rfl
          exact reserved set
        rw [one]
        exact mapBlocks_one_other s.tables j inside other

theorem page_given_whole : ∃ mm, Ready mm ∧ WholeOrNothing mm 0x10000000 4096 := by
  obtain ⟨mm,⟨_,info,ran⟩,first,_⟩ := plainRam_booted
  exact ⟨mm,⟨_,info,ran⟩,(mmAlloc_whole_iff mm (by decide) (by decide) (by decide)).mpr (.inr ⟨by decide,_,first.1,first.2.1⟩)⟩

-- The 64 KiB stack of kmain: 16 pages are mapped, one is marked.
theorem stack_marked_in_part : ∃ mm next, Ready mm ∧ mmAlloc mm 0xCFF00000 0x10000 = some (.ok 0xCFF00000,next) ∧
    bit next.vmAllocBitmap 0xCFF01 = false ∧ ¬ WholeOrNothing mm 0xCFF00000 0x10000 := by
  obtain ⟨mm,⟨_,info,booted⟩,first,_,reserved⟩ := plainRam_booted
  have clear : bit mm.vmAllocBitmap (0xCFF00000/4096) = false := by rw [reserved]; decide
  have beside : bit mm.vmAllocBitmap 0xCFF01 = false := by rw [reserved]; decide
  have ran : mmAlloc mm 0xCFF00000 0x10000 = some (.ok 0xCFF00000,allocated mm 0xCFF00 16384 16) := mmAlloc_fresh clear first
  have unmarked : bit (allocated mm 0xCFF00 16384 16).vmAllocBitmap 0xCFF01 = false := by simp [allocated,beside]
  refine ⟨mm,_,⟨_,info,booted⟩,ran,unmarked,?_⟩
  rintro ⟨result,next,done,whole,_⟩
  rw [ran] at done
  cases Option.some.inj done
  have set := (whole _ rfl 0xCFF01 (by unfold Overlaps; decide)).2.1
  rw [unmarked] at set
  cases set

-- Both bitmaps as before the mm_alloc, and none of its pages mapped.
def Restored (s last : Mm) (vaddr size : Nat) : Prop :=
  last.pageAllocBitmap = s.pageAllocBitmap ∧ last.vmAllocBitmap = s.vmAllocBitmap ∧
  ∀ k < sizeInBlocks size, present last.tables (pageOf (vaddr/4096) k) = false

theorem present_unmap (t : Tables) (virt page : Nat) :
    present (archPagingUnmap t virt).2 page = (!decide (page = virt/4096) && present t page) := by
  unfold present archPagingUnmap
  dsimp only
  by_cases here : page = virt/4096
  · rw [here,Function.update_self]
    simp
  · rw [Function.update_of_ne here]
    simp [here]

theorem alloc_free_restores_iff (low : vaddr < word) (called : mmAlloc s vaddr size = some (.ok addr,mid)) :
    Restored s (mmFree mid addr).2 vaddr size ↔ size < 8192 := by
  have inside : vaddr/4096 < frameCount := by
    unfold frameCount
    unfold word at low
    omega
  rcases mmAlloc_cases called with ⟨_,no,_⟩ | ⟨j,unreserved,first,same,rfl⟩
  · cases no
  · cases Except.ok.inj same
    have block : vaddr/4096*4096/4096 = vaddr/4096 := Nat.mul_div_cancel _ (by decide)
    constructor
    · rintro ⟨_,_,unmapped⟩
      by_contra large
      have many : 1 < sizeInBlocks size := by
        unfold sizeInBlocks
        split <;> omega
      have left := unmapped 1 many
      have other : pageOf (vaddr/4096) 1 ≠ vaddr/4096 := by
        unfold pageOf word
        unfold frameCount at inside
        omega
      simp only [mmFree] at left
      rw [present_unmap,block] at left
      simp only [allocated,present_mapBlocks s.tables (vaddr/4096) j many,other] at left
      cases left
    · intro small
      have one := single_block small
      rw [Restored,one]
      have back : frame (allocated s (vaddr/4096) j 1).tables (vaddr/4096) = j := frame_allocated_same inside first.1
      refine ⟨?_,?_,?_⟩
      · show clearBit (setBit s.pageAllocBitmap j) (frame (allocated s (vaddr/4096) j 1).tables (vaddr/4096*4096/4096)) = s.pageAllocBitmap
        rw [block,back]
        exact clearBit_setBit first.2.1
      · show clearBit (setBit s.vmAllocBitmap (vaddr/4096)) (vaddr/4096*4096/4096) = s.vmAllocBitmap
        rw [block]
        exact clearBit_setBit unreserved
      · intro k only
        obtain rfl : k = 0 := by omega
        simp only [mmFree]
        rw [pageOf_zero inside,present_unmap,block]
        simp

theorem page_restored : ∃ mm mid, Ready mm ∧ mmAlloc mm 0x10000000 5000 = some (.ok 0x10000000,mid) ∧
    Restored mm (mmFree mid 0x10000000).2 0x10000000 5000 := by
  obtain ⟨mm,⟨_,info,booted⟩,first,_,reserved⟩ := plainRam_booted
  have ran : mmAlloc mm 0x10000000 5000 = some (.ok 0x10000000,allocated mm 65536 16384 1) :=
    mmAlloc_fresh (by rw [reserved]; decide) first
  exact ⟨mm,_,⟨_,info,booted⟩,ran,(alloc_free_restores_iff (by decide) ran).mpr (by decide)⟩

-- Of two pages only the first is unmapped again.
theorem second_page_stays_mapped : ∃ mm mid, Ready mm ∧ mmAlloc mm 0x10000000 8192 = some (.ok 0x10000000,mid) ∧
    present (mmFree mid 0x10000000).2.tables 0x10001 = true ∧ ¬ Restored mm (mmFree mid 0x10000000).2 0x10000000 8192 := by
  obtain ⟨mm,⟨_,info,booted⟩,first,_,reserved⟩ := plainRam_booted
  have ran : mmAlloc mm 0x10000000 8192 = some (.ok 0x10000000,allocated mm 65536 16384 2) :=
    mmAlloc_fresh (by rw [reserved]; decide) first
  have there : present (mmFree (allocated mm 65536 16384 2) 0x10000000).2.tables 0x10001 = true := by
    simp only [mmFree]
    rw [present_unmap]
    exact present_mapBlocks mm.tables 65536 16384 (show 1 < 2 by decide)
  refine ⟨mm,_,⟨_,info,booted⟩,ran,there,?_⟩
  rintro ⟨_,_,unmapped⟩
  have gone := unmapped 1 (by decide)
  rw [show pageOf (0x10000000/4096) 1 = 0x10001 by decide,there] at gone
  cases gone

end KaracaOS.MemoryCalls
