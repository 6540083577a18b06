import KaracaOS.BuddyPages

namespace KaracaOS.KernelBoot
open Bitmap Paging MemoryManager BootMap BuddyArena BuddyAllocator BuddyPages StepRuns

-- What kmain asks mm_alloc for, and the pages of that range.
def stackTop : Nat := 0xCFF00000
def stackSize : Nat := 0x10000
def stackPage (k : Nat) : Nat := 0xCFF00+k
def storagePage (i : Nat) : Nat := 0xC8000+i

-- kmain as far as it sets up memory: it looks at none of the results.
def kmainMemory (mm : Mm) (info : MultibootInfo) (old : Arena) : Option (SysRet × Allocator) :=
  (mmInit mm info).bind fun detected =>
    (mmAlloc detected.2 stackTop stackSize).bind fun stacked => buddyAllocatorInit stacked.2 old

-- A page on usable RAM that no other page of the stack or the node storage has.
structure OnOwnRam (mm s : Mm) (page : Nat) : Prop where
  usable : frame s.tables page ∈ freeFrames mm
  stack : ∀ k < 16, stackPage k ≠ page → frame s.tables (stackPage k) ≠ frame s.tables page
  storage : ∀ i < arenaPages, storagePage i ≠ page → frame s.tables (storagePage i) ≠ frame s.tables page

-- Where the processor finds a byte.
def physical (t : Tables) (address : Nat) : Nat := archPagingVirtToPhys t address+address%4096

variable {mm s next : Mm} {t : Tables} {left : Allocator}

theorem mapBlocks_next (t : Tables) (vmBlock j blocks : Nat) : mapBlocks t vmBlock j (blocks+1) =
    archPagingMap (mapBlocks t vmBlock j blocks).2 ((vmBlock*4096+blocks*4096)%word) ((j*4096+blocks*4096)%word) := by
  simp [mapBlocks,List.range_succ]

theorem frame_mapBlocks (inside : vmBlock+blocks ≤ frameCount) (page : Nat) : frame (mapBlocks t vmBlock j blocks).2 page =
    if vmBlock ≤ page ∧ page < vmBlock+blocks then (j+(page-vmBlock))%frameCount else frame t page := by
  induction blocks with
  | zero =>
    have empty : ¬ (vmBlock ≤ page ∧ page < vmBlock+0) := by omega
    simp only [empty,if_false]
    rfl
  | succ blocks ih =>
    have virt : (vmBlock*4096+blocks*4096)%word/4096 = vmBlock+blocks := by
      unfold frameCount at inside
      unfold word
      omega
    have phys : (j*4096+blocks*4096)%word/4096 = (j+blocks)%frameCount := by
      rw [← Nat.add_mul,show word = frameCount*4096 from rfl,Nat.mul_mod_mul_right,Nat.mul_div_cancel _ (by decide)]
    have small : (j*4096+blocks*4096)%word < word := Nat.mod_lt _ (by decide)
    rw [mapBlocks_next]
    by_cases last : page = vmBlock+blocks
    · have here : vmBlock ≤ page ∧ page < vmBlock+(blocks+1) := by omega
      rw [if_pos here,frame_map_same _ _ small (virt.trans last.symm),phys,last,Nat.add_sub_cancel_left]
    · have same : (vmBlock ≤ page ∧ page < vmBlock+(blocks+1)) ↔ (vmBlock ≤ page ∧ page < vmBlock+blocks) := by omega
      have away : page ≠ (vmBlock*4096+blocks*4096)%word/4096 := by simpa only [virt] using last
      simp only [same,frame_map_other _ _ away]
      exact ih (by omega)

def rank (mm : Mm) (f : Nat) : Nat := ((freeFrames mm).filter (· < f)).card

theorem rank_lt (member : f ∈ freeFrames mm) (less : f < g) : rank mm f < rank mm g := by
  apply Finset.card_lt_card
  rw [Finset.ssubset_iff_of_subset]
  · exact ⟨f,by simp [member,less],by simp⟩
  · intro h inside
    simp only [Finset.mem_filter] at inside ⊢
    exact ⟨inside.1,by omega⟩

theorem rank_injective (one : f ∈ freeFrames mm) (two : g ∈ freeFrames mm) (same : rank mm f = rank mm g) : f = g := by
  rcases Nat.lt_trichotomy f g with less | equal | more
  · have apart := rank_lt one less
    omega
  · exact equal
  · have apart := rank_lt two more
    omega

-- After i pages of node storage: the frames below some bound are taken, and
-- page k lies on the free frame of rank k.
structure Lowest (mm : Mm) (i b : Nat) (s : Mm) : Prop where
  bits : ∀ f, f < frameCount → bit s.pageAllocBitmap f = (decide (f < b) || bit mm.pageAllocBitmap f)
  count : rank mm b = i
  pages : ∀ k < i, frame s.tables (storagePage k) ∈ freeFrames mm ∧ rank mm (frame s.tables (storagePage k)) = k
  kept : ∀ page, (∀ k < i, page ≠ storagePage k) → frame s.tables page = frame mm.tables page

theorem Lowest.start (mm : Mm) : Lowest mm 0 0 mm :=
  ⟨fun f _ => by simp,by simp [rank],fun k below => absurd below (Nat.not_lt_zero k),fun _ _ => rfl⟩

theorem Lowest.first (lowest : Lowest mm i b s) (first : FirstFree s j) : j ∈ freeFrames mm ∧ rank mm j = i ∧ b ≤ j := by
  obtain ⟨inside,clear,before⟩ := first
  have here := lowest.bits j inside
  simp only [clear,Bool.false_eq,Bool.or_eq_false_iff,decide_eq_false_iff_not,Nat.not_lt] at here
  refine ⟨mem_clearSet.mpr ⟨inside,here.2⟩,?_,here.1⟩
  rw [← lowest.count]
  apply congrArg Finset.card
  ext f
  simp only [Finset.mem_filter]
  constructor
  · rintro ⟨member,below⟩
    obtain ⟨small,free⟩ := mem_clearSet.mp member
    have set := before f below
    exact ⟨member,by simpa [lowest.bits f small,free] using set⟩
  · exact fun both => ⟨both.1,by omega⟩

theorem storagePage_below (inside : i < arenaPages) : storagePage i < frameCount := by
  simp only [arenaPages_eq] at inside
  unfold storagePage frameCount
  omega

theorem Lowest.step (lowest : Lowest mm i b s) (inside : i < arenaPages) (taken : arenaPage s i = some next) :
    ∃ j, Lowest mm (i+1) (j+1) next := by
  obtain ⟨j,first,_,rfl⟩ := arenaPage_allocated taken
  obtain ⟨member,ranked,low⟩ := lowest.first first
  have page := storagePage_below inside
  have here : frame (allocated s (storagePage i) j 1).tables (storagePage i) = j := frame_allocated_same page first.1
  have other : ∀ page', page' ≠ storagePage i → frame (allocated s (storagePage i) j 1).tables page' = frame s.tables page' :=
    fun page' away => frame_allocated_other page away
  have earlier : ∀ k < i, storagePage k ≠ storagePage i := by
    intro k below
    unfold storagePage
    omega
  refine ⟨j,?_⟩
  change Lowest mm (i+1) (j+1) (allocated s (storagePage i) j 1)
  refine ⟨?_,?_,?_,?_⟩
  · intro f small
    have old := lowest.bits f small
    simp only [allocated,bit_setBit,old]
    by_cases above : j < f
    · have beyond : ¬ f < b ∧ ¬ f < j+1 ∧ f ≠ j := by omega
      simp [beyond]
    · by_cases same : f = j
      · simp [same]
      · have set := first.2.2 f (by omega)
        rw [old] at set
        have under : f < j+1 := by omega
        simp [set,under]
  · have grown : (freeFrames mm).filter (· < j+1) = insert j ((freeFrames mm).filter (· < j)) := by
      ext f
      simp only [Finset.mem_filter,Finset.mem_insert,Nat.lt_succ_iff_lt_or_eq]
      constructor
      · rintro ⟨free,below | same⟩
        · exact .inr ⟨free,below⟩
        · exact .inl same
      · rintro (rfl | ⟨free,below⟩)
        · exact ⟨member,.inr rfl⟩
        · exact ⟨free,.inl below⟩
    rw [rank,grown,Finset.card_insert_of_notMem (by simp)]
    exact congrArg (·+1) ranked
  · intro k below
    by_cases last : k = i
    · rw [last,here]
      exact ⟨member,ranked⟩
    · rw [other _ (earlier k (by omega))]
      exact lowest.pages k (by omega)
  · intro page' away
    rw [other _ (away i (Nat.lt_succ_self i))]
    exact lowest.kept page' (fun k below => away k (by omega))

theorem storage_lowest (ran : repeated arenaPage arenaPages 0 mm = some s) : ∃ b, Lowest mm arenaPages b s := by
  have bounded : ∀ i s next, (i ≤ arenaPages → ∃ b, Lowest mm i b s) → arenaPage s i = some next →
      (i+1 ≤ arenaPages → ∃ b, Lowest mm (i+1) b next) := by
    intro i s next held taken inside
    obtain ⟨b,lowest⟩ := held (by omega)
    obtain ⟨j,later⟩ := lowest.step (by omega) taken
    exact ⟨j+1,later⟩
  have last := repeated_invariant (fun i s => i ≤ arenaPages → ∃ b, Lowest mm i b s) bounded (fun _ => ⟨0,.start mm⟩) ran
  simpa using last

theorem Lowest.reaches (lowest : Lowest mm i b s) (free : f ∈ freeFrames mm) (few : rank mm f < i) :
    frame s.tables (storagePage (rank mm f)) = f := by
  obtain ⟨member,ranked⟩ := lowest.pages _ few
  exact rank_injective member free ranked

-- The memory when kmain goes on to the node storage.
structure Stacked (mm : Mm) (first : Nat) (s : Mm) : Prop where
  lowest : FirstFree mm first
  bits : ∀ f, bit s.pageAllocBitmap f = (decide (f = first) || bit mm.pageAllocBitmap f)
  mapped : ∀ k < 16, frame s.tables (stackPage k) = (first+k)%frameCount

theorem booted_unreserved (booted : mmInit powerOn info = some (ret,mm)) : bit mm.vmAllocBitmap (stackTop/4096) = false := by
  by_cases good : ret = .noError
  · subst good
    exact powerOn_reserved booted (.inr (by decide))
  · have same : mm = powerOn := by
      unfold mmInit at booted
      split at booted
      · cases booted
        rfl
      · split at booted
        · cases booted
        · dsimp only at booted
          split at booted
          · cases booted
          · cases booted
            exact absurd rfl good
    subst same
    simp [bit,powerOn]

theorem stack_stacked (booted : mmInit powerOn info = some (ret,mm)) (ran : mmAlloc mm stackTop stackSize = some (result,s)) :
    ∃ first, Stacked mm first s := by
  rcases mmAlloc_cases ran with ⟨reserved,_,_⟩ | ⟨j,_,first,_,rfl⟩
  · simp [booted_unreserved booted] at reserved
  · refine ⟨j,first,fun f => by simp [allocated],?_⟩
    intro k below
    have sixteen : sizeInBlocks stackSize = 16 := by decide
    have start : stackTop/4096 = 0xCFF00 := by decide
    have range : 0xCFF00 ≤ stackPage k ∧ stackPage k < 0xCFF00+16 := by
      unfold stackPage
      omega
    simp only [allocated,sixteen,start]
    rw [frame_mapBlocks (by decide),if_pos range,stackPage,Nat.add_sub_cancel_left]

theorem Stacked.free (stacked : Stacked mm first s) : f ∈ freeFrames s ↔ f ∈ freeFrames mm ∧ f ≠ first := by
  simp only [freeFrames,mem_clearSet,stacked.bits,Bool.or_eq_false_iff,decide_eq_false_iff_not]
  tauto

theorem kmainMemory_parts (booted : mmInit powerOn info = some (ret,mm)) (ran : kmainMemory powerOn info old = some (.noError,left)) :
    ∃ first stacked b, Stacked mm first stacked ∧ Lowest stacked arenaPages b left.mm := by
  simp only [kmainMemory,booted,Option.bind_some] at ran
  obtain ⟨⟨result,stacked⟩,called,rest⟩ := Option.bind_eq_some_iff.mp ran
  obtain ⟨first,held⟩ := stack_stacked booted called
  obtain ⟨b,lowest⟩ := storage_lowest (init_grown rest).1
  exact ⟨first,stacked,b,held,lowest⟩

-- The stack is mapped in one piece onto the frames behind the first free one,
-- and of these only the first is marked.
structure Layout (mm s : Mm) (first : Nat) : Prop where
  lowest : FirstFree mm first
  stack : ∀ k < 16, frame s.tables (stackPage k) = (first+k)%frameCount
  storage : ∀ i < arenaPages, frame s.tables (storagePage i) ≠ first
  shared : ∀ f ∈ freeFrames mm, first < f → f < first+16 →
    frame s.tables (storagePage (((freeFrames mm).filter (fun g => first < g ∧ g < f)).card)) = f

theorem stack_storage_apart (k : Nat) (inside : i < arenaPages) : stackPage k ≠ storagePage i := by
  simp only [arenaPages_eq] at inside
  unfold stackPage storagePage
  omega

theorem between_few (mm : Mm) (first f : Nat) : ((freeFrames mm).filter (fun g => first < g ∧ g < f)).card ≤ f-first-1 := by
  have few : (freeFrames mm).filter (fun g => first < g ∧ g < f) ⊆ Finset.Ioo first f := by
    intro g member
    exact Finset.mem_Ioo.mpr (Finset.mem_filter.mp member).2
  simpa using Finset.card_le_card few

theorem kmainMemory_layout (booted : mmInit powerOn info = some (ret,mm)) (ran : kmainMemory powerOn info old = some (.noError,left)) :
    ∃ first, Layout mm left.mm first := by
  obtain ⟨first,stacked,b,held,lowest⟩ := kmainMemory_parts booted ran
  refine ⟨first,held.lowest,?_,?_,?_⟩
  · intro k below
    rw [lowest.kept _ (fun i inside => stack_storage_apart k inside)]
    exact held.mapped k below
  · intro i inside
    exact (held.free.mp (lowest.pages i inside).1).2
  · intro f free above near
    have left : f ∈ freeFrames stacked := held.free.mpr ⟨free,by omega⟩
    have ranked : rank stacked f = ((freeFrames mm).filter (fun g => first < g ∧ g < f)).card := by
      apply congrArg Finset.card
      ext g
      simp only [Finset.mem_filter,held.free]
      constructor
      · rintro ⟨⟨open_,differ⟩,below⟩
        have beyond : ¬ g < first := by
          intro early
          have clear := (mem_clearSet.mp open_).2
          simp [held.lowest.2.2 g early] at clear
        exact ⟨open_,by omega,below⟩
      · rintro ⟨open_,beyond,below⟩
        exact ⟨⟨open_,by omega⟩,below⟩
    have few := between_few mm first f
    rw [← ranked]
    apply lowest.reaches left
    simp only [arenaPages_eq]
    omega

theorem Layout.first_own (layout : Layout mm s first) : OnOwnRam mm s (stackPage 0) := by
  have inside := layout.lowest.1
  have here : frame s.tables (stackPage 0) = first := by
    rw [layout.stack 0 (by decide),Nat.add_zero,Nat.mod_eq_of_lt inside]
  refine ⟨?_,?_,?_⟩
  · rw [here]
    exact mem_clearSet.mpr ⟨inside,layout.lowest.2.1⟩
  · intro k below differ
    have positive : k ≠ 0 := by
      rintro rfl
      exact differ rfl
    rw [here,layout.stack k below]
    unfold frameCount at inside ⊢
    omega
  · intro i below _
    rw [here]
    exact layout.storage i below

theorem Layout.other_shared (layout : Layout mm s first) (positive : 0 < k) (below : k < 16) (own : OnOwnRam mm s (stackPage k)) : False := by
  obtain ⟨usable,_,storage⟩ := own
  rw [layout.stack k below] at usable storage
  obtain ⟨_,clear⟩ := mem_clearSet.mp usable
  by_cases wraps : first+k < frameCount
  · rw [Nat.mod_eq_of_lt wraps] at usable storage
    have few := between_few mm first (first+k)
    have inside : ((freeFrames mm).filter (fun g => first < g ∧ g < first+k)).card < arenaPages := by
      simp only [arenaPages_eq]
      omega
    exact storage _ inside (stack_storage_apart k inside).symm (layout.shared _ usable (by omega) (by omega))
  · have early : (first+k)%frameCount < first := by
      have inside := layout.lowest.1
      unfold frameCount at inside wraps ⊢
      omega
    simp [layout.lowest.2.2 _ early] at clear

-- Whatever the memory map, of the sixteen stack pages only the lowest has RAM of its own.
theorem stack_page_own_iff (booted : mmInit powerOn info = some (ret,mm)) (ran : kmainMemory powerOn info old = some (.noError,left))
    (below : k < 16) : OnOwnRam mm left.mm (stackPage k) ↔ k = 0 := by
  obtain ⟨first,layout⟩ := kmainMemory_layout booted ran
  constructor
  · intro own
    by_contra positive
    exact layout.other_shared (Nat.pos_of_ne_zero positive) below own
  · rintro rfl
    exact layout.first_own

def blankStorage : Arena := ⟨fun _ => 0,fun _ => 0,fun _ => ⟨0,0,0,false,false,0,0,false⟩,0⟩

theorem ram_kmain : ∃ mm left, mmInit powerOn (loaded (ram 2048 2048)) = some (.noError,mm) ∧
    kmainMemory powerOn (loaded (ram 2048 2048)) blankStorage = some (.noError,left) ∧
    FirstFree mm 16384 ∧ ∀ f, 16384 ≤ f → f < 32776 → f ∈ freeFrames mm := by
  obtain ⟨mm,booted,enough⟩ := ram_machine (show 2048+2048 < 131072 by decide)
  have most := ram_frames (by decide) booted
  have free : ∀ f, 16384 ≤ f → f < 32776 → f ∈ freeFrames mm := fun f low high => enough (Finset.mem_Ico.mpr ⟨low,high⟩)
  have first : FirstFree mm 16384 := by
    obtain ⟨inside,clear⟩ := mem_clearSet.mp (free 16384 (by decide) (by decide))
    refine ⟨inside,clear,?_⟩
    intro f below
    by_contra open_
    have free : f ∈ freeFrames mm := mem_clearSet.mpr ⟨by omega,by simpa using open_⟩
    have low := (Finset.mem_Ico.mp (most free)).1
    omega
  have called : mmAlloc mm stackTop stackSize =
      some (.ok (stackTop/4096*4096),allocated mm (stackTop/4096) 16384 (sizeInBlocks stackSize)) :=
    mmAlloc_fresh (booted_unreserved booted) first
  have left : 5120 ≤ (freeFrames (allocated mm (stackTop/4096) 16384 (sizeInBlocks stackSize))).card := by
    have count := freeFrames_allocated first (stackTop/4096) (sizeInBlocks stackSize)
    have least := Finset.card_le_card enough
    simp only [Nat.card_Ico] at least
    omega
  obtain ⟨paged,ran⟩ := arenaPages_return left (by
    intro page low high
    have start : stackTop/4096 = 0xCFF00 := by decide
    have away : page ≠ 0xCFF00 := by omega
    simp only [allocated,bit_setBit,start,away,decide_false,Bool.false_or]
    exact powerOn_reserved booted (.inr low))
  refine ⟨mm,⟨paged,plantRoot (takeBlock (freshArena blankStorage) (blockAt 0)) (nodeAt 0)⟩,booted,?_,first,free⟩
  simp only [kmainMemory,booted,Option.bind_some,called,buddyAllocatorInit,ran,allocNode_spec (freshArena_tiled blankStorage),
    show 0 < maxNodes by decide,if_true]

theorem ram_stack_page : ∃ mm left, kmainMemory powerOn (loaded (ram 2048 2048)) blankStorage = some (.noError,left) ∧
    OnOwnRam mm left.mm (stackPage 0) ∧ ¬ OnOwnRam mm left.mm (stackPage 15) := by
  obtain ⟨mm,left,booted,ran,_,_⟩ := ram_kmain
  refine ⟨mm,left,ran,(stack_page_own_iff booted ran (by decide)).mpr rfl,?_⟩
  intro own
  cases (stack_page_own_iff booted ran (by decide)).mp own

theorem physical_page (t : Tables) (address : Nat) : physical t address = frame t (address/4096)*4096+address%4096 := by
  have aligned : (t.pageTables (address/4096) &&& ~~~0xFFF#32).toNat = (t.pageTables (address/4096)).toNat/4096*4096 := align_toNat _
  unfold physical frame archPagingVirtToPhys
  rw [Nat.mul_div_cancel _ (by decide),aligned,Nat.mul_div_cancel _ (by decide)]

theorem between_piece (piece : ∀ f, first ≤ f → f < first+16 → f ∈ freeFrames mm) (few : k < 15) :
    ((freeFrames mm).filter (fun g => first < g ∧ g < first+1+k)).card = k := by
  have same : (freeFrames mm).filter (fun g => first < g ∧ g < first+1+k) = Finset.Ioo first (first+1+k) := by
    ext g
    simp only [Finset.mem_filter,Finset.mem_Ioo,and_iff_right_iff_imp]
    rintro ⟨above,below⟩
    exact piece g (by omega) (by omega)
  rw [same,Nat.card_Ioo]
  omega

-- With usable RAM in one piece the stack above its first page is the node
-- storage byte for byte, from the header of the tree on.
theorem stack_is_node_storage (booted : mmInit powerOn info = some (ret,mm))
    (ran : kmainMemory powerOn info old = some (.noError,left)) (lowest : FirstFree mm first)
    (piece : ∀ f, first ≤ f → f < first+16 → f ∈ freeFrames mm) (inside : offset < 0xF000) :
    physical left.mm.tables (stackTop+0x1000+offset) = physical left.mm.tables (treeLocation+offset) := by
  obtain ⟨other,layout⟩ := kmainMemory_layout booted ran
  cases layout.lowest.unique lowest
  have few : offset/4096 < 15 := by omega
  have member := piece (first+1+offset/4096) (by omega) (by omega)
  have bound : first+(1+offset/4096) < frameCount := by
    have small := (mem_clearSet.mp member).1
    omega
  have stack := layout.stack (1+offset/4096) (by omega)
  have storage := layout.shared _ member (by omega) (by omega)
  rw [between_piece piece few] at storage
  rw [Nat.mod_eq_of_lt bound] at stack
  have high : (stackTop+0x1000+offset)/4096 = stackPage (1+offset/4096) ∧ (stackTop+0x1000+offset)%4096 = offset%4096 := by
    unfold stackTop stackPage
    omega
  have low : (treeLocation+offset)/4096 = storagePage (offset/4096) ∧ (treeLocation+offset)%4096 = offset%4096 := by
    unfold treeLocation storagePage
    omega
  rw [physical_page,physical_page,high.1,high.2,low.1,low.2,stack,storage,Nat.add_assoc]

-- The first value pushed on the new stack lands 61436 bytes into the node storage.
theorem first_push_hits_storage : ∃ left, kmainMemory powerOn (loaded (ram 2048 2048)) blankStorage = some (.noError,left) ∧
    physical left.mm.tables 0xCFF0FFF8 = physical left.mm.tables 0xC800EFF8 := by
  obtain ⟨mm,left,booted,ran,first,free⟩ := ram_kmain
  exact ⟨left,ran,stack_is_node_storage booted ran first (fun f low high => free f low (by omega)) (show 0xEFF8 < 0xF000 by decide)⟩

end KaracaOS.KernelBoot
