import KaracaOS.BuddyAllocator

namespace KaracaOS.BuddyPages
open Bitmap Paging MemoryManager BootMap BuddyArena BuddyTree BuddyAllocator DyadicTree StepRuns

-- The rounds of a page loop that comes to its end: each finds its page reserved
-- and stops, or takes the first free frame for it.
inductive Rounds : Nat → Nat → Mm → SysRet → Mm → Prop where
  | through : Rounds 0 i mm .noError mm
  | stopped : bit mm.vmAllocBitmap (i%word/4096) = true → Rounds (pages+1) i mm .memAllocError mm
  | taken : bit mm.vmAllocBitmap (i%word/4096) = false → FirstFree mm j →
      Rounds pages (i+4096) (allocated mm (i%word/4096) j 1) ret next → Rounds (pages+1) i mm ret next

variable {mm next : Mm} {pages i : Nat}

theorem allocPages_rounds (ran : allocPages pages i mm = some (ret,next)) : Rounds pages i mm ret next := by
  induction pages generalizing i mm with
  | zero =>
    cases Option.some.inj ran
    exact .through
  | succ pages ih =>
    rw [allocPages] at ran
    cases called : mmAlloc mm (i%word) 4096 with
    | none => simp [called] at ran
    | some outcome =>
      obtain ⟨result,middle⟩ := outcome
      rcases mmAlloc_cases called with ⟨reserved,rfl,rfl⟩ | ⟨j,unreserved,first,rfl,rfl⟩
      · simp only [called] at ran
        cases Option.some.inj ran
        exact .stopped reserved
      · simp only [called] at ran
        exact .taken unreserved first (ih ran)

theorem allocPages_backed (backed : Backed mm held) (aligned : i%4096 = 0) (low : i+pages*4096 ≤ word)
    (ran : allocPages pages i mm = some (ret,next)) :
    ∃ held', held ⊆ held' ∧ Backed next held' ∧ (ret = .noError → ∀ k < pages, i/4096+k ∈ held') := by
  replace ran := allocPages_rounds ran
  induction ran generalizing held with
  | through => exact ⟨held,subset_rfl,backed,fun _ k small => by omega⟩
  | stopped _ => exact ⟨held,subset_rfl,backed,fun good => by cases good⟩
  | @taken i mm j pages ret next unreserved first _ ih =>
    have small : i%word = i := Nat.mod_eq_of_lt (by omega)
    rw [small] at unreserved ih
    have inside : i/4096 < frameCount := by unfold frameCount; unfold word at low; omega
    obtain ⟨held',more,final,all⟩ := ih (backed.alloc inside first unreserved) (by omega) (by omega)
    refine ⟨held',fun page member => more (.inr member),final,?_⟩
    intro good k below
    cases k with
    | zero => exact more (.inl rfl)
    | succ k =>
      have later := all good k (by omega)
      rwa [show (i+4096)/4096+k = i/4096+(k+1) by omega] at later

theorem allocPages_returns (enough : pages ≤ (freeFrames mm).card) (aligned : i%4096 = 0) (low : i+pages*4096 ≤ word)
    (unreserved : ∀ k < pages, bit mm.vmAllocBitmap (i/4096+k) = false) :
    ∃ next, allocPages pages i mm = some (.noError,next) := by
  induction pages generalizing i mm with
  | zero => exact ⟨mm,rfl⟩
  | succ pages ih =>
    have free : bit mm.vmAllocBitmap (i/4096) = false := unreserved 0 (Nat.succ_pos _)
    obtain ⟨j,first,called⟩ := mmAlloc_progress i 4096 (by omega) free
    have count := freeFrames_allocated first (i/4096) (sizeInBlocks 4096)
    have rest : ∀ k < pages, bit (allocated mm (i/4096) j (sizeInBlocks 4096)).vmAllocBitmap ((i+4096)/4096+k) = false := by
      intro k below
      rw [show (i+4096)/4096+k = i/4096+(k+1) by omega]
      simp [allocated,unreserved (k+1) (by omega)]
    obtain ⟨next,ran⟩ := ih (by omega) (by omega) (by omega) rest
    refine ⟨next,?_⟩
    rw [allocPages,Nat.mod_eq_of_lt (show i < word by omega),called]
    exact ran

-- Giving a run of pages back clears their bits and those of the frames they
-- were mapped to, and nothing else.
structure Given (mm next : Mm) (first pages : Nat) : Prop where
  virtual : ∀ page, bit next.vmAllocBitmap page = true ↔ bit mm.vmAllocBitmap page = true ∧ ¬ (first ≤ page ∧ page < first+pages)
  physical : ∀ f, bit next.pageAllocBitmap f = true ↔
    bit mm.pageAllocBitmap f = true ∧ ∀ page, first ≤ page → page < first+pages → frame mm.tables page ≠ f
  mapping : ∀ page, ¬ (first ≤ page ∧ page < first+pages) → frame next.tables page = frame mm.tables page

theorem mmFree_given (mm : Mm) (i : Nat) : Given mm (mmFree mm i).2 (i/4096) 1 := by
  have single : ∀ page, (i/4096 ≤ page ∧ page < i/4096+1) ↔ page = i/4096 := by
    intro page
    omega
  refine ⟨?_,?_,?_⟩
  · intro page
    rw [single]
    simp [mmFree,and_comm]
  · intro f
    have target : archPagingVirtToPhys mm.tables (i/4096*4096)/4096 = frame mm.tables (i/4096) := rfl
    simp only [mmFree,target,bit_clearBit,Bool.and_eq_true,Bool.not_eq_true',decide_eq_false_iff_not]
    constructor
    · rintro ⟨apart,set⟩
      refine ⟨set,?_⟩
      intro page low high same
      rw [(single page).mp ⟨low,high⟩] at same
      exact apart same.symm
    · rintro ⟨set,apart⟩
      exact ⟨fun same => apart (i/4096) (Nat.le_refl _) (by omega) same.symm,set⟩
  · intro page away
    rw [single] at away
    exact frame_unmap_other _ away

theorem freePages_given : Given mm (freePages pages i mm) (i/4096) pages := by
  induction pages generalizing i mm with
  | zero =>
    refine ⟨?_,?_,fun _ _ => rfl⟩
    · intro page
      simp only [freePages,Nat.add_zero]
      exact ⟨fun set => ⟨set,by omega⟩,fun both => both.1⟩
    · intro f
      exact ⟨fun set => ⟨set,fun page low high => by omega⟩,fun both => both.1⟩
  | succ pages ih =>
    have next : (i+4096)/4096 = i/4096+1 := by omega
    obtain ⟨virtual,physical,mapping⟩ := mmFree_given mm i
    obtain ⟨virtual',physical',mapping'⟩ := @ih (mmFree mm i).2 (i+4096)
    rw [next] at virtual' physical' mapping'
    refine ⟨?_,?_,?_⟩
    · intro page
      rw [freePages,virtual' page,virtual page,and_assoc]
      refine and_congr_right (fun _ => ?_)
      omega
    · intro f
      rw [freePages,physical' f,physical f]
      constructor
      · rintro ⟨⟨set,first⟩,rest⟩
        refine ⟨set,?_⟩
        intro page low high
        by_cases here : page < i/4096+1
        · exact first page low here
        · rw [← mapping page (by omega)]
          exact rest page (by omega) (by omega)
      · rintro ⟨set,all⟩
        refine ⟨⟨set,fun page low high => all page low (by omega)⟩,?_⟩
        intro page low high
        rw [mapping page (by omega)]
        exact all page (by omega) (by omega)
    · intro page away
      rw [freePages,mapping' page (by omega),mapping page (by omega)]

structure AfterArena (mm : Mm) (i : Nat) (s : Mm) : Prop where
  frames : (freeFrames s).card+i = (freeFrames mm).card
  reserved : ∀ page, bit s.vmAllocBitmap page = (decide (0xC8000 ≤ page ∧ page < 0xC8000+i) || bit mm.vmAllocBitmap page)
  available : s.availableBlockCount = mm.availableBlockCount

theorem arenaPage_allocated (taken : arenaPage mm i = some next) :
    ∃ j, FirstFree mm j ∧ bit mm.vmAllocBitmap (0xC8000+i) = false ∧ next = allocated mm (0xC8000+i) j 1 := by
  have page : (0xC8000000+i*4096)/4096 = 0xC8000+i := by omega
  unfold arenaPage at taken
  split at taken
  · rename_i called
    cases Option.some.inj taken
    rcases mmAlloc_cases called with ⟨_,bad,_⟩ | ⟨j,unreserved,first,_,equal⟩
    · cases bad
    · rw [page] at unreserved equal
      exact ⟨j,first,unreserved,equal⟩
  · cases taken

theorem arenaPage_returns (some_ : 0 < (freeFrames mm).card) (unreserved : bit mm.vmAllocBitmap (0xC8000+i) = false) :
    ∃ next, arenaPage mm i = some next := by
  have page : (0xC8000000+i*4096)/4096 = 0xC8000+i := by omega
  obtain ⟨j,_,called⟩ := mmAlloc_progress (0xC8000000+i*4096) 4096 some_ (by rwa [page])
  exact ⟨_,by simp only [arenaPage,called]; rfl⟩

theorem AfterArena.step (held : AfterArena mm i s) (taken : arenaPage s i = some next) : AfterArena mm (i+1) next := by
  obtain ⟨j,first,_,rfl⟩ := arenaPage_allocated taken
  have count := freeFrames_allocated first (0xC8000+i) 1
  have before := held.frames
  refine ⟨by omega,?_,held.available⟩
  intro other
  simp only [allocated,bit_setBit,held.reserved]
  by_cases here : other = 0xC8000+i
  · simp [here]
  · have same : (0xC8000 ≤ other ∧ other < 0xC8000+i) ↔ (0xC8000 ≤ other ∧ other < 0xC8000+(i+1)) := by omega
    simp only [here,decide_false,Bool.false_or,same]

theorem AfterArena.start (mm : Mm) : AfterArena mm 0 mm := by
  refine ⟨Nat.add_zero _,?_,rfl⟩
  intro page
  have empty : ¬ (0xC8000 ≤ page ∧ page < 0xC8000+0) := by omega
  simp only [empty,decide_false,Bool.false_or]

theorem arenaPages_eq : arenaPages = 5120 := by decide

theorem arenaPages_after (ran : repeated arenaPage arenaPages 0 mm = some next) : AfterArena mm arenaPages next := by
  have after := repeated_invariant (AfterArena mm) (fun i s next held taken => AfterArena.step held taken) (AfterArena.start mm) ran
  rwa [Nat.zero_add] at after

theorem arenaPages_return (enough : 5120 ≤ (freeFrames mm).card)
    (unreserved : ∀ page, 0xC8000 ≤ page → page < 0xC8000+5120 → bit mm.vmAllocBitmap page = false) :
    ∃ next, repeated arenaPage arenaPages 0 mm = some next := by
  have progress : ∀ i s, 0 ≤ i → i < 0+arenaPages → AfterArena mm i s →
      ∃ next, arenaPage s i = some next ∧ AfterArena mm (i+1) next := by
    intro i s _ below held
    rw [Nat.zero_add,arenaPages_eq] at below
    have frames := held.frames
    have free : bit s.vmAllocBitmap (0xC8000+i) = false := by
      rw [held.reserved,unreserved _ (by omega) (by omega)]
      simp
    obtain ⟨next,taken⟩ := arenaPage_returns (by omega) free
    exact ⟨next,taken,held.step taken⟩
  obtain ⟨next,ran,_⟩ := repeated_total (AfterArena mm) (AfterArena.start mm) progress
  exact ⟨next,ran⟩

-- A machine straight after the two inits: one free block, no page of the
-- window reserved.
structure Fresh (mm : Mm) (s : Allocator) : Prop where
  grown : Grown s.arena 1 (.leaf (nodeAt 0))
  free : (s.arena.node (nodeAt 0)).isAllocated = false
  frames : (freeFrames s.mm).card+5120 = (freeFrames mm).card
  window : ∀ page, 0x10000 ≤ page → page < 0x90000 → bit s.mm.vmAllocBitmap page = false
  available : s.mm.availableBlockCount = (freeFrames mm).card

theorem powerOn_reserved (ran : mmInit powerOn info = some (.noError,mm)) (outside : page < 0xC0000 ∨ 0xC8000 ≤ page) :
    bit mm.vmAllocBitmap page = false := by
  obtain ⟨detected,rfl⟩ := mmInit_reserves ran
  rw [bit]
  show (ByteMemory.fill powerOn.vmAllocBitmap 98304 102400 0xFF#8 (page/8)).getLsbD (page%8) = false
  rw [ByteMemory.fill_outside (by omega)]
  simp [powerOn]

theorem init_fresh (booted : mmInit powerOn info = some (.noError,mm)) (ran : buddyAllocatorInit mm old = some (.noError,s)) :
    Fresh mm s := by
  obtain ⟨paged,grown,free⟩ := init_grown ran
  obtain ⟨frames,reserved,available⟩ := arenaPages_after paged
  refine ⟨grown,free,?_,?_,?_⟩
  · rw [← arenaPages_eq]
    exact frames
  · intro page low high
    rw [reserved,powerOn_reserved booted (.inl (by omega))]
    have before : ¬ (0xC8000 ≤ page ∧ page < 0xC8000+arenaPages) := by omega
    simp only [before,decide_false,Bool.false_or]
  · obtain ⟨detected,rfl⟩ := mmInit_reserves booted
    rw [← reserveKernel_available]
    exact available

theorem Fresh.alloc {s : Allocator} (fresh : Fresh mm s) (paid : ¬ remMem s < len)
    (room : ∀ k ≤ 31, 12 ≤ k → Fitting len (2^k) ∨ k = 12 → 2^k/4096 ≤ (freeFrames s.mm).card) :
    ∃ node next k, buddyAllocatorAlloc s len = some (.ok (windowStart,node),next) ∧ Live next.arena node ∧
      (next.arena.node node).vaddr = windowStart ∧ (next.arena.node node).len = 2^k ∧
      k ≤ 31 ∧ 12 ≤ k ∧ (Fitting len (2^k) ∨ k = 12) := by
  obtain ⟨answer,arena,ran,outcome⟩ := findSpace_settles len (show 31-12 < searchDepth by decide) fresh.grown.planted
    (by decide) (by decide)
  have searched : findSpace len searchDepth s.arena.rootNode s.arena = some (answer,arena) := by
    rw [fresh.grown.root]
    exact ran
  rcases outcome with ⟨node,rfl,open_,first⟩ | ⟨_,_,taken⟩
  · have start : (arena.node node).vaddr = windowStart := (first (nodeAt 0) rfl).trans fresh.grown.planted.holds.2.2.1
    obtain ⟨n',t',_,grown,found⟩ := fresh.grown.search searched
    obtain ⟨b,leaf,rfl,_,size,_⟩ := found node rfl
    obtain ⟨_,_,least,level,_⟩ := leaf_inside grown.planted.fits leaf
    obtain ⟨_,len_,_,high,_,_,c,multiple⟩ := grown.block leaf
    have rounds : pageCount (2^b.level) = c := by
      rw [multiple,pageCount]
      omega
    have enough : c ≤ (freeFrames s.mm).card := by
      have bound := room b.level level least size
      rwa [multiple,Nat.mul_div_cancel_left _ (by decide)] at bound
    have below : c ≤ 524288 := by
      have top : 2^b.level ≤ 2^31 := Nat.pow_le_pow_right (by decide) level
      omega
    obtain ⟨backed,paged⟩ := allocPages_returns enough (show windowStart%4096 = 0 by decide)
      (by unfold windowStart word; omega) (fun k small => fresh.window _ (by unfold windowStart; omega) (by unfold windowStart; omega))
    refine ⟨b.label,⟨backed,markAllocated arena b.label true⟩,b.level,?_,⟨?_,?_⟩,?_,?_,level,least,size⟩
    · rw [buddyAllocatorAlloc,if_neg paid,searched]
      simp only [len_,start,rounds,paged]
    · exact (grown.mark (fun _ => ⟨b,leaf,rfl⟩)).label_node (leaf_label leaf)
    · simp [markAllocated_flag]
    · rw [(markAllocated_same arena b.label true b.label).vaddr,start]
    · rw [(markAllocated_same arena b.label true b.label).len,len_]
  · have free := fresh.free
    rw [taken (nodeAt 0) rfl] at free
    cases free

end KaracaOS.BuddyPages
