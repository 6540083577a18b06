import KaracaOS.BuddySizes
import KaracaOS.ReservedFrames

namespace KaracaOS.FrameCounter
open Bitmap Paging MemoryManager BootMap BuddyArena BuddyTree BuddyAllocator BuddyPages BuddySizes ReservedFrames StepRuns

-- All the operations that change mm_page_alloc_bitmap, in any order. The tree's
-- memory holds anything before buddy_allocator__init.
inductive Operation where
  | mmAlloc (vaddr size : Nat)
  | mmFree (addr : Nat)
  | init
  | alloc (len : Nat)
  | free (addr : Nat)
  deriving DecidableEq, Repr

def operate (s : Allocator) : Operation → Option Allocator
  | .mmAlloc vaddr size => (mmAlloc s.mm vaddr size).map (fun outcome => ⟨outcome.2,s.arena⟩)
  | .mmFree addr => some ⟨(mmFree s.mm addr).2,s.arena⟩
  | .init => (buddyAllocatorInit s.mm s.arena).map Prod.snd
  | .alloc len => (buddyAllocatorAlloc s len).map Prod.snd
  | .free addr => (buddyAllocatorFree s addr).map Prod.snd

def CounterExact (s : Mm) : Prop := s.availableBlockCount = (freeFrames s).card

-- The page loop stops at its first page, which is reserved already.
def BlockRefused (s : Allocator) (info : TreeNode) : Prop :=
  pageCount info.len = 0 ∨ bit s.mm.vmAllocBitmap (info.vaddr%word/4096) = true

-- Freeing the pages clears no bit that is not clear already.
def PagesFree (s : Mm) (first pages : Nat) : Prop :=
  ∀ page, first ≤ page → page < first+pages → bit s.pageAllocBitmap (frame s.tables page) = false

-- No frame changes hands.
def Idle (s : Allocator) : Operation → Prop
  | .mmAlloc vaddr _ => bit s.mm.vmAllocBitmap (vaddr/4096) = true
  | .mmFree addr => PagesFree s.mm (addr/4096) 1
  | .init => False
  | .alloc len => remMem s < len ∨
      ∀ node arena, findSpace len searchDepth s.arena.rootNode s.arena = some (.ok node,arena) → BlockRefused s (arena.node node)
  | .free addr =>
    let root := s.arena.node s.arena.rootNode
    root.vaddr = addr → PagesFree s.mm (root.vaddr/4096) (pageCount ((root.vaddr+root.len)%word-root.vaddr))

theorem frame_inside (t : Tables) (page : Nat) : frame t page < frameCount := by
  have small := (t.pageTables (page*4096/4096) &&& ~~~0xFFF#32).isLt
  unfold frame archPagingVirtToPhys frameCount
  omega

theorem rounds_count (rounds : Rounds pages i mm ret next) : (freeFrames next).card ≤ (freeFrames mm).card := by
  induction rounds with
  | through => exact Nat.le_refl _
  | stopped _ => exact Nat.le_refl _
  | @taken i mm j pages ret next _ first _ ih =>
    have count := freeFrames_allocated first (i%word/4096) 1
    omega

theorem allocPages_idle (ran : allocPages pages i mm = some (ret,next)) :
    (freeFrames next).card = (freeFrames mm).card ↔ pages = 0 ∨ bit mm.vmAllocBitmap (i%word/4096) = true := by
  cases allocPages_rounds ran with
  | through => simp
  | stopped reserved => simp [reserved]
  | taken unreserved first rest =>
    have count := freeFrames_allocated first (i%word/4096) 1
    have fewer := rounds_count rest
    simp only [unreserved,Nat.succ_ne_zero,Bool.false_eq_true,or_self,iff_false]
    omega

theorem given_idle (given : Given mm next first pages) : (freeFrames next).card = (freeFrames mm).card ↔ PagesFree mm first pages := by
  have grows : freeFrames mm ⊆ freeFrames next := by
    intro f member
    obtain ⟨inside,clear⟩ := mem_clearSet.mp member
    refine mem_clearSet.mpr ⟨inside,?_⟩
    by_contra set
    have before := ((given.physical f).mp (by simpa using set)).1
    rw [clear] at before
    cases before
  constructor
  · intro count page low high
    have same : freeFrames mm = freeFrames next := Finset.eq_of_subset_of_card_le grows (Nat.le_of_eq count)
    have cleared : frame mm.tables page ∈ freeFrames next := by
      refine mem_clearSet.mpr ⟨frame_inside _ _,?_⟩
      by_contra set
      exact ((given.physical _).mp (by simpa using set)).2 page low high rfl
    rw [← same] at cleared
    exact (mem_clearSet.mp cleared).2
  · intro free
    refine congrArg Finset.card (Finset.Subset.antisymm ?_ grows)
    intro f member
    obtain ⟨inside,clear⟩ := mem_clearSet.mp member
    refine mem_clearSet.mpr ⟨inside,?_⟩
    by_contra set
    have set : bit mm.pageAllocBitmap f = true := by simpa using set
    have kept := (given.physical f).mpr ⟨set,?_⟩
    · rw [clear] at kept
      cases kept
    · intro page low high same
      rw [← same,free page low high] at set
      cases set

theorem exact_iff (exact_ : CounterExact mm) (kept : next.availableBlockCount = mm.availableBlockCount) :
    CounterExact next ↔ (freeFrames next).card = (freeFrames mm).card := by
  unfold CounterExact at exact_ ⊢
  rw [kept,exact_]
  exact eq_comm

theorem mmFree_available (s : Mm) (addr : Nat) : (mmFree s addr).2.availableBlockCount = s.availableBlockCount := rfl

theorem mmAlloc_idle (exact_ : CounterExact s) (called : mmAlloc s vaddr size = some (result,next)) :
    CounterExact next ↔ bit s.vmAllocBitmap (vaddr/4096) = true := by
  rcases mmAlloc_cases called with ⟨reserved,_,rfl⟩ | ⟨j,unreserved,first,_,rfl⟩
  · simp [reserved,exact_]
  · have count := freeFrames_allocated first (vaddr/4096) (sizeInBlocks size)
    rw [exact_iff exact_ (by rfl),unreserved]
    simp only [Bool.false_eq_true,iff_false]
    omega

theorem init_idle {s : Allocator} (exact_ : CounterExact s.mm) (called : buddyAllocatorInit s.mm s.arena = some (ret,next)) : ¬ CounterExact next.mm := by
  unfold buddyAllocatorInit at called
  split at called
  · cases called
  · rename_i mm paged
    obtain ⟨frames,_,available⟩ := arenaPages_after paged
    have after : next.mm = mm := by
      split at called
      · cases called
      · cases Option.some.inj called
        rfl
      · cases Option.some.inj called
        rfl
    rw [after,exact_iff exact_ available]
    rw [arenaPages_eq] at frames
    omega

theorem alloc_idle {s : Allocator} (exact_ : CounterExact s.mm) (called : buddyAllocatorAlloc s len = some (result,next)) :
    CounterExact next.mm ↔ Idle s (.alloc len) := by
  cases alloc_cases called with
  | refused short => simp [Idle,short,exact_]
  | unfound enough found => simp [Idle,found,exact_]
  | unbacked enough found paged _ =>
    rw [exact_iff exact_ (allocPages_available paged),allocPages_idle paged]
    simp [Idle,BlockRefused,enough,found]
  | done enough found paged =>
    rw [exact_iff exact_ (allocPages_available paged),allocPages_idle paged]
    simp [Idle,BlockRefused,enough,found]

theorem freeWalk_found (walked : freeWalk a info addr fuel node = some .noError) : (a.node info).vaddr = addr := by
  induction fuel generalizing node with
  | zero => cases walked
  | succ fuel ih =>
    by_cases here : (a.node info).vaddr = addr
    · exact here
    · rw [freeWalk,if_neg here] at walked
      dsimp only at walked
      by_cases stop : (if (a.node info).vaddr < addr then (a.node node).right
          else if addr < (a.node info).vaddr then (a.node node).left else node) = 0
      · rw [if_pos stop] at walked
        cases walked
      · rw [if_neg stop] at walked
        exact ih walked

theorem free_idle {s : Allocator} (exact_ : CounterExact s.mm) (called : buddyAllocatorFree s addr = some (ret,next)) :
    CounterExact next.mm ↔ Idle s (.free addr) := by
  unfold buddyAllocatorFree at called
  dsimp only at called
  by_cases here : (s.arena.node s.arena.rootNode).vaddr = addr
  · have walk : freeWalk s.arena s.arena.rootNode addr searchDepth s.arena.rootNode = some .noError :=
      freeWalk_start s.arena here 32 _
    simp only [walk] at called
    cases Option.some.inj called
    rw [exact_iff exact_ (freePages_available _ _ _),given_idle freePages_given]
    simp [Idle,here]
  · split at called
    · cases called
    · rename_i walked
      exact absurd (freeWalk_found walked) here
    · cases Option.some.inj called
      simp [Idle,here,exact_]

theorem operate_idle (exact_ : CounterExact s.mm) (taken : operate s operation = some next) :
    CounterExact next.mm ↔ Idle s operation := by
  cases operation with
  | mmAlloc vaddr size =>
    obtain ⟨⟨result,mm⟩,called,rfl⟩ := Option.map_eq_some_iff.mp taken
    exact mmAlloc_idle exact_ called
  | mmFree addr =>
    cases Option.some.inj taken
    show CounterExact (mmFree s.mm addr).2 ↔ PagesFree s.mm (addr/4096) 1
    rw [exact_iff exact_ (mmFree_available s.mm addr)]
    exact given_idle (mmFree_given s.mm addr)
  | init =>
    obtain ⟨⟨ret,after⟩,called,rfl⟩ := Option.map_eq_some_iff.mp taken
    exact ⟨init_idle exact_ called,False.elim⟩
  | alloc len =>
    obtain ⟨⟨result,after⟩,called,rfl⟩ := Option.map_eq_some_iff.mp taken
    exact alloc_idle exact_ called
  | free addr =>
    obtain ⟨⟨ret,after⟩,called,rfl⟩ := Option.map_eq_some_iff.mp taken
    exact free_idle exact_ called

def MmReady (s : Allocator) : Prop := Ready s.mm

theorem ready_exact (s : Allocator) (ready : MmReady s) : CounterExact s.mm := by
  obtain ⟨before,info,ran⟩ := ready
  obtain ⟨detected,equal⟩ := mmInit_reserves ran
  rw [equal]
  exact reserveKernel_available before detected

-- The first operation that moves a frame leaves the counter behind.
theorem counter_exact_while_idle (path : Reached MmReady operate Idle s) :
    CounterExact s.mm ∧ ∀ operation next, operate s operation = some next → (CounterExact next.mm ↔ Idle s operation) := by
  have exact_ : CounterExact s.mm := by
    refine path.invariant (fun s => CounterExact s.mm) ready_exact ?_
    intro s operation next exact_ idle taken
    exact (operate_idle exact_ taken).mpr idle
  exact ⟨exact_,fun operation next taken => operate_idle exact_ taken⟩

theorem identity_frame : frame powerOn.tables 16384 = 16384 := by
  decide

-- A page of the kernel is refused, and 0x4000000 is mapped onto a free frame from the start.
theorem counter_exact_while_idle_twice : ∃ start s, MmReady start ∧
    follow operate start [.mmAlloc 0xC0000000 4096,.mmFree 0x4000000] = some s ∧
      Reached MmReady operate Idle s ∧ CounterExact s.mm := by
  obtain ⟨mm,⟨_,info,ran⟩,first,_,reserved⟩ := FrameRuns.plainRam_booted
  have tables : mm.tables = powerOn.tables := by
    obtain ⟨detected,rfl⟩ := mmInit_reserves ran
    rfl
  let memory : Arena := ⟨fun _ => 0,fun _ => 0,fun _ => ⟨0,0,0,false,false,0,0,false⟩,0⟩
  have ready : MmReady ⟨mm,memory⟩ := ⟨_,info,ran⟩
  have kernel : bit mm.vmAllocBitmap (0xC0000000/4096) = true := by
    rw [reserved]
    decide
  have taken : operate ⟨mm,memory⟩ (.mmAlloc 0xC0000000 4096) = some ⟨mm,memory⟩ := by
    simp only [operate,mmAlloc_taken kernel,Option.map_some]
  have path : Reached MmReady operate Idle ⟨(mmFree mm 0x4000000).2,memory⟩ := by
    refine ((Reached.start ready).extend (.mmAlloc 0xC0000000 4096) kernel taken).extend (.mmFree 0x4000000) ?_ rfl
    intro page low high
    have here : page = 16384 := by omega
    rw [here,tables,identity_frame]
    exact first.2.1
  refine ⟨⟨mm,memory⟩,_,ready,?_,path,(counter_exact_while_idle path).1⟩
  simp only [follow,List.foldlM_cons,taken,List.foldlM_nil]
  rfl

theorem first_mmAlloc_uncounted : ∃ start s, MmReady start ∧
    operate start (.mmAlloc 0x10000000 4096) = some s ∧ Reached MmReady operate any s ∧ ¬ CounterExact s.mm := by
  obtain ⟨mm,⟨_,info,ran⟩,first,_,reserved⟩ := FrameRuns.plainRam_booted
  let memory : Arena := ⟨fun _ => 0,fun _ => 0,fun _ => ⟨0,0,0,false,false,0,0,false⟩,0⟩
  have ready : MmReady ⟨mm,memory⟩ := ⟨_,info,ran⟩
  have unreserved : bit mm.vmAllocBitmap (0x10000000/4096) = false := by
    rw [reserved]
    decide
  have called : mmAlloc mm 0x10000000 4096 = some (.ok 0x10000000,allocated mm 65536 16384 1) := mmAlloc_fresh unreserved first
  have taken : operate ⟨mm,memory⟩ (.mmAlloc 0x10000000 4096) = some ⟨allocated mm 65536 16384 1,memory⟩ := by
    simp only [operate,called,Option.map_some]
  refine ⟨_,_,ready,taken,(Reached.start ready).extend _ trivial taken,?_⟩
  intro exact_
  rw [mmAlloc_idle (ready_exact _ ready) called,unreserved] at exact_
  cases exact_

end KaracaOS.FrameCounter
