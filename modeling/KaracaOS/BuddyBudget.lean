import KaracaOS.BuddyGuards

namespace KaracaOS.BuddyBudget
open Bitmap Paging MemoryManager BootMap BuddyArena BuddyTree BuddyAllocator BuddyPages BuddyRuns BuddySearch DyadicTree StepRuns
open BuddyGuards (Ended allocPages_ended picked_range)

variable {s next : System} {n len : Nat} {t : DyadicTree Nat}

def nodePages (a : Arena) (p : Nat) : Nat := (a.node p).len/4096

def heldPages (s : System) : Nat := (s.live.map (nodePages s.allocator.arena)).sum

-- The books of a run of allocations: whatever mm_init counted is free, below
-- the arena or in a block that was handed out.
structure Booked (s : System) (n : Nat) (t : DyadicTree Nat) : Prop where
  tree : Held s n t
  window : ∀ page, 0x10000 ≤ page → page < 0x90000 → bit s.allocator.mm.vmAllocBitmap page = true →
    ∃ p ∈ s.live, page ∈ pagesOf s.allocator.arena p
  books : (freeFrames s.allocator.mm).card+5120+heldPages s = s.allocator.mm.availableBlockCount

theorem started_booked (start : Started s) : Booked s 1 (.leaf (nodeAt 0)) := by
  have tree := started_held start
  obtain ⟨none_,info,mm,old,booted,ran⟩ := start
  have fresh := init_fresh booted ran
  refine ⟨tree,?_,?_⟩
  · intro page low high set
    rw [fresh.window page low high] at set
    cases set
  · rw [fresh.available,← fresh.frames,heldPages,none_,List.map_nil,List.sum_nil,Nat.add_zero]

theorem Booked.explored (booked : Booked s n t) (explored : Explored s.allocator.arena b n n' t t' windowStart 31) :
    Booked ⟨⟨s.allocator.mm,b⟩,s.live⟩ n' t' := by
  have kept : ∀ p ∈ s.live, (b.node p).vaddr = (s.allocator.arena.node p).vaddr ∧ (b.node p).len = (s.allocator.arena.node p).len := by
    intro p member
    exact (explored.kept p (booked.tree.grown.planted.bounded p (booked.tree.live p member).1)).2
  refine ⟨booked.tree.explored explored _,?_,?_⟩
  · intro page low high set
    obtain ⟨p,member,inside⟩ := booked.window page low high set
    obtain ⟨start,size⟩ := kept p member
    refine ⟨p,member,?_⟩
    show (b.node p).vaddr/4096 ≤ page ∧ page < ((b.node p).vaddr+(b.node p).len)/4096
    rw [start,size]
    exact inside
  · have same : s.live.map (nodePages b) = s.live.map (nodePages s.allocator.arena) := by
      refine List.map_congr_left ?_
      intro p member
      rw [nodePages,nodePages,(kept p member).2]
    rw [← booked.books]
    show _+_+(s.live.map (nodePages b)).sum = _
    rw [same]
    rfl

theorem Booked.clear (booked : Booked s n t) (leaf : b ∈ leaves t windowStart 31) (free : (s.allocator.arena.node b.label).isAllocated = false)
    (low : b.start/4096 ≤ page) (high : page < (b.start+2^b.level)/4096) : bit s.allocator.mm.vmAllocBitmap page = false := by
  obtain ⟨_,_,bottom,top,aligned,_,m,multiple⟩ := booked.tree.grown.block leaf
  cases set : bit s.allocator.mm.vmAllocBitmap page with
  | false => rfl
  | true =>
    obtain ⟨p,member,above,below⟩ := booked.window page (by omega) (by omega) set
    obtain ⟨label,flag⟩ := booked.tree.live p member
    obtain ⟨c,other,rfl⟩ := booked.tree.grown.marked p label flag
    obtain ⟨start,size,_,_,aligned',_,m',multiple'⟩ := booked.tree.grown.block other
    rw [start] at above
    rw [start,size] at below
    have differ : b ≠ c := by
      rintro rfl
      rw [flag] at free
      cases free
    have apart := leaves_apart booked.tree.grown.planted.fits leaf other differ
    exact absurd ⟨page*4096,⟨by omega,by omega⟩,by omega,by omega⟩ apart

theorem Booked.paged (booked : Booked ⟨⟨mm,a⟩,blocks⟩ n t) (leaf : b ∈ leaves t windowStart 31)
    (free : (a.node b.label).isAllocated = false) (ended : Ended mm mm' (b.start/4096) (2^b.level/4096) ret) :
    ret = .noError ∧ Booked ⟨⟨mm',markAllocated a b.label true⟩,b.label::blocks⟩ n t := by
  obtain ⟨start,size,bottom,top,aligned,_,m,multiple⟩ := booked.tree.grown.block leaf
  have start : (a.node b.label).vaddr = b.start := start
  have size : (a.node b.label).len = 2^b.level := size
  have clear : ∀ k < 2^b.level/4096, bit mm.vmAllocBitmap (b.start/4096+k) = false := by
    intro k below
    exact booked.clear leaf free (by omega) (by omega)
  cases ended with
  | @stopped j below _ set _ _ =>
    rw [clear j below] at set
    cases set
  | through _ claimed =>
    have counted : nodePages (markAllocated a b.label true) = nodePages a := by
      funext p
      rw [nodePages,nodePages,(markAllocated_same a b.label true p).len]
    have tree : Held ⟨⟨mm',a⟩,blocks⟩ n t := ⟨booked.tree.grown,booked.tree.live,booked.tree.distinct⟩
    refine ⟨rfl,tree.mark leaf free,?_,?_⟩
    · intro page low high set
      have set : bit mm'.vmAllocBitmap page = true := set
      rw [claimed.virtual page,Bool.or_eq_true,decide_eq_true_eq] at set
      rcases set with ⟨above,below⟩ | old
      · refine ⟨b.label,List.mem_cons_self,?_⟩
        show page ∈ pagesOf (markAllocated a b.label true) b.label
        rw [pagesOf_mark]
        show (a.node b.label).vaddr/4096 ≤ page ∧ page < ((a.node b.label).vaddr+(a.node b.label).len)/4096
        rw [start,size]
        omega
      · obtain ⟨p,member,inside⟩ := booked.window page low high old
        refine ⟨p,List.mem_cons_of_mem _ member,?_⟩
        show page ∈ pagesOf (markAllocated a b.label true) p
        rw [pagesOf_mark]
        exact inside
    · have frames := claimed.frames
      have books : (freeFrames mm).card+5120+(blocks.map (nodePages a)).sum = mm.availableBlockCount := booked.books
      show (freeFrames mm').card+5120+((b.label::blocks).map (nodePages (markAllocated a b.label true))).sum = mm'.availableBlockCount
      rw [counted,List.map_cons,List.sum_cons,claimed.available,nodePages,size]
      omega

theorem Booked.found (booked : Booked s n t)
    (searched : findSpace len searchDepth s.allocator.arena.rootNode s.allocator.arena = some (.ok node,arena))
    (paged : allocPages (pageCount (arena.node node).len) (arena.node node).vaddr s.allocator.mm = some (ret,mm)) :
    ret = .noError ∧ ∃ n' t', Booked ⟨⟨mm,markAllocated arena node true⟩,node::s.live⟩ n' t' := by
  obtain ⟨n',t',explored,grown,found⟩ := booked.tree.grown.search searched
  obtain ⟨b,leaf,rfl,free,_⟩ := found node rfl
  obtain ⟨aligned,low,rounds⟩ := picked_range booked.tree.grown searched
  have ended := allocPages_ended aligned low paged
  rw [rounds,(grown.block leaf).1,(grown.block leaf).2.1] at ended
  obtain ⟨good,after⟩ := (booked.explored explored).paged leaf free ended
  exact ⟨good,n',t',after⟩

theorem Booked.alloc (booked : Booked s n t) (taken : serve s (.alloc len) = some next) : ∃ n' t', Booked next n' t' := by
  cases serve_alloc taken with
  | refused _ => exact ⟨n,t,booked⟩
  | unfound searched =>
    obtain ⟨n',t',explored,_,_⟩ := booked.tree.grown.search searched
    exact ⟨n',t',booked.explored explored⟩
  | unbacked searched paged bad => exact absurd (booked.found searched paged).1 bad
  | done searched paged => exact (booked.found searched paged).2

def Kept (s : System) : Prop := ∃ n t, Booked s n t

theorem reached_kept (path : Reached Started serve (fun _ r => r.Proper ∧ r.IsAlloc) s) : Kept s := by
  refine path.invariant Kept (fun s start => ⟨_,_,started_booked start⟩) ?_
  rintro s request next ⟨n,t,booked⟩ ⟨_,allocates⟩ taken
  cases request with
  | alloc len => exact booked.alloc taken
  | free addr => cases allocates

-- Once the test has passed, there is a free frame for each page of the block.
def GuardHolds (s : Allocator) (len : Nat) : Prop :=
  ¬ remMem s < len → ∀ q arena, findSpace len searchDepth s.arena.rootNode s.arena = some (.ok q,arena) →
    (arena.node q).len/4096 ≤ (freeFrames s.mm).card

-- The test passes and there is a block, but the arena, the blocks handed out
-- and the new one come to more frames than mm_init counted.
def Overdrawn (s : System) (len : Nat) : Prop :=
  ¬ remMem s.allocator < len ∧
  (∃ p, FirstOffered s.allocator.arena (blockLevel len) p ∧ RoomFor s.allocator.arena (blockLevel len) p) ∧
  s.allocator.mm.availableBlockCount < 5120+heldPages s+2^blockLevel len/4096

theorem Booked.guard_iff (booked : Booked s n t) (len : Nat) : GuardHolds s.allocator len ↔ ¬ Overdrawn s len := by
  have books := booked.books
  have grown := booked.tree.grown
  constructor
  · rintro holds ⟨paid,⟨p,first,room⟩,short⟩
    obtain ⟨q,arena,searched,picked⟩ := (search_offered grown first).1 room
    have enough := holds paid q arena searched
    rw [picked.len] at enough
    omega
  · intro covered paid q arena searched
    obtain ⟨p,first,room,picked⟩ := search_found grown searched
    rw [picked.len]
    by_contra short
    exact covered ⟨paid,⟨p,first,room⟩,by omega⟩

theorem guard_covers_block_iff (path : Reached Started serve (fun _ r => r.Proper ∧ r.IsAlloc) s) (len : Nat) :
    GuardHolds s.allocator len ↔ ¬ Overdrawn s len := by
  obtain ⟨n,t,booked⟩ := reached_kept path
  exact booked.guard_iff len

theorem small_budget : ∃ s, Started s ∧ s.live = [] ∧ s.allocator.mm.availableBlockCount = 16392 ∧
    ∀ size ≤ 31, 12 ≤ size → ∃ p, FirstOffered s.allocator.arena size p ∧ RoomFor s.allocator.arena size p := by
  obtain ⟨mm,s,_,card,started,empty,fresh⟩ := small_machine
  refine ⟨s,started,empty,fresh.available.trans card,?_⟩
  intro size level least
  exact ⟨nodeAt 0,window_first fresh.grown fresh.free level,window_room fresh.grown least⟩

theorem page_within_budget : ∃ s, Reached Started serve (fun _ r => r.Proper ∧ r.IsAlloc) s ∧ ¬ remMem s.allocator < 100 ∧
    (∃ q arena, findSpace 100 searchDepth s.allocator.arena.rootNode s.allocator.arena = some (.ok q,arena)) ∧
    GuardHolds s.allocator 100 := by
  obtain ⟨s,started,empty,available,first⟩ := small_budget
  have level : blockLevel 100 = 12 := blockLevel_small (by decide)
  obtain ⟨p,lowest,room⟩ := first 12 (by decide) (by decide)
  rw [← level] at lowest room
  obtain ⟨q,arena,searched,_⟩ := (search_offered (started_held started).grown lowest).1 room
  refine ⟨s,.start started,?_,⟨q,arena,searched⟩,(guard_covers_block_iff (.start started) 100).mpr ?_⟩
  · rw [remMem,available]
    decide
  · rintro ⟨_,_,short⟩
    rw [available,heldPages,empty,level,List.map_nil,List.sum_nil] at short
    exact absurd short (by decide)

-- 40 MiB are less than the 64 MiB counted, but the block has 128 MiB.
theorem guard_lets_large_block_through : ∃ s, Reached Started serve (fun _ r => r.Proper ∧ r.IsAlloc) s ∧
    ¬ GuardHolds s.allocator 41943040 := by
  obtain ⟨s,started,empty,available,first⟩ := small_budget
  have level : blockLevel 41943040 = 27 := by decide
  obtain ⟨p,lowest,room⟩ := first 27 (by decide) (by decide)
  rw [← level] at lowest room
  refine ⟨s,.start started,fun holds => ((started_booked started).guard_iff 41943040).mp holds ⟨?_,⟨p,lowest,room⟩,?_⟩⟩
  · rw [remMem,available]
    decide
  · rw [available,heldPages,empty,level,List.map_nil,List.sum_nil]
    decide

end KaracaOS.BuddyBudget
