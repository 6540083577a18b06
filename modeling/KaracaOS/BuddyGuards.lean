import KaracaOS.BuddySearch

namespace KaracaOS.BuddyGuards
open Bitmap Paging MemoryManager BootMap BuddyArena BuddyTree BuddyAllocator BuddyPages BuddySearch DyadicTree StepRuns

variable {mm next : Mm} {a : Arena} {n pages i len : Nat} {t : DyadicTree Nat}

-- A run of pages taken one after the other, each with a frame.
structure Claimed (mm next : Mm) (first pages : Nat) : Prop where
  virtual : ∀ page, bit next.vmAllocBitmap page = (decide (first ≤ page ∧ page < first+pages) || bit mm.vmAllocBitmap page)
  frames : (freeFrames next).card+pages = (freeFrames mm).card
  available : next.availableBlockCount = mm.availableBlockCount

theorem Claimed.none (mm : Mm) (first : Nat) : Claimed mm mm first 0 := by
  refine ⟨?_,Nat.add_zero _,rfl⟩
  intro page
  have empty : ¬ (first ≤ page ∧ page < first+0) := by omega
  simp only [empty,decide_false,Bool.false_or]

theorem Claimed.cons (free : FirstFree mm f) (rest : Claimed (allocated mm first f 1) next (first+1) pages) :
    Claimed mm next first (pages+1) := by
  have count := freeFrames_allocated free first 1
  have frames := rest.frames
  refine ⟨?_,by omega,rest.available⟩
  intro page
  have split : (first ≤ page ∧ page < first+(pages+1)) ↔ (first+1 ≤ page ∧ page < first+1+pages) ∨ page = first := by omega
  rw [rest.virtual page]
  simp only [allocated,bit_setBit,split,Bool.decide_or,Bool.or_assoc]

-- Everything the page loop can come back with: it got through, or it stopped at
-- the first page that is reserved already and keeps the pages before it.
inductive Ended (mm next : Mm) (first pages : Nat) : SysRet → Prop where
  | through : (∀ k < pages, bit mm.vmAllocBitmap (first+k) = false) → Claimed mm next first pages → Ended mm next first pages .noError
  | stopped : j < pages → (∀ k < j, bit mm.vmAllocBitmap (first+k) = false) → bit mm.vmAllocBitmap (first+j) = true →
      Claimed mm next first j → (j = 0 → next = mm) → Ended mm next first pages .memAllocError

theorem Ended.cons (free : FirstFree mm f) (unreserved : bit mm.vmAllocBitmap first = false)
    (rest : Ended (allocated mm first f 1) next (first+1) pages ret) : Ended mm next first (pages+1) ret := by
  have same : ∀ k, bit (allocated mm first f 1).vmAllocBitmap (first+1+k) = bit mm.vmAllocBitmap (first+(k+1)) := by
    intro k
    rw [show first+1+k = first+(k+1) by omega]
    simp [allocated]
  have before : ∀ {m}, (∀ k < m, bit (allocated mm first f 1).vmAllocBitmap (first+1+k) = false) →
      ∀ k < m+1, bit mm.vmAllocBitmap (first+k) = false := by
    intro m clear k below
    cases k with
    | zero => exact unreserved
    | succ k =>
      rw [← same k]
      exact clear k (by omega)
  cases rest with
  | through clear claimed => exact .through (before clear) (.cons free claimed)
  | @stopped j below clear set claimed _ =>
    refine .stopped (j := j+1) (by omega) (before clear) ?_ (.cons free claimed) (fun zero => by omega)
    rw [← same j]
    exact set

theorem allocPages_ended (aligned : i%4096 = 0) (low : i+pages*4096 ≤ word) (ran : allocPages pages i mm = some (ret,next)) :
    Ended mm next (i/4096) pages ret := by
  replace ran := allocPages_rounds ran
  induction ran with
  | through => exact .through (fun k below => by omega) (.none _ _)
  | stopped reserved =>
    rw [Nat.mod_eq_of_lt (show _ < word by omega)] at reserved
    exact .stopped (j := 0) (Nat.succ_pos _) (fun k below => by omega) reserved (.none _ _) (fun _ => rfl)
  | @taken i mm j pages ret next unreserved free _ ih =>
    have small : i%word = i := Nat.mod_eq_of_lt (by omega)
    rw [small] at unreserved ih
    have rest := ih (by omega) (by omega)
    rw [show (i+4096)/4096 = i/4096+1 by omega] at rest
    exact .cons free unreserved rest

-- The calls of both allocators in any order. The arena and the kernel's own
-- memory are taken to stay where they are, whatever is mapped or unmapped.
inductive Call where
  | mmAlloc (vaddr size : Nat)
  | mmFree (addr : Nat)
  | alloc (len : Nat)
  deriving DecidableEq, Repr

def serve (s : Allocator) : Call → Option Allocator
  | .mmAlloc vaddr size => (mmAlloc s.mm vaddr size).map fun (_,mm) => ⟨mm,s.arena⟩
  | .mmFree addr => some ⟨(mmFree s.mm addr).2,s.arena⟩
  | .alloc len => (buddyAllocatorAlloc s len).map Prod.snd

def Call.Proper : Call → Prop
  | .mmAlloc vaddr size => vaddr < word ∧ size < word
  | .mmFree addr => addr < word
  | .alloc len => len < word

def Started (s : Allocator) : Prop :=
  ∃ info mm old, mmInit powerOn info = some (.noError,mm) ∧ buddyAllocatorInit mm old = some (.noError,s)

def Tended (s : Allocator) : Prop := ∃ n t, Grown s.arena n t

variable {s after : Allocator}

theorem Tended.alloc (tended : Tended s) (ran : buddyAllocatorAlloc s len = some (result,after)) : Tended after := by
  obtain ⟨n,t,grown⟩ := tended
  cases alloc_cases ran with
  | refused _ => exact ⟨n,t,grown⟩
  | unfound _ searched =>
    obtain ⟨n',t',_,grown',_⟩ := grown.search searched
    exact ⟨n',t',grown'⟩
  | unbacked _ searched _ _ =>
    obtain ⟨n',t',_,grown',_⟩ := grown.search searched
    exact ⟨n',t',grown'⟩
  | done _ searched _ =>
    obtain ⟨n',t',_,grown',found⟩ := grown.search searched
    obtain ⟨b,leaf,rfl,_⟩ := found _ rfl
    exact ⟨n',t',grown'.mark (fun _ => ⟨b,leaf,rfl⟩)⟩

theorem reached_tended (path : Reached Started serve admits s) : Tended s := by
  refine path.invariant Tended ?_ ?_
  · rintro s ⟨info,mm,old,_,ran⟩
    exact ⟨_,_,(init_grown ran).2.1⟩
  · intro s call next tended _ taken
    cases call with
    | mmAlloc vaddr size =>
      obtain ⟨_,_,rfl⟩ := Option.map_eq_some_iff.mp taken
      exact tended
    | mmFree addr =>
      cases Option.some.inj taken
      exact tended
    | alloc len =>
      obtain ⟨⟨result,next⟩,ran,rfl⟩ := Option.map_eq_some_iff.mp taken
      exact tended.alloc ran

-- What a failed request should leave behind.
structure Restored (s next : Allocator) : Prop where
  physical : next.mm.pageAllocBitmap = s.mm.pageAllocBitmap
  virtual : next.mm.vmAllocBitmap = s.mm.vmAllocBitmap
  tables : next.mm.tables = s.mm.tables
  flags : ∀ p, Node s.arena p → (next.arena.node p).isAllocated = (s.arena.node p).isAllocated
  fresh : ∀ p, Node next.arena p → ¬ Node s.arena p → (next.arena.node p).isAllocated = false

theorem picked_range (grown : Grown a n t) (ran : findSpace len searchDepth a.rootNode a = some (.ok q,b)) :
    (b.node q).vaddr%4096 = 0 ∧ (b.node q).vaddr+pageCount (b.node q).len*4096 ≤ word ∧
      pageCount (b.node q).len = (b.node q).len/4096 := by
  obtain ⟨n',t',_,grown',found⟩ := grown.search ran
  obtain ⟨c,leaf,rfl,_⟩ := found q rfl
  obtain ⟨start,size,_,high,aligned,_,m,multiple⟩ := grown'.block leaf
  rw [start,size]
  unfold pageCount word
  refine ⟨aligned,?_,?_⟩ <;> omega

-- A machine of 64 MiB with one page of the window taken by mm_alloc.
structure OnePage (s : Allocator) (page : Nat) : Prop where
  grown : Grown s.arena 1 (.leaf (nodeAt 0))
  free : (s.arena.node (nodeAt 0)).isAllocated = false
  reserved : ∀ other, 0x10000 ≤ other → other < 0x90000 → bit s.mm.vmAllocBitmap other = decide (other = page)
  frames : 2 ≤ (freeFrames s.mm).card
  counted : ¬ remMem s < 65536

theorem OnePage.first {page : Nat} (machine : OnePage s page) (level : size ≤ 31) :
    FirstOffered s.arena size (nodeAt 0) ∧ (s.arena.node (nodeAt 0)).vaddr/4096 = 0x10000 ∧
      (12 ≤ size → RoomFor s.arena size (nodeAt 0)) := by
  obtain ⟨_,_,start,_⟩ := machine.grown.planted.holds
  refine ⟨window_first machine.grown machine.free level,?_,window_room machine.grown⟩
  rw [start]
  rfl

end KaracaOS.BuddyGuards
