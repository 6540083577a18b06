import KaracaOS.StepRuns
import KaracaOS.BootMap

namespace KaracaOS.FrameRuns
open Bitmap Paging MemoryManager BootMap StepRuns

-- Who holds what: the address a successful mm_alloc returned and the number of
-- pages its loop mapped, until the address is given to mm_free.
structure Allocation where
  addr : Nat
  blocks : Nat
  deriving DecidableEq, Repr

def Allocation.Holds (a : Allocation) (page : Nat) : Prop := ∃ k < a.blocks, page = (a.addr+k*4096)%word/4096

structure System where
  mm : Mm
  live : List Allocation

inductive Call where
  | alloc (vaddr size : Nat)
  | free (addr : Nat)
  deriving DecidableEq, Repr

-- A free of an address that no live allocation returned is no call of this system.
def call (s : System) : Call → Option System
  | .alloc vaddr size =>
    match mmAlloc s.mm vaddr size with
    | none => none
    | some (.ok addr,mm) => some ⟨mm,⟨addr,sizeInBlocks size⟩::s.live⟩
    | some (.error _,mm) => some ⟨mm,s.live⟩
  | .free addr =>
    if s.live.any (fun a => a.addr = addr) then
      some ⟨(mmFree s.mm addr).2,s.live.filter (fun a => a.addr ≠ addr)⟩
    else none

-- Page-aligned uint32_t addresses and any uint32_t size.
def Call.Proper : Call → Prop
  | .alloc vaddr size => vaddr % 4096 = 0 ∧ vaddr < word ∧ size < word
  | .free addr => addr < word

-- A request that maps one page at most: on a reserved page every size is refused.
def Call.OnePage (s : System) : Call → Prop
  | .alloc vaddr size => size < 8192 ∨ bit s.mm.vmAllocBitmap (vaddr/4096) = true
  | .free _ => True

def Booted (s : System) : Prop := s.live = [] ∧ ∃ info, mmInit powerOn info = some (.noError,s.mm)

def System.pages (s : System) : Set Nat := {page | ∃ a ∈ s.live, a.Holds page}

def PrivateFrames (s : System) : Prop :=
  (∀ page ∈ s.pages, ∀ other ∈ s.pages, page ≠ other → frame s.mm.tables page ≠ frame s.mm.tables other) ∧
  ∀ page ∈ s.pages, bit s.mm.pageAllocBitmap (frame s.mm.tables page) = true

structure Invariant (s : System) : Prop where
  single : ∀ a ∈ s.live, a.blocks = 1 ∧ a.addr % 4096 = 0 ∧ a.addr < word
  backed : Backed s.mm {page | ∃ a ∈ s.live, page = a.addr/4096}

theorem Invariant.pages_eq (valid : Invariant s) : s.pages = {page | ∃ a ∈ s.live, page = a.addr/4096} := by
  ext page
  constructor
  · rintro ⟨a,member,k,small,rfl⟩
    obtain ⟨one,_,low⟩ := valid.single a member
    have zero : k = 0 := by omega
    exact ⟨a,member,by rw [zero,Nat.zero_mul,Nat.add_zero,Nat.mod_eq_of_lt low]⟩
  · rintro ⟨a,member,rfl⟩
    obtain ⟨one,_,low⟩ := valid.single a member
    exact ⟨a,member,0,by omega,by rw [Nat.zero_mul,Nat.add_zero,Nat.mod_eq_of_lt low]⟩

theorem Invariant.frames_private (valid : Invariant s) : PrivateFrames s := by
  refine ⟨?_,?_⟩
  · intro page first other second differ same
    rw [valid.pages_eq] at first second
    exact differ (valid.backed.owned.apart first second same)
  · intro page member
    rw [valid.pages_eq] at member
    exact valid.backed.owned.inside member

theorem booted_invariant (s : System) (start : Booted s) : Invariant s := by
  refine ⟨by simp [start.1],?_⟩
  have none : {page | ∃ a ∈ s.live, page = a.addr/4096} = (∅ : Set Nat) := by simp [start.1]
  rw [none]
  exact .empty _

theorem alloc_invariant (valid : Invariant s) (proper : Call.Proper (.alloc vaddr size)) (single : Call.OnePage s (.alloc vaddr size))
    (taken : call s (.alloc vaddr size) = some next) : Invariant next := by
  obtain ⟨aligned,low,_⟩ := proper
  have low' : vaddr < 4294967296 := low
  cases ran : mmAlloc s.mm vaddr size with
  | none => simp [call,ran] at taken
  | some outcome =>
    obtain ⟨result,mm⟩ := outcome
    rcases mmAlloc_cases ran with ⟨_,rfl,rfl⟩ | ⟨j,unreserved,first,rfl,rfl⟩
    · simp only [call,ran,Option.some.injEq] at taken
      subst taken
      exact valid
    · simp only [call,ran,Option.some.injEq] at taken
      subst taken
      have small : size < 8192 := single.resolve_right (by simp [unreserved])
      rw [single_block small]
      have inside : vaddr/4096 < frameCount := by unfold frameCount; omega
      refine ⟨?_,?_⟩
      · intro a member
        rcases List.mem_cons.mp member with rfl | old
        · refine ⟨rfl,?_,?_⟩
          · show vaddr/4096*4096 % 4096 = 0
            omega
          · show vaddr/4096*4096 < 4294967296
            omega
        · exact valid.single a old
      · refine (valid.backed.alloc inside first unreserved).subset ?_
        rintro page ⟨a,member,rfl⟩
        rcases List.mem_cons.mp member with rfl | old
        · exact .inl (Nat.mul_div_cancel _ (by decide))
        · exact .inr ⟨a,old,rfl⟩

theorem free_invariant (valid : Invariant s) (taken : call s (.free addr) = some next) : Invariant next := by
  simp only [call] at taken
  split at taken
  · rename_i held
    cases Option.some.inj taken
    obtain ⟨owner,member,same⟩ := List.any_eq_true.mp held
    have same : owner.addr = addr := of_decide_eq_true same
    have aligned := (valid.single owner member).2.1
    rw [same] at aligned
    have block : addr = addr/4096*4096 := by omega
    have mapped : addr/4096 ∈ {page | ∃ a ∈ s.live, page = a.addr/4096} := ⟨owner,member,by rw [same]⟩
    have freed := valid.backed.free mapped
    rw [← block] at freed
    refine ⟨fun a kept => valid.single a (List.mem_filter.mp kept).1,freed.subset ?_⟩
    rintro page ⟨a,kept,rfl⟩
    obtain ⟨present,differ⟩ := List.mem_filter.mp kept
    have aligned' := (valid.single a present).2.1
    have differ : a.addr ≠ addr := by simpa using differ
    refine ⟨⟨a,present,rfl⟩,?_⟩
    intro equal
    have equal : a.addr/4096 = addr/4096 := equal
    omega
  · cases taken

theorem one_page_frames_private (path : Reached Booted call (fun s c => c.Proper ∧ c.OnePage s) s) : PrivateFrames s := by
  have valid : Invariant s := by
    refine path.invariant Invariant booted_invariant ?_
    rintro s action next valid ⟨proper,single⟩ taken
    cases action with
    | alloc vaddr size => exact alloc_invariant valid proper single taken
    | free addr => exact free_invariant valid taken
  exact valid.frames_private

theorem plainRam_booted : ∃ mm, Booted ⟨mm,[]⟩ ∧ FirstFree mm 16384 ∧ bit mm.pageAllocBitmap 16385 = false ∧
    mm.vmAllocBitmap = ByteMemory.fill powerOn.vmAllocBitmap 98304 102400 0xFF#8 := by
  obtain ⟨mm,ran,_,reserved,_,kernel,bytes⟩ := mmInit_bytes plainRam_loaded powerOn
  refine ⟨mm,⟨rfl,_,ran⟩,⟨by decide,?_,?_⟩,?_,reserved⟩
  · rw [bit,bytes (16384/8) (by decide) (by decide)]
    decide
  · intro i less
    rw [bit,kernel (i/8) (by omega)]
    exact full_bit _ (Nat.mod_lt _ (by decide))
  · rw [bit,bytes (16385/8) (by decide) (by decide)]
    decide

-- One page, and two at the start of the kernel, which are refused.
theorem one_page_frames_private_plainRam : ∃ s,
    Reached Booted call (fun s c => c.Proper ∧ c.OnePage s) s ∧ s.live = [⟨0x10000000,1⟩] ∧ PrivateFrames s := by
  obtain ⟨mm,start,first,_,reserved⟩ := plainRam_booted
  have ran : mmAlloc mm 0x10000000 4096 = some (.ok 0x10000000,allocated mm 65536 16384 1) :=
    mmAlloc_fresh (by rw [reserved]; decide) first
  have taken : call ⟨mm,[]⟩ (.alloc 0x10000000 4096) = some ⟨allocated mm 65536 16384 1,[⟨0x10000000,1⟩]⟩ := by
    simp only [call,ran]
    rfl
  have kernel : bit (allocated mm 65536 16384 1).vmAllocBitmap (0xC0000000/4096) = true := by
    show bit (setBit mm.vmAllocBitmap _) _ = true
    rw [reserved]
    decide
  have refused : call ⟨allocated mm 65536 16384 1,[⟨0x10000000,1⟩]⟩ (.alloc 0xC0000000 8192) =
      some ⟨allocated mm 65536 16384 1,[⟨0x10000000,1⟩]⟩ := by
    simp only [call,mmAlloc_taken kernel]
  have path : Reached Booted call (fun s c => c.Proper ∧ c.OnePage s) ⟨allocated mm 65536 16384 1,[⟨0x10000000,1⟩]⟩ :=
    ((Reached.start start).extend (.alloc 0x10000000 4096)
      ⟨⟨by decide,by decide,by decide⟩,.inl (by decide)⟩ taken).extend (.alloc 0xC0000000 8192)
        ⟨⟨by decide,by decide,by decide⟩,.inr kernel⟩ refused
  exact ⟨_,path,rfl,one_page_frames_private path⟩

-- Two pages at 0x10000000, then one at 0x20000000: the second page of the first
-- request and the page of the second sit on frame 16385.
theorem two_page_frame_shared :
    ∃ s, Reached Booted call (fun _ c => c.Proper) s ∧ s.live = [⟨0x20000000,1⟩,⟨0x10000000,2⟩] ∧ ¬ PrivateFrames s := by
  obtain ⟨mm,start,first,after,reserved⟩ := plainRam_booted
  let middle := allocated mm 65536 16384 2
  have ran : mmAlloc mm 0x10000000 8192 = some (.ok 0x10000000,middle) := mmAlloc_fresh (by rw [reserved]; decide) first
  have second : FirstFree middle 16385 := by
    refine ⟨by decide,by simp [middle,allocated,after],?_⟩
    intro i less
    by_cases same : i = 16384
    · simp [middle,allocated,same]
    · simp [middle,allocated,first.2.2 i (by omega)]
  have unreserved : bit middle.vmAllocBitmap (0x20000000/4096) = false := by
    show bit (setBit mm.vmAllocBitmap _) _ = false
    rw [reserved]
    decide
  have ran' : mmAlloc middle 0x20000000 4096 = some (.ok 0x20000000,allocated middle 131072 16385 1) :=
    mmAlloc_fresh unreserved second
  have one : call ⟨mm,[]⟩ (.alloc 0x10000000 8192) = some ⟨middle,[⟨0x10000000,2⟩]⟩ := by
    simp only [call,ran]
    rfl
  have two : call ⟨middle,[⟨0x10000000,2⟩]⟩ (.alloc 0x20000000 4096) =
      some ⟨allocated middle 131072 16385 1,[⟨0x20000000,1⟩,⟨0x10000000,2⟩]⟩ := by
    simp only [call,ran']
    rfl
  refine ⟨_,((Reached.start start).extend (.alloc 0x10000000 8192) ⟨by decide,by decide,by decide⟩ one).extend
    (.alloc 0x20000000 4096) ⟨by decide,by decide,by decide⟩ two,rfl,?_⟩
  intro frames
  have early : frame (allocated middle 131072 16385 1).tables 65537 = 16385 := by
    rw [frame_allocated_other (by decide) (by decide)]
    show frame (archPagingMap (archPagingMap mm.tables (65536*4096) (16384*4096)).2 (65537*4096) (16385*4096)).2 65537 = 16385
    exact frame_map_same _ _ (by decide) (by decide)
  have late : frame (allocated middle 131072 16385 1).tables 131072 = 16385 := frame_allocated_same (by decide) (by decide)
  exact frames.1 65537 ⟨⟨0x10000000,2⟩,by simp,1,by decide,by decide⟩ 131072 ⟨⟨0x20000000,1⟩,by simp,0,by decide,by decide⟩
    (by decide) (early.trans late.symm)

end KaracaOS.FrameRuns
