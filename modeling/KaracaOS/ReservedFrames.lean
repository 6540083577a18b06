import KaracaOS.FrameRuns

namespace KaracaOS.ReservedFrames
open Bitmap Paging MemoryManager BootMap FrameRuns StepRuns

-- mm_alloc and mm_free as any caller can use them: an address may be freed twice
-- or without ever having been allocated.
def freely (s : Mm) : Call → Option Mm
  | .alloc vaddr size => (mmAlloc s vaddr size).map Prod.snd
  | .free addr => some (mmFree s addr).2

def Ready (s : Mm) : Prop := ∃ before info, mmInit before info = some (.noError,s)

def reservedFrames : Nat := 16384

def KernelReserved (s : Mm) : Prop := ∀ f < reservedFrames, bit s.pageAllocBitmap f = true

-- The page-table entry that mm_free trusts names no frame of the kernel.
def Spares (s : Mm) : Call → Prop
  | .alloc _ _ => True
  | .free addr => reservedFrames ≤ frame s.tables (addr/4096)

theorem ready_reserved (s : Mm) (ready : Ready s) : KernelReserved s := by
  obtain ⟨before,info,ran⟩ := ready
  obtain ⟨detected,rfl⟩ := mmInit_reserves ran
  intro f low
  unfold reservedFrames at low
  by_contra clear
  have free : f ∈ freeFrames (reserveKernel before detected) :=
    mem_clearSet.mpr ⟨by unfold frameCount; omega,by simpa using clear⟩
  have above := reserveKernel_frames free
  omega

theorem alloc_reserved (reserved : KernelReserved s) (called : mmAlloc s vaddr size = some (result,next)) :
    KernelReserved next := by
  rcases mmAlloc_cases called with ⟨_,_,rfl⟩ | ⟨j,_,_,_,rfl⟩
  · exact reserved
  · intro f low
    simp [allocated,reserved f low]

theorem mmFree_bit (s : Mm) (addr f : Nat) :
    bit (mmFree s addr).2.pageAllocBitmap f = (!decide (f = frame s.tables (addr/4096)) && bit s.pageAllocBitmap f) := by
  exact bit_clearBit _ _ _

theorem free_reserved_iff (reserved : KernelReserved s) (addr : Nat) :
    KernelReserved (mmFree s addr).2 ↔ reservedFrames ≤ frame s.tables (addr/4096) := by
  constructor
  · intro kept
    by_contra low
    have set := kept (frame s.tables (addr/4096)) (by omega)
    rw [mmFree_bit] at set
    simp at set
  · intro high f low
    have apart : f ≠ frame s.tables (addr/4096) := by omega
    rw [mmFree_bit,reserved f low]
    simp [apart]

theorem freely_reserved_iff (reserved : KernelReserved s) (taken : freely s c = some next) :
    KernelReserved next ↔ Spares s c := by
  cases c with
  | alloc vaddr size =>
    obtain ⟨⟨result,mm⟩,called,rfl⟩ := Option.map_eq_some_iff.mp taken
    exact ⟨fun _ => trivial,fun _ => alloc_reserved reserved called⟩
  | free addr =>
    cases Option.some.inj taken
    exact free_reserved_iff reserved addr

-- The first call that frees a kernel frame by its page-table entry is the first
-- one that breaks the reservation.
theorem kernel_reserved_while_spared (path : Reached Ready freely Spares s) :
    KernelReserved s ∧ ∀ c next, freely s c = some next → (KernelReserved next ↔ Spares s c) := by
  have reserved : KernelReserved s := by
    refine path.invariant KernelReserved ready_reserved ?_
    intro s c next reserved spared taken
    exact (freely_reserved_iff reserved taken).mpr spared
  exact ⟨reserved,fun c next taken => freely_reserved_iff reserved taken⟩

theorem plainRam_allocated : ∃ mm, Ready mm ∧ freely mm (.alloc 0x10000000 4096) = some (allocated mm 65536 16384 1) := by
  obtain ⟨mm,⟨_,info,ran⟩,first,_,reserved⟩ := plainRam_booted
  have taken : mmAlloc mm 0x10000000 4096 = some (.ok 0x10000000,allocated mm 65536 16384 1) :=
    mmAlloc_fresh (by rw [reserved]; decide) first
  exact ⟨mm,⟨_,info,ran⟩,by simp only [freely,taken,Option.map_some]⟩

theorem kernel_reserved_while_spared_once : ∃ mm s, Ready mm ∧
    follow freely mm [.alloc 0x10000000 4096,.free 0x10000000] = some s ∧ Reached Ready freely Spares s ∧ KernelReserved s := by
  obtain ⟨mm,ready,taken⟩ := plainRam_allocated
  have path : Reached Ready freely Spares (mmFree (allocated mm 65536 16384 1) 0x10000000).2 := by
    refine ((Reached.start ready).extend (.alloc 0x10000000 4096) trivial taken).extend (.free 0x10000000) ?_ rfl
    show reservedFrames ≤ frame (allocated mm 65536 16384 1).tables 65536
    rw [frame_allocated_same (by decide) (by decide)]
    decide
  refine ⟨mm,_,ready,?_,path,(kernel_reserved_while_spared path).1⟩
  simp only [follow,List.foldlM_cons,taken,List.foldlM_nil]
  rfl

-- Freed twice: the second call finds the cleared entry, and frees frame 0.
theorem double_free_unreserves : ∃ mm s, Ready mm ∧
    follow freely mm [.alloc 0x10000000 4096,.free 0x10000000,.free 0x10000000] = some s ∧
      Reached Ready freely any s ∧ ¬ KernelReserved s := by
  obtain ⟨mm,ready,taken⟩ := plainRam_allocated
  have ran : follow freely mm [.alloc 0x10000000 4096,.free 0x10000000,.free 0x10000000] =
      some (mmFree (mmFree (allocated mm 65536 16384 1) 0x10000000).2 0x10000000).2 := by
    simp only [follow,List.foldlM_cons,taken,List.foldlM_nil]
    rfl
  refine ⟨mm,_,ready,ran,(Reached.start ready).follow ran,?_⟩
  intro reserved
  have set := reserved 0 (by decide)
  rw [mmFree_bit,show frame (mmFree (allocated mm 65536 16384 1) 0x10000000).2.tables (0x10000000/4096) = 0 from
    frame_unmap_same _ _] at set
  simp at set

end KaracaOS.ReservedFrames
