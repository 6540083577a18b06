import KaracaOS.ElfLoader

namespace KaracaOS.UnclearedFrames
open Bitmap Paging ByteMemory ByteCopies MemoryManager BootMap StepRuns BuddyTree BuddyPages BuddyAllocator BuddyRuns DyadicTree ElfLoader

-- What the pages show of the memory behind them.
def seen (t : Tables) (phys : Bytes) : Bytes := fun a => phys (frame t (a/4096)*4096+a%4096)

abbrev headersIn (mm : Mm) (phys : Bytes) (buffer : Nat) : List Phdr := fileHeaders (charsOf (seen mm.tables phys) buffer)

-- Two contents of physical memory that differ in free frames only.
def LeftBehind (mm : Mm) (phys other : Bytes) : Prop :=
  ∀ f, bit mm.pageAllocBitmap f = true → ∀ i < 4096, other (f*4096+i) = phys (f*4096+i)

-- A file in the buffer with its header and its table, in frames that are in use.
structure Resident (mm : Mm) (phys : Bytes) (buffer size : Nat) : Prop extends ElfFile (seen mm.tables phys) buffer size where
  whole : sizeofEhdr ≤ size
  table : ePhoff (charsOf (seen mm.tables phys) buffer)+ePhnum (charsOf (seen mm.tables phys) buffer)*sizeofPhdr ≤ size
  used : ∀ i < size, bit mm.pageAllocBitmap (frame mm.tables ((buffer+i)/4096)) = true

-- Offsets in a segment that the file has no byte for.
def Bss (headers : List Phdr) (x : Nat) : Prop := ∃ ph ∈ segmentsOf headers, ph.pVaddr+ph.pFilesz ≤ x ∧ x < ph.pVaddr+ph.pMemsz

def BssZero (headers : List Phdr) (loc : Nat) (memory : Bytes) : Prop := ∀ x, Bss headers x → memory ((loc+x) % word) = 0

-- Where the allocation has led to next: those bytes are zero after a load,
-- whatever the free frames held.
def BssClean (stack : Stack) (s next : Allocator) (phys : Bytes) (buffer size loc : Nat) : Prop :=
  ∀ other, LeftBehind s.mm phys other → ∀ o,
    elfLoadElfFile stack (seen s.mm.tables other) (seen next.mm.tables other) s buffer size = some o → o.ret = some .noError →
      BssZero (headersIn s.mm phys buffer) loc o.memory

-- A byte outside the block, in a frame that is in use, and zero already.
def Cleared (s : Allocator) (phys : Bytes) (loc len x : Nat) : Prop :=
  (x < loc ∨ loc+len ≤ x) ∧ bit s.mm.pageAllocBitmap (frame s.mm.tables (x/4096)) = true ∧ seen s.mm.tables phys x = 0

variable {mm after : Mm} {s next : Allocator} {stack : Stack} {o : Outcome} {memory frames phys other : Bytes}
  {pages i loc len node need buffer size x : Nat}

theorem allocPages_frames (aligned : i%4096 = 0) (low : i+pages*4096 ≤ word) (ran : allocPages pages i mm = some (.noError,after)) :
    (∀ page, i/4096 ≤ page → page < i/4096+pages → bit mm.pageAllocBitmap (frame after.tables page) = false) ∧
      ∀ page, page < i/4096 ∨ i/4096+pages ≤ page → frame after.tables page = frame mm.tables page := by
  generalize kind : SysRet.noError = ret at ran
  replace ran := allocPages_rounds ran
  induction ran with
  | through => exact ⟨fun page low high => by omega,fun page _ => rfl⟩
  | stopped _ => cases kind
  | @taken i mm j pages ret after _ first _ ih =>
    have inside : i/4096 < frameCount := by unfold frameCount; unfold word at low; omega
    have small : i%word = i := Nat.mod_eq_of_lt (by omega)
    rw [small] at ih
    obtain ⟨fresh,kept⟩ := ih (by omega) (by omega) kind
    refine ⟨?_,?_⟩
    · intro page above below
      by_cases here : page = i/4096
      · rw [kept page (.inl (by omega)),here,frame_allocated_same inside first.1]
        exact first.2.1
      · have free := fresh page (by omega) (by omega)
        simp only [allocated,bit_setBit,Bool.or_eq_false_iff] at free
        exact free.2
    · intro page away
      rw [kept page (by omega)]
      exact frame_allocated_other inside (by omega)

structure Mapped (s next : Allocator) (loc len : Nat) : Prop where
  window : loc+len ≤ 0x90000000
  page : 4096 ≤ len
  fresh : ∀ x, loc ≤ x → x < loc+len → bit s.mm.pageAllocBitmap (frame next.mm.tables (x/4096)) = false
  kept : ∀ x, x < loc ∨ loc+len ≤ x → frame next.mm.tables (x/4096) = frame s.mm.tables (x/4096)

theorem alloc_maps (grown : Grown s.arena n t) (ran : buddyAllocatorAlloc s need = some (.ok (loc,node),next)) :
    Mapped s next loc (next.arena.node node).len := by
  cases alloc_cases ran with
  | done _ searched paged =>
    rename_i arena mm _
    obtain ⟨n',t',_,grown',found⟩ := grown.search searched
    obtain ⟨b,leaf,rfl,_⟩ := found _ rfl
    obtain ⟨start,size,_,high,aligned,page,c,multiple⟩ := grown'.block leaf
    have rounds : pageCount (2^b.level) = c := by
      rw [multiple,pageCount]
      omega
    have marked := (markAllocated_same arena b.label true b.label).len
    rw [start,size,rounds] at paged
    obtain ⟨fresh,kept⟩ := allocPages_frames aligned (by unfold word; omega) paged
    have whole : ((markAllocated arena b.label true).node b.label).len = 2^b.level := marked.trans size
    rw [start]
    dsimp only
    rw [whole,multiple]
    rw [multiple] at high page
    exact ⟨high,page,fun x low below => fresh _ (by omega) (by omega),fun x away => kept _ (by omega)⟩

theorem Mapped.view (mapped : Mapped s next loc len) (phys : Bytes) :
    blit (seen s.mm.tables phys) loc (seen next.mm.tables phys) loc len = seen next.mm.tables phys := by
  funext x
  by_cases inside : loc ≤ x ∧ x < loc+len
  · rw [blit_inside inside.1 inside.2,Nat.add_sub_cancel' inside.1]
  · rw [blit_outside (by omega),seen,seen,mapped.kept x (by omega)]

-- No copy goes where the file has no byte: not its own segment's, which ends
-- before, and not another's, which is apart.
theorem copies_spare_bss (file : ElfFile memory buffer size) (bss : Bss (fileHeaders (charsOf memory buffer)) x) (before : Bytes) :
    copyAll word ((segmentCopies (fileHeaders (charsOf memory buffer))).map (Copy.placed word loc buffer)) before ((loc+x) % word) =
      before ((loc+x) % word) := by
  obtain ⟨ph,segment,past,below⟩ := bss
  have least := (file.sized ph segment).2.2
  refine copyAll_outside ?_ ?_
  · intro c member
    obtain ⟨other,_,rfl⟩ := mem_placed.mp member
    exact Nat.mod_lt _ (by decide)
  · intro c member k inside
    obtain ⟨other,copied,rfl⟩ := mem_placed.mp member
    obtain ⟨sized,_,low⟩ := file.sized other copied
    dsimp only at inside ⊢
    have apart : x ≠ other.pVaddr+k := by
      rintro rfl
      by_cases same : ph = other
      · subst same
        omega
      · have symmetric : Std.Symm fun a b : Phdr => ∀ x, ¬ (a.Covers x ∧ b.Covers x) :=
          ⟨fun a b disjoint x both => disjoint x both.symm⟩
        refine file.apart.forall segment copied same (other.pVaddr+k) ⟨?_,?_⟩
        · unfold Phdr.Covers
          omega
        · unfold Phdr.Covers
          omega
    rw [Nat.mod_add_mod,Nat.add_assoc]
    unfold word
    omega

theorem Resident.chars (resident : Resident mm phys buffer size) (left : LeftBehind mm phys other) :
    ∀ i < size, charsOf (seen mm.tables other) buffer i = charsOf (seen mm.tables phys) buffer i := by
  intro i below
  have object := resident.object
  rw [charsOf,charsOf,Nat.mod_eq_of_lt (by omega)]
  exact left _ (resident.used i below) _ (Nat.mod_lt _ (by decide))

theorem Resident.carried (resident : Resident mm phys buffer size) (left : LeftBehind mm phys other) :
    headersIn mm other buffer = headersIn mm phys buffer ∧ ElfFile (seen mm.tables other) buffer size :=
  resident.toElfFile.carried resident.whole resident.table (resident.chars left)

theorem LeftBehind.refl (mm : Mm) (phys : Bytes) : LeftBehind mm phys phys := fun _ _ _ _ => rfl

theorem Resident.load (resident : Resident s.mm phys buffer size) (left : LeftBehind s.mm phys other) (mapped : Mapped s next loc len)
    (granted : buddyAllocatorAlloc s (memHigh (headersIn s.mm phys buffer)) = some (.ok (loc,node),next))
    (size_ : (next.arena.node node).len = len) (stack : Stack) :
    ∃ o, elfLoadElfFile stack (seen s.mm.tables other) (seen next.mm.tables other) s buffer size = some o ∧ o.ret = some .noError ∧
      ∀ x, Bss (headersIn s.mm phys buffer) x →
        o.memory ((loc+x) % word) = seen next.mm.tables other ((loc+x) % word) := by
  obtain ⟨headers,file⟩ := resident.carried left
  rw [← headers] at granted ⊢
  have ran := @file_loaded _ _ size file.toReadable stack (seen next.mm.tables other) s
  obtain ⟨ok,_,_,copied⟩ := loaded_at file ran ⟨node,next,granted,size_⟩
  refine ⟨_,ran,ok,?_⟩
  intro x bss
  rw [copied,mapped.view,copies_spare_bss file bss]

-- Something for a free frame to be left with.
def litter (f : Nat) (phys : Bytes) : Bytes := fun a => if a/4096 = f then 0xAA else phys a

theorem litter_left (free : bit mm.pageAllocBitmap f = false) (phys : Bytes) : LeftBehind mm phys (litter f phys) := by
  intro g used i below
  have apart : g ≠ f := by
    rintro rfl
    rw [free] at used
    cases used
  rw [litter,if_neg (by omega)]

theorem Resident.unclean (resident : Resident s.mm phys buffer size) (mapped : Mapped s next loc (next.arena.node node).len)
    (granted : buddyAllocatorAlloc s (memHigh (headersIn s.mm phys buffer)) = some (.ok (loc,node),next))
    (bss : Bss (headersIn s.mm phys buffer) x)
    (free : bit s.mm.pageAllocBitmap (frame next.mm.tables ((loc+x) % word/4096)) = false) :
    ¬ BssClean stack s next phys buffer size loc := by
  intro clean
  have left := litter_left free phys
  obtain ⟨o,ran,ok,shown⟩ := resident.load left mapped granted rfl stack
  have zero := (shown x bss).symm.trans (clean _ left o ran ok x bss)
  rw [seen,litter,if_pos (by omega)] at zero
  cases zero

theorem bss_clean_iff (grown : ∃ n t, Grown s.arena n t) (resident : Resident s.mm phys buffer size)
    (granted : buddyAllocatorAlloc s (memHigh (headersIn s.mm phys buffer)) = some (.ok (loc,node),next)) :
    (BssClean stack s next phys buffer size loc ↔
      ∀ x, Bss (headersIn s.mm phys buffer) x → Cleared s phys loc (next.arena.node node).len ((loc+x) % word)) ∧
    (memHigh (headersIn s.mm phys buffer) ≤ (next.arena.node node).len →
      (BssClean stack s next phys buffer size loc ↔ ∀ ph ∈ segmentsOf (headersIn s.mm phys buffer), ph.pFilesz = ph.pMemsz)) := by
  obtain ⟨n,t,grown⟩ := grown
  have mapped := alloc_maps grown granted
  have exact_ : BssClean stack s next phys buffer size loc ↔
      ∀ x, Bss (headersIn s.mm phys buffer) x → Cleared s phys loc (next.arena.node node).len ((loc+x) % word) := by
    constructor
    · intro clean x bss
      have used : bit s.mm.pageAllocBitmap (frame next.mm.tables ((loc+x) % word/4096)) = true := by
        cases used : bit s.mm.pageAllocBitmap (frame next.mm.tables ((loc+x) % word/4096)) with
        | true => rfl
        | false => exact absurd clean (resident.unclean mapped granted bss used)
      have outside : (loc+x) % word < loc ∨ loc+(next.arena.node node).len ≤ (loc+x) % word := by
        by_contra inside
        have free := mapped.fresh ((loc+x) % word) (by omega) (by omega)
        rw [used] at free
        cases free
      have same := mapped.kept _ outside
      obtain ⟨o,ran,ok,shown⟩ := resident.load (.refl _ _) mapped granted rfl stack
      have zero := (shown x bss).symm.trans (clean phys (.refl _ _) o ran ok x bss)
      rw [seen,same] at zero
      exact ⟨outside,same ▸ used,zero⟩
    · intro cleared other left o ran _ x bss
      obtain ⟨loaded,again,_,shown⟩ := resident.load left mapped granted rfl stack
      cases Option.some.inj (again.symm.trans ran)
      obtain ⟨outside,used,zero⟩ := cleared x bss
      rw [shown x bss,seen,mapped.kept _ outside,left _ used _ (Nat.mod_lt _ (by decide))]
      exact zero
  refine ⟨exact_,?_⟩
  intro long
  rw [exact_]
  constructor
  · intro cleared ph segment
    obtain ⟨room,_,sized⟩ := segment_within resident.toElfFile long segment
    have window := mapped.window
    by_contra differ
    have outside := (cleared (ph.pVaddr+ph.pFilesz) ⟨ph,segment,Nat.le_refl _,by omega⟩).1
    rw [Nat.mod_eq_of_lt (by unfold word; omega)] at outside
    omega
  · rintro full x ⟨ph,segment,past,below⟩
    have same := full ph segment
    omega

theorem arena_leaves (ran : repeated arenaPage arenaPages 0 mm = some after) (low : page < 0xC8000) :
    frame after.tables page = frame mm.tables page ∧ ∀ f, bit mm.pageAllocBitmap f = true → bit after.pageAllocBitmap f = true := by
  refine repeated_invariant (fun i s => i ≤ arenaPages → frame s.tables page = frame mm.tables page ∧
    ∀ f, bit mm.pageAllocBitmap f = true → bit s.pageAllocBitmap f = true) ?_ (fun _ => ⟨rfl,fun f set => set⟩) ran (by omega)
  intro i s next held taken below
  obtain ⟨same,kept⟩ := held (by omega)
  obtain ⟨j,_,_,rfl⟩ := arenaPage_allocated taken
  rw [arenaPages_eq] at below
  refine ⟨?_,?_⟩
  · rw [← same]
    exact frame_allocated_other (by unfold frameCount; omega) (by omega)
  · intro f set
    simp [allocated,kept f set]

theorem started_low (start : Started t) (low : page < 0xC8000) :
    frame t.allocator.mm.tables page = frame powerOn.tables page ∧
      ∀ f < 16384, bit t.allocator.mm.pageAllocBitmap f = true := by
  obtain ⟨_,info,mm,old,booted,ran⟩ := start
  obtain ⟨same,kept⟩ := arena_leaves (init_grown ran).1 low
  obtain ⟨detected,rfl⟩ := mmInit_reserves booted
  refine ⟨same,?_⟩
  intro f kernel
  refine kept f ?_
  cases set : bit (reserveKernel powerOn detected).pageAllocBitmap f with
  | true => rfl
  | false =>
    have above := reserveKernel_frames (mem_clearSet.mpr ⟨by unfold frameCount; omega,set⟩)
    omega

theorem tiny_resident (start : Started t) : Resident t.allocator.mm tinyFile 0 88 ∧
    headersIn t.allocator.mm tinyFile 0 = [⟨ptLoad,84,16,4,8⟩] := by
  obtain ⟨same,used⟩ := started_low start (show 0 < 0xC8000 by decide)
  have first : frame powerOn.tables 0 = 0 := by decide
  rw [first] at same
  have shown : ∀ i < 88, charsOf (seen t.allocator.mm.tables tinyFile) 0 i = charsOf tinyFile 0 i := by
    intro i below
    rw [charsOf,charsOf,Nat.zero_add,Nat.mod_eq_of_lt (by unfold word; omega),seen,Nat.div_eq_of_lt (by omega),same,
      Nat.mod_eq_of_lt (by omega),Nat.zero_mul,Nat.zero_add]
  have table : ePhoff (charsOf tinyFile 0)+ePhnum (charsOf tinyFile 0)*sizeofPhdr ≤ 88 := by decide
  obtain ⟨headers,file⟩ := tiny_file.carried (by decide) table shown
  have fields := same_fields fun i below => shown i (by unfold sizeofEhdr at below; omega)
  refine ⟨⟨file,by decide,?_,?_⟩,headers.trans tiny_headers⟩
  · rw [fields.phoff,fields.phnum]
    exact table
  · intro i below
    rw [Nat.zero_add,Nat.div_eq_of_lt (by omega),same]
    exact used 0 (by decide)

theorem tiny_file_granted : ∃ start node next, Started start ∧ Resident start.allocator.mm tinyFile 0 88 ∧
    headersIn start.allocator.mm tinyFile 0 = [⟨ptLoad,84,16,4,8⟩] ∧ (next.arena.node node).len = 4096 ∧
      buddyAllocatorAlloc start.allocator (memHigh (headersIn start.allocator.mm tinyFile 0)) = some (.ok (windowStart,node),next) := by
  obtain ⟨start,next,node,started,allocated,_,_,_,len⟩ := first_page (show 24 ≤ 65536 by decide) (by decide)
  obtain ⟨resident,headers⟩ := tiny_resident started
  refine ⟨start,node,next,started,resident,headers,len,?_⟩
  rw [headers]
  exact allocated

theorem bss_clean_iff_tiny : ∃ start node next, Started start ∧ Resident start.allocator.mm tinyFile 0 88 ∧
    buddyAllocatorAlloc start.allocator 24 = some (.ok (windowStart,node),next) ∧
      (BssClean ⟨blank,blank⟩ start.allocator next tinyFile 0 88 windowStart ↔
        ∀ ph ∈ segmentsOf (headersIn start.allocator.mm tinyFile 0), ph.pFilesz = ph.pMemsz) := by
  obtain ⟨start,node,next,started,resident,headers,len,granted⟩ := tiny_file_granted
  have high : memHigh (headersIn start.allocator.mm tinyFile 0) = 24 := by
    rw [headers]
    decide
  exact ⟨start,node,next,started,resident,high ▸ granted,
    (bss_clean_iff ⟨_,_,(started_held started).grown⟩ resident granted).2 (by rw [high,len]; decide)⟩

-- Offsets 20 to 23 show what an earlier user left.
theorem tiny_file_unclean : ∃ start node next, Started start ∧ Resident start.allocator.mm tinyFile 0 88 ∧
    buddyAllocatorAlloc start.allocator (memHigh (headersIn start.allocator.mm tinyFile 0)) = some (.ok (windowStart,node),next) ∧
      ¬ BssClean ⟨blank,blank⟩ start.allocator next tinyFile 0 88 windowStart := by
  obtain ⟨start,node,next,started,resident,headers,len,granted⟩ := tiny_file_granted
  have mapped := alloc_maps (started_held started).grown granted
  refine ⟨start,node,next,started,resident,granted,resident.unclean mapped granted (x := 20) ?_ ?_⟩
  · rw [headers]
    exact ⟨⟨ptLoad,84,16,4,8⟩,by decide,by decide,by decide⟩
  · refine mapped.fresh _ (by decide) ?_
    rw [len]
    decide

end KaracaOS.UnclearedFrames
