import KaracaOS.BootMap

namespace KaracaOS.BootWalk
open ByteMemory Bitmap MemoryManager BootMap

-- Indices into mm_page_alloc_bitmap in the order in which the loops of mm_init
-- use them, and the k at which a run of bytes stops.
def runIndices (bound k : Nat) : List Nat × Nat :=
  if k ≤ bound then (k/8::(runIndices bound (k+8)).1,(runIndices bound (k+8)).2) else ([],k)
termination_by bound+1-k

-- Of a run that wraps around these are the indices up to the wrap.
def markIndices (startBlock bound : Nat) : List Nat :=
  let run := runIndices bound ((startBlock+8)%word/8*8)
  startBlock/8::run.1++(if word-8 ≤ bound then [] else [(run.2+word-8)%word/8])

def entryIndices (entry : MmapEntry) : List Nat :=
  let startBlock := entry.addr/4096 % word
  if entry.type = memoryAvailable then markIndices startBlock ((startBlock+entry.len/4096 % word)%word)
  else if entry.type = memoryAcpiReclaimable then []
  else if entry.type = memoryNvs then []
  else if entry.type = memoryBadram then []
  else if 0 < entry.len then markIndices startBlock ((entry.addr+entry.len)%(word*word)/4096 % word) else []

def mapIndices (memory : Nat → MmapEntry) : Nat → Nat → Bytes → List Nat
  | 0,_,_ => []
  | rounds+1,entry,bitmap =>
    entryIndices (memory entry)++((mapEntry bitmap (memory entry)).map (mapIndices memory rounds ((entry+(memory entry).size+4)%word))).getD []

def mmInitIndices (s : Mm) (info : MultibootInfo) : List Nat :=
  if (info.flags >>> 6) % 2 = 0 then [] else
  let reserved := fill s.pageAllocBitmap 0 bitmapBytes 0xFF#8
  let rounds := (info.mmapLength+23)/24
  List.range bitmapBytes++mapIndices info.memory rounds info.mmapAddr reserved++
    (if (mapLoop info.memory rounds info.mmapAddr reserved).isSome then List.range (4*4096/8)++List.range bitmapBytes else [])

-- First and last block number with which an entry is marked, if it is marked.
def span (e : MmapEntry) : Option (Nat × Nat) :=
  if e.Available then some (e.addr/4096 % word,(e.addr/4096 % word+e.len/4096 % word)%word)
  else if e.Reserved ∧ 0 < e.len then some (e.addr/4096 % word,(e.addr+e.len)%(word*word)/4096 % word)
  else none

def Ends (e : MmapEntry) : Prop := ∀ startBlock bound, span e = some (startBlock,bound) → bound < word-8

-- Entries one behind the other in memory.
def Laid (memory : Nat → MmapEntry) : Nat → List MmapEntry → Prop
  | _,[] => True
  | addr,e::rest => memory addr = e ∧ Laid memory (addr+e.size+4) rest

def starts : Nat → List MmapEntry → List Nat
  | _,[] => []
  | addr,e::rest => addr::starts (addr+e.size+4) rest

def extent (entries : List MmapEntry) : Nat := (entries.map (fun e => e.size+4)).sum

-- A memory map as the loader describes it, with entries of any size.
structure WellFormed (info : MultibootInfo) (entries : List MmapEntry) : Prop where
  provided : (info.flags >>> 6) % 2 = 1
  length : info.mmapLength = extent entries
  sized : ∀ e ∈ entries, 20 ≤ e.size
  located : info.mmapAddr+info.mmapLength ≤ word
  laid : Laid info.memory info.mmapAddr entries

variable {e : MmapEntry} {entries rest : List MmapEntry} {memory : Nat → MmapEntry} {bitmap after : Bytes} {startBlock bound addr rounds : Nat}
  {info : MultibootInfo}

theorem markEntry_returns (bitmap : Bytes) (startBlock bound : Nat) (first middle last : Byte) :
    (∃ after, markEntry bitmap startBlock bound first middle last = some after) ↔ bound < word-8 := by
  unfold markEntry
  by_cases wraps : word-8 ≤ bound
  · rw [if_pos wraps]
    exact iff_of_false (fun never => by obtain ⟨_,no⟩ := never; cases no) (by omega)
  · rw [if_neg wraps]
    exact iff_of_true ⟨_,rfl⟩ (by omega)

theorem span_available (available : e.Available) :
    span e = some (e.addr/4096 % word,(e.addr/4096 % word+e.len/4096 % word)%word) := if_pos available

theorem span_reserved (reserved : e.Reserved) (some_ : 0 < e.len) :
    span e = some (e.addr/4096 % word,(e.addr+e.len)%(word*word)/4096 % word) := by
  rw [span,if_neg reserved.notAvailable,if_pos ⟨reserved,some_⟩]

theorem span_none (notAvailable : ¬ e.Available) (unmarked : ¬ (e.Reserved ∧ 0 < e.len)) : span e = none := by
  rw [span,if_neg notAvailable,if_neg unmarked]

theorem mapEntry_span (e : MmapEntry) :
    (∃ startBlock bound, span e = some (startBlock,bound) ∧ entryIndices e = markIndices startBlock bound ∧ startBlock < word ∧ bound < word ∧
      ∀ bitmap, ∃ first middle last, mapEntry bitmap e = markEntry bitmap startBlock bound first middle last) ∨
    (span e = none ∧ entryIndices e = [] ∧ ∀ bitmap, mapEntry bitmap e = some bitmap) := by
  have positive : 0 < word := by decide
  by_cases available : e.Available
  · refine .inl ⟨_,_,span_available available,if_pos available,Nat.mod_lt _ positive,Nat.mod_lt _ positive,fun bitmap => ?_⟩
    have ran : mapEntry bitmap e = markAvailable bitmap e := if_pos available
    exact ⟨_,_,_,ran⟩
  · have other : e.type ≠ memoryAvailable := available
    by_cases reserved : e.Reserved
    · obtain ⟨one,two,three,four⟩ := reserved
      by_cases some_ : 0 < e.len
      · refine .inl ⟨_,_,span_reserved ⟨one,two,three,four⟩ some_,?_,Nat.mod_lt _ positive,Nat.mod_lt _ positive,fun bitmap => ?_⟩
        · simp only [entryIndices]
          rw [if_neg one,if_neg two,if_neg three,if_neg four,if_pos some_]
        · have ran : markReserved bitmap e = _ := if_pos some_
          exact ⟨_,_,_,(mapEntry_reserved ⟨one,two,three,four⟩ bitmap).trans ran⟩
      · refine .inr ⟨span_none available (fun both => some_ both.2),?_,fun bitmap => ?_⟩
        · simp only [entryIndices]
          rw [if_neg one,if_neg two,if_neg three,if_neg four,if_neg some_]
        · rw [mapEntry_reserved ⟨one,two,three,four⟩]
          exact if_neg some_
    · refine .inr ⟨span_none available (fun both => reserved both.1),?_,mapEntry_ignored available reserved⟩
      simp only [entryIndices]
      rw [if_neg other]
      split_ifs with acpi nvs bad
      · rfl
      · rfl
      · rfl
      · exact absurd ⟨other,acpi,nvs,bad⟩ reserved
      · rfl

theorem mapEntry_returns (bitmap : Bytes) (e : MmapEntry) : (∃ after, mapEntry bitmap e = some after) ↔ Ends e := by
  rcases mapEntry_span e with ⟨startBlock,bound,marks,_,_,_,ran⟩ | ⟨none_,_,ran⟩
  · obtain ⟨first,middle,last,ran⟩ := ran bitmap
    rw [ran,markEntry_returns,Ends,marks]
    constructor
    · intro low _ _ same
      cases Option.some.inj same
      exact low
    · intro ends
      exact ends _ _ rfl
  · refine iff_of_true ⟨_,ran bitmap⟩ ?_
    intro startBlock bound marks
    rw [none_] at marks
    cases marks

theorem Laid.next (laid : Laid memory addr (e::rest)) (fits : addr+extent (e::rest) ≤ word) :
    Laid memory ((addr+e.size+4)%word) rest ∧ (addr+e.size+4)%word+extent rest ≤ word ∧
      starts ((addr+e.size+4)%word) rest = starts (addr+e.size+4) rest := by
  have total : extent (e::rest) = e.size+4+extent rest := rfl
  cases rest with
  | nil =>
    have below : (addr+e.size+4)%word < word := Nat.mod_lt _ (by decide)
    exact ⟨trivial,Nat.le_of_lt below,rfl⟩
  | cons e' rest =>
    have more : extent (e'::rest) = e'.size+4+extent rest := rfl
    rw [Nat.mod_eq_of_lt (show addr+e.size+4 < word by omega)]
    exact ⟨laid.2,by omega,rfl⟩

theorem extent_least (sized : ∀ e ∈ entries, 20 ≤ e.size) : 24*entries.length ≤ extent entries := by
  induction entries with
  | nil => exact Nat.le_refl _
  | cons e rest ih =>
    have total : extent (e::rest) = e.size+4+extent rest := rfl
    obtain ⟨here,later⟩ := List.forall_mem_cons.mp sized
    have least := ih later
    rw [List.length_cons]
    omega

theorem extent_exact (sized : ∀ e ∈ entries, 20 ≤ e.size) : extent entries ≤ 24*entries.length ↔ ∀ e ∈ entries, e.size = 20 := by
  induction entries with
  | nil => exact iff_of_true (Nat.le_refl _) (fun e member => absurd member List.not_mem_nil)
  | cons e rest ih =>
    have total : extent (e::rest) = e.size+4+extent rest := rfl
    obtain ⟨here,later⟩ := List.forall_mem_cons.mp sized
    have least := extent_least later
    rw [List.forall_mem_cons,← ih later,List.length_cons]
    omega

theorem WellFormed.in_step (formed : WellFormed info entries) (exact_ : ∀ e ∈ entries, e.size = 20) :
    (info.mmapLength+23)/24 = entries.length ∧ info.mmapLength ≤ word-16 := by
  have most := (extent_exact formed.sized).mpr exact_
  have least := extent_least formed.sized
  have fits := formed.located
  have length := formed.length
  unfold word at fits ⊢
  omega

-- A loader that puts one entry at 0x9000; what stands behind it is not part of the map.
def alone (e : MmapEntry) : MultibootInfo where
  flags := 64
  mmapLength := e.size+4
  mmapAddr := 0x9000
  memory := fun address => if address = 0x9000 then e else ⟨20,0,0,2⟩

theorem alone_memory (e : MmapEntry) : (alone e).memory 0x9000 = e := by
  show (if 0x9000 = 0x9000 then e else ⟨20,0,0,2⟩) = e
  exact if_pos rfl

theorem alone_formed (least : 20 ≤ e.size) (most : e.size ≤ 1000) : WellFormed (alone e) [e] := by
  refine ⟨show (64 >>> 6) % 2 = 1 by decide,rfl,?_,?_,?_⟩
  · intro e' member
    cases List.mem_singleton.mp member
    exact least
  · show 0x9000+(e.size+4) ≤ 4294967296
    omega
  · exact ⟨alone_memory e,trivial⟩

theorem runIndices_spec (bound m : Nat) : (runIndices bound (8*m)).2 = 8*max m (bound/8+1) ∧
    ∀ i, i ∈ (runIndices bound (8*m)).1 ↔ m ≤ i ∧ i ≤ bound/8 := by
  induction gap : bound/8+1-m generalizing m with
  | zero =>
    rw [runIndices,if_neg (by omega)]
    refine ⟨by dsimp only; omega,fun i => ?_⟩
    simp only [List.not_mem_nil,false_iff]
    omega
  | succ gap ih =>
    obtain ⟨last,members⟩ := ih (m+1) (by omega)
    rw [runIndices,if_pos (by omega),show 8*m+8 = 8*(m+1) by omega]
    refine ⟨by dsimp only; omega,fun i => ?_⟩
    rw [List.mem_cons,members]
    omega

theorem markEntry_within (ran : markEntry bitmap startBlock bound first middle last = some after)
    (outside : i ∉ markIndices startBlock bound) : after i = bitmap i := by
  obtain ⟨stop,members⟩ := runIndices_spec bound ((startBlock+8)%word/8)
  simp only [markIndices] at outside
  rw [Nat.mul_comm ((startBlock+8)%word/8) 8,stop] at outside
  simp only [List.mem_cons,List.mem_append,members,not_or] at outside
  obtain ⟨⟨notFirst,notRun⟩,notLast⟩ := outside
  unfold markEntry at ran
  by_cases wraps : word-8 ≤ bound
  · rw [if_pos wraps] at ran
    cases ran
  · rw [if_neg wraps,Nat.mul_comm ((startBlock+8)%word/8) 8,byteRun_eq] at ran
    rw [if_neg wraps,List.mem_singleton] at notLast
    cases Option.some.inj ran
    rw [store_other _ notLast,fill_outside (by omega),store_other _ notFirst]

theorem mapEntry_within (ran : mapEntry bitmap e = some after) (outside : i ∉ entryIndices e) : after i = bitmap i := by
  rcases mapEntry_span e with ⟨startBlock,bound,_,indices,_,_,marked⟩ | ⟨_,_,ignored⟩
  · obtain ⟨first,middle,last,same⟩ := marked bitmap
    rw [same] at ran
    rw [indices] at outside
    exact markEntry_within ran outside
  · rw [ignored] at ran
    cases Option.some.inj ran
    rfl

theorem mapLoop_within (ran : mapLoop memory rounds addr bitmap = some after) (outside : i ∉ mapIndices memory rounds addr bitmap) :
    after i = bitmap i := by
  induction rounds generalizing addr bitmap with
  | zero =>
    cases Option.some.inj ran
    rfl
  | succ rounds ih =>
    obtain ⟨middle,first,later⟩ := Option.bind_eq_some_iff.mp ran
    rw [mapIndices,first,Option.map_some,Option.getD_some,List.mem_append,not_or] at outside
    rw [ih later outside.2,mapEntry_within first outside.1]

theorem mmInit_within {s next : Mm} (ran : mmInit s info = some (ret,next)) (outside : i ∉ mmInitIndices s info) :
    next.pageAllocBitmap i = s.pageAllocBitmap i := by
  unfold mmInit at ran
  unfold mmInitIndices at outside
  by_cases missing : (info.flags >>> 6) % 2 = 0
  · rw [if_pos missing] at ran
    cases Option.some.inj ran
    rfl
  · rw [if_neg missing] at ran outside
    split at ran
    · cases ran
    · dsimp only at ran outside
      cases loop : mapLoop info.memory ((info.mmapLength+23)/24) info.mmapAddr (fill s.pageAllocBitmap 0 bitmapBytes 0xFF#8) with
      | none =>
        rw [loop] at ran
        cases ran
      | some detected =>
        rw [loop] at ran
        cases Option.some.inj ran
        simp only [List.mem_append,not_or,List.mem_range] at outside
        obtain ⟨⟨far,notWalked⟩,_⟩ := outside
        unfold bitmapBytes at far
        dsimp only [reserveKernel]
        rw [fill_outside (by omega),mapLoop_within loop notWalked,fill_outside (by unfold bitmapBytes; omega)]

theorem markIndices_inside (low : startBlock < word) (high : bound < word) :
    (∀ i ∈ markIndices startBlock bound, i < bitmapBytes) ↔ startBlock < frameCount ∧ bound < frameCount := by
  obtain ⟨last,members⟩ := runIndices_spec bound ((startBlock+8)%word/8)
  simp only [markIndices]
  rw [Nat.mul_comm ((startBlock+8)%word/8) 8,last]
  unfold word frameCount bitmapBytes at *
  constructor
  · intro inside
    have first := inside (startBlock/8) List.mem_cons_self
    refine ⟨by omega,?_⟩
    by_contra beyond
    have far := inside (bound/8) (List.mem_cons_of_mem _ (List.mem_append_left _ ((members _).mpr ⟨by omega,Nat.le_refl _⟩)))
    omega
  · rintro ⟨start,stop⟩ i member
    rcases List.mem_cons.mp member with rfl | later
    · omega
    · rcases List.mem_append.mp later with inRun | inLast
      · have upto := ((members i).mp inRun).2
        omega
      · rw [if_neg (by omega)] at inLast
        have same := List.mem_singleton.mp inLast
        omega

theorem entryIndices_span (marks : span e = some (startBlock,bound)) : entryIndices e = markIndices startBlock bound := by
  rcases mapEntry_span e with ⟨startBlock',bound',marks',indices,_⟩ | ⟨none_,_⟩
  · rw [marks] at marks'
    cases Option.some.inj marks'
    exact indices
  · rw [marks] at none_
    cases none_

theorem entryIndices_inside (e : MmapEntry) : (∀ i ∈ entryIndices e, i < bitmapBytes) ↔
    ∀ startBlock bound, span e = some (startBlock,bound) → startBlock < frameCount ∧ bound < frameCount := by
  rcases mapEntry_span e with ⟨startBlock,bound,marks,indices,low,high,_⟩ | ⟨none_,indices,_⟩
  · rw [indices,markIndices_inside low high,marks]
    constructor
    · intro inside _ _ same
      cases Option.some.inj same
      exact inside
    · intro inside
      exact inside _ _ rfl
  · rw [indices,none_]
    exact iff_of_true (fun i member => absurd member List.not_mem_nil) (fun _ _ never => by cases never)

theorem inside_ends (inside : ∀ startBlock bound, span e = some (startBlock,bound) → startBlock < frameCount ∧ bound < frameCount) : Ends e := by
  intro startBlock bound marks
  have stop := (inside startBlock bound marks).2
  unfold frameCount at stop
  unfold word
  omega

theorem mapIndices_inside (laid : Laid memory addr entries) (fits : addr+extent entries ≤ word) (bitmap : Bytes) :
    (∀ i ∈ mapIndices memory entries.length addr bitmap, i < bitmapBytes) ↔
      ∀ e ∈ entries, ∀ startBlock bound, span e = some (startBlock,bound) → startBlock < frameCount ∧ bound < frameCount := by
  induction entries generalizing addr bitmap with
  | nil => exact iff_of_true (fun i member => absurd member List.not_mem_nil) (fun e member => absurd member List.not_mem_nil)
  | cons e rest ih =>
    obtain ⟨below,left,_⟩ := laid.next fits
    rw [List.forall_mem_cons,List.length_cons,mapIndices,laid.1,List.forall_mem_append,entryIndices_inside]
    refine and_congr_right (fun inside => ?_)
    obtain ⟨middle,first⟩ := (mapEntry_returns bitmap e).mpr (inside_ends inside)
    rw [first,Option.map_some,Option.getD_some]
    exact ih below left middle

theorem bitmap_indices_inside_iff (formed : WellFormed info entries) (exact_ : ∀ e ∈ entries, e.size = 20) (s : Mm) :
    (∀ i ∈ mmInitIndices s info, i < bitmapBytes) ↔
      ∀ e ∈ entries, ∀ startBlock bound, span e = some (startBlock,bound) → startBlock < frameCount ∧ bound < frameCount := by
  have fits : info.mmapAddr+extent entries ≤ word := by
    rw [← formed.length]
    exact formed.located
  have own : ∀ i ∈ List.range bitmapBytes, i < bitmapBytes := fun i member => List.mem_range.mp member
  rw [← mapIndices_inside formed.laid fits (fill s.pageAllocBitmap 0 bitmapBytes 0xFF#8)]
  unfold mmInitIndices
  rw [if_neg (by rw [formed.provided]; decide)]
  dsimp only
  rw [(formed.in_step exact_).1,List.forall_mem_append,List.forall_mem_append]
  constructor
  · rintro ⟨⟨_,inside⟩,_⟩
    exact inside
  · intro inside
    refine ⟨⟨own,inside⟩,?_⟩
    split
    · refine List.forall_mem_append.mpr ⟨fun i member => ?_,own⟩
      have low := List.mem_range.mp member
      unfold bitmapBytes
      omega
    · exact fun i member => absurd member List.not_mem_nil

theorem low_entry_inside : WellFormed (alone ⟨20,0x100000,0x7EE0000,1⟩) [⟨20,0x100000,0x7EE0000,1⟩] ∧
    ∀ i ∈ mmInitIndices powerOn (alone ⟨20,0x100000,0x7EE0000,1⟩), i < bitmapBytes := by
  have formed : WellFormed (alone ⟨20,0x100000,0x7EE0000,1⟩) [⟨20,0x100000,0x7EE0000,1⟩] := alone_formed (by decide) (by decide)
  refine ⟨formed,(bitmap_indices_inside_iff formed ?_ powerOn).mpr ?_⟩
  · intro e member
    cases List.mem_singleton.mp member
    rfl
  · intro e member startBlock bound marks
    cases List.mem_singleton.mp member
    cases Option.some.inj marks
    decide

-- The firmware at the top of the 4 GiB: its end is block 1048576.
theorem firmware_overruns : WellFormed (alone ⟨20,0xFFFC0000,0x40000,2⟩) [⟨20,0xFFFC0000,0x40000,2⟩] ∧
    ∃ i ∈ mmInitIndices powerOn (alone ⟨20,0xFFFC0000,0x40000,2⟩), ¬ i < bitmapBytes := by
  have formed : WellFormed (alone ⟨20,0xFFFC0000,0x40000,2⟩) [⟨20,0xFFFC0000,0x40000,2⟩] := alone_formed (by decide) (by decide)
  refine ⟨formed,131072,?_,by decide⟩
  have indices : entryIndices ⟨20,0xFFFC0000,0x40000,2⟩ = markIndices 1048512 1048576 := entryIndices_span (by decide)
  have marked : 131072 ∈ entryIndices ⟨20,0xFFFC0000,0x40000,2⟩ := by
    obtain ⟨_,members⟩ := runIndices_spec 1048576 131065
    rw [indices,markIndices,show (1048512+8)%word/8*8 = 8*131065 by decide]
    generalize runIndices 1048576 (8*131065) = run at members ⊢
    exact List.mem_cons_of_mem _ (List.mem_append_left _ ((members 131072).mpr ⟨by decide,by decide⟩))
  have walked : ∀ bitmap, 131072 ∈ mapIndices (alone ⟨20,0xFFFC0000,0x40000,2⟩).memory (0+1) 0x9000 bitmap := by
    intro bitmap
    rw [mapIndices,alone_memory]
    exact List.mem_append_left _ marked
  rw [mmInitIndices,if_neg (by rw [formed.provided]; decide)]
  exact List.mem_append_left _ (List.mem_append_right _ (walked _))

end KaracaOS.BootWalk
