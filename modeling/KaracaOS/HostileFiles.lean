import KaracaOS.ElfLoader

namespace KaracaOS.HostileFiles
open ByteMemory ByteCopies MemoryManager BuddyAllocator BuddyRuns ElfLoader

def Fits (hdr : Bytes) : Prop :=
  ePhnum hdr ≤ maxPhdrs ∧
    (ePhnum hdr = 0 ∨ ePhentsize hdr = 0 ∨ (ePhnum hdr-1)*sizeofPhdr+ePhentsize hdr ≤ maxPhdrs*sizeofPhdr)

def ReadsBelow (limit : Nat) (copies : List Copy) : Prop := ∀ c ∈ copies, ∀ k < c.num, (c.src+k) % word < limit

def WritesBelow (limit : Nat) (copies : List Copy) : Prop := ∀ c ∈ copies, ∀ k < c.num, (c.dst+k) % word < limit

def Failed (o : Outcome) : Prop := ∃ ret, o.ret = some ret ∧ ret ≠ .noError

-- Offsets from the buffer stay below its size, those in phdrs below its end,
-- those from loc below mem_high.
structure Contained (o : Outcome) (size : Nat) : Prop where
  header : o.looked ≤ size
  tableReads : ReadsBelow size o.table
  tableWrites : WritesBelow (maxPhdrs*sizeofPhdr) o.table
  segmentReads : ReadsBelow size o.segments
  segmentWrites : WritesBelow (memHigh o.headers) o.segments

-- The run is defined, and fails or keeps to its buffers.
def StaysInside (run : Option Outcome) (size : Nat) : Prop := ∃ o, run = some o ∧ (Failed o ∨ Contained o size)

-- The same about the file and the allocator before.
def TableInFile (hdr : Bytes) (size : Nat) : Prop :=
  ePhnum hdr*ePhentsize hdr = 0 ∨ ePhoff hdr+ePhnum hdr*ePhentsize hdr ≤ size

def SegmentsInFile (headers : List Phdr) (size : Nat) : Prop :=
  ∀ ph ∈ segmentsOf headers, ph.pFilesz = 0 ∨ ph.pOffset+ph.pFilesz ≤ size ∧ ph.pVaddr+ph.pFilesz ≤ memHigh headers

def Refused (s : Allocator) (need : Nat) : Prop :=
  ∃ ret next, buddyAllocatorAlloc s need = some (.error ret,next) ∧ ret ≠ .noError

def Answered (s : Allocator) (need : Nat) : Prop := ∃ block next, buddyAllocatorAlloc s need = some (.ok block,next)

variable {stack : Stack} {memory frames hdr : Bytes} {s : Allocator} {buffer size looked : Nat} {headers : List Phdr}

theorem offsets_below (small : first < word) (limited : limit < word) :
    (∀ k < count, (first+k) % word < limit) ↔ count = 0 ∨ first+count ≤ limit := by
  constructor
  · intro each
    by_cases within : first+count ≤ limit
    · exact .inr within
    · by_cases empty : count = 0
      · exact .inl empty
      · by_cases past : limit ≤ first
        · have head := each 0 (by omega)
          rw [Nat.add_zero,Nat.mod_eq_of_lt small] at head
          omega
        · have beyond := each (limit-first) (by omega)
          rw [Nat.add_sub_cancel' (by omega),Nat.mod_eq_of_lt limited] at beyond
          omega
  · rintro (rfl | within) k below
    · cases below
    · rw [Nat.mod_eq_of_lt (by omega)]
      omega

theorem forall_rows {holds : Nat → Prop} : (∀ i < rows, ∀ k < width, holds (i*width+k)) ↔ ∀ j < rows*width, holds j := by
  constructor
  · intro each j below
    have wide : 0 < width := by
      refine Nat.pos_of_ne_zero ?_
      rintro rfl
      exact absurd below (Nat.not_lt_zero j)
    have at_ := each (j/width) (Nat.div_lt_of_lt_mul (by rwa [Nat.mul_comm])) (j%width) (Nat.mod_lt j wide)
    rwa [Nat.div_add_mod'] at at_
  · intro each i row k column
    refine each _ ?_
    calc i*width+k < i*width+width := Nat.add_lt_add_left column _
      _ = (i+1)*width := (Nat.succ_mul i width).symm
      _ ≤ rows*width := Nat.mul_le_mul_right width row

theorem table_reads (limited : size < word) : ReadsBelow size (tableCopies hdr) ↔ TableInFile hdr size := by
  have rows : ReadsBelow size (tableCopies hdr) ↔
      ∀ i < ePhnum hdr, ∀ k < ePhentsize hdr, (ePhoff hdr+(i*ePhentsize hdr+k)) % word < size := by
    simp only [ReadsBelow,tableCopies,List.forall_mem_map,List.mem_range,Nat.mod_add_mod,Nat.add_assoc]
  rw [rows,@forall_rows _ _ fun j => (ePhoff hdr+j) % word < size]
  exact offsets_below (get32_lt hdr 28) limited

theorem table_targets : (∀ c ∈ (tableCopies hdr).map (Copy.sourced word buffer), c.num = 0 ∨ c.dst+c.num ≤ maxPhdrs*sizeofPhdr) ↔
    ePhnum hdr = 0 ∨ ePhentsize hdr = 0 ∨ (ePhnum hdr-1)*sizeofPhdr+ePhentsize hdr ≤ maxPhdrs*sizeofPhdr := by
  simp only [tableCopies,List.forall_mem_map,List.mem_range,Copy.sourced]
  constructor
  · intro each
    by_cases empty : ePhnum hdr = 0
    · exact .inl empty
    · exact .inr (each (ePhnum hdr-1) (by omega))
  · intro room i below
    unfold sizeofPhdr at *
    omega

theorem readPhdrs_iff : (∃ headers, readPhdrs phdrs phnum = some headers) ↔ phnum ≤ maxPhdrs := by
  rw [readPhdrs]
  split <;> simp [*]

theorem loadHeaders_iff : (∃ headers, loadHeaders stack hdr memory buffer = some headers) ↔ Fits hdr := by
  rw [Fits,← @table_targets hdr buffer,← @outAll_iff word _ memory (fill stack.phdrs 0 100 0)]
  constructor
  · rintro ⟨headers,loaded⟩
    obtain ⟨phdrs,tabled,read⟩ := Option.bind_eq_some_iff.mp loaded
    exact ⟨readPhdrs_iff.mp ⟨headers,read⟩,phdrs,tabled⟩
  · rintro ⟨few,phdrs,tabled⟩
    obtain ⟨headers,read⟩ := readPhdrs_iff.mpr few
    exact ⟨headers,Option.bind_eq_some_iff.mpr ⟨phdrs,tabled,read⟩⟩

theorem table_writes (fits : Fits hdr) : WritesBelow (maxPhdrs*sizeofPhdr) (tableCopies hdr) := by
  intro c member k below
  have room := (@table_targets hdr 0).mpr fits.2 _ (List.mem_map_of_mem member)
  dsimp only [Copy.sourced] at room
  unfold maxPhdrs sizeofPhdr at *
  rw [Nat.mod_eq_of_lt (by unfold word; omega)]
  omega

theorem segment_accesses (located : ∀ ph ∈ headers, ph.pVaddr < word ∧ ph.pOffset < word) (limited : size < word) :
    ReadsBelow size (segmentCopies headers) ∧ WritesBelow (memHigh headers) (segmentCopies headers) ↔ SegmentsInFile headers size := by
  have each : ∀ ph ∈ segmentsOf headers,
      ((∀ k < ph.pFilesz, (ph.pOffset+k) % word < size) ↔ ph.pFilesz = 0 ∨ ph.pOffset+ph.pFilesz ≤ size) ∧
        ((∀ k < ph.pFilesz, (ph.pVaddr+k) % word < memHigh headers) ↔ ph.pFilesz = 0 ∨ ph.pVaddr+ph.pFilesz ≤ memHigh headers) := by
    intro ph segment
    obtain ⟨target,source⟩ := located ph (List.mem_of_mem_filter segment)
    exact ⟨offsets_below source limited,offsets_below target (memHigh_small headers)⟩
  simp only [ReadsBelow,WritesBelow,segmentCopies,List.forall_mem_map]
  constructor
  · rintro ⟨reads,writes⟩ ph segment
    obtain ⟨source,target⟩ := each ph segment
    have inFile := source.mp (reads ph segment)
    have inBlock := target.mp (writes ph segment)
    omega
  · intro inside
    refine ⟨fun ph segment => ((each ph segment).1).mpr ?_,fun ph segment => ((each ph segment).2).mpr ?_⟩
    · have both := inside ph segment
      omega
    · have both := inside ph segment
      omega

theorem headers_located (loaded : loadHeaders stack hdr memory buffer = some headers) : ∀ ph ∈ headers, ph.pVaddr < word ∧ ph.pOffset < word := by
  obtain ⟨phdrs,_,read⟩ := Option.bind_eq_some_iff.mp loaded
  rw [readPhdrs] at read
  split at read
  · cases Option.some.inj read
    intro ph member
    obtain ⟨i,_,rfl⟩ := List.mem_map.mp member
    exact ph_bounds phdrs _
  · cases read

theorem loaded_records (memory frames : Bytes) (s : Allocator) (buffer : Nat) (hdr : Bytes) (looked : Nat) (headers : List Phdr) :
    (loadSegments memory frames s buffer hdr looked headers).looked = looked ∧
      (loadSegments memory frames s buffer hdr looked headers).table = tableCopies hdr ∧
      (loadSegments memory frames s buffer hdr looked headers).headers = headers := by
  rw [loadSegments]
  split <;> exact ⟨rfl,rfl,rfl⟩

theorem loaded_answered (answered : Answered s (memHigh headers)) :
    (loadSegments memory frames s buffer hdr looked headers).segments = segmentCopies headers := by
  obtain ⟨block,next,answer⟩ := answered
  rw [loadSegments,answer]

theorem loaded_unanswered (unanswered : ¬ Answered s (memHigh headers)) :
    (loadSegments memory frames s buffer hdr looked headers).segments = [] := by
  rw [loadSegments]
  split
  · rfl
  · rfl
  · rename_i answer
    exact absurd ⟨_,_,answer⟩ unanswered

theorem loaded_failed : Failed (loadSegments memory frames s buffer hdr looked headers) ↔ Refused s (memHigh headers) := by
  rw [loadSegments]
  constructor
  · rintro ⟨ret,returned,bad⟩
    split at returned
    · cases returned
    · rename_i answer
      cases returned
      exact ⟨ret,_,answer,bad⟩
    · cases returned
      exact absurd rfl bad
  · rintro ⟨ret,next,answer,bad⟩
    rw [answer]
    exact ⟨ret,rfl,bad⟩

theorem loaded_contained (limited : size < word) (fits : Fits hdr) (located : ∀ ph ∈ headers, ph.pVaddr < word ∧ ph.pOffset < word) :
    Contained (loadSegments memory frames s buffer hdr looked headers) size ↔
      looked ≤ size ∧ TableInFile hdr size ∧ (Answered s (memHigh headers) → SegmentsInFile headers size) := by
  obtain ⟨header,table,same⟩ := loaded_records memory frames s buffer hdr looked headers
  constructor
  · intro contained
    have tableReads := contained.tableReads
    have reads := contained.segmentReads
    have writes := contained.segmentWrites
    rw [table] at tableReads
    rw [same] at writes
    refine ⟨header ▸ contained.header,(table_reads limited).mp tableReads,?_⟩
    intro answered
    rw [loaded_answered answered] at reads writes
    exact (segment_accesses located limited).mp ⟨reads,writes⟩
  · rintro ⟨looks,inFile,inside⟩
    have accesses : ReadsBelow size (loadSegments memory frames s buffer hdr looked headers).segments ∧
        WritesBelow (memHigh headers) (loadSegments memory frames s buffer hdr looked headers).segments := by
      by_cases answered : Answered s (memHigh headers)
      · rw [loaded_answered answered]
        exact (segment_accesses located limited).mpr (inside answered)
      · rw [loaded_unanswered answered]
        simp [ReadsBelow,WritesBelow]
    refine ⟨header.symm ▸ looks,?_,?_,accesses.1,?_⟩
    · rw [table]
      exact (table_reads limited).mpr inFile
    · rw [table]
      exact table_writes fits
    · rw [same]
      exact accesses.2

theorem keeps_to_buffers_iff (limited : size < word) (parsed : elfParseHeader stack.hdr memory buffer = some (ret,hdr,looked)) :
    StaysInside (elfLoadElfFile stack memory frames s buffer size) size ↔
      Fits hdr ∧ ∀ headers, loadHeaders stack hdr memory buffer = some headers →
        Refused s (memHigh headers) ∨
          looked ≤ size ∧ TableInFile hdr size ∧ (Answered s (memHigh headers) → SegmentsInFile headers size) := by
  rw [load_headers parsed]
  constructor
  · rintro ⟨o,ran,inside⟩
    obtain ⟨headers,loaded,rfl⟩ := Option.map_eq_some_iff.mp ran
    have fits := loadHeaders_iff.mp ⟨headers,loaded⟩
    refine ⟨fits,?_⟩
    intro other again
    cases Option.some.inj (loaded.symm.trans again)
    exact (or_congr loaded_failed (loaded_contained limited fits (headers_located loaded))).mp inside
  · rintro ⟨fits,inside⟩
    obtain ⟨headers,loaded⟩ := loadHeaders_iff.mpr fits
    refine ⟨_,Option.map_eq_some_iff.mpr ⟨headers,loaded,rfl⟩,?_⟩
    exact (or_congr loaded_failed (loaded_contained limited fits (headers_located loaded))).mpr (inside headers loaded)

theorem keeps_to_buffers_tiny : ∃ s, StaysInside (elfLoadElfFile ⟨blank,blank⟩ tinyFile blank s 0 88) 88 := by
  obtain ⟨start,next,node,_,allocated,_⟩ := first_page (show 24 ≤ 65536 by decide) (by decide)
  obtain ⟨hdr,parsed,fields,loaded⟩ := file_headers tiny_file.toReadable ⟨blank,blank⟩
  rw [tiny_headers] at loaded
  refine ⟨start.allocator,(keeps_to_buffers_iff (by decide) parsed).mpr ⟨loadHeaders_iff.mp ⟨_,loaded⟩,?_⟩⟩
  intro headers again
  cases Option.some.inj (loaded.symm.trans again)
  refine .inr ⟨by decide,.inr ?_,fun _ => ?_⟩
  · rw [fields.phoff,fields.phnum,fields.phentsize]
    decide
  · intro ph segment
    cases List.mem_singleton.mp segment
    decide

-- p_vaddr+p_memsz wraps to 32, so one page is enough; the bytes go to address 0.
def wildFile : Bytes := oneSegment ⟨ptLoad,0,0xF0000000,16,0x10000020⟩

theorem wild_headers : fileHeaders (charsOf wildFile 0) = [⟨ptLoad,0,0xF0000000,16,0x10000020⟩] := by decide

theorem wild_readable : Readable wildFile 0 :=
  ⟨by decide,by decide,by decide,by decide,by decide⟩

theorem wild_file_escapes : ∃ start, Started start ∧ ¬ StaysInside (elfLoadElfFile ⟨blank,blank⟩ wildFile blank start.allocator 0 84) 84 := by
  obtain ⟨start,next,node,started,allocated,_⟩ := first_page (show 32 ≤ 65536 by decide) (by decide)
  refine ⟨start,started,?_⟩
  rintro ⟨o,ran,inside⟩
  have high : memHigh [⟨ptLoad,0,0xF0000000,16,0x10000020⟩] = 32 := by decide
  rw [file_loaded wild_readable,wild_headers,loadSegments,high,allocated] at ran
  cases Option.some.inj ran
  rcases inside with ⟨ret,returned,bad⟩ | contained
  · exact bad (Option.some.inj returned).symm
  · have wrote : WritesBelow (memHigh [⟨ptLoad,0,0xF0000000,16,0x10000020⟩]) (segmentCopies [⟨ptLoad,0,0xF0000000,16,0x10000020⟩]) :=
      contained.segmentWrites
    exact absurd (wrote ⟨0xF0000000,0,16⟩ (by decide) 0 (by decide)) (by decide)

-- What a rejected program should lead to.
def Rejects (s : Allocator) (run : Option Outcome) : Prop :=
  ∃ o ret, run = some o ∧ o.ret = some ret ∧ ret ≠ .noError ∧ o.entry = none ∧ o.loadedLoc = none ∧ o.allocator = s

-- A refused header leaves *ret as it was, on the stack.
theorem rejected_header (parsed : elfParseHeader stack.hdr memory buffer = some (ret,hdr,looked)) (bad : ret ≠ .noError) :
    hdr = stack.hdr := by
  obtain ⟨copy,copied,_⟩ := header_copied memory stack.hdr buffer
  rw [elfParseHeader,copied] at parsed
  split_ifs at parsed <;> cases parsed
  -- Six refusals, and the header that is taken.
  all_goals first | rfl | exact absurd rfl bad

theorem rejects_loaded : Rejects s (some (loadSegments memory frames s buffer hdr looked headers)) ↔
    ∃ ret, buddyAllocatorAlloc s (memHigh headers) = some (.error ret,s) ∧ ret ≠ .noError := by
  rw [loadSegments]
  constructor
  · rintro ⟨o,ret,ran,returned,bad,entry,_,kept⟩
    cases Option.some.inj ran
    cases answer : buddyAllocatorAlloc s (memHigh headers) with
    | none =>
      rw [answer] at returned
      cases returned
    | some result =>
      obtain ⟨result,next⟩ := result
      rw [answer] at returned entry kept
      cases result with
      | ok block => cases entry
      | error other =>
        have same : next = s := kept
        subst same
        cases returned
        exact ⟨ret,rfl,bad⟩
  · rintro ⟨ret,answer,bad⟩
    rw [answer]
    exact ⟨_,ret,rfl,rfl,bad,rfl,rfl,rfl⟩

theorem rejects_iff (parsed : elfParseHeader stack.hdr memory buffer = some (ret,hdr,looked)) (bad : ret ≠ .noError) :
    Rejects s (elfLoadElfFile stack memory frames s buffer size) ↔
      Fits stack.hdr ∧ ∀ headers, loadHeaders stack stack.hdr memory buffer = some headers →
        ∃ ret, buddyAllocatorAlloc s (memHigh headers) = some (.error ret,s) ∧ ret ≠ .noError := by
  cases rejected_header parsed bad
  rw [load_headers parsed]
  constructor
  · intro rejects
    have defined := rejects
    obtain ⟨o,_,ran,_⟩ := defined
    obtain ⟨headers,loaded,_⟩ := Option.map_eq_some_iff.mp ran
    refine ⟨loadHeaders_iff.mp ⟨headers,loaded⟩,?_⟩
    intro other again
    rw [again,Option.map_some] at rejects
    exact rejects_loaded.mp rejects
  · rintro ⟨fits,refused⟩
    obtain ⟨headers,loaded⟩ := loadHeaders_iff.mpr fits
    rw [loaded,Option.map_some]
    exact rejects_loaded.mpr (refused headers loaded)

-- A header with five entries of no length, the last of them found on the stack.
def stale : Stack := ⟨put16 blank 44 5,put32 blank 136 1⟩

theorem rejects_without_memory : Rejects ⟨BootMap.powerOn,⟨fun _ => 0,fun _ => 0,fun _ => ⟨0,0,0,false,false,0,0,false⟩,0⟩⟩
    (elfLoadElfFile stale blank blank ⟨BootMap.powerOn,⟨fun _ => 0,fun _ => 0,fun _ => ⟨0,0,0,false,false,0,0,false⟩,0⟩⟩ 0 84) := by
  have parsed : elfParseHeader stale.hdr blank 0 = some (.malformed,stale.hdr,1) := rfl
  refine (rejects_iff parsed (by decide)).mpr ⟨by unfold Fits; decide,?_⟩
  intro headers loaded
  have known : loadHeaders stale stale.hdr blank 0 = some (List.replicate 4 ⟨0,0,0,0,0⟩ ++ [⟨0,0,1,0,0⟩]) := by decide
  cases Option.some.inj (known.symm.trans loaded)
  refine ⟨.memAllocError,?_,by decide⟩
  rw [buddyAllocatorAlloc,if_pos (by decide)]

-- No ELF file at all is loaded, into a page of its own.
theorem blank_file_loads : ∃ start looked, Started start ∧ elfParseHeader blank blank 0 = some (.malformed,blank,looked) ∧
    ¬ Rejects start.allocator (elfLoadElfFile ⟨blank,blank⟩ blank blank start.allocator 0 84) := by
  obtain ⟨start,next,node,started,allocated,_⟩ := first_page (show 0 ≤ 65536 by decide) (by decide)
  have parsed : elfParseHeader (Stack.mk blank blank).hdr blank 0 = some (.malformed,blank,1) := rfl
  refine ⟨start,1,started,parsed,?_⟩
  have nothing : loadHeaders ⟨blank,blank⟩ blank blank 0 = some [] := by decide
  have high : memHigh [] = 0 := rfl
  rw [load_headers parsed,nothing,Option.map_some,rejects_loaded,high,allocated]
  rintro ⟨ret,refused,_⟩
  cases refused

end KaracaOS.HostileFiles
