import KaracaOS.BuddyRuns
import KaracaOS.ByteCopies

namespace KaracaOS.ElfLoader
open ByteMemory ByteCopies MemoryManager BuddyAllocator BuddyRuns

def sizeofEhdr : Nat := 52
def sizeofPhdr : Nat := 32
def maxPhdrs : Nat := 100

def eEntry (hdr : Bytes) : Nat := get32 hdr 24
def ePhoff (hdr : Bytes) : Nat := get32 hdr 28
def ePhentsize (hdr : Bytes) : Nat := get16 hdr 42
def ePhnum (hdr : Bytes) : Nat := get16 hdr 44

structure Phdr where
  pType : Nat
  pOffset : Nat
  pVaddr : Nat
  pFilesz : Nat
  pMemsz : Nat
  deriving DecidableEq

def phdrAt (bytes : Bytes) (offset : Nat) : Phdr :=
  ⟨get32 bytes offset,get32 bytes (offset+4),get32 bytes (offset+8),get32 bytes (offset+16),get32 bytes (offset+20)⟩

def ptLoad : Nat := 1

-- buffer[i] for any i, as far as a 32-bit address reaches.
def charsOf (memory : Bytes) (buffer : Nat) : Bytes := fun i => memory ((buffer+i) % word)

-- With the number of bytes of the buffer that were looked at, from its start.
def elfParseHeader (ret memory : Bytes) (buffer : Nat) : Option (SysRet × Bytes × Nat) :=
  let bufchr := charsOf memory buffer
  if bufchr 0 ≠ 0x7F then some (.malformed,ret,1)
  else if bufchr 1 ≠ 0x45 then some (.malformed,ret,2)
  else if bufchr 2 ≠ 0x4C then some (.malformed,ret,3)
  else if bufchr 3 ≠ 0x46 then some (.malformed,ret,4)
  else if bufchr 4 = 2 ∨ bufchr 4 = 0 then some (.unsupported,ret,5)
  else if bufchr 5 = 2 ∨ bufchr 5 = 0 then some (.unsupported,ret,6)
  else (copyOut word sizeofEhdr memory sizeofEhdr 0 (buffer % word) ret).map fun hdr => (.noError,hdr,sizeofEhdr)

-- The kaos_memcpy of each round: to an offset in out_phdr, from one in the buffer.
def tableCopies (hdr : Bytes) : List Copy :=
  (List.range (ePhnum hdr)).map fun i => ⟨i*sizeofPhdr,(ePhoff hdr+i*ePhentsize hdr) % word,ePhentsize hdr⟩

-- none: a write behind the 100 elements of phdrs.
def elfParseProgramHeaders (outPhdr elfHdr memory : Bytes) (buffer : Nat) : Option Bytes :=
  outAll word (maxPhdrs*sizeofPhdr) memory ((tableCopies elfHdr).map (Copy.sourced word buffer)) outPhdr

-- phdrs[i] of both loops; none: a read behind the array.
def readPhdrs (phdrs : Bytes) (phnum : Nat) : Option (List Phdr) :=
  if phnum ≤ maxPhdrs then some ((List.range phnum).map fun i => phdrAt phdrs (i*sizeofPhdr)) else none

def Phdr.memHigh (ph : Phdr) : Nat := (ph.pVaddr+ph.pMemsz) % word

def memHigh (headers : List Phdr) : Nat := headers.foldl (fun high ph => if high < ph.memHigh then ph.memHigh else high) 0

-- The kaos_memcpy of each PT_LOAD header: to an offset from loc, from one in the buffer.
def segmentCopies (headers : List Phdr) : List Copy :=
  (headers.filter fun ph => ph.pType = ptLoad).map fun ph => ⟨ph.pVaddr,ph.pOffset,ph.pFilesz⟩

-- What the two local arrays hold on entry.
structure Stack where
  hdr : Bytes
  phdrs : Bytes

-- What is returned (none where buddy_allocator__alloc does not come back),
-- *entry and *loaded_loc where they are written, and for the record how much of
-- the header was looked at, the program headers read and the copies made.
structure Outcome where
  ret : Option SysRet
  entry : Option Nat
  loadedLoc : Option Nat
  memory : Bytes
  allocator : Allocator
  looked : Nat
  headers : List Phdr
  table : List Copy
  segments : List Copy

-- The loader from the allocation on: the block's pages show what the frames
-- mapped there held before.
def loadSegments (memory frames : Bytes) (s : Allocator) (buffer : Nat) (hdr : Bytes) (looked : Nat) (headers : List Phdr) : Outcome :=
  match buddyAllocatorAlloc s (memHigh headers) with
  | none => ⟨none,none,none,memory,s,looked,headers,tableCopies hdr,[]⟩
  | some (.error ret,s) => ⟨some ret,none,none,memory,s,looked,headers,tableCopies hdr,[]⟩
  | some (.ok (loc,node),s) =>
    let memory := blit memory loc frames loc (s.arena.node node).len
    ⟨some .noError,some ((loc+eEntry hdr) % word),some loc,
      copyAll word ((segmentCopies headers).map (Copy.placed word loc buffer)) memory,s,looked,headers,tableCopies hdr,segmentCopies headers⟩

-- The errors of the two parsers are printed and dropped; size is not read.
-- none: an access behind phdrs.
def elfLoadElfFile (stack : Stack) (memory frames : Bytes) (s : Allocator) (buffer _size : Nat) : Option Outcome :=
  (elfParseHeader stack.hdr memory buffer).bind fun (_,hdr,looked) =>
    (elfParseProgramHeaders (fill stack.phdrs 0 100 0) hdr memory buffer).bind fun phdrs =>
      (readPhdrs phdrs (ePhnum hdr)).map fun headers => loadSegments memory frames s buffer hdr looked headers

def loadHeaders (stack : Stack) (hdr memory : Bytes) (buffer : Nat) : Option (List Phdr) :=
  (elfParseProgramHeaders (fill stack.phdrs 0 100 0) hdr memory buffer).bind fun phdrs => readPhdrs phdrs (ePhnum hdr)

def fileHeaders (file : Bytes) : List Phdr :=
  (List.range (ePhnum file)).map fun i => phdrAt file (ePhoff file+i*sizeofPhdr)

def segmentsOf (headers : List Phdr) : List Phdr := headers.filter fun ph => ph.pType = ptLoad

def Phdr.Covers (ph : Phdr) (x : Nat) : Prop := ph.pVaddr ≤ x ∧ x < ph.pVaddr+ph.pMemsz

-- A 32-bit little-endian header with entries of the size the loader takes.
structure Readable (memory : Bytes) (buffer : Nat) : Prop where
  magic : charsOf memory buffer 0 = 0x7F ∧ charsOf memory buffer 1 = 0x45 ∧ charsOf memory buffer 2 = 0x4C ∧ charsOf memory buffer 3 = 0x46
  class32 : charsOf memory buffer 4 = 1
  littleEndian : charsOf memory buffer 5 = 1
  entries : ePhentsize (charsOf memory buffer) = sizeofPhdr
  few : ePhnum (charsOf memory buffer) ≤ maxPhdrs

-- An ELF file in a buffer, its segments inside it.
structure ElfFile (memory : Bytes) (buffer size : Nat) : Prop extends Readable memory buffer where
  object : buffer+size ≤ word
  sized : ∀ ph ∈ segmentsOf (fileHeaders (charsOf memory buffer)),
    ph.pFilesz ≤ ph.pMemsz ∧ ph.pOffset+ph.pFilesz ≤ size ∧ ph.pVaddr+ph.pMemsz < 2147483648
  apart : (segmentsOf (fileHeaders (charsOf memory buffer))).Pairwise fun a b => ∀ x, ¬ (a.Covers x ∧ b.Covers x)

variable {stack : Stack} {memory frames hdr phdrs : Bytes} {s : Allocator} {buffer size : Nat} {o : Outcome} {headers : List Phdr}

theorem header_copied (memory ret : Bytes) (buffer : Nat) : ∃ hdr, copyOut word sizeofEhdr memory sizeofEhdr 0 (buffer % word) ret = some hdr ∧
    ∀ i < sizeofEhdr, hdr i = charsOf memory buffer i := by
  obtain ⟨hdr,ran⟩ := copyOut_iff.mpr (show sizeofEhdr = 0 ∨ 0+sizeofEhdr ≤ sizeofEhdr from .inr (by decide))
  refine ⟨hdr,ran,?_⟩
  intro i inside
  rw [copyOut_inside (Nat.mod_lt _ (by decide)) ran,if_pos (by omega),Nat.sub_zero,Nat.mod_add_mod]
  rfl

theorem elfParseHeader_accepts (file : Readable memory buffer) (ret : Bytes) :
    ∃ hdr, elfParseHeader ret memory buffer = some (.noError,hdr,sizeofEhdr) ∧ ∀ i < sizeofEhdr, hdr i = charsOf memory buffer i := by
  obtain ⟨hdr,copied,same⟩ := header_copied memory ret buffer
  obtain ⟨zero,one,two,three⟩ := file.magic
  refine ⟨hdr,?_,same⟩
  rw [elfParseHeader]
  simp only [zero,one,two,three,file.class32,file.littleEndian,copied]
  rfl

theorem get32_same {left right : Bytes} (same : ∀ k < 4, left (a+k) = right (b+k)) : get32 left a = get32 right b := by
  simp only [get32,get16,get8,Nat.add_assoc]
  have zero := same 0 (by decide)
  rw [Nat.add_zero,Nat.add_zero] at zero
  rw [zero,same 1 (by decide),same 2 (by decide),same 3 (by decide)]

theorem get16_same {left right : Bytes} (same : ∀ k < 2, left (a+k) = right (b+k)) : get16 left a = get16 right b := by
  have zero := same 0 (by decide)
  rw [Nat.add_zero,Nat.add_zero] at zero
  rw [get16,get16,get8,get8,get8,get8,zero,same 1 (by decide)]

structure SameFields (hdr file : Bytes) : Prop where
  entry : eEntry hdr = eEntry file
  phoff : ePhoff hdr = ePhoff file
  phentsize : ePhentsize hdr = ePhentsize file
  phnum : ePhnum hdr = ePhnum file

theorem same_fields {file : Bytes} (same : ∀ i < sizeofEhdr, hdr i = file i) : SameFields hdr file :=
  ⟨get32_same fun k below => same _ (by unfold sizeofEhdr; omega),get32_same fun k below => same _ (by unfold sizeofEhdr; omega),
    get16_same fun k below => same _ (by unfold sizeofEhdr; omega),get16_same fun k below => same _ (by unfold sizeofEhdr; omega)⟩

theorem phdrAt_same {left right : Bytes} (same : ∀ k < sizeofPhdr, left (a+k) = right (b+k)) : phdrAt left a = phdrAt right b := by
  unfold phdrAt
  have shifted : ∀ d, d+4 ≤ sizeofPhdr → get32 left (a+d) = get32 right (b+d) := by
    intro d room
    refine get32_same ?_
    intro k below
    rw [Nat.add_assoc,Nat.add_assoc]
    exact same (d+k) (by omega)
  rw [shifted 4 (by decide),shifted 8 (by decide),shifted 16 (by decide),shifted 20 (by decide)]
  have zero := shifted 0 (by decide)
  rw [Nat.add_zero,Nat.add_zero] at zero
  rw [zero]

theorem sourced_small (hdr : Bytes) (buffer : Nat) : ∀ c ∈ (tableCopies hdr).map (Copy.sourced word buffer), c.src < word := by
  intro c member
  obtain ⟨d,_,rfl⟩ := List.mem_map.mp member
  exact Nat.mod_lt _ (by decide)

theorem table_loaded (entries : ePhentsize hdr = sizeofPhdr) (few : ePhnum hdr ≤ maxPhdrs) (before : Bytes) :
    ∃ phdrs, elfParseProgramHeaders before hdr memory buffer = some phdrs ∧
      readPhdrs phdrs (ePhnum hdr) = some ((List.range (ePhnum hdr)).map fun i => phdrAt (charsOf memory buffer) (ePhoff hdr+i*sizeofPhdr)) := by
  have room : ∀ c ∈ (tableCopies hdr).map (Copy.sourced word buffer), c.num = 0 ∨ c.dst+c.num ≤ maxPhdrs*sizeofPhdr := by
    intro c member
    obtain ⟨d,inside,rfl⟩ := List.mem_map.mp member
    obtain ⟨i,below,rfl⟩ := List.mem_map.mp inside
    have below := List.mem_range.mp below
    refine .inr ?_
    simp only [Copy.sourced,entries]
    unfold maxPhdrs sizeofPhdr at *
    omega
  obtain ⟨phdrs,ran⟩ := outAll_iff.mpr room
  have targets : ((tableCopies hdr).map (Copy.sourced word buffer)).Pairwise fun c d => c.dst+c.num ≤ d.dst ∨ d.dst+d.num ≤ c.dst := by
    rw [tableCopies,List.map_map,List.pairwise_map]
    refine List.pairwise_lt_range.imp ?_
    intro i j less
    simp only [Function.comp,Copy.sourced,entries]
    unfold sizeofPhdr
    omega
  refine ⟨phdrs,ran,?_⟩
  rw [readPhdrs,if_pos few]
  refine congrArg some (List.map_congr_left ?_)
  intro i member
  refine phdrAt_same ?_
  intro k below
  have source : (⟨i*sizeofPhdr,(buffer+(ePhoff hdr+i*ePhentsize hdr) % word) % word,ePhentsize hdr⟩ : Copy) ∈
      (tableCopies hdr).map (Copy.sourced word buffer) :=
    List.mem_map.mpr ⟨⟨i*sizeofPhdr,(ePhoff hdr+i*ePhentsize hdr) % word,ePhentsize hdr⟩,List.mem_map.mpr ⟨i,member,rfl⟩,rfl⟩
  rw [outAll_inside (sourced_small hdr buffer) targets ran source (show k < ePhentsize hdr by rw [entries]; exact below),entries,charsOf]
  dsimp only
  congr 1
  unfold word
  omega

theorem ph_bounds (file : Bytes) (offset : Nat) : (phdrAt file offset).pVaddr < word ∧ (phdrAt file offset).pOffset < word :=
  ⟨get32_lt _ _,get32_lt _ _⟩

theorem memHigh_bound (headers : List Phdr) : ∀ ph ∈ headers, ph.memHigh ≤ memHigh headers := by
  have grows : ∀ (headers : List Phdr) (high : Nat), high ≤ headers.foldl (fun high ph => if high < ph.memHigh then ph.memHigh else high) high ∧
      ∀ ph ∈ headers, ph.memHigh ≤ headers.foldl (fun high ph => if high < ph.memHigh then ph.memHigh else high) high := by
    intro headers
    induction headers with
    | nil => exact fun high => ⟨Nat.le_refl _,fun ph member => by cases member⟩
    | cons head rest ih =>
      intro high
      obtain ⟨above,each⟩ := ih (if high < head.memHigh then head.memHigh else high)
      rw [List.foldl_cons]
      refine ⟨?_,?_⟩
      · refine Nat.le_trans ?_ above
        split <;> omega
      · intro ph member
        rcases List.mem_cons.mp member with rfl | later
        · refine Nat.le_trans ?_ above
          split <;> omega
        · exact each ph later
  exact (grows headers 0).2

theorem memHigh_small (headers : List Phdr) : memHigh headers < word := by
  have kept : ∀ (headers : List Phdr) (high : Nat), high < word →
      headers.foldl (fun high ph => if high < ph.memHigh then ph.memHigh else high) high < word := by
    intro headers
    induction headers with
    | nil => exact fun high small => small
    | cons head rest ih =>
      intro high small
      have step : (if high < head.memHigh then head.memHigh else high) < word := by
        split
        · exact Nat.mod_lt _ (by decide)
        · exact small
      exact ih _ step
  exact kept headers 0 (by decide)

theorem load_headers (parsed : elfParseHeader stack.hdr memory buffer = some (ret,hdr,looked)) :
    elfLoadElfFile stack memory frames s buffer size =
      (loadHeaders stack hdr memory buffer).map (loadSegments memory frames s buffer hdr looked) := by
  rw [elfLoadElfFile,parsed,Option.bind_some,loadHeaders,Option.map_bind]
  rfl

theorem file_headers (file : Readable memory buffer) (stack : Stack) :
    ∃ hdr, elfParseHeader stack.hdr memory buffer = some (.noError,hdr,sizeofEhdr) ∧ SameFields hdr (charsOf memory buffer) ∧
      loadHeaders stack hdr memory buffer = some (fileHeaders (charsOf memory buffer)) := by
  obtain ⟨hdr,parsed,same⟩ := elfParseHeader_accepts file stack.hdr
  have fields := same_fields same
  obtain ⟨phdrs,tabled,read⟩ := @table_loaded memory hdr buffer (fields.phentsize.trans file.entries)
    (by rw [fields.phnum]; exact file.few) (fill stack.phdrs 0 100 0)
  refine ⟨hdr,parsed,fields,?_⟩
  rw [loadHeaders,tabled,Option.bind_some,read,fields.phnum,fields.phoff]
  rfl

theorem file_loaded (file : Readable memory buffer) (stack : Stack) (frames : Bytes) (s : Allocator) :
    elfLoadElfFile stack memory frames s buffer size =
      some (loadSegments memory frames s buffer (charsOf memory buffer) sizeofEhdr (fileHeaders (charsOf memory buffer))) := by
  obtain ⟨hdr,parsed,fields,loaded⟩ := file_headers file stack
  have table : tableCopies hdr = tableCopies (charsOf memory buffer) := by
    rw [tableCopies,fields.phnum,fields.phoff,fields.phentsize]
    rfl
  rw [load_headers parsed,loaded,Option.map_some]
  simp only [loadSegments,table,fields.entry]

theorem ElfFile.carried (file : ElfFile memory buffer size) (whole : sizeofEhdr ≤ size)
    (table : ePhoff (charsOf memory buffer)+ePhnum (charsOf memory buffer)*sizeofPhdr ≤ size)
    (same : ∀ i < size, charsOf copy buffer i = charsOf memory buffer i) :
    fileHeaders (charsOf copy buffer) = fileHeaders (charsOf memory buffer) ∧ ElfFile copy buffer size := by
  have fields := same_fields fun i below => same i (by omega)
  have headers : fileHeaders (charsOf copy buffer) = fileHeaders (charsOf memory buffer) := by
    rw [fileHeaders,fileHeaders,fields.phnum,fields.phoff]
    refine List.map_congr_left ?_
    intro i member
    have row := List.mem_range.mp member
    refine phdrAt_same ?_
    intro k below
    refine same _ ?_
    unfold sizeofPhdr at *
    omega
  unfold sizeofEhdr at whole
  refine ⟨headers,⟨⟨?_,?_,?_,?_,?_⟩,file.object,?_,?_⟩⟩
  · rw [same 0 (by omega),same 1 (by omega),same 2 (by omega),same 3 (by omega)]
    exact file.magic
  · rw [same 4 (by omega)]
    exact file.class32
  · rw [same 5 (by omega)]
    exact file.littleEndian
  · exact fields.phentsize.trans file.entries
  · rw [fields.phnum]
    exact file.few
  · rw [headers]
    exact file.sized
  · rw [headers]
    exact file.apart

-- An allocation of `need` bytes from s answers with a block of `len` bytes at loc.
def Granted (s : Allocator) (need loc len : Nat) : Prop :=
  ∃ node next, buddyAllocatorAlloc s need = some (.ok (loc,node),next) ∧ (next.arena.node node).len = len

theorem mem_segmentCopies : c ∈ segmentCopies headers ↔ ∃ ph ∈ segmentsOf headers, c = ⟨ph.pVaddr,ph.pOffset,ph.pFilesz⟩ := by
  rw [segmentCopies,List.mem_map]
  exact ⟨fun ⟨ph,member,same⟩ => ⟨ph,member,same.symm⟩,fun ⟨ph,member,same⟩ => ⟨ph,member,same.symm⟩⟩

theorem mem_placed : c ∈ (segmentCopies headers).map (Copy.placed word loc buffer) ↔
    ∃ ph ∈ segmentsOf headers, c = ⟨(loc+ph.pVaddr) % word,(buffer+ph.pOffset) % word,ph.pFilesz⟩ := by
  rw [List.mem_map]
  constructor
  · rintro ⟨d,source,rfl⟩
    obtain ⟨ph,segment,rfl⟩ := mem_segmentCopies.mp source
    exact ⟨ph,segment,rfl⟩
  · rintro ⟨ph,segment,rfl⟩
    exact ⟨⟨ph.pVaddr,ph.pOffset,ph.pFilesz⟩,mem_segmentCopies.mpr ⟨ph,segment,rfl⟩,rfl⟩

theorem segment_within (file : ElfFile memory buffer size) (long : memHigh (fileHeaders (charsOf memory buffer)) ≤ len)
    (segment : ph ∈ segmentsOf (fileHeaders (charsOf memory buffer))) :
    ph.pVaddr+ph.pMemsz ≤ len ∧ ph.pOffset+ph.pFilesz ≤ size ∧ ph.pFilesz ≤ ph.pMemsz := by
  obtain ⟨sized,read,low⟩ := file.sized ph segment
  have high := memHigh_bound _ ph (List.mem_of_mem_filter segment)
  rw [Phdr.memHigh,Nat.mod_eq_of_lt (by unfold word; omega)] at high
  omega

theorem segments_apart (file : ElfFile memory buffer size) (long : memHigh (fileHeaders (charsOf memory buffer)) ≤ len)
    (inside : loc+len ≤ word) (apart : loc+len ≤ buffer ∨ buffer+size ≤ loc) :
    Apart word ((segmentCopies (fileHeaders (charsOf memory buffer))).map (Copy.placed word loc buffer)) := by
  have object := file.object
  refine ⟨?_,?_,?_,?_⟩
  · intro c member
    obtain ⟨ph,segment,rfl⟩ := mem_placed.mp member
    obtain ⟨target,_,_⟩ := segment_within file long segment
    have small := Nat.mod_lt (loc+ph.pVaddr) (show 0 < word by decide)
    have least := Nat.mod_le (loc+ph.pVaddr) word
    dsimp only
    omega
  · intro c member
    obtain ⟨ph,segment,rfl⟩ := mem_placed.mp member
    obtain ⟨_,source,_⟩ := segment_within file long segment
    have least := Nat.mod_le (buffer+ph.pOffset) word
    dsimp only
    omega
  · rw [segmentCopies,List.map_map,List.pairwise_map]
    refine file.apart.imp_of_mem ?_
    intro a b first second disjoint
    obtain ⟨targetA,_,sizedA⟩ := segment_within file long first
    obtain ⟨targetB,_,sizedB⟩ := segment_within file long second
    by_cases empty : a.pFilesz = 0 ∨ b.pFilesz = 0
    · exact .inr (.inr empty)
    · have startA := disjoint a.pVaddr
      have startB := disjoint b.pVaddr
      unfold Phdr.Covers at startA startB
      simp only [Function.comp,Copy.placed]
      rw [Nat.mod_eq_of_lt (show loc+a.pVaddr < word by omega),Nat.mod_eq_of_lt (show loc+b.pVaddr < word by omega)]
      omega
  · intro c one d two
    obtain ⟨from_,first,rfl⟩ := mem_placed.mp one
    obtain ⟨to_,second,rfl⟩ := mem_placed.mp two
    obtain ⟨_,source,_⟩ := segment_within file long first
    obtain ⟨target,_,_⟩ := segment_within file long second
    by_cases empty : from_.pFilesz = 0 ∨ to_.pFilesz = 0
    · exact .inr (.inr empty)
    · dsimp only
      rw [Nat.mod_eq_of_lt (show buffer+from_.pOffset < word by omega),Nat.mod_eq_of_lt (show loc+to_.pVaddr < word by omega)]
      omega

theorem loaded_at (file : ElfFile memory buffer size) (ran : elfLoadElfFile stack memory frames s buffer size = some o)
    (granted : Granted s (memHigh (fileHeaders (charsOf memory buffer))) loc len) :
    o.ret = some .noError ∧ o.loadedLoc = some loc ∧ o.entry = some ((loc+eEntry (charsOf memory buffer)) % word) ∧
      o.memory = copyAll word ((segmentCopies (fileHeaders (charsOf memory buffer))).map (Copy.placed word loc buffer))
        (blit memory loc frames loc len) := by
  obtain ⟨node,next,allocated,rfl⟩ := granted
  rw [file_loaded file.toReadable] at ran
  have same := Option.some.inj ran
  rw [loadSegments,allocated] at same
  subst same
  exact ⟨rfl,rfl,rfl,rfl⟩

theorem segments_land (file : ElfFile memory buffer size) (ran : elfLoadElfFile stack memory frames s buffer size = some o)
    (granted : Granted s (memHigh (fileHeaders (charsOf memory buffer))) loc len)
    (long : memHigh (fileHeaders (charsOf memory buffer)) ≤ len) (inside : loc+len ≤ word) (apart : loc+len ≤ buffer ∨ buffer+size ≤ loc) :
    o.ret = some .noError ∧ (∀ ph ∈ segmentsOf (fileHeaders (charsOf memory buffer)), ∀ k < ph.pFilesz,
      o.memory (loc+ph.pVaddr+k) = memory (buffer+(ph.pOffset+k))) ∧
      o.loadedLoc = some loc ∧ o.entry = some ((loc+eEntry (charsOf memory buffer)) % word) := by
  obtain ⟨ok,location,entry,copied⟩ := loaded_at file ran granted
  refine ⟨ok,?_,location,entry⟩
  intro ph segment k below
  obtain ⟨target,source,_⟩ := segment_within file long segment
  have object := file.object
  have arrived := @copyAll_inside word (blit memory loc frames loc len) _ _ _ (segments_apart file long inside apart)
    (mem_placed.mpr ⟨ph,segment,rfl⟩) below
  dsimp only at arrived
  rw [Nat.mod_eq_of_lt (show loc+ph.pVaddr < word by omega),Nat.mod_eq_of_lt (show buffer+ph.pOffset < word by omega)] at arrived
  rw [copied,arrived,blit_outside (by omega),Nat.add_assoc]

def blank : Bytes := fun _ => 0

-- A file of one segment: the header, its program header at 52, bytes from 84 on.
def identified : Bytes := store (store (store (store (store (store blank 0 0x7F) 1 0x45) 2 0x4C) 3 0x46) 4 1) 5 1

def oneSegment (ph : Phdr) : Bytes :=
  let header := put16 (put16 (put32 (put32 identified 24 ph.pVaddr) 28 sizeofEhdr) 42 sizeofPhdr) 44 1
  put32 (put32 (put32 (put32 (put32 header 52 ph.pType) 56 ph.pOffset) 60 ph.pVaddr) 68 ph.pFilesz) 72 ph.pMemsz

def tinyFile : Bytes := store (oneSegment ⟨ptLoad,84,16,4,8⟩) 85 0xC3

theorem tiny_headers : fileHeaders (charsOf tinyFile 0) = [⟨ptLoad,84,16,4,8⟩] := by decide

theorem tiny_file : ElfFile tinyFile 0 88 := by
  refine ⟨⟨by decide,by decide,by decide,by decide,by decide⟩,by decide,?_,?_⟩
  · rw [tiny_headers]
    decide
  · rw [tiny_headers]
    exact List.pairwise_singleton _ _

-- A second segment, its program header at 84 and its bytes from 120 on.
def twinFile : Bytes :=
  let one := put16 (oneSegment ⟨ptLoad,116,16,4,8⟩) 44 2
  let two := put32 (put32 (put32 (put32 (put32 one 84 ptLoad) 88 120) 92 32) 100 4) 104 4
  store (store two 117 0xC3) 120 0x90

theorem twin_headers : fileHeaders (charsOf twinFile 0) = [⟨ptLoad,116,16,4,8⟩,⟨ptLoad,120,32,4,4⟩] := by decide

theorem twin_file : ElfFile twinFile 0 124 := by
  refine ⟨⟨by decide,by decide,by decide,by decide,by decide⟩,by decide,?_,?_⟩
  · rw [twin_headers]
    decide
  · rw [twin_headers]
    refine List.pairwise_pair.mpr ?_
    intro x covers
    simp only [Phdr.Covers] at covers
    omega

theorem segments_land_twin : ∃ s o, elfLoadElfFile ⟨blank,blank⟩ twinFile blank s 0 124 = some o ∧ o.ret = some .noError ∧
    o.memory (windowStart+17) = 0xC3 ∧ o.memory (windowStart+32) = 0x90 ∧ o.loadedLoc = some windowStart ∧
    o.entry = some (windowStart+16) := by
  have high : memHigh (fileHeaders (charsOf twinFile 0)) = 36 := by
    rw [twin_headers]
    decide
  obtain ⟨start,next,node,_,allocated,_,_,_,len⟩ := first_page (show 36 ≤ 65536 by decide) (by decide)
  have granted : Granted start.allocator (memHigh (fileHeaders (charsOf twinFile 0))) windowStart 4096 :=
    ⟨node,next,high ▸ allocated,len⟩
  obtain ⟨ok,landed,location,entry⟩ := segments_land twin_file (file_loaded twin_file.toReadable ⟨blank,blank⟩ blank start.allocator) granted
    (by rw [high]; decide) (by decide) (.inr (by decide))
  rw [twin_headers] at landed
  refine ⟨start.allocator,_,file_loaded twin_file.toReadable _ _ _,ok,?_,?_,location,entry.trans (by decide)⟩
  · exact (landed ⟨ptLoad,116,16,4,8⟩ (by decide) 1 (by decide)).trans (by decide)
  · exact (landed ⟨ptLoad,120,32,4,4⟩ (by decide) 0 (by decide)).trans (by decide)

end KaracaOS.ElfLoader
