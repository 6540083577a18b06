import KaracaOS.BuddyGuards
import KaracaOS.BuddySizes
import KaracaOS.ElfLoader
import KaracaOS.Fat16Lookups

namespace KaracaOS.MainProgram
open ByteMemory ByteCopies BlockDevice MemoryManager BootMap BuddyArena BuddyAllocator BuddyPages BuddyRuns
open Fat16Volume Fat16Chains Fat16Files Fat16Paths Fat16Fragments Fat16Directories Fat16Lookups
open OpenFiles (Stdio isDevice devStdin devStdout devStderr firstUnused sizeofFile kaosFreadEntry initialUsed exampleFile)
open PointerChains StepRuns

-- The kernel as my_main finds it. `frames` is what pages show that are mapped
-- only now.
structure Machine where
  memory : Bytes
  frames : Bytes
  context : Context
  stdio : Stdio

-- A block that has been handed out, with its pages.
def Machine.given (m : Machine) (addr node : Nat) (allocator : Allocator) : Machine :=
  {m with
    memory := blit m.memory addr m.frames addr (allocator.arena.node node).len
    stdio := {m.stdio with allocator := allocator}}

def Machine.kept (m : Machine) (allocator : Allocator) : Machine := {m with stdio := {m.stdio with allocator := allocator}}

def Machine.numbered (m : Machine) (fp fileno : Nat) : Machine :=
  {m with stdio := {m.stdio with fileno := Function.update m.stdio.fileno fp fileno}}

def Machine.opened (m : Machine) (i : Nat) (dirEntry : DirEntry) : Machine :=
  {m with stdio := {m.stdio with openFiles := Function.update m.stdio.openFiles i dirEntry}}

def Machine.searched (m : Machine) (context : Context) : Machine := {m with context := context}

-- kaos_fopen on the volume itself.
def kaosFopen (rootFuel : Nat) (m : Machine) (path : Bytes) : Option (Option Nat × Machine) :=
  match buddyAllocatorAlloc m.stdio.allocator sizeofFile with
  | none => none
  | some (.error _,allocator) => some (none,m.kept allocator)
  | some (.ok (fp,node),allocator) =>
    let m := m.given fp node allocator
    if isDevice devStdin path then some (some fp,m.numbered fp 0)
    else if isDevice devStdout path then some (some fp,m.numbered fp 1)
    else if isDevice devStderr path then some (some fp,m.numbered fp 2)
    else
      match Fat16Lookups.fat16FindFileEntry m.context path rootFuel with
      | none => none
      | some (.error _,context) => some (none,m.searched context)
      | some (.ok dirEntry,context) =>
        match firstUnused m.stdio.isOpenFileEntryUsed with
        | none => some (none,m.searched context)
        | some i => some (some fp,((m.searched context).opened i dirEntry).numbered fp i)

def Machine.bytesAt (m : Machine) (buffer : Nat) : Bytes := fun k => m.memory (buffer+k)

def Machine.delivered (m : Machine) (buffer : Nat) (s : Delivery) : Machine :=
  {m with context := s.context,memory := fun x => if buffer ≤ x then s.buffer (x-buffer) else m.memory x}

-- `stack` is what cluster_chain holds on entry.
def kaosFread (stack : Nat → Nat) (m : Machine) (buffer count : Nat) (stream : Nat) : Option (Nat × Machine) :=
  match kaosFreadEntry m.stdio stream with
  | none => some (0,m)
  | some openFile =>
    match fat16ReadFile m.context openFile (m.bytesAt buffer) count stack with
    | none => none
    | some (.error _) => some (0,m)
    | some (.ok (outSize,s)) => some (outSize,m.delivered buffer s)

inductive Ending where
  | returned (ret : SysRet)
  | entered (entry : Nat)

-- my_main up to the jump. A stream that is NULL is read through all the same (none).
def myMain (rootFuel : Nat) (stack : Nat → Nat) (loader : ElfLoader.Stack) (m : Machine) : Option (Ending × Machine) :=
  (kaosFopen rootFuel m (chars exampleElf)).bind fun (fp,m) =>
    match buddyAllocatorAlloc m.stdio.allocator (1024*30) with
    | none => none
    | some (.error ret,allocator) => some (.returned ret,m.kept allocator)
    | some (.ok (fileContents,node),allocator) =>
      fp.bind fun stream =>
        (kaosFread stack (m.given fileContents node allocator) fileContents (1024*30) stream).bind fun (fileSize,m) =>
          (ElfLoader.elfLoadElfFile loader m.memory m.frames m.stdio.allocator fileContents fileSize).bind fun o =>
            let m := {m with memory := o.memory,stdio := {m.stdio with allocator := o.allocator}}
            match o.ret,o.entry with
            | some .noError,some entry => some (.entered entry,m)
            | some ret,_ => some (.returned ret,m)
            | none,_ => none

variable {c used : Context} {e : DirEntry} {m : Machine} {path : Bytes}

-- On a tidy volume this is the fopen of the path model.
def SameAnswer (one : Option (Option Nat × Machine)) (two : Option (Option Nat × Stdio)) : Prop :=
  one.map (fun answer => (answer.1,answer.2.stdio)) = two

theorem kaosFopen_same (opened : Opened m.context) (tidy : Tidy m.context) (path : Bytes) :
    ∃ rootFuel, SameAnswer (kaosFopen rootFuel m path) (OpenFiles.kaosFopen (volumeOf m.context) m.stdio path) := by
  obtain ⟨rootFuel,same⟩ := find_file_entry_volume opened tidy path
  refine ⟨rootFuel,?_⟩
  unfold SameAnswer kaosFopen OpenFiles.kaosFopen
  cases buddyAllocatorAlloc m.stdio.allocator sizeofFile with
  | none => rfl
  | some outcome =>
    obtain ⟨result,allocator⟩ := outcome
    cases result with
    | error ret => rfl
    | ok block =>
      obtain ⟨fp,node⟩ := block
      rw [← same]
      dsimp only
      split
      · rfl
      · split
        · rfl
        · split
          · rfl
          · have context : (m.given fp node allocator).context = m.context := rfl
            rw [context]
            cases Fat16Lookups.fat16FindFileEntry m.context path rootFuel with
            | none => rfl
            | some outcome =>
              obtain ⟨answer,context⟩ := outcome
              cases answer with
              | error ret => rfl
              | ok dirEntry =>
                have slots : (m.given fp node allocator).stdio.isOpenFileEntryUsed = m.stdio.isOpenFileEntryUsed := rfl
                simp only [Option.map_some,slots]
                cases firstUnused m.stdio.isOpenFileEntryUsed <;> rfl

theorem findFileLoop_loaded (ran : findFileLoop rootFuel fuel entry pathCopy c = some (found,used)) : Loaded c used := by
  induction fuel generalizing entry pathCopy c with
  | zero => cases ran
  | succ fuel ih =>
    rw [findFileLoop] at ran
    split at ran
    · cases ran
    · dsimp only at ran
      split at ran
      · split at ran
        · cases ran
        · rename_i searched
          cases ran
          exact findInRootDir_loaded searched
        · rename_i searched
          exact (findInRootDir_loaded searched).trans (ih ran)
      · split at ran
        · cases ran
        · rename_i searched
          split at ran
          · exact (findInDir_loaded searched).trans (ih ran)
          · cases ran
            exact findInDir_loaded searched
        · rename_i searched
          split at ran
          · cases ran
            exact findInDir_loaded searched
          · cases ran
            exact findInDir_loaded searched

theorem findFileEntry_loaded (ran : Fat16Lookups.fat16FindFileEntry c path rootFuel = some (found,used)) : Loaded c used := by
  unfold Fat16Lookups.fat16FindFileEntry at ran
  split at ran
  · cases ran
  · exact Loaded.trans (.inr ⟨_,readDirectory_load c _ _⟩) (findFileLoop_loaded ran)

-- The contexts of a search read the same files.
theorem Loaded.fileByte (loaded : Loaded c used) (clusterChain : Nat → Nat) (k : Nat) : fileByte used clusterChain k = fileByte c clusterChain k := by
  rcases loaded with rfl | ⟨cluster,rfl⟩ <;> rfl

theorem Loaded.chain (loaded : Loaded c used) (ends : ChainEnds c cluster k) : ChainEnds used cluster k ∧ trail (link used) cluster k = trail (link c) cluster k := by
  rcases loaded with rfl | ⟨other,rfl⟩
  · exact ⟨ends,rfl⟩
  · rw [load_chainEnds,link_load]
    exact ⟨ends,rfl⟩

-- A program on a volume: an entry with its chain, an ELF file in its clusters
-- with header, table and segments, and 30 KiB that hold what a read of it writes.
structure Program (c : Context) (e : DirEntry) (k : Nat) : Prop where
  regular : Regular e
  ends : ChainEnds c (clusterOf e).toNat k
  few : k ≤ 127
  whole : fileSize e ≤ k*c.clusterSize
  room : rounds c.clusterSize (fileSize e)*c.clusterSize+fileSize e%c.clusterSize ≤ 1024*30

def contents (c : Context) (e : DirEntry) (k : Nat) : Bytes := fileByte c ((trail (link c) (clusterOf e).toNat k).getD · 0)

structure Executable (contents : Bytes) (size : Nat) : Prop extends ElfLoader.ElfFile contents 0 size where
  header : ElfLoader.sizeofEhdr ≤ size
  table : ElfLoader.ePhoff (ElfLoader.charsOf contents 0)+ElfLoader.ePhnum (ElfLoader.charsOf contents 0)*ElfLoader.sizeofPhdr ≤ size
  served : BuddySizes.Served (ElfLoader.memHigh (ElfLoader.fileHeaders (ElfLoader.charsOf contents 0)))

theorem Loaded.size (loaded : Loaded c used) : used.clusterSize = c.clusterSize := by
  rcases loaded with rfl | ⟨cluster,rfl⟩ <;> rfl

theorem Opened.divides (opened : Opened c) : c.clusterSize ≠ 0 := by
  have some_ := opened.clusters
  rw [clusterSize_sectors opened.sectors]
  omega

theorem fileByte_contents (loaded : Loaded c used) (whole : fileSize e ≤ k*c.clusterSize) (inside : i < fileSize e)
    (rest : List Nat) (stack : Nat → Nat) : fileByte used (chainAt (trail (link c) (clusterOf e).toNat k++rest) stack) i = contents c e k i := by
  have index : i/c.clusterSize < (trail (link c) (clusterOf e).toNat k).length := by
    rw [trail_length]
    exact Nat.div_lt_of_lt_mul (by rw [Nat.mul_comm]; omega)
  rw [Loaded.fileByte loaded,contents,fileByte,fileByte,chainAt_written index]

theorem kaosFread_contents {stream : Nat} (program : Program c e k) (opened : Opened c) (loaded : Loaded c m.context)
    (entry : kaosFreadEntry m.stdio stream = some e) (stack : Nat → Nat) (buffer : Nat) :
    ∃ after, kaosFread stack m buffer (1024*30) stream = some (fileSize e,after) ∧ after.stdio = m.stdio ∧ after.frames = m.frames ∧
      ∀ i < fileSize e, after.memory (buffer+i) = contents c e k i := by
  have sectors := (loaded.opened opened).sectors
  have positive := Nat.pos_of_ne_zero (Opened.divides opened)
  have reach := rounds_reach positive (fileSize e)
  have room := program.room
  have whole : min (1024*30) (fileSize e) = fileSize e := by omega
  unfold kaosFread
  rw [entry]
  dsimp only
  by_cases none : fileSize e = 0
  · have empty := readFile_empty (c := m.context) program.regular (whole.trans none) (m.bytesAt buffer) stack
    rw [empty]
    refine ⟨m.delivered buffer ⟨m.context,m.bytesAt buffer,[]⟩,?_,rfl,rfl,?_⟩
    · rw [none]
    · intro i inside
      omega
  · obtain ⟨ends,same⟩ := Loaded.chain loaded program.ends
    obtain ⟨last,filled⟩ := chain_of_ends (Opened.divides (loaded.opened opened)) ends
    rw [same] at filled
    have fits : (trail (link c) (clusterOf e).toNat k++[chainEnd]).length ≤ clusterChainLength := by
      have few := program.few
      rw [List.length_append,trail_length,List.length_singleton,clusterChainLength]
      omega
    have size := Loaded.size loaded
    have small : rounds m.context.clusterSize (fileSize e)*m.context.clusterSize < word :=
      rounds_small sectors program.few (by rw [size]; exact program.whole)
    obtain ⟨s,ran,_,bytes⟩ := readFile_delivers sectors program.regular (by rw [whole]; exact none) filled fits (by rw [whole]; exact small)
      (m.bytesAt buffer) stack
    rw [whole] at ran bytes
    rw [ran]
    refine ⟨m.delivered buffer s,rfl,rfl,rfl,?_⟩
    intro i inside
    have place : (m.delivered buffer s).memory (buffer+i) = s.buffer i := by simp [Machine.delivered]
    rw [place,bytes,if_pos (by rw [size]; omega)]
    exact fileByte_contents loaded program.whole inside _ _

theorem chars_moved (memory : Bytes) (buffer : Nat) : ElfLoader.charsOf (ElfLoader.charsOf memory buffer) 0 = ElfLoader.charsOf memory buffer := by
  funext i
  simp [ElfLoader.charsOf]

theorem Executable.placed (executable : Executable file size) (object : buffer+size ≤ word)
    (same : ∀ i < size, ElfLoader.charsOf memory buffer i = ElfLoader.charsOf file 0 i) :
    ElfLoader.fileHeaders (ElfLoader.charsOf memory buffer) = ElfLoader.fileHeaders (ElfLoader.charsOf file 0) ∧
      ElfLoader.eEntry (ElfLoader.charsOf memory buffer) = ElfLoader.eEntry (ElfLoader.charsOf file 0) ∧ ElfLoader.ElfFile memory buffer size := by
  have header := executable.header
  have fields := ElfLoader.same_fields fun i below => same i (by omega)
  rw [← chars_moved memory buffer] at same
  obtain ⟨headers,copy⟩ := executable.carried header executable.table same
  rw [chars_moved] at headers
  obtain ⟨⟨magic,class32,endian,entries,few⟩,_,sized,apart⟩ := copy
  rw [chars_moved] at magic class32 endian entries few sized apart
  exact ⟨headers,fields.entry,⟨magic,class32,endian,entries,few⟩,object,sized,apart⟩

theorem held_alloc {a next : Allocator} {blocks : List Nat} (held : Held ⟨a,blocks⟩ n t)
    (ran : buddyAllocatorAlloc a need = some (.ok (addr,node),next)) :
    (∃ n' t', Held ⟨next,node::blocks⟩ n' t') ∧ addr = (next.arena.node node).vaddr ∧
      ∀ p ∈ blocks, (next.arena.node p).vaddr = (a.arena.node p).vaddr ∧ (next.arena.node p).len = (a.arena.node p).len := by
  have served : serve ⟨a,blocks⟩ (.alloc need) = some ⟨next,node::blocks⟩ := by simp only [serve,ran]
  refine ⟨held.alloc served,?_⟩
  cases alloc_cases ran with
  | done _ searched _ =>
    rename_i arena _ _ _
    obtain ⟨_,_,explored,_,_⟩ := held.grown.search searched
    refine ⟨(markAllocated_same arena node true node).vaddr.symm,?_⟩
    intro p member
    have same := markAllocated_same arena node true p
    obtain ⟨_,start,size⟩ := explored.kept p (held.grown.planted.bounded p (held.live p member).1)
    exact ⟨same.vaddr.trans start,same.len.trans size⟩

theorem blocks_follow {a middle next : Allocator} {blocks : List Nat} (held : Held ⟨a,blocks⟩ n t)
    (first : buddyAllocatorAlloc a need = some (.ok (one,p),middle)) (second : buddyAllocatorAlloc middle more = some (.ok (two,q),next)) :
    one+(middle.arena.node p).len ≤ 2415919104 ∧ two+(next.arena.node q).len ≤ 2415919104 ∧
      (one+(middle.arena.node p).len ≤ two ∨ two+(next.arena.node q).len ≤ one) := by
  obtain ⟨⟨n',t',held'⟩,place,_⟩ := held_alloc held first
  obtain ⟨⟨n'',t'',held''⟩,place',kept⟩ := held_alloc held' second
  obtain ⟨start,size⟩ := kept p List.mem_cons_self
  obtain ⟨apart,inside⟩ := held''.blocks_apart
  obtain ⟨_,low,_,_,_,some_⟩ := inside p (by simp)
  obtain ⟨_,high,_,_,_,other⟩ := inside q (by simp)
  have meets := (List.pairwise_cons.mp apart).1 p List.mem_cons_self
  rw [place,place']
  dsimp only at start size low some_ high other meets
  rw [start,size] at low
  rw [size] at some_
  refine ⟨low,high,?_⟩
  have left := meets (middle.arena.node p).vaddr
  have right := meets (next.arena.node q).vaddr
  unfold Covers at left right
  rw [start,size] at left right
  omega

-- Memory for the stream, the 30 KiB of the file and the block of its segments.
structure Granted (m : Machine) (s : System) (need fp buffer loc : Nat) (a b next : Allocator) : Prop where
  same : m.stdio.allocator = s.allocator
  stream : ∃ node, buddyAllocatorAlloc s.allocator sizeofFile = some (.ok (fp,node),a)
  file : ∃ node, buddyAllocatorAlloc a (1024*30) = some (.ok (buffer,node),b)
  block : ∃ node, buddyAllocatorAlloc b need = some (.ok (loc,node),next)

theorem reached_alloc (path : Reached Started serve (fun _ r => r.Proper) s) (small : need < word)
    (ran : buddyAllocatorAlloc s.allocator need = some (.ok (addr,node),next)) :
    Reached Started serve (fun _ r => r.Proper) ⟨next,node::s.live⟩ := by
  have served : serve s (.alloc need) = some ⟨next,node::s.live⟩ := by simp only [serve,ran]
  exact path.extend (.alloc need) small served

def NoDevice (path : Bytes) : Prop := isDevice devStdin path = false ∧ isDevice devStdout path = false ∧ isDevice devStderr path = false

theorem kaosFopen_found (plain : NoDevice path) (unused : m.stdio.isOpenFileEntryUsed = initialUsed)
    (search : Fat16Lookups.fat16FindFileEntry m.context path rootFuel = some (.ok e,used))
    (ran : buddyAllocatorAlloc m.stdio.allocator sizeofFile = some (.ok (fp,node),a)) :
    ∃ after, kaosFopen rootFuel m path = some (some fp,after) ∧ after.stdio.allocator = a ∧ after.context = used ∧
      kaosFreadEntry after.stdio fp = some e := by
  have slot : firstUnused initialUsed = some 3 := by decide
  have context : (m.given fp node a).context = m.context := rfl
  have slots : (m.given fp node a).stdio.isOpenFileEntryUsed = initialUsed := unused
  obtain ⟨one,two,three⟩ := plain
  refine ⟨(((m.given fp node a).searched used).opened 3 e).numbered fp 3,?_,rfl,rfl,?_⟩
  · unfold kaosFopen
    rw [ran]
    simp only [one,two,three,context,search,slots,slot,Bool.false_eq_true,if_false]
  · simp [kaosFreadEntry,Machine.numbered,Machine.opened,Machine.searched]

theorem executable_loads (executable : Executable file size) (carried : ∀ i < size, memory (buffer+i) = file i)
    (ran : buddyAllocatorAlloc allocator (ElfLoader.memHigh (ElfLoader.fileHeaders (ElfLoader.charsOf file 0))) = some (.ok (loc,node),next))
    (long : ElfLoader.memHigh (ElfLoader.fileHeaders (ElfLoader.charsOf file 0)) ≤ (next.arena.node node).len)
    (object : buffer+size ≤ word) (inside : loc+(next.arena.node node).len ≤ word)
    (apart : loc+(next.arena.node node).len ≤ buffer ∨ buffer+size ≤ loc) (loader : ElfLoader.Stack) (frames : Bytes) :
    ∃ o, ElfLoader.elfLoadElfFile loader memory frames allocator buffer size = some o ∧ o.ret = some .noError ∧
      o.entry = some ((loc+ElfLoader.eEntry (ElfLoader.charsOf file 0)) % word) ∧
      ∀ ph ∈ ElfLoader.segmentsOf (ElfLoader.fileHeaders (ElfLoader.charsOf file 0)), ∀ i < ph.pFilesz,
        o.memory (loc+ph.pVaddr+i) = file (ph.pOffset+i) := by
  have small : size ≤ word := by omega
  have chars : ∀ i < size, ElfLoader.charsOf memory buffer i = ElfLoader.charsOf file 0 i := by
    intro i below
    rw [ElfLoader.charsOf,ElfLoader.charsOf,Nat.mod_eq_of_lt (show buffer+i < word by omega),
      Nat.mod_eq_of_lt (show 0+i < word by omega),Nat.zero_add]
    exact carried i below
  obtain ⟨headers,entry,elf⟩ := executable.placed object chars
  have granted : ElfLoader.Granted allocator (ElfLoader.memHigh (ElfLoader.fileHeaders (ElfLoader.charsOf memory buffer))) loc
      (next.arena.node node).len := by
    rw [headers]
    exact ⟨node,next,ran,rfl⟩
  have loaded : ElfLoader.elfLoadElfFile loader memory frames allocator buffer size = some _ :=
    ElfLoader.file_loaded elf.toReadable loader frames allocator
  obtain ⟨ok,_,entered,copied⟩ := ElfLoader.loaded_at elf loaded granted
  refine ⟨_,loaded,ok,entry ▸ entered,?_⟩
  rw [← headers] at long ⊢
  have copies := ElfLoader.segments_apart elf long inside apart
  intro ph segment i below
  obtain ⟨target,source,_⟩ := ElfLoader.segment_within elf long segment
  have arrived := @copyAll_inside word (blit memory loc frames loc (next.arena.node node).len) _ _ _ copies
    (ElfLoader.mem_placed.mpr ⟨ph,segment,rfl⟩) below
  dsimp only at arrived
  rw [Nat.mod_eq_of_lt (show loc+ph.pVaddr < word by omega),Nat.mod_eq_of_lt (show buffer+ph.pOffset < word by omega)] at arrived
  rw [copied,arrived,blit_outside (by omega),Nat.add_assoc]
  exact carried _ (by omega)

theorem program_loads (path' : Reached Started serve (fun _ r => r.Proper) s) (opened : Opened m.context)
    (unused : m.stdio.isOpenFileEntryUsed = initialUsed)
    (search : Fat16Lookups.fat16FindFileEntry m.context (chars exampleElf) rootFuel = some (.ok e,used)) (program : Program m.context e k)
    (executable : Executable (contents m.context e k) (fileSize e))
    (granted : Granted m s (ElfLoader.memHigh (ElfLoader.fileHeaders (ElfLoader.charsOf (contents m.context e k) 0))) fp buffer loc a b next)
    (stack : Nat → Nat) (loader : ElfLoader.Stack) :
    ∃ after, myMain rootFuel stack loader m =
        some (.entered ((loc+ElfLoader.eEntry (ElfLoader.charsOf (contents m.context e k) 0)) % word),after) ∧
      ∀ ph ∈ ElfLoader.segmentsOf (ElfLoader.fileHeaders (ElfLoader.charsOf (contents m.context e k) 0)), ∀ i < ph.pFilesz,
        after.memory (loc+ph.pVaddr+i) = contents m.context e k (ph.pOffset+i) := by
  obtain ⟨same,⟨first,stream⟩,⟨second,file⟩,⟨third,block⟩⟩ := granted
  obtain ⟨m₁,open_,alloc₁,context₁,entry⟩ := kaosFopen_found ⟨by decide,by decide,by decide⟩ unused search (same ▸ stream)
  have loaded : Loaded m.context used := findFileEntry_loaded search
  have path₁ := reached_alloc path' (show sizeofFile < word by decide) stream
  have path₂ := reached_alloc path₁ (show 1024*30 < word by decide) file
  have plenty : BuddySizes.Served (1024*30) := by
    refine .inr (.inl ⟨by decide,?_⟩)
    rintro ⟨j,power⟩
    have above : 2^14 < 2^j := by omega
    have below : 2^j < 2^15 := by omega
    have low := (Nat.pow_lt_pow_iff_right (a := 2) (by decide)).mp above
    have high := (Nat.pow_lt_pow_iff_right (a := 2) (by decide)).mp below
    omega
  have long₁ := BuddySizes.served_request plenty path₁ file
  have long₂ := BuddySizes.served_request executable.served path₂ block
  obtain ⟨⟨n,t,held⟩,_⟩ := BuddySizes.reached_watched path₁
  obtain ⟨low,high,apart⟩ := blocks_follow held file block
  have room := program.room
  have size : fileSize e ≤ 1024*30 := by
    have reach := rounds_reach (Nat.pos_of_ne_zero (Opened.divides opened)) (fileSize e)
    omega
  -- The read leaves the file in its block.
  have loaded₁ : Loaded m.context (m₁.given buffer second b).context := context₁ ▸ loaded
  obtain ⟨m₂,read,stdio₂,frames₂,bytes⟩ := kaosFread_contents program opened loaded₁ entry stack buffer
  have allocator : m₂.stdio.allocator = b := by
    rw [stdio₂]
    rfl
  obtain ⟨o,ran,ok,entered,placed⟩ := executable_loads executable bytes block long₂ (show buffer+fileSize e ≤ word by unfold word; omega)
    (show loc+(next.arena.node third).len ≤ word by unfold word; omega) (by omega) loader m₂.frames
  refine ⟨{m₂ with memory := o.memory,stdio := {m₂.stdio with allocator := o.allocator}},?_,placed⟩
  unfold myMain
  rw [open_]
  dsimp only [Option.bind_some]
  rw [alloc₁,file]
  dsimp only [Option.bind_some]
  rw [read]
  dsimp only [Option.bind_some]
  rw [allocator,ran]
  dsimp only [Option.bind_some]
  rw [ok,entered]

-- EXAMPLE.ELF of one segment on a volume of its own.
def tinyEntry : DirEntry := fun i => if i = 26 then 2#8 else if i = 28 then 88#8 else exampleFile i
def tinyVolume : Context :=
  smallContext (put16 (fun i => if 97*512 ≤ i then ElfLoader.tinyFile (i-97*512) else if 65*512 ≤ i then tableByte [tinyEntry] (i-65*512) else nul) 516 0xFFFF)
    BlockDevice.blank

def entryFound : Option (Except SysRet DirEntry) → Option (List Byte)
  | some (.ok dirEntry) => some (List.ofFn dirEntry)
  | _ => none

theorem entryFound_ok {outcome : Option (Except SysRet DirEntry)} (found : entryFound outcome = some (List.ofFn e)) : outcome = some (.ok e) := by
  cases outcome with
  | none => cases found
  | some answer =>
    cases answer with
    | error ret => cases found
    | ok dirEntry => rw [List.ofFn_injective (Option.some.inj found)]

theorem tiny_search : ∃ used, Fat16Lookups.fat16FindFileEntry tinyVolume (chars exampleElf) 2 = some (.ok tinyEntry,used) := by
  have found : entryFound ((Fat16Lookups.fat16FindFileEntry tinyVolume (chars exampleElf) 2).map Prod.fst) = some (List.ofFn tinyEntry) := by
    decide +kernel
  obtain ⟨⟨answer,used⟩,ran,rfl⟩ := Option.map_eq_some_iff.mp (entryFound_ok found)
  exact ⟨used,ran⟩

theorem tiny_opened : Opened tinyVolume :=
  ⟨rfl,show 0 < Fat16Volume.sectorsPerCluster (bootSector 1 1 2 512 32) by decide,show 65 < _ by decide⟩

theorem tiny_tidy : Tidy tinyVolume := by
  have some_ : 1 < nrPossibleRootEntries tinyVolume.bootSector := by decide
  have ended : rootEntry tinyVolume 1 0 = nul := by decide
  have only : ∀ e ∈ (rootEntries tinyVolume).takeWhile (fun e => e 0 != nul), e = rootEntry tinyVolume 0 := by
    intro e member
    obtain ⟨i,less,rfl⟩ := counted_before some_ ended member
    rw [Nat.lt_one_iff.mp less]
  have plain : ∀ e ∈ live (rootEntries tinyVolume), e.isSubdir = false := by
    intro e member
    rw [only e (List.mem_filter.mp member).1]
    decide
  refine ⟨?_,⟨_,List.mem_map_of_mem (List.mem_range.mpr some_),ended⟩,?_,fun cluster directory => absurd directory (no_directory plain)⟩
  · rw [show tinyVolume.sectorsPerCluster = 1 by decide]
    exact one_dvd _
  · intro e member label
    rw [only e member] at label
    exact absurd label (by decide)

theorem tiny_program : Program tinyVolume tinyEntry 1 := by
  have mark : link tinyVolume 2 = chainEnd := by decide
  refine ⟨show tinyEntry.attributes &&& (attribSubdir ||| attribVolumeLabel) = 0#8 by decide,?_,by decide,by decide,by decide⟩
  rw [show (clusterOf tinyEntry).toNat = 2 by decide]
  exact ends_one.mpr ⟨mark,by rw [mark]; decide⟩

theorem tiny_contents : ∀ i < 88, contents tinyVolume tinyEntry 1 i = ElfLoader.tinyFile i := by decide

theorem tiny_executable : Executable (contents tinyVolume tinyEntry 1) 88 ∧
    ElfLoader.fileHeaders (ElfLoader.charsOf (contents tinyVolume tinyEntry 1) 0) = [⟨ElfLoader.ptLoad,84,16,4,8⟩] := by
  have same : ∀ i < 88, ElfLoader.charsOf (contents tinyVolume tinyEntry 1) 0 i = ElfLoader.charsOf ElfLoader.tinyFile 0 i := by
    intro i inside
    rw [ElfLoader.charsOf,ElfLoader.charsOf,Nat.mod_eq_of_lt (show 0+i < word by unfold word; omega),Nat.zero_add]
    exact tiny_contents i inside
  obtain ⟨headers,file⟩ := ElfLoader.tiny_file.carried (by decide) (by decide) same
  rw [ElfLoader.tiny_headers] at headers
  refine ⟨⟨file,by decide,by decide,.inl ?_⟩,headers⟩
  rw [headers]
  decide

theorem blocks_found : ((blockFound sizeofFile firstArena (4096*0x10000) 4096).bind fun a =>
    (blockFound (1024*30) a (4096*0x10010) 65536).bind fun b => blockFound 24 b (4096*0x10001) 4096).isSome = true := by
  decide +kernel

theorem alloc_found {s : Allocator} (found : blockFound need s.arena vaddr len = some arena) (paid : ¬ remMem s < need)
    (enough : pageCount len ≤ (freeFrames s.mm).card) (aligned : vaddr%4096 = 0) (low : vaddr+pageCount len*4096 ≤ word)
    (unreserved : ∀ k < pageCount len, Bitmap.bit s.mm.vmAllocBitmap (vaddr/4096+k) = false) :
    ∃ node mm, buddyAllocatorAlloc s need = some (.ok (vaddr,node),⟨mm,arena⟩) ∧ BuddyGuards.Claimed s.mm mm (vaddr/4096) (pageCount len) := by
  unfold blockFound at found
  split at found
  · rename_i node next searched
    split at found
    · rename_i place
      cases Option.some.inj found
      obtain ⟨mm,paged⟩ := allocPages_returns enough aligned low unreserved
      refine ⟨node,mm,?_,?_⟩
      · rw [buddyAllocatorAlloc,if_neg paid,searched]
        dsimp only
        rw [place.1,place.2,paged]
      · cases BuddyGuards.allocPages_ended aligned low paged with
        | through _ claimed => exact claimed
    · cases found
  · cases found

-- Memory that pays for any small request and has frames and pages for it.
structure Ample (mm : Mm) (count : Nat) (taken : Nat → Bool) : Prop where
  most : mm.availableBlockCount ≤ 1032192
  least : 16 ≤ mm.availableBlockCount
  frames : count ≤ (freeFrames mm).card
  pages : ∀ page, 0x10000 ≤ page → page < 0x90000 → Bitmap.bit mm.vmAllocBitmap page = taken page

theorem Ample.alloc (ample : Ample mm count taken) (found : blockFound need arena (4096*page) len = some next) (small : need < 65536)
    (enough : pageCount len ≤ count) (low : 0x10000 ≤ page) (high : page+pageCount len ≤ 0x90000)
    (unreserved : ∀ k < pageCount len, taken (page+k) = false) :
    ∃ node mm', buddyAllocatorAlloc ⟨mm,arena⟩ need = some (.ok (4096*page,node),⟨mm',next⟩) ∧
      Ample mm' (count-pageCount len) (fun other => decide (page ≤ other ∧ other < page+pageCount len) || taken other) := by
  have most := ample.most
  have least := ample.least
  have left := ample.frames
  have whole : 4096*page/4096 = page := Nat.mul_div_cancel_left _ (by decide)
  obtain ⟨node,mm',ran,claimed⟩ := @alloc_found _ _ _ _ ⟨mm,arena⟩ found (by unfold remMem word; dsimp only; omega) (Nat.le_trans enough left)
    (Nat.mul_mod_right 4096 page) (by unfold word; omega)
    (fun k less => by rw [whole,ample.pages _ (by omega) (by omega)]; exact unreserved k less)
  have frames := claimed.frames
  rw [whole] at claimed
  refine ⟨node,mm',ran,⟨?_,?_,?_,?_⟩⟩
  · rw [claimed.available]
    exact most
  · rw [claimed.available]
    exact least
  · dsimp only at frames
    omega
  · intro other above below
    rw [claimed.virtual,ample.pages other above below]

theorem three_blocks : ∃ s a b next, Started s ∧
    (∃ node, buddyAllocatorAlloc s.allocator sizeofFile = some (.ok (4096*0x10000,node),a)) ∧
    (∃ node, buddyAllocatorAlloc a (1024*30) = some (.ok (4096*0x10010,node),b)) ∧
    ∃ node, buddyAllocatorAlloc b 24 = some (.ok (4096*0x10001,node),next) := by
  obtain ⟨info,first,mm,booted,planted,fresh,card,bound⟩ := machine_fresh
  have frames := fresh.frames
  have available := fresh.available
  dsimp only at frames available
  have ample : Ample mm 18 (fun _ => false) := ⟨by omega,by omega,by omega,fresh.window⟩
  obtain ⟨last,found⟩ := Option.isSome_iff_exists.mp blocks_found
  obtain ⟨one,found₁,found⟩ := Option.bind_eq_some_iff.mp found
  obtain ⟨two,found₂,found₃⟩ := Option.bind_eq_some_iff.mp found
  obtain ⟨node₁,mm₁,ran₁,ample₁⟩ := ample.alloc found₁ (by decide) (by decide) (by decide) (by decide) (by decide)
  obtain ⟨node₂,mm₂,ran₂,ample₂⟩ := ample₁.alloc found₂ (by decide) (by decide) (by decide) (by decide) (by decide)
  obtain ⟨node₃,mm₃,ran₃,_⟩ := ample₂.alloc found₃ (by decide) (by decide) (by decide) (by decide) (by decide)
  exact ⟨⟨_,[]⟩,_,_,_,⟨rfl,info,first,_,booted,planted⟩,⟨node₁,ran₁⟩,⟨node₂,ran₂⟩,node₃,ran₃⟩

-- /EXAMPLE.ELF is found on the disk as in the path model, and opened.
theorem example_fopen_same : ∃ m fp after, OpenFiles.kaosFopen (volumeOf m.context) m.stdio (chars exampleElf) = some (some fp,after) ∧
    ∃ rootFuel, SameAnswer (kaosFopen rootFuel m (chars exampleElf)) (some (some fp,after)) := by
  obtain ⟨s,a,_,_,_,⟨node,stream⟩,_⟩ := three_blocks
  have found : Fat16Paths.fat16FindFileEntry spillFragment (volumeOf tinyVolume) (chars exampleElf) = some (.ok tinyEntry) :=
    entryFound_ok (by decide +kernel)
  have devices : NoDevice (chars exampleElf) := ⟨by decide,by decide,by decide⟩
  have slot : firstUnused initialUsed = some 3 := by decide
  let m : Machine := ⟨ElfLoader.blank,ElfLoader.blank,tinyVolume,⟨s.allocator,fun _ _ => 0#8,initialUsed,fun _ => 0⟩⟩
  have answered : ∃ after, OpenFiles.kaosFopen (volumeOf m.context) m.stdio (chars exampleElf) = some (some (4096*0x10000),after) := by
    simp only [OpenFiles.kaosFopen,m,stream,found,slot,devices.1,devices.2.1,devices.2.2,Bool.false_eq_true,if_false]
    exact ⟨_,rfl⟩
  obtain ⟨after,answered⟩ := answered
  obtain ⟨rootFuel,same⟩ := @kaosFopen_same m tiny_opened tiny_tidy (chars exampleElf)
  exact ⟨m,_,after,answered,rootFuel,answered ▸ same⟩

-- Its segment is loaded behind the FILE, and entered.
theorem tiny_program_loads : ∃ m after, myMain 2 (fun _ => 0) ⟨ElfLoader.blank,ElfLoader.blank⟩ m =
    some (.entered 0x10001010,after) ∧ after.memory 0x10001011 = 0xC3 := by
  obtain ⟨s,a,b,next,started,stream,file,block⟩ := three_blocks
  obtain ⟨used,search⟩ := tiny_search
  obtain ⟨executable,headers⟩ := tiny_executable
  have high : ElfLoader.memHigh (ElfLoader.fileHeaders (ElfLoader.charsOf (contents tinyVolume tinyEntry 1) 0)) = 24 := by
    rw [headers]
    decide
  obtain ⟨after,ran,placed⟩ := program_loads (m := ⟨ElfLoader.blank,ElfLoader.blank,tinyVolume,⟨s.allocator,fun _ _ => 0#8,initialUsed,fun _ => 0⟩⟩)
    (.start started) tiny_opened rfl search tiny_program executable
    ⟨rfl,stream,file,high ▸ block⟩ (fun _ => 0) ⟨ElfLoader.blank,ElfLoader.blank⟩
  have entry : ElfLoader.eEntry (ElfLoader.charsOf (contents tinyVolume tinyEntry 1) 0) = 16 := by decide
  have last : contents tinyVolume tinyEntry 1 85 = 0xC3 := (tiny_contents 85 (by decide)).trans (by decide)
  rw [entry] at ran
  rw [headers] at placed
  have arrived := placed ⟨ElfLoader.ptLoad,84,16,4,8⟩ (by decide) 1 (by decide)
  exact ⟨_,after,ran,arrived.trans last⟩

end KaracaOS.MainProgram
