import KaracaOS.Fat16Files
import KaracaOS.OpenFiles

namespace KaracaOS.Fat16Directories
open ByteMemory BlockDevice Fat16Volume Fat16Chains Fat16Files Fat16Paths PointerChains
open OpenFiles (kaosStrncmp)

def deleted : Byte := 0xE5#8

def entryAt (buffer : Bytes) (i : Nat) : DirEntry := fun k => buffer (32*i+k)
def entriesPerCluster (c : Context) : Nat := c.clusterSize/32

def isLabel (e : DirEntry) : Bool := e.attributes &&& attribVolumeLabel != 0#8

-- The loop of fat16_read_directory. Every caller hands in context->buffer for
-- out_dir_entries, so an entry is copied onto itself.
def directoryLoop : Nat → Nat → Bytes → Bytes
  | 0,_,buffer => buffer
  | left+1,i,buffer =>
    if entryAt buffer i 0 = nul then buffer
    else if entryAt buffer i 0 = deleted then directoryLoop left (i+1) buffer
    else if isLabel (entryAt buffer i) then directoryLoop left (i+1) buffer
    else directoryLoop left (i+1) (blit buffer (32*i) buffer (32*i) 32)

def fat16ReadDirectory (c : Context) (cluster maxEntries : Nat) : Context :=
  let c := load c cluster
  {c with buffer := directoryLoop maxEntries 0 c.buffer}

def rootCluster (c : Context) (clusterOffset : Nat) : Nat := (c.rootDirStart/c.sectorsPerCluster+clusterOffset)%word

def fat16ReadRootDir (c : Context) (maxEntries clusterOffset : Nat) : Context :=
  fat16ReadDirectory c (rootCluster c clusterOffset) maxEntries

-- The for loop of both searches; none: the cluster is through.
def scanEntries (buffer : Bytes) (fileToFind : List Byte) : Nat → Nat → Option (Except SysRet DirEntry)
  | 0,_ => none
  | left+1,i =>
    if entryAt buffer i 0 = nul then some (.error .notFound)
    else if entryAt buffer i 0 = deleted then scanEntries buffer fileToFind left (i+1)
    else if kaosStrncmp (fun k => buffer (32*i+k)) (chars fileToFind) 11 0 = 0 then some (.ok (entryAt buffer i))
    else scanEntries buffer fileToFind left (i+1)

def rootLoop (fileToFind : List Byte) : Nat → Nat → Context → Option (Except SysRet DirEntry × Context)
  | 0,_,_ => none
  | fuel+1,currentCluster,c =>
    let c := fat16ReadRootDir c (entriesPerCluster c) currentCluster
    match scanEntries c.buffer fileToFind (entriesPerCluster c) 0 with
    | some answer => some (answer,c)
    | none => rootLoop fileToFind fuel ((currentCluster+1)%word) c

-- Nothing but an entry ends the search.
def fat16FindInRootDir (c : Context) (fileToFind : List Byte) (fuel : Nat) : Option (Except SysRet DirEntry × Context) :=
  if c.sectorsPerCluster = 0 then none else rootLoop fileToFind fuel 0 c

def dirLoop (fileToFind : List Byte) : List Nat → Context → Option (Except SysRet DirEntry × Context)
  | [],_ => none
  | cluster::rest,c =>
    let c := fat16ReadDirectory c (dataCluster c cluster) (entriesPerCluster c)
    match scanEntries c.buffer fileToFind (entriesPerCluster c) 0 with
    | some answer => some (answer,c)
    | none => if rest.head? = some chainEnd then some (.error .notFound,c) else dirLoop fileToFind rest c

-- none: the chain does not end or leaves fat_chain.
def fat16FindInDir (c : Context) (fileToFind : List Byte) (subdir : DirEntry) : Option (Except SysRet DirEntry × Context) :=
  if subdir.isSubdir then
    match fat16ReadClusterFatChain c (clusterOf subdir).toNat with
    | none => none
    | some (fatChain,c) => if fatChainLength < fatChain.length then none else dirLoop fileToFind fatChain c
  else some (.error .notFound,c)

-- The entries that count: in front of the first one with an empty name, neither
-- deleted nor a volume label.
def live (entries : List DirEntry) : List DirEntry :=
  (entries.takeWhile (fun e => e 0 != nul)).filter (fun e => e 0 != deleted && !isLabel e)

-- Where the two searches stop, and what they answer there.
def stops (name : List Byte) (e : DirEntry) : Bool := e 0 == nul || (e 0 != deleted && e.name == name)
def given (e : DirEntry) : Except SysRet DirEntry := if e 0 = nul then .error .notFound else .ok e

variable {c : Context} {name : List Byte} {e : DirEntry} {entries : List DirEntry}

theorem live_cons (e : DirEntry) (entries : List DirEntry) :
    live (e::entries) = if e 0 = nul then [] else if e 0 = deleted ∨ isLabel e = true then live entries else e::live entries := by
  unfold live
  by_cases ends : e 0 = nul
  · simp [ends]
  · by_cases gone : e 0 = deleted
    · simp [gone,show ¬ deleted = nul by decide]
    · cases label : isLabel e <;> simp [ends,gone,label]

theorem lookup_unstopped (unstopped : entries.find? (stops name) = none) : lookup (live entries) name = none := by
  refine List.find?_eq_none.mpr ?_
  intro e member same
  obtain ⟨inside,counts⟩ := List.mem_filter.mp member
  refine List.find?_eq_none.mp unstopped e ((List.takeWhile_sublist _).subset inside) ?_
  rw [Bool.and_eq_true] at counts
  rw [stops,counts.1,same]
  simp

theorem lookup_visible (found : lookup (live entries) name = some e) : isLabel e = false := by
  obtain ⟨_,counts⟩ := List.mem_filter.mp (List.mem_of_find?_eq_some found)
  rw [Bool.and_eq_true,Bool.not_eq_true'] at counts
  exact counts.2

theorem stops_cons (first : DirEntry) (rest : List DirEntry) :
    (first::rest).find? (stops name) = if first 0 = nul ∨ (first 0 ≠ deleted ∧ first.name = name) then some first
      else rest.find? (stops name) := by
  have same : stops name first = decide (first 0 = nul ∨ (first 0 ≠ deleted ∧ first.name = name)) := by
    rw [Bool.eq_iff_iff]
    simp [stops]
  rw [List.find?_cons,same]
  split_ifs with here <;> simp [here]

theorem lookup_stopped (found : entries.find? (stops name) = some e) :
    answer (lookup (live entries) name) = given e ↔ e 0 = nul ∨ isLabel e = false := by
  induction entries with
  | nil => cases found
  | cons first rest ih =>
    rw [stops_cons] at found
    rw [live_cons]
    by_cases ends : first 0 = nul
    · rw [if_pos (.inl ends)] at found
      cases Option.some.inj found
      rw [if_pos ends,given,if_pos ends]
      exact iff_of_true rfl (.inl ends)
    · rw [if_neg ends]
      by_cases gone : first 0 = deleted
      · rw [if_neg (by simp [gone,show ¬ deleted = nul by decide])] at found
        rw [if_pos (.inl gone)]
        exact ih found
      · by_cases same : first.name = name
        · rw [if_pos (.inr ⟨gone,same⟩)] at found
          cases Option.some.inj found
          rw [given,if_neg ends]
          cases label : isLabel e with
          | true =>
            refine iff_of_false ?_ (by simp [ends])
            rw [if_pos (.inr rfl)]
            intro equal
            have looked := answer_inj.mp (equal.trans (show _ = answer (some e) from rfl))
            rw [lookup_visible looked] at label
            cases label
          | false =>
            refine iff_of_true ?_ (.inr rfl)
            rw [if_neg (by simp [gone]),lookup,List.find?_cons_of_pos (by simpa using same)]
            rfl
        · rw [if_neg (by simp [ends,same])] at found
          split
          · exact ih found
          · rw [lookup,List.find?_cons_of_neg (by simpa using same)]
            exact ih found

-- kaos_strncmp against a key without NUL bytes compares all of it.
theorem strncmp_zero (s key : Bytes) (n i : Nat) (plain : ∀ j < n, key (i+j) ≠ nul) :
    kaosStrncmp s key n i = 0 ↔ ∀ j < n, s (i+j) = key (i+j) := by
  induction n generalizing i with
  | zero => simp [kaosStrncmp]
  | succ n ih =>
    have first := plain 0 (Nat.succ_pos n)
    have rest := ih (i+1) (fun j less => by
      have later := plain (j+1) (by omega)
      rwa [show i+(j+1) = i+1+j by omega] at later)
    rw [Nat.add_zero] at first
    rw [kaosStrncmp]
    by_cases same : s i = key i
    · rw [if_neg (not_not.mpr same),if_neg (by rw [same]; exact first),rest]
      constructor
      · intro equal j less
        cases j with
        | zero => exact same
        | succ j =>
          have later := equal j (by omega)
          rwa [show i+1+j = i+(j+1) by omega] at later
      · intro equal j less
        have later := equal (j+1) (by omega)
        rwa [show i+(j+1) = i+1+j by omega] at later
    · rw [if_pos same]
      refine iff_of_false ?_ (fun equal => same (equal 0 (Nat.succ_pos n)))
      intro zero
      exact same (BitVec.eq_of_toInt_eq (Int.sub_eq_zero.mp zero))

-- The keys that are looked for.
structure Key (name : List Byte) : Prop where
  eleven : name.length = 11
  plain : nul ∉ name

theorem entry_name (key : Key name) (buffer : Bytes) (i : Nat) :
    kaosStrncmp (fun k => buffer (32*i+k)) (chars name) 11 0 = 0 ↔ (entryAt buffer i).name = name := by
  have letters : ∀ j, (inside : j < name.length) → chars name j = name[j] := fun j inside => by simp [chars,inside]
  have eleven := key.eleven
  rw [strncmp_zero _ _ _ _ (fun j less => by
    rw [Nat.zero_add,letters j (by omega)]
    exact fun same => key.plain (same ▸ List.getElem_mem _))]
  constructor
  · intro same
    refine List.ext_getElem (by simp [DirEntry.name,eleven]) ?_
    intro j low high
    have byte := same j (by omega)
    rw [Nat.zero_add,letters j high] at byte
    simpa [DirEntry.name,entryAt] using byte
  · intro same j less
    have byte := congrArg (·[j]?) same
    simp only [DirEntry.name,List.getElem?_map,List.getElem?_eq_getElem (show j < name.length by omega)] at byte
    rw [Nat.zero_add,letters j (by omega)]
    simpa [entryAt,less] using byte

theorem scanEntries_find (key : Key name) (buffer : Bytes) (left i : Nat) :
    scanEntries buffer name left i = (((List.range' i left).map (entryAt buffer)).find? (stops name)).map given := by
  induction left generalizing i with
  | zero => rfl
  | succ left ih =>
    rw [scanEntries,List.range'_succ,List.map_cons,stops_cons,ih]
    have name_ := entry_name key buffer i
    by_cases ends : entryAt buffer i 0 = nul
    · rw [if_pos ends,if_pos (.inl ends),Option.map_some,given,if_pos ends]
    · rw [if_neg ends]
      by_cases gone : entryAt buffer i 0 = deleted
      · rw [if_pos gone,if_neg (by simp [gone,show ¬ deleted = nul by decide])]
      · rw [if_neg gone]
        by_cases same : (entryAt buffer i).name = name
        · rw [if_pos (name_.mpr same),if_pos (.inr ⟨gone,same⟩),Option.map_some,given,if_neg ends]
        · rw [if_neg (fun zero => same (name_.mp zero)),if_neg (by simp [ends,same])]

theorem blit_self (buffer : Bytes) (at_ count : Nat) : blit buffer at_ buffer at_ count = buffer := by
  funext i
  by_cases inside : at_ ≤ i ∧ i < at_+count
  · rw [blit_inside inside.1 inside.2,show at_+(i-at_) = i by omega]
  · rw [blit_outside (by omega)]

-- So nothing is filtered: the labels are still there for the searches.
theorem directoryLoop_same (left i : Nat) (buffer : Bytes) : directoryLoop left i buffer = buffer := by
  induction left generalizing i buffer with
  | zero => rfl
  | succ left ih =>
    rw [directoryLoop,blit_self,ih]
    split_ifs <;> rfl

theorem readDirectory_load (c : Context) (cluster maxEntries : Nat) : fat16ReadDirectory c cluster maxEntries = load c cluster := by
  rw [fat16ReadDirectory,directoryLoop_same]

def clusterEntry (c : Context) (cluster i : Nat) : DirEntry := fun k => clusterByte c cluster (32*i+k)
def clusterEntries (c : Context) (cluster : Nat) : List DirEntry := (List.range (entriesPerCluster c)).map (clusterEntry c cluster)

-- A context that was used: the buffer may hold anything.
def Used (c used : Context) : Prop := ∃ memory, used = {c with buffer := memory}

theorem Used.load {used : Context} (same : Used c used) (cluster : Nat) : Used c (load used cluster) := by
  obtain ⟨memory,rfl⟩ := same
  exact ⟨_,rfl⟩

theorem Used.perCluster {used : Context} (same : Used c used) : entriesPerCluster used = entriesPerCluster c := by
  obtain ⟨memory,rfl⟩ := same
  rfl

theorem scan_cluster {used : Context} (key : Key name) (sectors : c.device.sectorSize = 512) (same : Used c used) (cluster : Nat) :
    scanEntries (load used cluster).buffer name (entriesPerCluster c) 0 = ((clusterEntries c cluster).find? (stops name)).map given := by
  obtain ⟨memory,rfl⟩ := same
  have equal : (List.range' 0 (entriesPerCluster c)).map (entryAt (Fat16Chains.load {c with buffer := memory} cluster).buffer) =
      clusterEntries c cluster := by
    rw [← List.range_eq_range',clusterEntries]
    refine List.map_congr_left ?_
    intro i member
    have inside := List.mem_range.mp member
    funext k
    have whole := Nat.div_mul_le_self c.clusterSize 32
    rw [entriesPerCluster] at inside
    exact load_byte sectors memory cluster (by omega)
  rw [scanEntries_find key,equal]

-- The entries that the root search meets, from the cluster that root_dir_start is in on.
def streamFrom (c : Context) (offset j : Nat) : DirEntry :=
  clusterEntry c (rootCluster c (offset+j/entriesPerCluster c)) (j%entriesPerCluster c)

theorem streamFrom_here (offset : Nat) (inside : j < entriesPerCluster c) : streamFrom c offset j = clusterEntry c (rootCluster c offset) j := by
  rw [streamFrom,Nat.div_eq_of_lt inside,Nat.mod_eq_of_lt inside,Nat.add_zero]

theorem streamFrom_next (some_ : 0 < entriesPerCluster c) (offset j : Nat) :
    streamFrom c offset (entriesPerCluster c+j) = streamFrom c ((offset+1)%word) j := by
  have cluster : ∀ x, rootCluster c ((offset+1)%word+x) = rootCluster c (offset+(1+x)) := by
    intro x
    rw [rootCluster,rootCluster]
    unfold word
    omega
  rw [streamFrom,streamFrom,Nat.add_div_left _ some_,Nat.add_mod_left,cluster,Nat.add_comm 1]

theorem rootLoop_find (key : Key name) (sectors : c.device.sectorSize = 512) (some_ : 0 < entriesPerCluster c) (fuel : Nat)
    (offset : Nat) {used : Context} (same : Used c used) : (rootLoop name fuel offset used).map Prod.fst =
      (((List.range (fuel*entriesPerCluster c)).map (streamFrom c offset)).find? (stops name)).map given := by
  induction fuel generalizing offset used with
  | zero => simp [rootLoop]
  | succ fuel ih =>
    have later := ih ((offset+1)%word) (same.load (rootCluster used offset))
    have first : (List.range (entriesPerCluster c)).map (streamFrom c offset) = clusterEntries c (rootCluster c offset) :=
      List.map_congr_left (fun i member => streamFrom_here offset (List.mem_range.mp member))
    have rest : ((List.range (fuel*entriesPerCluster c)).map (entriesPerCluster c+·)).map (streamFrom c offset) =
        (List.range (fuel*entriesPerCluster c)).map (streamFrom c ((offset+1)%word)) := by
      rw [List.map_map]
      exact List.map_congr_left (fun j _ => streamFrom_next some_ offset j)
    have scan := scan_cluster key sectors same (rootCluster used offset)
    have place : rootCluster used offset = rootCluster c offset := by
      obtain ⟨memory,rfl⟩ := same
      rfl
    rw [Nat.succ_mul,Nat.add_comm (fuel*_),List.range_add,List.map_append,first,rest,List.find?_append,rootLoop,fat16ReadRootDir,readDirectory_load]
    rw [place] at scan later
    rw [place,(same.load _).perCluster,scan]
    cases found : (clusterEntries c (rootCluster c offset)).find? (stops name) with
    | none => exact later
    | some e => rfl

-- What fat16_create_context leaves behind on a disk with 512-byte sectors.
structure Opened (c : Context) : Prop where
  sectors : c.device.sectorSize = 512
  clusters : 0 < c.sectorsPerCluster
  root : c.rootDirStart < 2147483648

theorem createdContext_opened {d : Device} {mm : MemoryManager.Mm} (sectors : d.sectorSize = 512)
    (created : fat16CreateContext d mm memory = some (.ok c,next)) : Opened c := by
  have shape : 0 < Fat16Volume.sectorsPerCluster (bootSectorOf d) ∧ c = createdContext d (bootSectorOf d) memory := by
    by_cases divides : Fat16Volume.sectorsPerCluster (bootSectorOf d) = 0 ∨ d.sectorSize = 0
    · rw [create_divides divides] at created
      cases created
    · obtain ⟨clusters,sector⟩ := not_or.mp divides
      refine ⟨Nat.pos_of_ne_zero clusters,?_⟩
      rcases create_cases clusters sector mm memory with ⟨_,ran⟩ | ⟨_,⟨_,_,ran⟩ | ⟨_,ran⟩⟩ <;> rw [created] at ran
      · cases ran
      · cases Option.some.inj ran
        rfl
      · cases ran
  obtain ⟨clusters,rfl⟩ := shape
  refine ⟨sectors,clusters,?_⟩
  have reserved : reservedSectors (bootSectorOf d) < 65536 := get16_lt _ _
  have copies : nrOfFATCopies (bootSectorOf d) < 256 := get8_lt _ _
  have size : fatSizeInSectors d (bootSectorOf d) ≤ 8388607 := by
    rw [fatSizeInSectors,sectors]
    have low := Nat.mod_lt (d.sizeInKb*2%word/Fat16Volume.sectorsPerCluster (bootSectorOf d)*2) (show 0 < word by decide)
    unfold word at low ⊢
    omega
  have product := Nat.mul_le_mul size (Nat.le_of_lt_succ copies)
  show dirStartOf d (bootSectorOf d) < 2147483648
  have whole := Nat.mod_le (reservedSectors (bootSectorOf d)+fatSizeInSectors d (bootSectorOf d)*nrOfFATCopies (bootSectorOf d)) word
  rw [dirStartOf]
  omega

theorem Opened.perCluster (opened : Opened c) : entriesPerCluster c = 16*c.sectorsPerCluster := by
  rw [entriesPerCluster,clusterSize_sectors opened.sectors]
  omega

def rootEntry (c : Context) (j : Nat) : DirEntry := fun k => c.device.disk (c.rootDirStart*512+32*j+k)
def rootEntries (c : Context) : List DirEntry := (List.range (nrPossibleRootEntries c.bootSector)).map (rootEntry c)

def stream (c : Context) (j : Nat) : DirEntry := streamFrom c 0 j

-- The entries of the stream that lie before the root directory.
def lead (c : Context) : Nat := c.rootDirStart%c.sectorsPerCluster*16

def FirstStop (c : Context) (name : List Byte) (j : Nat) : Prop :=
  stops name (stream c j) = true ∧ ∀ i < j, stops name (stream c i) = false

theorem stream_root (opened : Opened c) (inside : j < nrPossibleRootEntries c.bootSector) : stream c (lead c+j) = rootEntry c j := by
  have few : nrPossibleRootEntries c.bootSector < 65536 := get16_lt _ _
  have positive := opened.clusters
  have root := opened.root
  have small := sectorsPerCluster_small c
  have split := Nat.div_add_mod c.rootDirStart c.sectorsPerCluster
  have below := Nat.mod_lt c.rootDirStart positive
  have index := Nat.div_add_mod (lead c+j) (entriesPerCluster c)
  have inner := Nat.mod_lt (lead c+j) (show 0 < entriesPerCluster c by rw [opened.perCluster]; omega)
  funext k
  have byte := k.isLt
  rw [stream,streamFrom,clusterEntry,rootEntry,Nat.zero_add,rootCluster]
  rw [lead] at index inner ⊢
  rw [opened.perCluster] at index inner ⊢
  generalize (c.rootDirStart%c.sectorsPerCluster*16+j)/(16*c.sectorsPerCluster) = q at index ⊢
  generalize (c.rootDirStart%c.sectorsPerCluster*16+j)%(16*c.sectorsPerCluster) = r at index inner ⊢
  generalize c.rootDirStart/c.sectorsPerCluster = p at split ⊢
  have place : (p+q)*c.sectorsPerCluster = c.sectorsPerCluster*p+c.sectorsPerCluster*q := by ring
  have index : 16*(c.sectorsPerCluster*q)+r = c.rootDirStart%c.sectorsPerCluster*16+j := by rw [← index]; ring
  have early : p+q ≤ (p+q)*c.sectorsPerCluster := Nat.le_mul_of_pos_right _ positive
  rw [Nat.mod_eq_of_lt (show p+q < word by unfold word; omega),clusterByte_linear (by unfold word; omega) (by omega),place]
  refine congrArg c.device.disk ?_
  omega

theorem find_first_stop (m : Nat) (f : Nat → DirEntry) (found : Except SysRet DirEntry) :
    (((List.range m).map f).find? (stops name)).map given = some found ↔
      ∃ j < m, stops name (f j) = true ∧ (∀ i < j, stops name (f i) = false) ∧ given (f j) = found := by
  rw [List.find?_map,Option.map_map,Option.map_eq_some_iff]
  constructor
  · rintro ⟨j,first,same⟩
    obtain ⟨here,inside,before⟩ := List.find?_range_eq_some.mp first
    exact ⟨j,List.mem_range.mp inside,here,fun i less => by simpa using before i less,same⟩
  · rintro ⟨j,inside,here,before,same⟩
    exact ⟨j,List.find?_range_eq_some.mpr ⟨here,List.mem_range.mpr inside,fun i less => by simpa using before i less⟩,same⟩

theorem findInRootDir_stop (opened : Opened c) (key : Key name) (found : Except SysRet DirEntry) :
    (∃ fuel after, fat16FindInRootDir c name fuel = some (found,after)) ↔ ∃ j, FirstStop c name j ∧ given (stream c j) = found := by
  have positive := opened.clusters
  have some_ : 0 < entriesPerCluster c := by
    rw [opened.perCluster]
    omega
  have run : ∀ fuel, (fat16FindInRootDir c name fuel).map Prod.fst =
      (((List.range (fuel*entriesPerCluster c)).map (stream c)).find? (stops name)).map given := fun fuel => by
    rw [fat16FindInRootDir,if_neg (by omega)]
    exact rootLoop_find key opened.sectors some_ fuel 0 ⟨c.buffer,rfl⟩
  constructor
  · rintro ⟨fuel,after,ran⟩
    have answered := run fuel
    rw [ran,Option.map_some] at answered
    obtain ⟨j,_,here,before,same⟩ := (find_first_stop _ _ _).mp answered.symm
    exact ⟨j,⟨here,before⟩,same⟩
  · rintro ⟨j,⟨here,before⟩,same⟩
    have enough : j < (j+1)*entriesPerCluster c := Nat.lt_of_lt_of_le (Nat.lt_succ_self j) (Nat.le_mul_of_pos_right _ some_)
    have answered := (run (j+1)).trans ((find_first_stop _ _ found).mpr ⟨j,enough,here,before,same⟩)
    obtain ⟨⟨_,after⟩,ran,rfl⟩ := Option.map_eq_some_iff.mp answered
    exact ⟨j+1,after,ran⟩

def RootRight (c : Context) (name : List Byte) : Prop :=
  ∃ fuel after, fat16FindInRootDir c name fuel = some (answer (lookup (live (rootEntries c)) name),after)

-- When the first stop gives the right answer. One in front of the root directory,
-- in the same cluster, has to hold what the directory answers.
def RightStop (c : Context) (name : List Byte) (j : Nat) : Prop :=
  if j < lead c then answer (lookup (live (rootEntries c)) name) = given (stream c j)
  else stream c j 0 = nul ∨ j < lead c+nrPossibleRootEntries c.bootSector ∧ isLabel (stream c j) = false

theorem root_stop (opened : Opened c) (first : FirstStop c name j) (behind : ¬ j < lead c)
    (inside : j < lead c+nrPossibleRootEntries c.bootSector) : (rootEntries c).find? (stops name) = some (stream c j) := by
  obtain ⟨here,before⟩ := first
  have same : ∀ i < nrPossibleRootEntries c.bootSector, rootEntry c i = stream c (lead c+i) :=
    fun i less => (stream_root opened less).symm
  rw [rootEntries,List.find?_map,Option.map_eq_some_iff]
  refine ⟨j-lead c,List.find?_range_eq_some.mpr ⟨?_,List.mem_range.mpr (by omega),?_⟩,?_⟩
  · rw [Function.comp,same _ (by omega),show lead c+(j-lead c) = j by omega]
    exact here
  · intro i less
    rw [Function.comp,same _ (by omega),before _ (by omega)]
    rfl
  · rw [same _ (by omega),show lead c+(j-lead c) = j by omega]

theorem rootRight_iff (opened : Opened c) (key : Key name) : RootRight c name ↔ ∃ j, FirstStop c name j ∧ RightStop c name j := by
  rw [RootRight,findInRootDir_stop opened key]
  refine exists_congr fun j => and_congr_right fun first => ?_
  rw [RightStop]
  split
  · exact eq_comm
  · rename_i behind
    obtain ⟨here,before⟩ := first
    rw [eq_comm]
    by_cases inside : j < lead c+nrPossibleRootEntries c.bootSector
    · rw [lookup_stopped (root_stop opened ⟨here,before⟩ behind inside)]
      simp only [inside,true_and]
    · have unstopped : (rootEntries c).find? (stops name) = none := by
        refine List.find?_eq_none.mpr ?_
        intro e member
        obtain ⟨i,less,rfl⟩ := List.mem_map.mp member
        have less := List.mem_range.mp less
        rw [← stream_root opened less,before _ (by omega)]
        exact Bool.false_ne_true
      rw [lookup_unstopped unstopped,answer,given]
      by_cases ends : stream c j 0 = nul
      · simp only [ends,if_true,true_or]
      · simp only [ends,if_false,inside,false_and,or_false,reduceCtorEq]

-- The entries of a directory in the clusters of a chain.
def dirEntries (c : Context) (clusters : List Nat) : List DirEntry :=
  clusters.flatMap fun cluster => clusterEntries c (dataCluster c cluster)

def verdict : Option DirEntry → Except SysRet DirEntry
  | some e => given e
  | none => .error .notFound

theorem dirLoop_step {used : Context} (key : Key name) (sectors : c.device.sectorSize = 512) (same : Used c used) (first : Nat)
    (rest : List Nat) : (dirLoop name (first::rest) used).map Prod.fst =
      match (clusterEntries c (dataCluster c first)).find? (stops name) with
      | some e => some (given e)
      | none => if rest.head? = some chainEnd then some (.error .notFound)
        else (dirLoop name rest (load used (dataCluster c first))).map Prod.fst := by
  have scan := scan_cluster key sectors same (dataCluster c first)
  have place : dataCluster used first = dataCluster c first := by
    obtain ⟨memory,rfl⟩ := same
    rfl
  rw [dirLoop,readDirectory_load,place,(same.load _).perCluster,scan]
  cases (clusterEntries c (dataCluster c first)).find? (stops name) with
  | some e => rfl
  | none =>
    rw [Option.map_none]
    dsimp only
    split <;> rfl

theorem dirLoop_find {used : Context} (key : Key name) (sectors : c.device.sectorSize = 512) (same : Used c used) (first : Nat) (rest : List Nat)
    (inner : ∀ y ∈ rest, y ≠ chainEnd) : (dirLoop name (first::rest++[chainEnd]) used).map Prod.fst =
      some (verdict ((dirEntries c (first::rest)).find? (stops name))) := by
  have entries : ∀ first rest, dirEntries c (first::rest) = clusterEntries c (dataCluster c first)++dirEntries c rest :=
    fun _ _ => List.flatMap_cons
  induction rest generalizing first used with
  | nil =>
    rw [List.cons_append,dirLoop_step key sectors same,entries,List.find?_append]
    cases (clusterEntries c (dataCluster c first)).find? (stops name) with
    | none => rfl
    | some e => rfl
  | cons next rest ih =>
    have goes : next ≠ chainEnd := inner next List.mem_cons_self
    have later := ih (same.load (dataCluster c first)) next (fun y member => inner y (List.mem_cons_of_mem _ member))
    rw [List.cons_append,dirLoop_step key sectors same,entries,List.find?_append]
    cases (clusterEntries c (dataCluster c first)).find? (stops name) with
    | none =>
      dsimp only
      rw [if_neg (by simpa using goes),Option.none_or]
      exact later
    | some e => rfl

theorem answer_verdict (entries : List DirEntry) (name : List Byte) :
    answer (lookup (live entries) name) = verdict (entries.find? (stops name)) ↔
      ∀ e, entries.find? (stops name) = some e → e 0 = nul ∨ isLabel e = false := by
  cases found : entries.find? (stops name) with
  | none =>
    rw [lookup_unstopped found]
    exact iff_of_true rfl (fun e absurdly => by cases absurdly)
  | some e =>
    rw [verdict,lookup_stopped found]
    constructor
    · rintro right e same
      cases Option.some.inj same
      exact right
    · intro right
      exact right e rfl

theorem chain_search (used : Context) (ends : ChainEnds c cluster k) (key : Key name) (sectors : c.device.sectorSize = 512) (same : Used c used) :
    (dirLoop name (trail (link c) cluster k++[chainEnd]) used).map Prod.fst =
      some (verdict ((dirEntries c (trail (link c) cluster k)).find? (stops name))) := by
  obtain ⟨n,rfl⟩ := Nat.exists_eq_succ_of_ne_zero (Nat.ne_of_gt ends.some_)
  rw [trail_succ]
  refine dirLoop_find key sectors same cluster _ ?_
  intro y member
  obtain ⟨j,inside,rfl⟩ := List.mem_map.mp member
  exact ends.before (j+1) (Nat.succ_pos j) (Nat.succ_lt_succ (List.mem_range.mp inside))

-- The law over the entries in the clusters of a chain.
def DirRight (c : Context) (name : List Byte) (subdir : DirEntry) (chain : List Nat) : Prop :=
  ∃ after, fat16FindInDir c name subdir = some (answer (lookup (live (dirEntries c chain)) name),after)

-- When the search of a chain cannot be stopped by a label.
def Unlabelled (entries : List DirEntry) (name : List Byte) : Prop :=
  ∀ e, entries.find? (stops name) = some e → e 0 = nul ∨ isLabel e = false

theorem Opened.divides (opened : Opened c) : c.clusterSize ≠ 0 := by
  have positive := opened.clusters
  rw [clusterSize_sectors opened.sectors]
  omega

theorem findInDir_chain (opened : Opened c) (key : Key name) (directory : subdir.isSubdir = true)
    (ends : ChainEnds c (clusterOf subdir).toNat k) : (fat16FindInDir c name subdir).map Prod.fst =
      if k ≤ 1023 then some (verdict ((dirEntries c (trail (link c) (clusterOf subdir).toNat k)).find? (stops name))) else none := by
  obtain ⟨last,chain⟩ := chain_of_ends opened.divides ends
  have length : (trail (link c) (clusterOf subdir).toNat k++[chainEnd]).length = k+1 := by simp
  rw [fat16FindInDir,if_pos directory,chain]
  dsimp only
  rw [length,fatChainLength]
  by_cases few : k ≤ 1023
  · rw [if_neg (by omega),if_pos few]
    exact chain_search (load c last) ends key opened.sectors ⟨_,rfl⟩
  · rw [if_pos (by omega),if_neg few]
    rfl

theorem dirRight_iff (opened : Opened c) (key : Key name) (directory : subdir.isSubdir = true)
    (ends : ChainEnds c (clusterOf subdir).toNat k) : DirRight c name subdir (trail (link c) (clusterOf subdir).toNat k) ↔
    k ≤ 1023 ∧ Unlabelled (dirEntries c (trail (link c) (clusterOf subdir).toNat k)) name := by
  have found := findInDir_chain opened key directory ends
  rw [DirRight]
  constructor
  · rintro ⟨after,ran⟩
    rw [ran,Option.map_some] at found
    split at found
    · rename_i few
      exact ⟨few,(answer_verdict _ name).mp (Option.some.inj found)⟩
    · cases found
  · rintro ⟨few,right⟩
    rw [if_pos few,← (answer_verdict _ name).mpr right] at found
    obtain ⟨⟨_,after⟩,ran,rfl⟩ := Option.map_eq_some_iff.mp found
    exact ⟨after,ran⟩

theorem findInDir_ends (directory : subdir.isSubdir = true) (ran : fat16FindInDir c name subdir = some found) :
    ∃ k ≤ 1023, ChainEnds c (clusterOf subdir).toNat k := by
  rw [fat16FindInDir,if_pos directory] at ran
  split at ran
  · cases ran
  · rename_i chain after read
    obtain ⟨_,k,_,ends,rfl,_⟩ := chain_cases read
    split at ran
    · cases ran
    · rename_i fits
      rw [List.length_append,trail_length,List.length_singleton,fatChainLength] at fits
      exact ⟨k,by omega,ends⟩

theorem followed_read (volume : FatVolume c) (linked : Linked c cluster chain chainEnd) (reach : ∀ x ∈ chain, InReach c x) :
    ChainEnds c cluster chain.length ∧ trail (link c) cluster chain.length = chain := by
  have follows : ∀ y ∈ chain, link c y = fatEntry c y :=
    fun y member => link_in_reach volume ((linked_small linked).2 y member) (reach y member) c.buffer
  exact ⟨linked_ends linked follows rfl,(linked_trail linked follows).1⟩

theorem directory_search_iff (opened : Opened c) (key : Key name) :
    (RootRight c name ↔ ∃ j, FirstStop c name j ∧ RightStop c name j) ∧
    ∀ subdir : DirEntry, subdir.isSubdir = true →
      ((∃ found, fat16FindInDir c name subdir = some found) ↔ ∃ k ≤ 1023, ChainEnds c (clusterOf subdir).toNat k) ∧
      (∀ k, ChainEnds c (clusterOf subdir).toNat k → (DirRight c name subdir (trail (link c) (clusterOf subdir).toNat k) ↔
        k ≤ 1023 ∧ Unlabelled (dirEntries c (trail (link c) (clusterOf subdir).toNat k)) name)) ∧
      ∀ chain, FatVolume c → Linked c (clusterOf subdir).toNat chain chainEnd → (∀ x ∈ chain, InReach c x) →
        (DirRight c name subdir chain ↔ chain.length ≤ 1023 ∧ Unlabelled (dirEntries c chain) name) := by
  refine ⟨rootRight_iff opened key,fun subdir directory => ⟨⟨?_,?_⟩,?_,?_⟩⟩
  · rintro ⟨found,ran⟩
    exact findInDir_ends directory ran
  · rintro ⟨k,few,ends⟩
    have found := findInDir_chain opened key directory ends
    rw [if_pos few] at found
    obtain ⟨answered,ran,_⟩ := Option.map_eq_some_iff.mp found
    exact ⟨answered,ran⟩
  · exact fun k ends => dirRight_iff opened key directory ends
  · intro chain volume linked reach
    obtain ⟨ends,read⟩ := followed_read volume linked reach
    have right := dirRight_iff opened key directory ends
    rwa [read] at right

-- Entries of a root directory, and of a subdirectory in cluster 2, on a disk with
-- one-sector clusters.
def tableByte (entries : List DirEntry) (i : Nat) : Byte := entries.getD (i/32) (fun _ => nul) (Fin.ofNat 32 i)
def withEntries (entries inner : List DirEntry) : Context :=
  smallContext (put16 (fun i => if 97*512 ≤ i then tableByte inner (i-97*512) else if 65*512 ≤ i then tableByte entries (i-65*512) else nul) 516 0xFFFF)
    BlockDevice.blank

theorem withEntries_opened (entries inner : List DirEntry) : Opened (withEntries entries inner) :=
  ⟨rfl,show 0 < Fat16Volume.sectorsPerCluster (bootSector 1 1 2 512 32) by decide,show 65 < _ by decide⟩

theorem letter_key (real : letter ≠ nul) (attributes : Byte) : Key (entryOf letter attributes).name := by
  refine ⟨by simp [DirEntry.name],?_⟩
  intro member
  obtain ⟨i,_,same⟩ := List.mem_map.mp member
  simp only [entryOf] at same
  split_ifs at same with first second
  · exact real same
  · cases same
  · exact second i.isLt
  · exact second i.isLt

def subdirTwo : DirEntry := fun i => if i = 26 then 2#8 else entryOf 0x41#8 attribSubdir i
def twoTables : Context := withEntries [subdirTwo,fileB] [fileB]

theorem file_found_twice : Opened twoTables ∧ Key fileB.name ∧ RootRight twoTables fileB.name ∧ DirRight twoTables fileB.name subdirTwo [2] := by
  have opened : Opened twoTables := withEntries_opened _ _
  have key : Key fileB.name := letter_key (by decide) 0#8
  have begins : lead twoTables = 0 := by decide
  have visible : isLabel (stream twoTables 1) = false := by decide
  have inside : 1 < nrPossibleRootEntries twoTables.bootSector := by decide
  have first : FirstStop twoTables fileB.name 1 := by
    refine ⟨by decide,?_⟩
    intro i less
    cases Nat.lt_one_iff.mp less
    decide
  have mark : fatEntry twoTables 2 = chainEnd := by decide
  have linked : Linked twoTables 2 [2] chainEnd := mark ▸ .last (by decide) (by decide) (by rw [mark]; decide)
  have reach : ∀ x ∈ [2], InReach twoTables x := by decide
  have whole := directory_search_iff opened key
  refine ⟨opened,key,whole.1.mpr ⟨1,first,?_⟩,?_⟩
  · rw [RightStop,begins,if_neg (Nat.not_lt_zero 1),Nat.zero_add]
    exact .inr ⟨inside,visible⟩
  · refine ((whole.2 subdirTwo (by decide)).2.2 [2] (smallContext_volume _ _) linked reach).mpr ⟨by decide,?_⟩
    intro e found
    have stopped : (dirEntries twoTables [2]).find? (stops fileB.name) = some (clusterEntry twoTables 97 0) := by decide
    rw [stopped] at found
    cases found
    exact .inr (by decide)

def labelA : DirEntry := entryOf 0x41#8 attribVolumeLabel

theorem label_found : Opened (withEntries [labelA] [labelA]) ∧ Key labelA.name ∧ ¬ RootRight (withEntries [labelA] [labelA]) labelA.name ∧
    ¬ DirRight (withEntries [labelA] [labelA]) labelA.name subdirTwo [2] := by
  have opened := withEntries_opened [labelA] [labelA]
  have key : Key labelA.name := letter_key (by decide) attribVolumeLabel
  have begins : lead (withEntries [labelA] [labelA]) = 0 := by decide
  have label : isLabel (stream (withEntries [labelA] [labelA]) 0) = true := by decide
  have some_ : stream (withEntries [labelA] [labelA]) 0 0 ≠ nul := by decide
  have first : stops labelA.name (stream (withEntries [labelA] [labelA]) 0) = true := by decide
  have mark : link (withEntries [labelA] [labelA]) 2 = chainEnd := by decide
  have ends : ChainEnds (withEntries [labelA] [labelA]) (clusterOf subdirTwo).toNat 1 := by
    rw [show (clusterOf subdirTwo).toNat = 2 by decide]
    exact ends_one.mpr ⟨mark,by rw [mark]; decide⟩
  refine ⟨opened,key,?_,?_⟩
  · rw [rootRight_iff opened key]
    rintro ⟨j,⟨_,before⟩,right⟩
    have same : j = 0 := by
      by_contra other
      cases first.symm.trans (before 0 (Nat.pos_of_ne_zero other))
    rw [same,RightStop,begins,if_neg (Nat.lt_irrefl 0),label] at right
    rcases right with empty | ⟨_,absurdly⟩
    · exact some_ empty
    · cases absurdly
  · have right := dirRight_iff opened key (show subdirTwo.isSubdir = true by decide) ends
    rw [show trail (link (withEntries [labelA] [labelA])) (clusterOf subdirTwo).toNat 1 = [2] by decide] at right
    rw [right]
    rintro ⟨_,unlabelled⟩
    have stopped : (dirEntries (withEntries [labelA] [labelA]) [2]).find? (stops labelA.name) =
        some (clusterEntry (withEntries [labelA] [labelA]) 97 0) := by decide
    rcases unlabelled _ stopped with empty | visible
    · revert empty
      decide
    · revert visible
      decide

end KaracaOS.Fat16Directories
