import KaracaOS.Fat16Directories
import KaracaOS.Fat16Fragments

namespace KaracaOS.Fat16Lookups
open ByteMemory BlockDevice Fat16Volume Fat16Chains Fat16Files Fat16Paths Fat16Directories Fat16Fragments PointerChains

-- fat16_find_file_entry on the volume itself, with the searches of the directories
-- and every write behind path_fragment made.
def findFileLoop (rootFuel : Nat) : Nat → Option DirEntry → List Byte → Context → Option (Except SysRet DirEntry × Context)
  | 0,_,_,_ => none
  | fuel+1,entry,pathCopy,c =>
    match spillFragment pathCopy 0 pathFragment with
    | none => none
    | some (fragment,isSubdir,pathCopy) =>
      let cmpFilename := fat16ConvertFilename fragment
      match entry with
      | none =>
        match Fat16Directories.fat16FindInRootDir c cmpFilename rootFuel with
        | none => none
        | some (.error ret,c) => some (.error ret,c)
        | some (.ok entry,c) => findFileLoop rootFuel fuel (some entry) pathCopy c
      | some entry =>
        match Fat16Directories.fat16FindInDir c cmpFilename entry with
        | none => none
        | some (.ok entry,c) => if isSubdir then findFileLoop rootFuel fuel (some entry) pathCopy c else some (.ok entry,c)
        | some (.error ret,c) => if isSubdir then some (.error ret,c) else some (.ok entry,c)

def fat16FindFileEntry (c : Context) (path : Bytes) (rootFuel : Nat) : Option (Except SysRet DirEntry × Context) :=
  if c.sectorsPerCluster = 0 then none
  else findFileLoop rootFuel 1026 none (kaosStrncpy path 1024) (fat16ReadRootDir c (entriesPerCluster c) 0)

-- The clusters that the directories below the root start at.
inductive Directory (c : Context) : Nat → Prop where
  | root : e ∈ live (rootEntries c) → e.isSubdir = true → Directory c (clusterOf e).toNat
  | child : Directory c cluster → ChainEnds c cluster k → e ∈ live (dirEntries c (trail (link c) cluster k)) → e.isSubdir = true →
      Directory c (clusterOf e).toNat

def Opens (c : Context) (e : DirEntry) : Prop := e.isSubdir = true → Directory c (clusterOf e).toNat

-- No label has a name that a search can ask for, since a key is without NUL bytes. The
-- entries of long file names carry the label's bit, too.
def Unasked (entries : List DirEntry) : Prop :=
  ∀ e ∈ entries.takeWhile (fun e => e 0 != nul), isLabel e = true → e 0 = deleted ∨ nul ∈ e.name

-- A volume whose root directory starts with a cluster and has an end, with the chains of
-- its directories in order and read whole, and without labels in the way of a search.
structure Tidy (c : Context) : Prop where
  aligned : c.sectorsPerCluster ∣ c.rootDirStart
  ended : ∃ e ∈ rootEntries c, e 0 = nul
  root : Unasked (rootEntries c)
  chains : ∀ cluster, Directory c cluster → ∃ k ≤ 1023, ChainEnds c cluster k ∧ Unasked (dirEntries c (trail (link c) cluster k))

def chainRead (c : Context) (cluster : Nat) : List Nat := (walk (link c) (· = chainEnd) (· = 0) chainFuel cluster).getD []

def volumeOf (c : Context) : Volume :=
  ⟨live (rootEntries c),fun cluster => live (dirEntries c (chainRead c cluster.toNat))⟩

-- The contexts of a search: the buffer holds what it held, or some cluster.
def Loaded (c used : Context) : Prop := used = c ∨ ∃ cluster, used = load c cluster

variable {c used next : Context} {name : List Byte} {e : DirEntry} {entries : List DirEntry}

theorem Loaded.trans (one : Loaded c used) (two : Loaded used next) : Loaded c next := by
  rcases two with rfl | ⟨cluster,rfl⟩
  · exact one
  · rcases one with rfl | ⟨other,rfl⟩
    · exact .inr ⟨cluster,rfl⟩
    · exact .inr ⟨cluster,load_load c other cluster⟩

theorem Loaded.volume (loaded : Loaded c used) : volumeOf used = volumeOf c := by
  rcases loaded with rfl | ⟨cluster,rfl⟩
  · rfl
  · have chains : chainRead (load c cluster) = chainRead c := by
      funext first
      rw [chainRead,link_load,chainRead]
    rw [volumeOf,chains]
    rfl

theorem Loaded.opened (loaded : Loaded c used) (opened : Opened c) : Opened used := by
  rcases loaded with rfl | ⟨cluster,rfl⟩
  · exact opened
  · exact ⟨opened.sectors,opened.clusters,opened.root⟩

theorem load_chainEnds (c : Context) (cluster first k : Nat) : ChainEnds (load c cluster) first k ↔ ChainEnds c first k := by
  rw [ChainEnds,link_load,ChainEnds]

theorem load_directory (c : Context) (first : Nat) : Directory (load c first) cluster ↔ Directory c cluster := by
  constructor
  · intro found
    induction found with
    | root member directory => exact .root member directory
    | child _ ends member directory ih =>
      rw [link_load] at member
      exact .child ih ((load_chainEnds c _ _ _).mp ends) member directory
  · intro found
    induction found with
    | root member directory => exact .root member directory
    | child _ ends member directory ih =>
      refine .child ih ((load_chainEnds c _ _ _).mpr ends) ?_ directory
      rw [link_load]
      exact member

theorem Loaded.opens (loaded : Loaded c used) : Opens used e ↔ Opens c e := by
  rcases loaded with rfl | ⟨cluster,rfl⟩
  · exact Iff.rfl
  · simp only [Opens,load_directory]

theorem Loaded.tidy (loaded : Loaded c used) (tidy : Tidy c) : Tidy used := by
  rcases loaded with rfl | ⟨first,rfl⟩
  · exact tidy
  · refine ⟨tidy.aligned,tidy.ended,tidy.root,?_⟩
    intro cluster directory
    obtain ⟨k,few,ends,unasked⟩ := tidy.chains cluster ((load_directory c first).mp directory)
    refine ⟨k,few,(load_chainEnds c first cluster k).mpr ends,?_⟩
    rw [link_load]
    exact unasked

theorem rootLoop_loaded (fuel offset : Nat) (ran : rootLoop name fuel offset c = some (found,next)) : Loaded c next := by
  induction fuel generalizing offset c with
  | zero => cases ran
  | succ fuel ih =>
    rw [rootLoop,fat16ReadRootDir,readDirectory_load] at ran
    have here : Loaded c (load c (rootCluster c offset)) := .inr ⟨_,rfl⟩
    split at ran
    · cases ran
      exact here
    · exact here.trans (ih _ ran)

theorem dirLoop_loaded (chain : List Nat) (ran : dirLoop name chain c = some (found,next)) : Loaded c next := by
  induction chain generalizing c with
  | nil => cases ran
  | cons cluster rest ih =>
    rw [dirLoop,readDirectory_load] at ran
    have here : Loaded c (load c (dataCluster c cluster)) := .inr ⟨_,rfl⟩
    split at ran
    · cases ran
      exact here
    · split at ran
      · cases ran
        exact here
      · exact here.trans (ih ran)

theorem findInRootDir_loaded (ran : Fat16Directories.fat16FindInRootDir c name fuel = some (found,next)) : Loaded c next := by
  unfold Fat16Directories.fat16FindInRootDir at ran
  split at ran
  · cases ran
  · exact rootLoop_loaded fuel 0 ran

theorem findInDir_loaded (ran : Fat16Directories.fat16FindInDir c name e = some (found,next)) : Loaded c next := by
  unfold Fat16Directories.fat16FindInDir at ran
  split at ran
  · split at ran
    · cases ran
    · rename_i chain after read
      obtain ⟨_,_,last,_,_,rfl⟩ := chain_cases read
      split at ran
      · cases ran
      · exact Loaded.trans (.inr ⟨last,rfl⟩) (dirLoop_loaded chain ran)
  · cases ran
    exact .inl rfl

theorem chainRead_ends (ends : ChainEnds c cluster k) : chainRead c cluster = trail (link c) cluster k := by
  rw [chainRead,(walk_iff _ _ _).mpr ⟨k,ends.short,ends,rfl⟩]
  rfl

theorem stop_counted (found : entries.find? (stops name) = some e) (some_ : e 0 ≠ nul) :
    e ∈ entries.takeWhile (fun e => e 0 != nul) := by
  induction entries with
  | nil => cases found
  | cons first rest ih =>
    rw [stops_cons] at found
    by_cases ends : first 0 = nul
    · rw [if_pos (.inl ends)] at found
      exact absurd (Option.some.inj found ▸ ends) some_
    · have more : (first 0 != nul) = true := by simpa using ends
      rw [List.takeWhile_cons,if_pos more]
      split at found
      · exact Option.some.inj found ▸ List.mem_cons_self
      · exact List.mem_cons_of_mem _ (ih found)

theorem Unasked.unlabelled (unasked : Unasked entries) (key : Key name) : Unlabelled entries name := by
  intro e found
  by_cases ends : e 0 = nul
  · exact .inl ends
  · refine .inr ?_
    have stopped := List.find?_some found
    simp only [stops,Bool.or_eq_true,beq_iff_eq,Bool.and_eq_true,bne_iff_ne,ne_eq,ends,false_or] at stopped
    cases label : isLabel e with
    | false => rfl
    | true =>
      rcases unasked e (stop_counted found ends) label with gone | member
      · exact absurd gone stopped.1
      · exact absurd (stopped.2 ▸ member) key.plain

theorem tidy_root (opened : Opened c) (tidy : Tidy c) (key : Key name) :
    ∃ fuel after, Fat16Directories.fat16FindInRootDir c name fuel = some (Fat16Paths.fat16FindInRootDir (volumeOf c) name,after) := by
  have begins : lead c = 0 := by
    rw [lead,Nat.mod_eq_zero_of_dvd tidy.aligned,Nat.zero_mul]
  obtain ⟨e,member,ends⟩ := tidy.ended
  obtain ⟨last,inside,rfl⟩ := List.mem_map.mp member
  have inside := List.mem_range.mp inside
  have root : stream c last = rootEntry c last := by
    have same := stream_root opened inside
    rwa [begins,Nat.zero_add] at same
  have final : stops name (stream c last) = true := by
    rw [root,stops,ends]
    rfl
  have stopped : ∃ j, stops name (stream c j) = true := ⟨last,final⟩
  have below : Nat.find stopped < nrPossibleRootEntries c.bootSector := Nat.lt_of_le_of_lt (Nat.find_min' stopped final) inside
  have first : FirstStop c name (Nat.find stopped) := by
    refine ⟨Nat.find_spec stopped,?_⟩
    intro i less
    simpa using Nat.find_min stopped less
  refine (rootRight_iff opened key).mpr ⟨Nat.find stopped,first,?_⟩
  rw [RightStop,begins,if_neg (Nat.not_lt_zero _),Nat.zero_add]
  have found := root_stop opened first (by rw [begins]; exact Nat.not_lt_zero _) (by rwa [begins,Nat.zero_add])
  exact (tidy.root.unlabelled key _ found).imp_right (fun plain => ⟨below,plain⟩)

theorem tidy_dir (opened : Opened c) (tidy : Tidy c) (key : Key name) (subdir : DirEntry) (opens : Opens c subdir) :
    ∃ after, Fat16Directories.fat16FindInDir c name subdir = some (Fat16Paths.fat16FindInDir (volumeOf c) name subdir,after) := by
  by_cases directory : subdir.isSubdir = true
  · obtain ⟨k,few,ends,unasked⟩ := tidy.chains _ (opens directory)
    have right := (dirRight_iff opened key directory ends).mpr ⟨few,unasked.unlabelled key⟩
    rw [Fat16Paths.fat16FindInDir,if_pos directory,volumeOf]
    dsimp only
    rwa [chainRead_ends ends]
  · refine ⟨c,?_⟩
    rw [Fat16Directories.fat16FindInDir,if_neg directory,Fat16Paths.fat16FindInDir,if_neg directory]

theorem padded_plain (plain : nul ∉ text) : nul ∉ padded width text := by
  intro member
  rcases List.mem_append.mp member with inside | behind
  · exact plain inside
  · exact absurd (List.mem_replicate.mp behind).2 (by decide)

theorem nameLoop_plain (rounds : Nat) (filename : List Byte) : nul ∉ (nameLoop rounds filename).1 := by
  rw [nameLoop_taken]
  intro member
  exact absurd (List.mem_takeWhile_imp member) (by decide)

theorem extensionLoop_plain (rounds : Nat) (filename : List Byte) : nul ∉ extensionLoop rounds filename := by
  rw [extensionLoop_taken]
  intro member
  exact absurd (List.mem_takeWhile_imp member) (by decide)

theorem convert_key (filename : List Byte) : Key (fat16ConvertFilename filename) := by
  refine ⟨convert_length filename,?_⟩
  have base : nul ∉ padded 8 (nameLoop 8 filename).1 := padded_plain (nameLoop_plain 8 filename)
  intro member
  rw [fat16ConvertFilename] at member
  dsimp only at member
  split at member
  · rcases List.mem_append.mp member with inBase | behind
    · exact base inBase
    · exact padded_plain List.not_mem_nil behind
  · rcases List.mem_append.mp member with inBase | behind
    · exact base inBase
    · exact padded_plain (extensionLoop_plain 3 _) behind

theorem answer_mem (found : answer (lookup entries name) = .ok e) : e ∈ entries := by
  cases looked : lookup entries name with
  | none =>
    rw [looked] at found
    cases found
  | some f =>
    rw [looked] at found
    cases found
    exact List.mem_of_find?_eq_some looked

theorem root_opens (found : Fat16Paths.fat16FindInRootDir (volumeOf c) name = .ok e) : Opens c e :=
  fun directory => .root (answer_mem found) directory

theorem dir_opens (tidy : Tidy c) (opens : Opens c subdir) (found : Fat16Paths.fat16FindInDir (volumeOf c) name subdir = .ok e) : Opens c e := by
  rw [Fat16Paths.fat16FindInDir] at found
  split at found
  · rename_i directory
    obtain ⟨k,_,ends,_⟩ := tidy.chains _ (opens directory)
    have member : e ∈ live (dirEntries c (chainRead c (clusterOf subdir).toNat)) := answer_mem found
    rw [chainRead_ends ends] at member
    exact fun below => .child (opens directory) ends member below
  · cases found

theorem findFileLoop_below (rootFuel fuel : Nat) (pathCopy : List Byte) (opened : Opened c) (tidy : Tidy c) (opens : Opens c e) :
    (findFileLoop rootFuel fuel (some e) pathCopy c).map Prod.fst = findLoop spillFragment (volumeOf c) fuel (some e) pathCopy := by
  induction fuel generalizing e pathCopy c with
  | zero => rfl
  | succ fuel ih =>
    rw [findFileLoop,findLoop]
    cases spillFragment pathCopy 0 pathFragment with
    | none => rfl
    | some result =>
      obtain ⟨fragment,isSubdir,left⟩ := result
      dsimp only
      obtain ⟨after,ran⟩ := tidy_dir opened tidy (convert_key fragment) e opens
      have loaded := findInDir_loaded ran
      rw [ran]
      cases found : Fat16Paths.fat16FindInDir (volumeOf c) (fat16ConvertFilename fragment) e with
      | error ret =>
        dsimp only
        split <;> rfl
      | ok f =>
        dsimp only
        split
        · rw [ih left (loaded.opened opened) (loaded.tidy tidy) (loaded.opens.mpr (dir_opens tidy opens found)),loaded.volume]
        · rfl

theorem findFileLoop_root (fuel : Nat) (pathCopy : List Byte) (opened : Opened c) (tidy : Tidy c) :
    ∃ rootFuel, (findFileLoop rootFuel (fuel+1) none pathCopy c).map Prod.fst = findLoop spillFragment (volumeOf c) (fuel+1) none pathCopy := by
  simp only [findFileLoop,findLoop]
  cases spillFragment pathCopy 0 pathFragment with
  | none => exact ⟨0,rfl⟩
  | some result =>
    obtain ⟨fragment,isSubdir,left⟩ := result
    obtain ⟨rootFuel,after,ran⟩ := tidy_root opened tidy (convert_key fragment)
    have loaded := findInRootDir_loaded ran
    refine ⟨rootFuel,?_⟩
    dsimp only
    rw [ran]
    cases found : Fat16Paths.fat16FindInRootDir (volumeOf c) (fat16ConvertFilename fragment) with
    | error ret => rfl
    | ok e =>
      have below := findFileLoop_below rootFuel fuel left (loaded.opened opened) (loaded.tidy tidy) (loaded.opens.mpr (root_opens found))
      rwa [loaded.volume] at below

-- On a tidy volume a path leads where it leads in the path model.
theorem find_file_entry_volume (opened : Opened c) (tidy : Tidy c) (path : Bytes) :
    ∃ rootFuel, (fat16FindFileEntry c path rootFuel).map Prod.fst = Fat16Paths.fat16FindFileEntry spillFragment (volumeOf c) path := by
  have positive := opened.clusters
  have first : Loaded c (fat16ReadRootDir c (entriesPerCluster c) 0) := .inr ⟨_,readDirectory_load c _ _⟩
  obtain ⟨rootFuel,same⟩ := findFileLoop_root 1025 (kaosStrncpy path 1024) (first.opened opened) (first.tidy tidy)
  refine ⟨rootFuel,?_⟩
  rw [first.volume] at same
  rw [fat16FindFileEntry,if_neg (by omega),same,Fat16Paths.fat16FindFileEntry]

theorem takeWhile_before {counts : DirEntry → Bool} {first : DirEntry} {rest : List DirEntry} (ended : counts first = false)
    (member : e ∈ (entries++first::rest).takeWhile counts) : e ∈ entries := by
  induction entries with
  | nil => simp [ended] at member
  | cons head tail ih =>
    rw [List.cons_append,List.takeWhile_cons] at member
    split at member
    · rcases List.mem_cons.mp member with rfl | later
      · exact List.mem_cons_self
      · exact List.mem_cons_of_mem _ (ih later)
    · cases member

theorem counted_before (inside : j < nrPossibleRootEntries c.bootSector) (ended : rootEntry c j 0 = nul)
    (member : e ∈ (rootEntries c).takeWhile (fun e => e 0 != nul)) : ∃ i < j, e = rootEntry c i := by
  have split : List.range (nrPossibleRootEntries c.bootSector) =
      List.range j++(List.range (nrPossibleRootEntries c.bootSector-j)).map (j+·) := by
    rw [← List.range_add,Nat.add_sub_cancel' (Nat.le_of_lt inside)]
  obtain ⟨rest,others⟩ : ∃ rest, (List.range (nrPossibleRootEntries c.bootSector-j)).map (j+·) = j::rest := by
    obtain ⟨more,left⟩ := Nat.exists_eq_add_of_lt inside
    rw [show nrPossibleRootEntries c.bootSector-j = more+1 by omega,List.range_succ_eq_map]
    exact ⟨_,rfl⟩
  rw [rootEntries,split,others,List.map_append,List.map_cons] at member
  have before : e ∈ (List.range j).map (rootEntry c) := takeWhile_before (by simp [ended]) member
  obtain ⟨i,less,rfl⟩ := List.mem_map.mp before
  exact ⟨i,List.mem_range.mp less,rfl⟩

-- Without subdirectories in the root directory there are none at all.
theorem no_directory (plain : ∀ e ∈ live (rootEntries c), e.isSubdir = false) : ¬ Directory c cluster := by
  intro found
  induction found with
  | root member directory => exact absurd (directory.symm.trans (plain _ member)) (by decide)
  | child _ _ _ _ ih => exact ih

end KaracaOS.Fat16Lookups
