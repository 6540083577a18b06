import KaracaOS.ByteMemory
import KaracaOS.SysDefs

namespace KaracaOS.Fat16Paths
open ByteMemory

-- fat16_dir_entry_t, all 32 bytes of it: eleven bytes of name, then attributes.
abbrev DirEntry := Fin 32 → Byte

instance entry_nonempty : NeZero 32 := ⟨by decide⟩

def DirEntry.name (e : DirEntry) : List Byte := (List.finRange 11).map fun i => e (i.castLE (by decide))
def DirEntry.attributes (e : DirEntry) : Byte := e 11
def attribSubdir : Byte := 0x10#8
def DirEntry.isSubdir (e : DirEntry) : Bool := e.attributes &&& attribSubdir != 0#8
def clusterOf (e : DirEntry) : BitVec 32 := e 21 ++ e 20 ++ e 27 ++ e 26

-- What the directory searches see of a volume: the live entries of the root
-- and of the directory whose chain starts at a cluster, in order.
structure Volume where
  root : List DirEntry
  directory : BitVec 32 → List DirEntry

def lookup (entries : List DirEntry) (name : List Byte) : Option DirEntry := entries.find? (fun e => e.name == name)

def answer : Option DirEntry → Except SysRet DirEntry
  | some entry => .ok entry
  | none => .error .notFound

def fat16FindInRootDir (v : Volume) (fileToFind : List Byte) : Except SysRet DirEntry := answer (lookup v.root fileToFind)

def fat16FindInDir (v : Volume) (fileToFind : List Byte) (subdir : DirEntry) : Except SysRet DirEntry :=
  if subdir.isSubdir then answer (lookup (v.directory (clusterOf subdir)) fileToFind) else .error .notFound

def slash : Byte := 0x2F#8
def dot : Byte := 0x2E#8
def blank : Byte := 0x20#8
def nul : Byte := 0#8

-- kaos_strnlen never moves along its string, so it answers 0 or n, and the copy
-- is of n bytes whatever lies behind the end of the source.
def kaosStrncpy (source : Bytes) (n : Nat) : List Byte :=
  if source 0 = nul then [nul] else (List.range (n-1)).map source ++ [nul]

-- The two loops of fat16_convert_filename, each over the bytes `filename` points at.
def nameLoop : Nat → List Byte → List Byte × Option (List Byte)
  | 0,_ => ([],none)
  | _+1,[] => ([],none)
  | rounds+1,c::filename =>
    if c ≠ dot ∧ c ≠ nul then
      let (name,extension) := nameLoop rounds filename
      (c::name,extension)
    else ([],some filename)

def extensionLoop : Nat → List Byte → List Byte
  | 0,_ => []
  | _+1,[] => []
  | rounds+1,c::filename => if c ≠ nul then c::extensionLoop rounds filename else []

def padded (width : Nat) (chars : List Byte) : List Byte := chars++List.replicate (width-chars.length) blank

def fat16ConvertFilename (filename : List Byte) : List Byte :=
  let (name,extension) := nameLoop 8 filename
  match extension with
  | none => padded 8 name++padded 3 []
  | some rest => padded 8 name++padded 3 (extensionLoop 3 rest)

def pathFragment : List Byte := (List.replicate 12 blank).set 11 nul

-- One round of the inner loop after the other. The answer is the fragment,
-- is_subdir and path_copy_ptr; none is a write behind path_fragment.
def readFragment : List Byte → Nat → List Byte → Option (List Byte × Bool × List Byte)
  | [],_,_ => none
  | c::rest,i,fragment =>
    if c = slash ∧ i ≠ 0 then
      if i+1 < 12 then some (fragment.set (i+1) nul,true,c::rest) else none
    else if c = nul then
      if i+1 < 12 then some (fragment.set (i+1) nul,false,c::rest) else none
    else if c ≠ slash then
      if i < 12 then readFragment rest (i+1) (fragment.set i c) else none
    else readFragment rest i fragment

-- The same loop with the writes behind path_fragment made: they reach none of its
-- bytes, and the search reads none behind it.
def spillFragment : List Byte → Nat → List Byte → Option (List Byte × Bool × List Byte)
  | [],_,_ => none
  | c::rest,i,fragment =>
    if c = slash ∧ i ≠ 0 then some (fragment.set (i+1) nul,true,c::rest)
    else if c = nul then some (fragment.set (i+1) nul,false,c::rest)
    else if c ≠ slash then spillFragment rest (i+1) (fragment.set i c)
    else spillFragment rest i fragment

abbrev FragmentLoop := List Byte → Nat → List Byte → Option (List Byte × Bool × List Byte)

-- `entry` is the loop-local variable, none while in_root_dir. In a subdirectory
-- the last fragment returns before `ret` is looked at.
def findLoop (read : FragmentLoop) (v : Volume) : Nat → Option DirEntry → List Byte → Option (Except SysRet DirEntry)
  | 0,_,_ => none
  | fuel+1,entry,pathCopy =>
    match read pathCopy 0 pathFragment with
    | none => none
    | some (fragment,isSubdir,pathCopy) =>
      let cmpFilename := fat16ConvertFilename fragment
      match entry with
      | none =>
        match fat16FindInRootDir v cmpFilename with
        | .error ret => some (.error ret)
        | .ok entry => findLoop read v fuel (some entry) pathCopy
      | some entry =>
        match fat16FindInDir v cmpFilename entry with
        | .ok entry => if isSubdir then findLoop read v fuel (some entry) pathCopy else some (.ok entry)
        | .error ret => if isSubdir then some (.error ret) else some (.ok entry)

-- The copy has at most 1023 bytes before its end, and every round but the last
-- two takes one of them.
def fat16FindFileEntry (read : FragmentLoop) (v : Volume) (path : Bytes) : Option (Except SysRet DirEntry) :=
  findLoop read v 1026 none (kaosStrncpy path 1024)

structure Component where
  base : List Byte
  extension : List Byte
  baseLength : 0 < base.length ∧ base.length ≤ 8
  extensionLength : extension.length ≤ 3
  legal : ∀ c ∈ base++extension, c ≠ nul ∧ c ≠ slash ∧ c ≠ dot

def Component.text (c : Component) : List Byte := if c.extension = [] then c.base else c.base++dot::c.extension
def Component.name (c : Component) : List Byte := padded 8 c.base++padded 3 c.extension

-- An absolute path: each component behind one or more slashes, and any number of them at the end.
structure Path where
  components : List (Nat × Component)
  trailing : Nat
  some_ : components ≠ []

def stretch (part : Nat × Component) : List Byte := List.replicate (part.1+1) slash++part.2.text
def Path.text (p : Path) : List Byte := p.components.flatMap stretch++List.replicate p.trailing slash
def Path.names (p : Path) : List Component := p.components.map Prod.snd

def CString (memory : Bytes) (chars : List Byte) : Prop :=
  (∀ i, (inside : i < chars.length) → memory i = chars[i]) ∧ memory chars.length = nul

-- What a path stands for: the directory an entry opens, and the entry reached
-- by going through one directory after the other.
def under (v : Volume) (e : DirEntry) : List DirEntry := if e.isSubdir then v.directory (clusterOf e) else []

def descend (v : Volume) (e : DirEntry) (names : List Component) : Option DirEntry :=
  names.foldlM (fun e c => lookup (under v e) c.name) e

def resolve (v : Volume) : List Component → Option DirEntry
  | [] => none
  | c::rest => (lookup v.root c.name).bind (fun e => descend v e rest)

def fragmentTail (length : Nat) : List Byte := (pathFragment.drop length).set 1 nul

theorem readFragment_slashes (k : Nat) (rest fragment : List Byte) :
    readFragment (List.replicate k slash++rest) 0 fragment = readFragment rest 0 fragment := by
  induction k with
  | zero => rfl
  | succ k ih =>
    rw [List.replicate_succ,List.cons_append,readFragment]
    simp only [ne_eq,not_true_eq_false,and_false,if_false,show slash ≠ nul by decide,ih]

theorem readFragment_chars (legal : ∀ c ∈ chars, c ≠ nul ∧ c ≠ slash) (room : before.length+chars.length ≤ 12) :
    readFragment (chars++rest) before.length (before++pathFragment.drop before.length) =
      readFragment rest (before.length+chars.length) (before++chars++pathFragment.drop (before.length+chars.length)) := by
  induction chars generalizing before with
  | nil => simp
  | cons c chars ih =>
    obtain ⟨real,plain⟩ := legal c List.mem_cons_self
    rw [List.length_cons] at room
    have wide : before.length < pathFragment.length := by
      rw [show pathFragment.length = 12 by decide]
      omega
    have written : (before++pathFragment.drop before.length).set before.length c =
        (before++[c])++pathFragment.drop (before++[c]).length := by
      rw [List.set_append_right _ _ (Nat.le_refl _),Nat.sub_self,List.drop_eq_getElem_cons wide,List.set_cons_zero,
        List.length_append,List.length_singleton,List.append_assoc,List.singleton_append]
    rw [List.cons_append,readFragment,if_neg (fun both => plain both.1),if_neg real,if_pos plain,if_pos (by omega),written,
      show before.length+1 = (before++[c]).length by simp,
      ih (fun x member => legal x (List.mem_cons_of_mem _ member)) (by simp; omega)]
    simp [Nat.add_assoc,Nat.add_comm 1]

theorem readFragment_text (some_ : text ≠ []) (short : text.length ≤ 10) (legal : ∀ c ∈ text, c ≠ nul ∧ c ≠ slash) (k : Nat)
    (ends : stop = slash ∨ stop = nul) :
    readFragment (List.replicate k slash++text++stop::rest) 0 pathFragment =
      some (text++fragmentTail text.length,decide (stop = slash),stop::rest) := by
  have positive : text.length ≠ 0 := by simpa using some_
  have read : readFragment (text++stop::rest) 0 pathFragment =
      readFragment (stop::rest) text.length (text++pathFragment.drop text.length) := by
    have chars := @readFragment_chars text (stop::rest) [] legal (by simp; omega)
    rwa [List.length_nil,Nat.zero_add] at chars
  have closed : (text++pathFragment.drop text.length).set (text.length+1) nul = text++fragmentTail text.length := by
    rw [List.set_append_right _ _ (by omega),Nat.add_sub_cancel_left,fragmentTail]
  rw [List.append_assoc,readFragment_slashes,read,readFragment]
  rcases ends with rfl | rfl
  · rw [if_pos ⟨rfl,positive⟩,if_pos (by omega),closed]
    rfl
  · rw [if_neg (fun both => absurd both.1 (by decide)),if_pos rfl,if_pos (by omega),closed]
    rfl

theorem spill_of_read (read : readFragment pathCopy i fragment = some found) : spillFragment pathCopy i fragment = some found := by
  induction pathCopy generalizing i fragment with
  | nil => cases read
  | cons c rest ih =>
    rw [readFragment] at read
    rw [spillFragment]
    split at read
    · rename_i separator
      rw [if_pos separator]
      split at read
      · exact read
      · cases read
    · rename_i other
      rw [if_neg other]
      split at read
      · rename_i final
        rw [if_pos final]
        split at read
        · exact read
        · cases read
      · rename_i more
        rw [if_neg more]
        split at read
        · rename_i char
          rw [if_pos char]
          split at read
          · exact ih read
          · cases read
        · rename_i char
          rw [if_neg char]
          exact ih read

-- A round ends at the end of the path at the latest; one that ends at a slash has
-- taken a character.
theorem spill_ends (ended : nul ∈ pathCopy) (i : Nat) (fragment : List Byte) :
    ∃ read isSubdir rest, spillFragment pathCopy i fragment = some (read,isSubdir,rest) ∧ nul ∈ rest ∧ rest.length ≤ pathCopy.length ∧
      (isSubdir = true → i = 0 → rest.length < pathCopy.length) := by
  induction pathCopy generalizing i fragment with
  | nil => cases ended
  | cons c rest ih =>
    rw [spillFragment]
    by_cases separator : c = slash ∧ i ≠ 0
    · rw [if_pos separator]
      exact ⟨_,_,_,rfl,ended,Nat.le_refl _,fun _ first => absurd first separator.2⟩
    · rw [if_neg separator]
      by_cases final : c = nul
      · rw [if_pos final]
        exact ⟨_,_,_,rfl,ended,Nat.le_refl _,fun directory => by cases directory⟩
      · have later : nul ∈ rest := (List.mem_cons.mp ended).resolve_left (fun same => final same.symm)
        have shorter : rest.length < (c::rest).length := Nat.lt_succ_self _
        rw [if_neg final]
        split
        · obtain ⟨read,isSubdir,left,ran,kept,most,_⟩ := ih later (i+1) (fragment.set i c)
          exact ⟨read,isSubdir,left,ran,kept,by omega,fun _ _ => by omega⟩
        · obtain ⟨read,isSubdir,left,ran,kept,most,_⟩ := ih later i fragment
          exact ⟨read,isSubdir,left,ran,kept,by omega,fun _ _ => by omega⟩

theorem findLoop_ends (ended : nul ∈ pathCopy) (enough : pathCopy.length+(if entry = none then 2 else 1) ≤ fuel) :
    findLoop spillFragment v fuel entry pathCopy ≠ none := by
  induction fuel generalizing entry pathCopy with
  | zero =>
    have positive : 0 < (if entry = none then 2 else 1) := by split <;> decide
    omega
  | succ fuel ih =>
    obtain ⟨fragment,isSubdir,rest,read,later,most,shorter⟩ := spill_ends ended 0 pathFragment
    rw [findLoop,read]
    dsimp only
    cases entry with
    | none =>
      rw [if_pos rfl] at enough
      dsimp only
      split
      · exact Option.some_ne_none _
      · exact ih later (by rw [if_neg (Option.some_ne_none _)]; omega)
    | some e =>
      rw [if_neg (Option.some_ne_none _)] at enough
      dsimp only
      split
      · split
        · rename_i directory
          have less := shorter directory rfl
          exact ih later (by rw [if_neg (Option.some_ne_none _)]; omega)
        · exact Option.some_ne_none _
      · split <;> exact Option.some_ne_none _

theorem find_file_entry_ends (v : Volume) (path : Bytes) : fat16FindFileEntry spillFragment v path ≠ none := by
  refine findLoop_ends ?_ ?_
  · unfold kaosStrncpy
    split <;> simp
  · rw [if_pos rfl,kaosStrncpy]
    split <;> simp

theorem nameLoop_chars (legal : ∀ c ∈ chars, c ≠ dot ∧ c ≠ nul) :
    nameLoop (chars.length+rounds) (chars++rest) = (chars++(nameLoop rounds rest).1,(nameLoop rounds rest).2) := by
  induction chars with
  | nil => simp
  | cons c chars ih =>
    rw [List.length_cons,Nat.add_right_comm,List.cons_append,nameLoop,if_pos (legal c List.mem_cons_self),
      ih (fun x member => legal x (List.mem_cons_of_mem _ member))]
    rfl

theorem extensionLoop_chars (legal : ∀ c ∈ chars, c ≠ nul) :
    extensionLoop (chars.length+rounds) (chars++rest) = chars++extensionLoop rounds rest := by
  induction chars with
  | nil => simp
  | cons c chars ih =>
    rw [List.length_cons,Nat.add_right_comm,List.cons_append,extensionLoop,if_pos (legal c List.mem_cons_self),
      ih (fun x member => legal x (List.mem_cons_of_mem _ member))]
    rfl

-- Names on which the conversion does its work: no base of eight characters with
-- an extension behind it, and the terminator still inside path_fragment.
def Component.Plain (c : Component) : Prop := c.text.length ≤ 10 ∧ (c.extension ≠ [] → c.base.length < 8)

theorem bare_tail : ∀ b ≤ 8, 0 < b → (nameLoop (8-b) (fragmentTail b)).1++List.replicate (8-(b+(nameLoop (8-b) (fragmentTail b)).1.length)) blank =
    List.replicate (8-b) blank ∧
    ∀ rest, (nameLoop (8-b) (fragmentTail b)).2 = some rest → padded 3 (extensionLoop 3 rest) = padded 3 [] := by
  decide

theorem extended_tail : ∀ e ≤ 3, ∀ n ≤ 12, (extensionLoop (3-e) (fragmentTail n))++
    List.replicate (3-(e+(extensionLoop (3-e) (fragmentTail n)).length)) blank = List.replicate (3-e) blank := by
  decide

theorem Component.text_short (c : Component) : c.text.length ≤ 12 := by
  have small := c.baseLength.2
  have few := c.extensionLength
  unfold Component.text
  split
  · omega
  · rw [List.length_append,List.length_cons]
    omega

theorem convert_fits (c : Component) (fits : c.extension ≠ [] → c.base.length < 8) :
    fat16ConvertFilename (c.text++fragmentTail c.text.length) = c.name := by
  obtain ⟨positive,small⟩ := c.baseLength
  have few := c.extensionLength
  have base : ∀ x ∈ c.base, x ≠ dot ∧ x ≠ nul := fun x member =>
    ⟨(c.legal x (List.mem_append_left _ member)).2.2,(c.legal x (List.mem_append_left _ member)).1⟩
  by_cases bare : c.extension = []
  · have text : c.text = c.base := if_pos bare
    obtain ⟨filled,empty⟩ := bare_tail c.base.length small positive
    have loop := @nameLoop_chars c.base (8-c.base.length) (fragmentTail c.base.length) base
    rw [Nat.add_sub_cancel' small] at loop
    have head : padded 8 (c.base++(nameLoop (8-c.base.length) (fragmentTail c.base.length)).1) = padded 8 c.base := by
      rw [padded,padded,List.length_append,List.append_assoc,filled]
    rw [fat16ConvertFilename,text,loop,Component.name,bare]
    dsimp only
    split
    · rw [head]
    · rename_i rest stopped
      rw [head,empty rest stopped]
  · have text : c.text = c.base++dot::c.extension := if_neg bare
    have room := fits bare
    have loop := @nameLoop_chars c.base (7-c.base.length+1) (dot::(c.extension++fragmentTail c.text.length)) base
    rw [show c.base.length+(7-c.base.length+1) = 8 by omega] at loop
    have stopped : nameLoop (7-c.base.length+1) (dot::(c.extension++fragmentTail c.text.length)) =
        ([],some (c.extension++fragmentTail c.text.length)) := by
      rw [nameLoop,if_neg (by simp)]
    have real : ∀ x ∈ c.extension, x ≠ nul := fun x member => (c.legal x (List.mem_append_right _ member)).1
    have behind := @extensionLoop_chars c.extension (3-c.extension.length) (fragmentTail c.text.length) real
    rw [Nat.add_sub_cancel' few] at behind
    have filled := extended_tail c.extension.length few c.text.length c.text_short
    have whole : c.text++fragmentTail c.text.length = c.base++dot::(c.extension++fragmentTail c.text.length) := by
      rw [text,List.append_assoc,List.cons_append]
    rw [fat16ConvertFilename,whole,loop,stopped,Component.name]
    dsimp only
    rw [List.append_nil,behind,padded,padded,padded,List.length_append,List.append_assoc c.extension,filled]

def blankName : List Byte := padded 8 []++padded 3 []

theorem Component.text_some (c : Component) : c.text ≠ [] := by
  have positive := c.baseLength.1
  intro empty
  unfold Component.text at empty
  split at empty
  · rw [empty] at positive
    cases positive
  · simp at empty

theorem Component.text_legal (c : Component) : ∀ x ∈ c.text, x ≠ nul ∧ x ≠ slash := by
  have letters : ∀ x ∈ c.base++c.extension, x ≠ nul ∧ x ≠ slash := fun x member =>
    ⟨(c.legal x member).1,(c.legal x member).2.1⟩
  intro x member
  unfold Component.text at member
  split at member
  · exact letters x (List.mem_append_left _ member)
  · rcases List.mem_append.mp member with inBase | behind
    · exact letters x (List.mem_append_left _ inBase)
    · rcases List.mem_cons.mp behind with rfl | inExtension
      · decide
      · exact letters x (List.mem_append_right _ inExtension)

theorem findInDir_lookup (v : Volume) (name : List Byte) (e : DirEntry) :
    fat16FindInDir v name e = answer (lookup (under v e) name) := by
  unfold fat16FindInDir under
  split <;> rfl

theorem answer_inj : answer a = answer b ↔ a = b := by
  cases a <;> cases b <;> simp [answer]

theorem kaosStrncpy_text (stored : CString path text) (first : path 0 ≠ nul) (short : text.length ≤ 1023) :
    ∃ junk, kaosStrncpy path 1024 = text++nul::junk := by
  obtain ⟨chars,ends⟩ := stored
  have copied : (List.range text.length).map path = text := by
    refine List.ext_getElem (by simp) ?_
    intro i low high
    rw [List.getElem_map,List.getElem_range]
    exact chars i high
  have whole : List.range 1023 = List.range text.length++(List.range (1023-text.length)).map (text.length+·) := by
    rw [← List.range_add,Nat.add_sub_cancel' short]
  rw [kaosStrncpy,if_neg first,whole,List.map_append,copied,List.append_assoc]
  cases left : 1023-text.length with
  | zero => exact ⟨[],rfl⟩
  | succ n =>
    rw [List.range_succ_eq_map,List.map_cons,List.map_cons,Nat.add_zero,ends]
    exact ⟨_,rfl⟩

-- A volume with one empty subdirectory A and one file B.
def entryOf (letter attributes : Byte) : DirEntry := fun i =>
  if i = 0 then letter else if i < 11 then blank else if i = 11 then attributes else 0#8
def subdirA : DirEntry := entryOf 0x41#8 attribSubdir
def fileB : DirEntry := entryOf 0x42#8 0#8
def smallVolume : Volume := ⟨[subdirA,fileB],fun _ => []⟩

def letterName (letter : Byte) (legal : letter ≠ nul ∧ letter ≠ slash ∧ letter ≠ dot) : Component :=
  ⟨[letter],[],⟨Nat.zero_lt_one,by simp⟩,by simp,by simpa using legal⟩
def nameA : Component := letterName 0x41#8 (by decide)
def nameB : Component := letterName 0x42#8 (by decide)
def pathB : Path := ⟨[(0,nameB)],0,by simp⟩
def pathAB : Path := ⟨[(0,nameA),(0,nameB)],0,by simp⟩
def chars (text : List Byte) : Bytes := fun i => text.getD i nul

theorem chars_stored (text : List Byte) : CString (chars text) text := by
  refine ⟨?_,?_⟩
  · intro i inside
    simp [chars,inside]
  · simp [chars]

end KaracaOS.Fat16Paths
