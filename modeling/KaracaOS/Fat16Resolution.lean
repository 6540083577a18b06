import KaracaOS.Fat16Fragments

namespace KaracaOS.Fat16Resolution
open ByteMemory Fat16Paths Fat16Fragments

def Resolves (read : FragmentLoop) (v : Volume) (p : Path) (path : Bytes) : Prop :=
  fat16FindFileEntry read v path = some (answer (resolve v p.names))

-- The directory searched for a component, and the name it is searched by.
def entriesOf (v : Volume) : Option DirEntry → List DirEntry
  | none => v.root
  | some e => under v e

def keptName (c : Component) : List Byte := padded 8 c.base++padded 3 (keptExtension c)

-- Every component the search comes to ends among the `left` bytes it is given, with
-- the slash behind it, and the name it is searched by finds what its own name finds.
def Seen (v : Volume) (trailing : Nat) : Nat → Option DirEntry → List (Nat × Component) → Prop
  | _,_,[] => True
  | left,entry,part::rest =>
    (stretch part).length+(if rest = [] ∧ trailing = 0 then 0 else 1) ≤ left ∧
    lookup (entriesOf v entry) (keptName part.2) = lookup (entriesOf v entry) part.2.name ∧
    ∀ e, lookup (entriesOf v entry) part.2.name = some e → Seen v trailing (left-(stretch part).length) (some e) rest

-- The entry the code answers with behind the last component it looks at.
def fallback (v : Volume) (name : List Byte) (f : DirEntry) : DirEntry := (lookup (under v f) name).getD f

-- When the answer is right: a missing last component goes unnoticed below the
-- root, and a blank name is looked up behind a single component or trailing slashes.
def Findable (v : Volume) (p : Path) : Prop :=
  (p.trailing = 0 → 1 < p.components.length → resolve v p.names.dropLast = none ∨ resolve v p.names ≠ none) ∧
  (p.trailing ≠ 0 ∨ p.components.length = 1 →
    ∀ f e, resolve v p.names = some f → lookup (under v f) blankName = some e → e = f)

variable {v : Volume} {fuel left : Nat} {entry : Option DirEntry} {e : DirEntry}

theorem set_bytes (fragment : Bytes) (i : Nat) (c : Byte) :
    ((List.range 12).map fragment).set i c = (List.range 12).map (store fragment i c) := by
  refine List.ext_getElem (by simp) ?_
  intro j low high
  by_cases here : j = i
  · simp [here,store]
  · have other : i ≠ j := fun same => here same.symm
    simp [here,other,store]

theorem spill_chars (legal : ∀ c ∈ text, c ≠ nul ∧ c ≠ slash) (ends : stop = slash ∨ stop = nul) (taken : i+text.length ≠ 0) (fragment : Bytes) :
    spillFragment (text++stop::rest) i ((List.range 12).map fragment) =
      some ((List.range 12).map (fragmentLoop (text++stop::rest) i fragment),decide (stop = slash),stop::rest) := by
  induction text generalizing i fragment with
  | nil =>
    rw [List.nil_append,spillFragment,fragmentLoop]
    rcases ends with rfl | rfl
    · rw [if_pos ⟨rfl,taken⟩,if_pos ⟨rfl,taken⟩,set_bytes]
      rfl
    · rw [if_neg (fun both => absurd both.1 (by decide)),if_pos rfl,if_neg (fun both => absurd both.1 (by decide)),if_pos rfl,set_bytes]
      rfl
  | cons c text ih =>
    obtain ⟨real,plain⟩ := legal c List.mem_cons_self
    rw [List.cons_append,spillFragment,fragmentLoop,if_neg (fun both => plain both.1),if_neg real,if_pos plain,
      if_neg (fun both => plain both.1),if_neg real,if_pos plain,set_bytes]
    exact ih (fun x member => legal x (List.mem_cons_of_mem _ member)) (by omega) _

theorem spill_slashes (k : Nat) (rest fragment : List Byte) :
    spillFragment (List.replicate k slash++rest) 0 fragment = spillFragment rest 0 fragment := by
  induction k with
  | zero => rfl
  | succ k ih =>
    rw [List.replicate_succ,List.cons_append,spillFragment]
    simp only [ne_eq,not_true_eq_false,and_false,if_false,show slash ≠ nul by decide,ih]

theorem pathFragment_bytes : pathFragment = (List.range 12).map (clearFragment (chars [])) := by decide

theorem spill_part (part : Nat × Component) (ends : stop = slash ∨ stop = nul) : ∃ fragment,
    spillFragment (stretch part++stop::rest) 0 pathFragment = some (fragment,decide (stop = slash),stop::rest) ∧
      fat16ConvertFilename fragment = keptName part.2 := by
  have positive := List.length_pos_of_ne_nil part.2.text_some
  have next : NextComponent part.2 (stretch part++stop::rest) := ⟨part.1+1,stop,rest,ends,rfl⟩
  refine ⟨_,?_,componentKey_kept part.2 next (chars [])⟩
  rw [stretch,List.append_assoc,spill_slashes,fragmentLoop_slashes,pathFragment_bytes]
  exact spill_chars part.2.text_legal ends (by omega) _

theorem findInDir_entries (v : Volume) (name : List Byte) (e : DirEntry) : fat16FindInDir v name e = answer (lookup (entriesOf v (some e)) name) :=
  findInDir_lookup v name e

theorem findLoop_onward (part : Nat × Component) (ends : stop = slash ∨ stop = nul) (onward : entry = none ∨ stop = slash) :
    findLoop spillFragment v (fuel+1) entry (stretch part++stop::rest) =
      match lookup (entriesOf v entry) (keptName part.2) with
      | none => some (.error .notFound)
      | some e => findLoop spillFragment v fuel (some e) (stop::rest) := by
  obtain ⟨fragment,read,key⟩ := @spill_part stop rest part ends
  rw [findLoop,read]
  dsimp only
  rw [key]
  cases entry with
  | none =>
    rw [fat16FindInRootDir,entriesOf]
    cases lookup v.root (keptName part.2) with
    | none => rfl
    | some e => rfl
  | some e =>
    have separator : stop = slash := onward.resolve_left (Option.some_ne_none e)
    dsimp only
    rw [findInDir_entries,separator]
    cases lookup (entriesOf v (some e)) (keptName part.2) with
    | none => rfl
    | some e => rfl

-- A last fragment that is missing leaves `entry` at the directory searched.
theorem findLoop_last (part : Nat × Component) :
    findLoop spillFragment v (fuel+1) (some e) (stretch part++nul::rest) = some (.ok (fallback v (keptName part.2) e)) := by
  obtain ⟨fragment,read,key⟩ := @spill_part nul rest part (.inr rfl)
  rw [findLoop,read]
  dsimp only
  rw [key,findInDir_lookup,fallback]
  cases lookup (under v e) (keptName part.2) with
  | none => rfl
  | some e => rfl

theorem findLoop_blank (slashes : Nat) :
    findLoop spillFragment v (fuel+1) (some e) (List.replicate slashes slash++nul::rest) = some (.ok (fallback v blankName e)) := by
  have read : spillFragment (nul::rest) 0 pathFragment = some (pathFragment.set 1 nul,false,nul::rest) := rfl
  rw [findLoop,spill_slashes,read]
  dsimp only
  rw [show fat16ConvertFilename (pathFragment.set 1 nul) = blankName by decide,findInDir_lookup,fallback]
  cases lookup (under v e) blankName with
  | none => rfl
  | some e => rfl

-- What is left of a path, as long as its first component is whole.
def ending (trailing : Nat) (parts : List (Nat × Component)) : List Byte := parts.flatMap stretch++List.replicate trailing slash

theorem ending_slash (more : ¬ (parts = [] ∧ trailing = 0)) : ∃ rest, ending trailing parts = slash::rest := by
  cases parts with
  | nil =>
    obtain ⟨n,rfl⟩ := Nat.exists_eq_succ_of_ne_zero (fun none => more ⟨rfl,none⟩)
    exact ⟨List.replicate n slash,by rw [ending,List.replicate_succ]; rfl⟩
  | cons part parts =>
    rw [ending,List.flatMap_cons,stretch,List.replicate_succ]
    exact ⟨_,rfl⟩

theorem ending_cut (room : (stretch part).length+(if parts = [] ∧ trailing = 0 then 0 else 1) ≤ left) (junk : List Byte) :
    ∃ stop rest, (ending trailing (part::parts)).take left++nul::junk = stretch part++stop::rest ∧
      stop::rest = (ending trailing parts).take (left-(stretch part).length)++nul::junk ∧
      stop = if parts = [] ∧ trailing = 0 then nul else slash := by
  have whole : (ending trailing (part::parts)).take left = stretch part++(ending trailing parts).take (left-(stretch part).length) := by
    rw [ending,List.flatMap_cons,List.append_assoc,List.take_append,List.take_of_length_le (by omega),ending]
  rw [whole,List.append_assoc]
  split at room
  · rename_i final
    obtain ⟨rfl,rfl⟩ := final
    exact ⟨nul,junk,by simp [ending],by simp [ending],rfl⟩
  · rename_i more
    obtain ⟨rest,begins⟩ := ending_slash more
    obtain ⟨n,some_⟩ := Nat.exists_eq_succ_of_ne_zero (show left-(stretch part).length ≠ 0 by omega)
    rw [begins,some_,if_neg more]
    exact ⟨slash,rest.take n++nul::junk,rfl,rfl,rfl⟩

-- What the search answers with below an entry.
def below (v : Volume) (trailing : Nat) : DirEntry → List (Nat × Component) → Option DirEntry
  | e,[] => some (fallback v blankName e)
  | e,part::rest =>
    if rest = [] ∧ trailing = 0 then some (fallback v part.2.name e)
    else (lookup (under v e) part.2.name).bind (fun f => below v trailing f rest)

theorem search_below (seen : Seen v trailing left (some e) parts) (enough : left < fuel) (junk : List Byte) :
    findLoop spillFragment v fuel (some e) ((ending trailing parts).take left++nul::junk) = some (answer (below v trailing e parts)) := by
  induction parts generalizing e left fuel with
  | nil =>
    obtain ⟨fuel,rfl⟩ := Nat.exists_eq_succ_of_ne_zero (Nat.ne_zero_of_lt enough)
    rw [ending,List.flatMap_nil,List.nil_append,List.take_replicate]
    exact findLoop_blank _
  | cons part parts ih =>
    obtain ⟨fuel,rfl⟩ := Nat.exists_eq_succ_of_ne_zero (Nat.ne_zero_of_lt enough)
    obtain ⟨room,same,later⟩ := seen
    obtain ⟨stop,rest,cut,left_,stops⟩ := ending_cut room junk
    have taken : 0 < (stretch part).length := by simp [stretch]
    rw [cut,below]
    split
    · rename_i final
      rw [if_pos final] at stops
      rw [stops,findLoop_last,fallback]
      rw [entriesOf] at same
      rw [same]
      rfl
    · rename_i more
      rw [if_neg more] at stops
      rw [findLoop_onward part (.inl stops) (.inr stops),same,entriesOf]
      rw [entriesOf] at later
      cases found : lookup (under v e) part.2.name with
      | none => rfl
      | some f =>
        dsimp only
        rw [left_,ih (later f found) (by omega)]
        rfl

theorem search_root (part : Nat × Component) (parts : List (Nat × Component)) (seen : Seen v trailing left none (part::parts))
    (enough : left < fuel) (junk : List Byte) :
    findLoop spillFragment v (fuel+1) none ((ending trailing (part::parts)).take left++nul::junk) =
      some (answer ((lookup v.root part.2.name).bind (fun e => below v trailing e parts))) := by
  obtain ⟨room,same,later⟩ := seen
  obtain ⟨stop,rest,cut,left_,stops⟩ := ending_cut room junk
  have ends : stop = slash ∨ stop = nul := by
    rw [stops]
    split
    · exact .inr rfl
    · exact .inl rfl
  rw [cut,findLoop_onward part ends (.inl rfl),same,entriesOf]
  cases found : lookup v.root part.2.name with
  | none => rfl
  | some e =>
    dsimp only
    rw [left_,search_below (later e found) (by omega)]
    rfl

theorem descend_cons (v : Volume) (e : DirEntry) (c : Component) (rest : List Component) :
    descend v e (c::rest) = (lookup (under v e) c.name).bind (fun f => descend v f rest) := rfl

theorem below_trailing (some_ : trailing ≠ 0) (e : DirEntry) (parts : List (Nat × Component)) :
    below v trailing e parts = (descend v e (parts.map Prod.snd)).map (fallback v blankName) := by
  induction parts generalizing e with
  | nil => rfl
  | cons part parts ih =>
    rw [below,if_neg (fun both => some_ both.2),List.map_cons,descend_cons]
    cases lookup (under v e) part.2.name with
    | none => rfl
    | some f => exact ih f

theorem below_last (e : DirEntry) (parts : List (Nat × Component)) (last : Nat × Component) :
    below v 0 e (parts++[last]) = (descend v e (parts.map Prod.snd)).map (fallback v last.2.name) := by
  induction parts generalizing e with
  | nil => exact if_pos ⟨rfl,rfl⟩
  | cons part parts ih =>
    rw [List.cons_append,below,if_neg (by simp),List.map_cons,descend_cons]
    cases lookup (under v e) part.2.name with
    | none => rfl
    | some f => exact ih f

theorem below_root (v : Volume) (c : Component) (reaches : ∀ e, below v trailing e parts = (descend v e names).map (fallback v name)) :
    (lookup v.root c.name).bind (fun e => below v trailing e parts) = (resolve v (c::names)).map (fallback v name) := by
  rw [resolve]
  cases lookup v.root c.name with
  | none => rfl
  | some e => exact reaches e

theorem fallback_same (o : Option DirEntry) : o.map (fallback v name) = o ↔
    ∀ f e, o = some f → lookup (under v f) name = some e → e = f := by
  cases o with
  | none => simp
  | some f =>
    rw [Option.map_some,Option.some.injEq,fallback]
    constructor
    · intro kept g e same looked
      cases Option.some.inj same
      rw [looked] at kept
      exact kept
    · intro only
      cases looked : lookup (under v f) name with
      | none => rfl
      | some e => exact only f e rfl looked

theorem resolve_snoc (v : Volume) (some_ : init ≠ []) (last : Component) :
    resolve v (init++[last]) = (resolve v init).bind (fun f => lookup (under v f) last.name) := by
  cases init with
  | nil => exact absurd rfl some_
  | cons c rest =>
    rw [List.cons_append,resolve,resolve,Option.bind_assoc]
    congr 1
    funext e
    rw [descend,List.foldlM_append]
    show (descend v e rest).bind _ = _
    congr 1
    funext f
    simp

theorem fallback_found (v : Volume) (some_ : init ≠ []) (last : Component) :
    (resolve v init).map (fallback v last.name) = resolve v (init++[last]) ↔ resolve v init = none ∨ resolve v (init++[last]) ≠ none := by
  rw [resolve_snoc v some_]
  cases resolve v init with
  | none => simp
  | some f =>
    rw [Option.map_some,Option.bind_some,fallback]
    cases lookup (under v f) last.name with
    | none => simp
    | some e => simp

theorem Path.real (p : Path) : nul ∉ p.text := by
  intro member
  rcases List.mem_append.mp member with inside | behind
  · obtain ⟨part,_,inside⟩ := List.mem_flatMap.mp inside
    rcases List.mem_append.mp inside with slashes | text
    · exact absurd (List.mem_replicate.mp slashes).2 (by decide)
    · exact (part.2.text_legal nul text).1 rfl
  · exact absurd (List.mem_replicate.mp behind).2 (by decide)

theorem seen_iff (p : Path) (stored : CString path p.text) (seen : Seen v p.trailing 1023 none p.components) :
    Resolves spillFragment v p path ↔ Findable v p := by
  obtain ⟨junk,copied⟩ := kaosStrncpy_copy stored (Path.real p)
  obtain ⟨components,trailing,some_⟩ := p
  obtain ⟨part,parts,rfl⟩ := List.exists_cons_of_ne_nil some_
  have searched : fat16FindFileEntry spillFragment v path =
      some (answer ((lookup v.root part.2.name).bind (fun e => below v trailing e parts))) := by
    rw [fat16FindFileEntry,copied]
    exact search_root part parts seen (show 1023 < 1025 by decide) junk
  unfold Resolves Findable
  rw [searched,Option.some.injEq,answer_inj,Path.names]
  dsimp only
  cases trailing with
  | succ slashes =>
    rw [List.map_cons,below_root v part.2 (fun e => below_trailing (Nat.succ_ne_zero slashes) e parts),fallback_same]
    simp
  | zero =>
    rcases List.eq_nil_or_concat' parts with rfl | ⟨inner,last,rfl⟩
    · have behind : ∀ e, below v 0 e [] = (descend v e []).map (fallback v blankName) := fun _ => rfl
      rw [List.map_singleton,below_root v part.2 behind,fallback_same]
      simp
    · have names : List.map Prod.snd (part::(inner++[last])) = part.2::List.map Prod.snd inner++[last.2] := by simp
      rw [names,below_root v part.2 (fun e => below_last e inner last),fallback_found v (by simp),List.dropLast_concat]
      simp

theorem read_of_spill (spilled : spillFragment pathCopy i fragment = some found) (inside : Inside (fragmentWrites pathCopy i)) :
    readFragment pathCopy i fragment = some found := by
  induction pathCopy generalizing i fragment with
  | nil => cases spilled
  | cons c rest ih =>
    rw [spillFragment] at spilled
    rw [fragmentWrites] at inside
    rw [readFragment]
    split at spilled
    · rename_i separator
      rw [if_pos separator] at inside ⊢
      have last := inside (i+1) List.mem_cons_self
      rw [if_pos (by omega)]
      exact spilled
    · rename_i other
      rw [if_neg other] at inside ⊢
      split at spilled
      · rename_i final
        rw [if_pos final] at inside ⊢
        have last := inside (i+1) List.mem_cons_self
        rw [if_pos (by omega)]
        exact spilled
      · rename_i more
        rw [if_neg more] at inside ⊢
        split at spilled
        · rename_i char
          rw [if_pos char] at inside ⊢
          obtain ⟨first,later⟩ := List.forall_mem_cons.mp inside
          rw [if_pos (by omega)]
          exact ih spilled later
        · rename_i char
          rw [if_neg char] at inside ⊢
          exact ih spilled inside

theorem findLoop_inside_iff : findLoop readFragment v fuel entry pathCopy = some found ↔
    findLoop spillFragment v fuel entry pathCopy = some found ∧ Inside (findWrites v fuel entry pathCopy) := by
  induction fuel generalizing entry pathCopy with
  | zero => simp [findLoop]
  | succ fuel ih =>
    rw [findLoop,findLoop,findWrites,inside_append,roundWrites_inside]
    cases read : readFragment pathCopy 0 pathFragment with
    | none =>
      refine iff_of_false (fun absurdly => by cases absurdly) ?_
      rintro ⟨spilled,inside,_⟩
      cases made : spillFragment pathCopy 0 pathFragment with
      | none =>
        rw [made] at spilled
        cases spilled
      | some round =>
        have again := read_of_spill made inside
        rw [read] at again
        cases again
    | some round =>
      obtain ⟨fragment,isSubdir,rest⟩ := round
      rw [spill_of_read read,and_iff_right (readFragment_inside (Nat.zero_le 12) read)]
      dsimp only
      cases entry with
      | none =>
        cases fat16FindInRootDir v (fat16ConvertFilename fragment) with
        | error ret => simp [Inside]
        | ok e => exact ih
      | some d =>
        dsimp only
        cases fat16FindInDir v (fat16ConvertFilename fragment) d with
        | error ret => simp [Inside]
        | ok e =>
          dsimp only
          split
          · exact ih
          · simp [Inside]

-- With a write behind path_fragment counted as a failure, and with it made; of the
-- second the answer is right exactly when the path is findable, as far as it is seen.
theorem find_file_entry_iff (v : Volume) (p : Path) (path : Bytes) (stored : CString path p.text) :
    (Resolves readFragment v p path ↔ Resolves spillFragment v p path ∧ ShortOnTheWay v none (componentsOf (p.text.take 1023))) ∧
    (Seen v p.trailing 1023 none p.components → (Resolves spillFragment v p path ↔ Findable v p)) := by
  refine ⟨?_,seen_iff p stored⟩
  have real := Path.real p
  obtain ⟨junk,copied⟩ := kaosStrncpy_copy stored real
  rw [Resolves,Resolves,fat16FindFileEntry,fat16FindFileEntry,copied,findLoop_inside_iff]
  apply and_congr_right
  intro _
  exact findWrites_iff v 1026 none (fun member => real (List.mem_of_mem_take member)) (by rw [List.length_take]; omega)

theorem find_file_entry_pathB : CString (chars pathB.text) pathB.text ∧ resolve smallVolume pathB.names = some fileB ∧
    Resolves readFragment smallVolume pathB (chars pathB.text) := by
  have stored := chars_stored pathB.text
  have found : resolve smallVolume pathB.names = some fileB := by decide
  obtain ⟨inside,right⟩ := find_file_entry_iff smallVolume pathB _ stored
  refine ⟨stored,found,inside.mpr ⟨(right ?_).mpr ⟨?_,?_⟩,?_⟩⟩
  · exact ⟨by decide,rfl,fun _ _ => trivial⟩
  · intro _ many
    exact absurd many (by decide)
  · intro _ f e reached
    rw [found] at reached
    cases Option.some.inj reached
    intro looked
    exact absurd looked (by simp [lookup,under,show fileB.isSubdir = false by decide])
  · have components : componentsOf (pathB.text.take 1023) = [[0x42#8]] := by decide
    rw [components]
    exact ⟨by decide,fun _ _ => trivial⟩

-- /A/B is answered with the entry of A.
theorem missing_file_found : CString (chars pathAB.text) pathAB.text ∧ resolve smallVolume pathAB.names = none ∧
    fat16FindFileEntry readFragment smallVolume (chars pathAB.text) = some (.ok subdirA) ∧
      ¬ Resolves readFragment smallVolume pathAB (chars pathAB.text) ∧ ¬ Resolves spillFragment smallVolume pathAB (chars pathAB.text) := by
  have answered : fat16FindFileEntry readFragment smallVolume (chars pathAB.text) = some (.ok subdirA) := by
    decide +kernel
  have spilled : fat16FindFileEntry spillFragment smallVolume (chars pathAB.text) = some (.ok subdirA) := by
    decide +kernel
  have missing : resolve smallVolume pathAB.names = none := by decide
  refine ⟨chars_stored _,missing,answered,?_,?_⟩
  · intro right
    rw [Resolves,answered,missing] at right
    cases Option.some.inj right
  · intro right
    rw [Resolves,spilled,missing] at right
    cases Option.some.inj right

end KaracaOS.Fat16Resolution
