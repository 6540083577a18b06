import KaracaOS.Fat16Paths

namespace KaracaOS.Fat16Fragments
open ByteMemory Fat16Paths

-- path_fragment and what lies behind it: a character or a terminator that does not
-- fit lands there, in bytes that the loops do not look at.
def clearFragment (memory : Bytes) : Bytes := store (fill memory 0 12 blank) 11 nul

def fragmentLoop : List Byte → Nat → Bytes → Bytes
  | [],_,fragment => fragment
  | c::rest,i,fragment =>
    if c = slash ∧ i ≠ 0 then store fragment (i+1) nul
    else if c = nul then store fragment (i+1) nul
    else if c ≠ slash then fragmentLoop rest (i+1) (store fragment i c)
    else fragmentLoop rest i fragment

-- fat16_convert_filename reads eleven bytes at most.
def componentKey (memory : Bytes) (pathCopy : List Byte) : List Byte :=
  fat16ConvertFilename ((List.range 12).map (fragmentLoop pathCopy 0 (clearFragment memory)))

-- path_copy_ptr in front of a component, at any place of the path.
def NextComponent (c : Component) (pathCopy : List Byte) : Prop :=
  ∃ slashes stop rest, (stop = slash ∨ stop = nul) ∧ pathCopy = List.replicate slashes slash++c.text++stop::rest

def Fits (c : Component) : Prop := c.extension ≠ [] → c.base.length < 8
def Spaceless (c : Component) : Prop := blank ∉ c.base ∧ blank ∉ c.extension

theorem fragmentLoop_slashes (k : Nat) (rest : List Byte) (fragment : Bytes) :
    fragmentLoop (List.replicate k slash++rest) 0 fragment = fragmentLoop rest 0 fragment := by
  induction k with
  | zero => rfl
  | succ k ih =>
    rw [List.replicate_succ,List.cons_append,fragmentLoop]
    simp only [ne_eq,not_true_eq_false,and_false,if_false,show slash ≠ nul by decide,ih]

theorem fragmentLoop_chars (legal : ∀ c ∈ text, c ≠ nul ∧ c ≠ slash) (i : Nat) (fragment : Bytes) :
    fragmentLoop (text++rest) i fragment = fragmentLoop rest (i+text.length) (blit fragment i (chars text) 0 text.length) := by
  induction text generalizing i fragment with
  | nil =>
    have same : blit fragment i (chars []) 0 0 = fragment := by
      funext j
      exact blit_outside (by omega)
    rw [List.nil_append,List.length_nil,same]
    rfl
  | cons c text ih =>
    obtain ⟨real,plain⟩ := legal c List.mem_cons_self
    have written : blit (store fragment i c) (i+1) (chars text) 0 text.length = blit fragment i (chars (c::text)) 0 (c::text).length := by
      funext j
      rw [List.length_cons]
      rcases Nat.lt_trichotomy j i with before | rfl | behind
      · rw [blit_outside (by omega),blit_outside (by omega),store_other _ (by omega)]
      · rw [blit_outside (by omega),blit_inside (by omega) (by omega),store_same]
        simp [chars]
      · by_cases inside : j < i+1+text.length
        · rw [blit_inside (by omega) inside,blit_inside (by omega) (by omega),show 0+(j-i) = 0+(j-(i+1))+1 by omega]
          simp [chars]
        · rw [blit_outside (by omega),blit_outside (by omega),store_other _ (by omega)]
    rw [List.cons_append,fragmentLoop,if_neg (fun both => plain both.1),if_neg real,if_pos plain,
      ih (fun x member => legal x (List.mem_cons_of_mem _ member)),written,List.length_cons,Nat.add_assoc i,Nat.add_comm 1]

theorem fragmentLoop_text (some_ : text ≠ []) (legal : ∀ c ∈ text, c ≠ nul ∧ c ≠ slash) (k : Nat) (ends : stop = slash ∨ stop = nul)
    (fragment : Bytes) : fragmentLoop (List.replicate k slash++text++stop::rest) 0 fragment =
      store (blit fragment 0 (chars text) 0 text.length) (text.length+1) nul := by
  have positive : text.length ≠ 0 := by simpa using some_
  rw [List.append_assoc,fragmentLoop_slashes,fragmentLoop_chars legal,Nat.zero_add,fragmentLoop]
  rcases ends with rfl | rfl
  · rw [if_pos ⟨rfl,positive⟩]
  · rw [if_neg (fun both => absurd both.1 (by decide)),if_pos rfl]

theorem fragmentTail_length (n : Nat) : (fragmentTail n).length = 12-n := by
  simp [fragmentTail,pathFragment]

theorem fragment_bytes (memory : Bytes) (short : text.length ≤ 12) :
    (List.range 12).map (store (blit (clearFragment memory) 0 (chars text) 0 text.length) (text.length+1) nul) =
      text++fragmentTail text.length := by
  refine List.ext_getElem (by rw [List.length_append,fragmentTail_length]; simp; omega) ?_
  intro j low high
  rw [List.getElem_map,List.getElem_range]
  rw [List.length_map,List.length_range] at low
  by_cases inside : j < text.length
  · rw [store_other _ (by omega),blit_inside (by omega) (by omega),List.getElem_append_left inside]
    simp [chars,inside]
  · rw [List.getElem_append_right (by omega)]
    simp only [fragmentTail,pathFragment,List.getElem_set,List.getElem_drop,List.getElem_replicate]
    by_cases terminator : j = text.length+1
    · rw [terminator,store_same,if_pos (by omega)]
    · rw [store_other _ terminator,blit_outside (by omega),if_neg (by omega),clearFragment]
      by_cases final : j = 11
      · rw [final,store_same,if_pos (by omega)]
      · rw [store_other _ final,fill_inside (by omega) (by omega),if_neg (by omega)]

-- What the code makes of a component: the extension is lost behind a full base.
def keptExtension (c : Component) : List Byte := if c.base.length < 8 then c.extension else []

theorem convert_full (c : Component) (full : c.base.length = 8) : fat16ConvertFilename (c.text++tail) = padded 8 c.base++padded 3 [] := by
  have base : ∀ x ∈ c.base, x ≠ dot ∧ x ≠ nul := fun x member =>
    ⟨(c.legal x (List.mem_append_left _ member)).2.2,(c.legal x (List.mem_append_left _ member)).1⟩
  have begins : ∃ rest, c.text++tail = c.base++rest := by
    unfold Component.text
    split
    · exact ⟨tail,rfl⟩
    · exact ⟨dot::c.extension++tail,List.append_assoc _ _ _⟩
  obtain ⟨rest,begins⟩ := begins
  have loop := @nameLoop_chars c.base 0 rest base
  rw [Nat.add_zero,full] at loop
  rw [fat16ConvertFilename,begins,loop,show nameLoop 0 rest = ([],none) from rfl,List.append_nil]

theorem convert_kept (c : Component) :
    fat16ConvertFilename (c.text++fragmentTail c.text.length) = padded 8 c.base++padded 3 (keptExtension c) := by
  unfold keptExtension
  split
  · rename_i small
    exact convert_fits c (fun _ => small)
  · rename_i large
    exact convert_full c (by have most := c.baseLength.2; omega)

theorem componentKey_kept (c : Component) (next : NextComponent c pathCopy) (memory : Bytes) :
    componentKey memory pathCopy = padded 8 c.base++padded 3 (keptExtension c) := by
  obtain ⟨slashes,stop,rest,ends,rfl⟩ := next
  rw [componentKey,fragmentLoop_text c.text_some c.text_legal slashes ends,fragment_bytes memory c.text_short,convert_kept]

theorem padded_length (short : text.length ≤ width) : (padded width text).length = width := by
  simp [padded]
  omega

theorem padded_chars (spaceless : blank ∉ text) : (padded width text).filter (· != blank) = text := by
  rw [padded,List.filter_append,List.filter_eq_self.mpr,List.filter_eq_nil_iff.mpr,List.append_nil]
  · intro c member
    rw [(List.mem_replicate.mp member).2]
    simp
  · intro c member
    have other : c ≠ blank := fun same => spaceless (same ▸ member)
    simpa using other

theorem keptExtension_spaceless (c : Component) (spaceless : Spaceless c) : blank ∉ keptExtension c := by
  unfold keptExtension
  split
  · exact spaceless.2
  · exact List.not_mem_nil

theorem padded_inj (left : Spaceless c) (right : Spaceless d) :
    padded 8 c.base++padded 3 (keptExtension c) = padded 8 d.base++padded 3 (keptExtension d) ↔
      c.base = d.base ∧ keptExtension c = keptExtension d := by
  constructor
  · intro same
    obtain ⟨bases,extensions⟩ := List.append_inj same
      (by rw [padded_length c.baseLength.2,padded_length d.baseLength.2])
    have bases := congrArg (List.filter (· != blank)) bases
    have extensions := congrArg (List.filter (· != blank)) extensions
    rw [padded_chars left.1,padded_chars right.1] at bases
    rw [padded_chars (keptExtension_spaceless c left),padded_chars (keptExtension_spaceless d right)] at extensions
    exact ⟨bases,extensions⟩
  · rintro ⟨bases,extensions⟩
    rw [bases,extensions]

theorem kept_name (spaceless : Spaceless c) : padded 8 c.base++padded 3 (keptExtension c) = c.name ↔ Fits c := by
  unfold Fits keptExtension
  split
  · rename_i small
    exact iff_of_true rfl (fun _ => small)
  · rename_i large
    constructor
    · intro same some_
      have extensions := congrArg (List.filter (· != blank)) (List.append_cancel_left same)
      rw [padded_chars List.not_mem_nil,padded_chars spaceless.2] at extensions
      exact absurd extensions.symm some_
    · intro fits
      have bare : c.extension = [] := by
        by_contra some_
        exact large (fits some_)
      rw [Component.name,bare]

-- A terminator behind index 11 is a write outside.
theorem readFragment_chars_overrun (legal : ∀ c ∈ text, c ≠ nul ∧ c ≠ slash) (ends : stop = slash ∨ stop = nul)
    (long : 11 ≤ i+text.length) (fragment : List Byte) : readFragment (text++stop::rest) i fragment = none := by
  induction text generalizing i fragment with
  | nil =>
    rw [List.length_nil] at long
    rw [List.nil_append,readFragment]
    rcases ends with rfl | rfl
    · rw [if_pos ⟨rfl,by omega⟩,if_neg (by omega)]
    · rw [if_neg (fun both => absurd both.1 (by decide)),if_pos rfl,if_neg (by omega)]
  | cons c text ih =>
    obtain ⟨real,plain⟩ := legal c List.mem_cons_self
    rw [List.length_cons] at long
    rw [List.cons_append,readFragment,if_neg (fun both => plain both.1),if_neg real,if_pos plain]
    split
    · exact ih (fun x member => legal x (List.mem_cons_of_mem _ member)) (by omega) _
    · rfl

-- The key with every write inside path_fragment.
def SafeKey (c : Component) (pathCopy : List Byte) : Prop :=
  ∃ fragment isSubdir rest, readFragment pathCopy 0 pathFragment = some (fragment,isSubdir,rest) ∧ fat16ConvertFilename fragment = c.name

theorem safeKey_iff (spaceless : Spaceless c) (next : NextComponent c pathCopy) : SafeKey c pathCopy ↔ c.Plain := by
  obtain ⟨slashes,stop,rest,ends,rfl⟩ := next
  by_cases short : c.text.length ≤ 10
  · have read := @readFragment_text c.text stop rest c.text_some short c.text_legal slashes ends
    constructor
    · rintro ⟨fragment,isSubdir,left,ran,key⟩
      rw [read] at ran
      cases Option.some.inj ran
      exact ⟨short,(kept_name spaceless).mp ((convert_kept c).symm.trans key)⟩
    · intro plain
      exact ⟨_,_,_,read,(convert_kept c).trans ((kept_name spaceless).mpr plain.2)⟩
  · refine iff_of_false ?_ (fun plain => short plain.1)
    rintro ⟨fragment,isSubdir,left,ran,_⟩
    rw [List.append_assoc,readFragment_slashes,readFragment_chars_overrun c.text_legal ends (by omega)] at ran
    cases ran

theorem component_key_iff (spaceless : Spaceless c) (next : NextComponent c pathCopy) (memory : Bytes) :
    (componentKey memory pathCopy = c.name ↔ Fits c) ∧
    (SafeKey c pathCopy ↔ c.Plain) ∧
    ∀ d : Component, Spaceless d → ∀ other, NextComponent d other → ∀ behind,
      ((componentKey memory pathCopy = componentKey behind other → c.base = d.base ∧ c.extension = d.extension) ↔
        (c.base = d.base → c.base.length = 8 → c.extension = d.extension)) := by
  refine ⟨?_,safeKey_iff spaceless next,?_⟩
  · rw [componentKey_kept c next]
    exact kept_name spaceless
  · intro d also other following behind
    rw [componentKey_kept c next,componentKey_kept d following,padded_inj spaceless also]
    constructor
    · intro distinct same full
      have dropped : keptExtension c = keptExtension d := by
        rw [keptExtension,keptExtension,if_neg (by omega),if_neg (by rw [← same]; omega)]
      exact (distinct ⟨same,dropped⟩).2
    · rintro distinct ⟨same,kept⟩
      refine ⟨same,?_⟩
      by_cases small : c.base.length < 8
      · rwa [keptExtension,keptExtension,if_pos small,if_pos (same ▸ small)] at kept
      · exact distinct same (by have most := c.baseLength.2; omega)

def letterA : Byte := 0x41#8
def dotted (base : List Byte) (extension : Byte) (small : 0 < base.length ∧ base.length ≤ 8)
    (legal : ∀ c ∈ base++[extension], c ≠ nul ∧ c ≠ slash ∧ c ≠ dot) : Component :=
  ⟨base,[extension],small,by simp,legal⟩

-- A.B, AAAAAAAA.B and AAAAAAAA.C
def shortB : Component := dotted [letterA] 0x42#8 (by decide) (by decide)
def longB : Component := dotted (List.replicate 8 letterA) 0x42#8 (by decide) (by decide)
def longC : Component := dotted (List.replicate 8 letterA) 0x43#8 (by decide) (by decide)

def alone (c : Component) : List Byte := slash::c.text++[nul]
theorem alone_next (c : Component) : NextComponent c (alone c) := ⟨1,nul,[],.inr rfl,rfl⟩

theorem short_key : Spaceless shortB ∧ NextComponent shortB (alone shortB) ∧ componentKey (chars []) (alone shortB) = shortB.name := by
  have spaceless : Spaceless shortB := ⟨by decide,by decide⟩
  have next := alone_next shortB
  exact ⟨spaceless,next,(component_key_iff spaceless next (chars [])).1.mpr (fun _ => by decide)⟩

theorem long_names_collide : (Spaceless longB ∧ NextComponent longB (alone longB)) ∧ (Spaceless longC ∧ NextComponent longC (alone longC)) ∧
    longB.extension ≠ longC.extension ∧ componentKey (chars []) (alone longB) ≠ longB.name ∧
      componentKey (chars []) (alone longB) = componentKey (chars []) (alone longC) :=
  ⟨⟨⟨by decide,by decide⟩,alone_next longB⟩,⟨⟨by decide,by decide⟩,alone_next longC⟩,by decide,by decide,by decide⟩

-- The indices that one round writes: kaos_memset, the terminator behind the array,
-- then the inner loop.
def fragmentWrites : List Byte → Nat → List Nat
  | [],_ => []
  | c::rest,i =>
    if c = slash ∧ i ≠ 0 then [i+1]
    else if c = nul then [i+1]
    else if c ≠ slash then i::fragmentWrites rest (i+1)
    else fragmentWrites rest i

def roundWrites (pathCopy : List Byte) : List Nat := List.range 12++[11]++fragmentWrites pathCopy 0

-- findLoop with the indices of its writes; behind a write outside nothing is followed.
def findWrites (v : Volume) : Nat → Option DirEntry → List Byte → List Nat
  | 0,_,_ => []
  | fuel+1,entry,pathCopy =>
    roundWrites pathCopy ++
    match readFragment pathCopy 0 pathFragment with
    | none => []
    | some (fragment,isSubdir,pathCopy) =>
      let cmpFilename := fat16ConvertFilename fragment
      match entry with
      | none =>
        match fat16FindInRootDir v cmpFilename with
        | .error _ => []
        | .ok entry => findWrites v fuel (some entry) pathCopy
      | some entry =>
        match fat16FindInDir v cmpFilename entry with
        | .ok entry => if isSubdir then findWrites v fuel (some entry) pathCopy else []
        | .error _ => []

def Inside (writes : List Nat) : Prop := ∀ i ∈ writes, i ≤ 11

theorem inside_append : Inside (first++second) ↔ Inside first ∧ Inside second := List.forall_mem_append

-- As many rounds as in fat16FindFileEntry.
def WritesInside (v : Volume) (path : Bytes) : Prop := Inside (findWrites v 1026 none (kaosStrncpy path 1024))

theorem readFragment_inside (room : i ≤ 12) (read : readFragment pathCopy i fragment = some found) : Inside (fragmentWrites pathCopy i) := by
  induction pathCopy generalizing i fragment with
  | nil => cases read
  | cons c rest ih =>
    rw [readFragment] at read
    rw [fragmentWrites]
    have last : i+1 < 12 → Inside [i+1] := by
      intro fits j member
      rw [List.mem_singleton.mp member]
      omega
    split at read
    · rename_i separator
      rw [if_pos separator]
      split at read
      · exact last (by assumption)
      · cases read
    · rename_i other
      rw [if_neg other]
      split at read
      · rename_i final
        rw [if_pos final]
        split at read
        · exact last (by assumption)
        · cases read
      · rename_i more
        rw [if_neg more]
        split at read
        · rename_i char
          rw [if_pos char]
          split at read
          · rename_i fits
            exact List.forall_mem_cons.mpr ⟨by omega,ih fits read⟩
          · cases read
        · rename_i char
          rw [if_neg char]
          exact ih room read

theorem roundWrites_inside : Inside (roundWrites pathCopy) ↔ Inside (fragmentWrites pathCopy 0) := by
  have cleared : Inside (List.range 12++[11]) := by
    unfold Inside
    decide
  rw [roundWrites,inside_append]
  exact and_iff_right cleared

-- The components of a path: what stands between its slashes.
def componentsOf (text : List Byte) : List (List Byte) := (text.splitOn slash).filter (· != [])

theorem components_slash (text : List Byte) : componentsOf (slash::text) = componentsOf text := by
  rw [componentsOf,← List.nil_append (slash::text),List.splitOn_append_cons_self_of_not_mem List.not_mem_nil]
  rfl

theorem components_slashes (k : Nat) (text : List Byte) : componentsOf (List.replicate k slash++text) = componentsOf text := by
  induction k with
  | zero => rfl
  | succ k ih => rw [List.replicate_succ,List.cons_append,components_slash,ih]

theorem components_piece (some_ : piece ≠ []) (whole : slash ∉ piece) (ends : after = [] ∨ ∃ more, after = slash::more) :
    componentsOf (piece++after) = piece::componentsOf after := by
  have kept : ([piece].filter (· != []) : List (List Byte)) = [piece] := by simpa using some_
  rcases ends with rfl | ⟨more,rfl⟩
  · rw [List.append_nil,componentsOf,List.splitOn_eq_singleton whole,kept]
    rfl
  · rw [components_slash,componentsOf,List.splitOn_append_cons_self_of_not_mem whole,← List.singleton_append,List.filter_append,kept]
    rfl

theorem path_cases (text : List Byte) : (∃ k, text = List.replicate k slash) ∨
    ∃ k piece after, text = List.replicate k slash++piece++after ∧ piece ≠ [] ∧ slash ∉ piece ∧ (after = [] ∨ ∃ more, after = slash::more) := by
  induction text with
  | nil => exact .inl ⟨0,rfl⟩
  | cons c text ih =>
    by_cases separator : c = slash
    · rcases ih with ⟨k,rfl⟩ | ⟨k,piece,after,rfl,rest⟩
      · exact .inl ⟨k+1,by rw [separator,List.replicate_succ]⟩
      · exact .inr ⟨k+1,piece,after,by rw [separator,List.replicate_succ,List.cons_append,List.cons_append],rest⟩
    · refine .inr ⟨0,c::text.takeWhile (· != slash),text.dropWhile (· != slash),?_,List.cons_ne_nil _ _,?_,?_⟩
      · rw [List.replicate_zero,List.nil_append,List.cons_append,List.takeWhile_append_dropWhile]
      · intro member
        rcases List.mem_cons.mp member with same | inside
        · exact separator same.symm
        · simpa using List.mem_takeWhile_imp inside
      · cases left : text.dropWhile (· != slash) with
        | nil => exact .inl rfl
        | cons d more =>
          have stopped := List.head?_dropWhile_not (· != slash) text
          rw [left] at stopped
          exact .inr ⟨more,by rw [show d = slash by simpa using stopped]⟩

-- What the two searches answer, from the root directory or from an entry on.
def searched (v : Volume) : Option DirEntry → List Byte → Except SysRet DirEntry
  | none,name => fat16FindInRootDir v name
  | some e,name => fat16FindInDir v name e

def keyOf (piece : List Byte) : List Byte := fat16ConvertFilename (piece++fragmentTail piece.length)

-- The search comes to no component of more than ten characters.
def ShortOnTheWay (v : Volume) : Option DirEntry → List (List Byte) → Prop
  | _,[] => True
  | entry,piece::rest => piece.length ≤ 10 ∧ ∀ e, searched v entry (keyOf piece) = .ok e → ShortOnTheWay v (some e) rest

theorem fragmentWrites_slashes (k : Nat) (rest : List Byte) : fragmentWrites (List.replicate k slash++rest) 0 = fragmentWrites rest 0 := by
  induction k with
  | zero => rfl
  | succ k ih =>
    rw [List.replicate_succ,List.cons_append,fragmentWrites]
    simp only [ne_eq,not_true_eq_false,and_false,if_false,show slash ≠ nul by decide,ih]

theorem fragmentWrites_chars (legal : ∀ c ∈ text, c ≠ nul ∧ c ≠ slash) (i : Nat) :
    fragmentWrites (text++rest) i = (List.range' i text.length)++fragmentWrites rest (i+text.length) := by
  induction text generalizing i with
  | nil => rfl
  | cons c text ih =>
    obtain ⟨real,plain⟩ := legal c List.mem_cons_self
    rw [List.cons_append,fragmentWrites,if_neg (fun both => plain both.1),if_neg real,if_pos plain,
      ih (fun x member => legal x (List.mem_cons_of_mem _ member)),List.length_cons,List.range'_succ,List.cons_append,
      Nat.add_assoc,Nat.add_comm 1]

theorem fragmentWrites_piece (some_ : piece ≠ []) (legal : ∀ c ∈ piece, c ≠ nul ∧ c ≠ slash) (k : Nat) (ends : stop = slash ∨ stop = nul) :
    Inside (fragmentWrites (List.replicate k slash++piece++stop::rest) 0) ↔ piece.length ≤ 10 := by
  have positive : piece.length ≠ 0 := by simpa using some_
  have last : fragmentWrites (stop::rest) piece.length = [piece.length+1] := by
    rw [fragmentWrites]
    rcases ends with rfl | rfl
    · rw [if_pos ⟨rfl,positive⟩]
    · rw [if_neg (fun both => absurd both.1 (by decide)),if_pos rfl]
  rw [List.append_assoc,fragmentWrites_slashes,fragmentWrites_chars legal,Nat.zero_add,last,inside_append]
  constructor
  · rintro ⟨_,terminator⟩
    have written := terminator (piece.length+1) (List.mem_singleton.mpr rfl)
    omega
  · intro short
    constructor
    · intro i member
      have bounds := List.mem_range'_1.mp member
      omega
    · intro i member
      rw [List.mem_singleton.mp member]
      omega

-- Behind the last component: an empty fragment, whose terminator goes to index 1.
theorem findWrites_end (v : Volume) (fuel : Nat) (entry : Option DirEntry) (k : Nat) (rest : List Byte) :
    Inside (findWrites v fuel entry (List.replicate k slash++nul::rest)) := by
  have read : ∀ k, readFragment (List.replicate k slash++nul::rest) 0 pathFragment = some (pathFragment.set 1 nul,false,nul::rest) := by
    intro k
    rw [readFragment_slashes]
    rfl
  have first : ∀ k, Inside (roundWrites (List.replicate k slash++nul::rest)) := fun k =>
    roundWrites_inside.mpr (readFragment_inside (Nat.zero_le 12) (read k))
  have below : ∀ fuel e k, Inside (findWrites v fuel (some e) (List.replicate k slash++nul::rest)) := by
    intro fuel e k
    cases fuel with
    | zero => exact List.forall_mem_nil _
    | succ fuel =>
      rw [findWrites,inside_append,read k]
      refine ⟨first k,?_⟩
      dsimp only
      split <;> exact List.forall_mem_nil _
  cases entry with
  | some e => exact below fuel e k
  | none =>
    cases fuel with
    | zero => exact List.forall_mem_nil _
    | succ fuel =>
      rw [findWrites,inside_append,read k]
      refine ⟨first k,?_⟩
      dsimp only
      split
      · exact List.forall_mem_nil _
      · exact below fuel _ 0

theorem findWrites_piece (v : Volume) (fuel : Nat) (entry : Option DirEntry) (some_ : piece ≠ []) (legal : ∀ c ∈ piece, c ≠ nul ∧ c ≠ slash)
    (short : piece.length ≤ 10) (k : Nat) (ends : stop = slash ∨ stop = nul) :
    Inside (findWrites v (fuel+1) entry (List.replicate k slash++piece++stop::rest)) ↔
      ∀ e, searched v entry (keyOf piece) = .ok e → (stop = slash ∨ entry = none) → Inside (findWrites v fuel (some e) (stop::rest)) := by
  rw [findWrites,inside_append,roundWrites_inside,readFragment_text some_ short legal k ends]
  rw [and_iff_right ((fragmentWrites_piece some_ legal k ends).mpr short)]
  dsimp only
  rw [← keyOf]
  cases entry with
  | none =>
    rw [searched]
    cases fat16FindInRootDir v (keyOf piece) with
    | error ret => exact iff_of_true (List.forall_mem_nil _) (fun e absurdly => by cases absurdly)
    | ok e =>
      constructor
      · intro inside f same _
        cases same
        exact inside
      · intro goes
        exact goes e rfl (.inr rfl)
  | some d =>
    rw [searched]
    dsimp only
    cases fat16FindInDir v (keyOf piece) d with
    | error ret => exact iff_of_true (List.forall_mem_nil _) (fun e absurdly => by cases absurdly)
    | ok e =>
      by_cases separator : stop = slash
      · simp [separator]
      · simp [separator,Inside]

theorem findWrites_iff (v : Volume) (fuel : Nat) (entry : Option DirEntry) (real : nul ∉ text) (enough : text.length+2 ≤ fuel) :
    Inside (findWrites v fuel entry (text++nul::junk)) ↔ ShortOnTheWay v entry (componentsOf text) := by
  induction fuel generalizing text entry with
  | zero => cases enough
  | succ fuel ih =>
    rcases path_cases text with ⟨k,rfl⟩ | ⟨k,piece,after,rfl,some_,whole,behind⟩
    · have empty : componentsOf (List.replicate k slash) = [] := by
        rw [← List.append_nil (List.replicate k slash),components_slashes]
        rfl
      rw [empty]
      exact iff_of_true (findWrites_end v _ entry k junk) trivial
    · have positive := List.length_pos_of_ne_nil some_
      have legal : ∀ c ∈ piece, c ≠ nul ∧ c ≠ slash := fun c member =>
        ⟨fun same => real (same ▸ by simp [member]),fun same => whole (same ▸ member)⟩
      have later : nul ∉ after := fun member => real (by simp [member])
      have shorter : after.length+2 ≤ fuel := by
        rw [List.length_append,List.length_append] at enough
        omega
      obtain ⟨stop,rest,stops,next⟩ : ∃ stop rest, (stop = slash ∨ stop = nul) ∧ after++nul::junk = stop::rest := by
        rcases behind with rfl | ⟨more,rfl⟩
        · exact ⟨nul,junk,.inr rfl,rfl⟩
        · exact ⟨slash,more++nul::junk,.inl rfl,rfl⟩
      rw [List.append_assoc _ piece after,components_slashes,components_piece some_ whole behind,← List.append_assoc,
        List.append_assoc _ after,next,ShortOnTheWay]
      by_cases short : piece.length ≤ 10
      · rw [findWrites_piece v fuel entry some_ legal short k stops,and_iff_right short]
        refine forall_congr' fun e => forall_congr' fun looked => ?_
        rw [← next]
        have goes := @ih after (some e) later shorter
        rcases behind with rfl | ⟨more,rfl⟩
        · exact iff_of_true (fun _ => findWrites_end v fuel (some e) 0 junk) (goes.mp (findWrites_end v fuel (some e) 0 junk))
        · cases next
          rw [← goes]
          exact ⟨fun inside => inside (.inl rfl),fun inside _ => inside⟩
      · refine iff_of_false ?_ (fun both => short both.1)
        intro inside
        rw [findWrites,inside_append,roundWrites_inside] at inside
        exact short ((fragmentWrites_piece some_ legal k stops).mp inside.1)

-- The names that a volume needs for a search to get to the end of a path.
def directoryNamed (key : List Byte) : DirEntry := fun i => if i < 11 then key.getD i nul else if i = 11 then attribSubdir else 0#8
def everyName (components : List (List Byte)) : Volume :=
  ⟨components.map (directoryNamed ∘ keyOf),fun _ => components.map (directoryNamed ∘ keyOf)⟩

theorem nameLoop_taken (rounds : Nat) (filename : List Byte) :
    (nameLoop rounds filename).1 = (filename.take rounds).takeWhile (fun c => c != dot && c != nul) := by
  induction rounds generalizing filename with
  | zero => rfl
  | succ rounds ih =>
    cases filename with
    | nil => rfl
    | cons c filename =>
      rw [nameLoop,List.take_succ_cons,List.takeWhile_cons]
      split
      · rename_i char
        rw [if_pos (by simpa using char),← ih]
      · rename_i stops
        rw [if_neg (by simpa using stops)]

theorem extensionLoop_taken (rounds : Nat) (filename : List Byte) :
    extensionLoop rounds filename = (filename.take rounds).takeWhile (· != nul) := by
  induction rounds generalizing filename with
  | zero => rfl
  | succ rounds ih =>
    cases filename with
    | nil => rfl
    | cons c filename =>
      rw [extensionLoop,List.take_succ_cons,List.takeWhile_cons]
      split
      · rename_i char
        rw [if_pos (by simpa using char),ih]
      · rename_i stops
        rw [if_neg (by simpa using stops)]

theorem taken_length (p : Byte → Bool) (rounds : Nat) (filename : List Byte) : ((filename.take rounds).takeWhile p).length ≤ rounds :=
  Nat.le_trans (List.takeWhile_sublist p).length_le (List.length_take_le rounds filename)

theorem nameLoop_length (rounds : Nat) (filename : List Byte) : (nameLoop rounds filename).1.length ≤ rounds := by
  rw [nameLoop_taken]
  exact taken_length _ rounds filename

theorem extensionLoop_length (rounds : Nat) (filename : List Byte) : (extensionLoop rounds filename).length ≤ rounds := by
  rw [extensionLoop_taken]
  exact taken_length _ rounds filename

theorem convert_length (filename : List Byte) : (fat16ConvertFilename filename).length = 11 := by
  have base := padded_length (nameLoop_length 8 filename)
  rw [fat16ConvertFilename]
  dsimp only
  split
  · rw [List.length_append,base]
    rfl
  · rw [List.length_append,base,padded_length (extensionLoop_length 3 _)]

theorem directoryNamed_name (eleven : key.length = 11) : (directoryNamed key).name = key := by
  refine List.ext_getElem (by simp [DirEntry.name,eleven]) ?_
  intro i low high
  simp [DirEntry.name,directoryNamed,Fin.lt_def,high]

theorem directoryNamed_subdir (key : List Byte) : (directoryNamed key).isSubdir = true := by
  rw [DirEntry.isSubdir,DirEntry.attributes,show directoryNamed key 11 = attribSubdir from rfl]
  decide

theorem everyName_found (member : piece ∈ components) (at_ : ∀ d ∈ entry, DirEntry.isSubdir d = true) :
    ∃ e, searched (everyName components) entry (keyOf piece) = .ok e ∧ e.isSubdir = true := by
  have listed : directoryNamed (keyOf piece) ∈ components.map (directoryNamed ∘ keyOf) := List.mem_map_of_mem member
  have same : (directoryNamed (keyOf piece)).name = keyOf piece := directoryNamed_name (convert_length _)
  obtain ⟨e,found⟩ : ∃ e, lookup (components.map (directoryNamed ∘ keyOf)) (keyOf piece) = some e :=
    Option.isSome_iff_exists.mp (List.find?_isSome.mpr ⟨_,listed,beq_iff_eq.mpr same⟩)
  obtain ⟨other,_,rfl⟩ := List.mem_map.mp (List.mem_of_find?_eq_some found)
  refine ⟨directoryNamed (keyOf other),?_,directoryNamed_subdir (keyOf other)⟩
  cases entry with
  | none =>
    rw [searched,fat16FindInRootDir,everyName,found]
    rfl
  | some d =>
    rw [searched,fat16FindInDir,if_pos (at_ d rfl),everyName,found]
    rfl

theorem everyName_short (subset : ∀ piece ∈ rest, piece ∈ components) (at_ : ∀ d ∈ entry, DirEntry.isSubdir d = true)
    (short : ShortOnTheWay (everyName components) entry rest) : ∀ piece ∈ rest, piece.length ≤ 10 := by
  induction rest generalizing entry with
  | nil => exact List.forall_mem_nil _
  | cons piece rest ih =>
    obtain ⟨first,later⟩ := short
    obtain ⟨e,found,directory⟩ := everyName_found (subset piece List.mem_cons_self) at_
    refine List.forall_mem_cons.mpr ⟨first,ih (fun other member => subset other (List.mem_cons_of_mem _ member)) ?_ (later e found)⟩
    intro d same
    cases same
    exact directory

theorem short_on_the_way (v : Volume) (entry : Option DirEntry) (short : ∀ piece ∈ components, piece.length ≤ 10) :
    ShortOnTheWay v entry components := by
  induction components generalizing entry with
  | nil => trivial
  | cons piece rest ih =>
    obtain ⟨first,later⟩ := List.forall_mem_cons.mp short
    exact ⟨first,fun e _ => ih (some e) later⟩

theorem kaosStrncpy_copy (stored : CString path text) (real : nul ∉ text) : ∃ junk, kaosStrncpy path 1024 = text.take 1023++nul::junk := by
  cases text with
  | nil =>
    have first : path 0 = nul := stored.2
    exact ⟨[],by rw [kaosStrncpy,if_pos first]; rfl⟩
  | cons c text =>
    have begins : path 0 = c := stored.1 0 (Nat.succ_pos _)
    have first : path 0 ≠ nul := by
      rw [begins]
      exact fun same => real (same ▸ List.mem_cons_self)
    by_cases short : (c::text).length ≤ 1023
    · obtain ⟨junk,copied⟩ := kaosStrncpy_text stored first short
      exact ⟨junk,by rw [copied,List.take_of_length_le short]⟩
    · refine ⟨[],?_⟩
      have copied : (List.range 1023).map path = (c::text).take 1023 := by
        refine List.ext_getElem (by rw [List.length_map,List.length_range,List.length_take]; omega) ?_
        intro i low high
        rw [List.length_take] at high
        rw [List.getElem_map,List.getElem_range,List.getElem_take]
        exact stored.1 i (by omega)
      rw [kaosStrncpy,if_neg first,copied]

theorem fragment_writes_iff (stored : CString path text) (real : nul ∉ text) :
    (∀ v, WritesInside v path ↔ ShortOnTheWay v none (componentsOf (text.take 1023))) ∧
    ((∀ v, WritesInside v path) ↔ ∀ component ∈ componentsOf (text.take 1023), component.length ≤ 10) := by
  obtain ⟨junk,copied⟩ := kaosStrncpy_copy stored real
  have each : ∀ v, WritesInside v path ↔ ShortOnTheWay v none (componentsOf (text.take 1023)) := fun v => by
    rw [WritesInside,copied]
    exact findWrites_iff v 1026 none (fun member => real (List.mem_of_mem_take member)) (by rw [List.length_take]; omega)
  refine ⟨each,?_⟩
  constructor
  · intro inside
    exact everyName_short (fun _ member => member) (fun d absurdly => by cases absurdly) ((each _).mp (inside _))
  · intro short v
    exact (each v).mpr (short_on_the_way v none short)

theorem short_path_inside : CString (chars pathAB.text) pathAB.text ∧ nul ∉ pathAB.text ∧ ∀ v, WritesInside v (chars pathAB.text) := by
  have stored := chars_stored pathAB.text
  have real : nul ∉ pathAB.text := by decide
  refine ⟨stored,real,(fragment_writes_iff stored real).2.mpr ?_⟩
  have components : componentsOf (pathAB.text.take 1023) = [[0x41#8],[0x42#8]] := by decide
  rw [components]
  decide

-- /EXAMPLE.ELF: the terminator of the eleven characters goes behind the array, on every volume.
def exampleElf : List Byte := [0x2F#8,0x45#8,0x58#8,0x41#8,0x4D#8,0x50#8,0x4C#8,0x45#8,0x2E#8,0x45#8,0x4C#8,0x46#8]

theorem example_elf_outside : CString (chars exampleElf) exampleElf ∧ nul ∉ exampleElf ∧ ∀ v, ¬ WritesInside v (chars exampleElf) := by
  refine ⟨chars_stored exampleElf,by decide,?_⟩
  intro v inside
  rw [WritesInside,findWrites,inside_append] at inside
  have outside : 12 ∈ roundWrites (kaosStrncpy (chars exampleElf) 1024) := by decide +kernel
  exact absurd (inside.1 12 outside) (by decide)

end KaracaOS.Fat16Fragments
