import KaracaOS.ByteCopies
import KaracaOS.Fat16Paths

namespace KaracaOS.BoundedCopies
open ByteMemory ByteCopies
open Fat16Paths (nul CString)

-- The memory with the addresses read and written so far, in order.
structure Traffic where
  memory : Bytes
  reads : List Nat
  writes : List Nat

def Traffic.load (t : Traffic) (a : Nat) : Traffic := {t with reads := t.reads++[a]}

def Traffic.save (t : Traffic) (a : Nat) (value : Byte) : Traffic := ⟨store t.memory a value,t.reads,t.writes++[a]⟩

def quiet (memory : Bytes) : Traffic := ⟨memory,[],[]⟩

-- The functions of the kernel's libc. The ones of the user libc are the same text.
def strlenLoop (memory : Bytes) : Nat → Nat → Nat → Option Nat
  | 0,_,_ => none
  | fuel+1,s,count => if memory s ≠ nul then strlenLoop memory fuel ((s+1) % word) (count+1) else some count

-- none is a memory without a NUL anywhere.
def kaosStrlen (memory : Bytes) (s : Nat) : Option Nat := strlenLoop memory word s 0

-- `s` stays where it is.
def strnlenLoop (s : Nat) : Nat → Nat → Traffic → Nat × Traffic
  | 0,count,t => (count,t)
  | n+1,count,t => if t.memory s = nul then (count,t.load s) else strnlenLoop s n (count+1) (t.load s)

def kaosStrnlen (s n : Nat) (t : Traffic) : Nat × Traffic := strnlenLoop s n 0 t

def memcpyLoop : Nat → Nat → Nat → Traffic → Traffic
  | 0,_,_,t => t
  | num+1,dst,src,t => memcpyLoop num ((dst+1) % word) ((src+1) % word) ((t.load src).save dst (t.memory src))

def kaosMemcpy (dest source num : Nat) (t : Traffic) : Traffic := memcpyLoop num dest source t

def kaosStrncpy (dest source n : Nat) (t : Traffic) : Nat × Traffic :=
  let (size,t) := kaosStrnlen source n t
  let t := kaosMemcpy dest source size t
  let size := if size = n then (size+(word-1)) % word else size
  ((dest+size) % word,t.save ((dest+size) % word) nul)

-- What a bounded copy of the string `text` to an array of `n` bytes promises.
structure BoundedCopy (before : Bytes) (dest source n : Nat) (text : List Byte) (result : Nat × Traffic) : Prop where
  reads : ∀ a ∈ result.2.reads, source ≤ a ∧ a ≤ source+text.length
  copied : CString (fun k => result.2.memory (dest+k)) (text.take (n-1))
  writes : ∀ a ∈ result.2.writes, dest ≤ a ∧ a < dest+n
  kept : ∀ a, a < dest ∨ dest+n ≤ a → result.2.memory a = before a
  returned : result.1 = dest+(text.take (n-1)).length

structure StringAt (memory : Bytes) (source : Nat) (text : List Byte) : Prop where
  stored : CString (fun k => memory (source+k)) text
  real : nul ∉ text
  space : source+text.length < word

structure Room (dest source n : Nat) (text : List Byte) : Prop where
  buffer : dest+n ≤ word
  apart : source+text.length < dest ∨ dest+n ≤ source

variable {memory : Bytes} {dest source n s num dst src count : Nat} {text : List Byte} {t : Traffic}

theorem StringAt.first (string : StringAt memory source (c::rest)) : memory source ≠ nul := by
  have begins : memory source = c := string.stored.1 0 (Nat.succ_pos _)
  rw [begins]
  exact fun same => string.real (same ▸ List.mem_cons_self)

theorem StringAt.tail (string : StringAt memory source (c::rest)) : StringAt memory (source+1) rest := by
  obtain ⟨⟨chars,last⟩,real,space⟩ := string
  refine ⟨⟨fun i inside => ?_,?_⟩,fun member => real (List.mem_cons_of_mem _ member),?_⟩
  · have next : memory (source+(i+1)) = rest[i] := chars (i+1) (Nat.succ_lt_succ inside)
    rwa [← Nat.add_assoc,Nat.add_right_comm] at next
  · have ends : memory (source+(rest.length+1)) = nul := last
    rwa [← Nat.add_assoc,Nat.add_right_comm] at ends
  · rw [List.length_cons] at space
    omega

theorem strlenLoop_text (string : StringAt memory s text) (enough : text.length < fuel) :
    strlenLoop memory fuel s count = some (count+text.length) := by
  induction text generalizing fuel s count with
  | nil =>
    obtain ⟨fuel,rfl⟩ := Nat.exists_eq_succ_of_ne_zero (Nat.pos_iff_ne_zero.mp enough)
    have ends : memory s = nul := string.stored.2
    rw [strlenLoop,if_neg (not_not.mpr ends)]
    rfl
  | cons c rest ih =>
    obtain ⟨fuel,rfl⟩ := Nat.exists_eq_succ_of_ne_zero (Nat.ne_zero_of_lt enough)
    have space := string.space
    rw [List.length_cons] at space enough ⊢
    rw [strlenLoop,if_pos string.first,Nat.mod_eq_of_lt (by omega),ih string.tail (by omega)]
    congr 1
    omega

theorem strlen_text (string : StringAt memory source text) : kaosStrlen memory source = some text.length := by
  have space := string.space
  rw [kaosStrlen,strlenLoop_text string (by omega),Nat.zero_add]

-- With the first byte looked at again and again, a string counts as empty or endless.
theorem strnlenLoop_endless (first : t.memory s ≠ nul) :
    strnlenLoop s n count t = (count+n,{t with reads := t.reads++List.replicate n s}) := by
  induction n generalizing count t with
  | zero => simp [strnlenLoop]
  | succ n ih =>
    rw [strnlenLoop,if_neg first,ih (show (t.load s).memory s ≠ nul from first)]
    simp [Traffic.load,List.replicate_succ,Nat.add_comm 1,Nat.add_assoc]

theorem strnlen_endless (first : t.memory s ≠ nul) : kaosStrnlen s n t = (n,{t with reads := t.reads++List.replicate n s}) := by
  rw [kaosStrnlen,strnlenLoop_endless first,Nat.zero_add]

theorem strnlen_empty (first : t.memory s = nul) (positive : 1 ≤ n) : kaosStrnlen s n t = (0,t.load s) := by
  obtain ⟨n,rfl⟩ := Nat.exists_eq_add_of_le' positive
  rw [kaosStrnlen,strnlenLoop,if_pos first]

theorem memcpy_whole (buffer : dst+num ≤ word) (space : src+num ≤ word) : kaosMemcpy dst src num t =
    ⟨copyLoop word num dst src t.memory,t.reads++List.range' src num,t.writes++List.range' dst num⟩ := by
  unfold kaosMemcpy
  induction num generalizing dst src t with
  | zero => simp [memcpyLoop,copyLoop]
  | succ num ih =>
    by_cases last : num = 0
    · subst last
      rfl
    · rw [memcpyLoop,copyLoop,Nat.mod_eq_of_lt (show dst+1 < word by omega),Nat.mod_eq_of_lt (show src+1 < word by omega),
        ih (by omega) (by omega),List.range'_succ,List.range'_succ]
      simp [Traffic.load,Traffic.save]

-- The array leaves room for the source, so n is a size_t.
theorem Room.small (room : Room dest source n text) (string : StringAt memory source text) : n < word := by
  obtain ⟨buffer,apart⟩ := room
  have space := string.space
  omega

theorem strncpy_empty (first : memory source = nul) (positive : 1 ≤ n) (inside : dest < word) :
    kaosStrncpy dest source n (quiet memory) = (dest,⟨store memory dest nul,[source],[dest]⟩) := by
  unfold kaosStrncpy
  rw [strnlen_empty (show (quiet memory).memory source = nul from first) positive]
  dsimp only
  rw [if_neg (by omega),Nat.add_zero,Nat.mod_eq_of_lt inside]
  rfl

theorem strncpy_endless (first : memory source ≠ nul) (positive : 1 ≤ n) (small : n < word) (buffer : dest+n ≤ word) :
    kaosStrncpy dest source n (quiet memory) =
      (dest+(n-1),(kaosMemcpy dest source n ⟨memory,List.replicate n source,[]⟩).save (dest+(n-1)) nul) := by
  unfold kaosStrncpy
  rw [strnlen_endless (show (quiet memory).memory source ≠ nul from first)]
  dsimp only
  rw [if_pos rfl,show n+(word-1) = n-1+word by omega,Nat.add_mod_right,Nat.mod_eq_of_lt (show n-1 < word by omega),
    Nat.mod_eq_of_lt (show dest+(n-1) < word by omega)]
  rfl

theorem strncpy_memory (first : memory source ≠ nul) (positive : 1 ≤ n) (small : n < word) (buffer : dest+n ≤ word) (space : source+n ≤ word) :
    kaosStrncpy dest source n (quiet memory) = (dest+(n-1),⟨store (copyLoop word n dest source memory) (dest+(n-1)) nul,
      List.replicate n source++List.range' source n,List.range' dest n++[dest+(n-1)]⟩) := by
  rw [strncpy_endless first positive small buffer,memcpy_whole buffer space]
  rfl

theorem copied_byte (buffer : dest+n ≤ word) (space : source+n ≤ word) (apart : source+n ≤ dest ∨ dest+n ≤ source) (inside : k < n-1) :
    store (copyLoop word n dest source memory) (dest+(n-1)) nul (dest+k) = memory (source+k) := by
  rw [store_other _ (by omega)]
  exact copyLoop_inside buffer space apart (by omega)

-- What fat16_find_file_entry finds in its copy of the path, where the bytes behind
-- the path can be read.
theorem path_copy_listed (positive : 1 ≤ n) (buffer : dest+n ≤ word) (space : source+n ≤ word) (apart : source+n ≤ dest ∨ dest+n ≤ source)
    (inside : k < (Fat16Paths.kaosStrncpy (fun i => memory (source+i)) n).length) :
    (kaosStrncpy dest source n (quiet memory)).2.memory (dest+k) = (Fat16Paths.kaosStrncpy (fun i => memory (source+i)) n).getD k nul := by
  unfold Fat16Paths.kaosStrncpy at inside ⊢
  by_cases first : memory source = nul
  · rw [if_pos (show memory (source+0) = nul from first)] at inside ⊢
    rw [List.length_singleton,Nat.lt_one_iff] at inside
    subst inside
    rw [strncpy_empty first positive (by omega)]
    exact store_same _ _ _
  · rw [if_neg (show memory (source+0) ≠ nul from first)] at inside ⊢
    rw [List.length_append,List.length_map,List.length_range,List.length_singleton] at inside
    rw [strncpy_memory first positive (by omega) buffer space]
    by_cases last : k = n-1
    · subst last
      rw [List.getD_append_right _ _ _ _ (by rw [List.length_map,List.length_range]),List.length_map,List.length_range,Nat.sub_self]
      exact store_same _ _ _
    · have listed : ((List.range (n-1)).map (fun i => memory (source+i))++[nul]).getD k nul = memory (source+k) := by
        rw [List.getD_append _ _ _ _ (by rw [List.length_map,List.length_range]; omega),
          List.getD_eq_getElem _ _ (by rw [List.length_map,List.length_range]; omega),List.getElem_map,List.getElem_range]
      rw [listed]
      exact copied_byte buffer space apart (by omega)

theorem empty_copied (string : StringAt memory source []) (room : Room dest source n []) (positive : 1 ≤ n) :
    BoundedCopy memory dest source n [] (kaosStrncpy dest source n (quiet memory)) := by
  have buffer := room.buffer
  have first : memory source = nul := string.stored.2
  rw [strncpy_empty first positive (by omega)]
  refine ⟨?_,?_,?_,?_,?_⟩
  · intro a read
    cases List.mem_singleton.mp read
    exact ⟨Nat.le_refl _,Nat.le_refl _⟩
  · rw [List.take_nil]
    exact ⟨fun i inside => absurd inside (Nat.not_lt_zero i),store_same _ _ _⟩
  · intro a written
    cases List.mem_singleton.mp written
    omega
  · intro a away
    exact store_other _ (by omega)
  · rw [List.take_nil]
    rfl

theorem long_copied (string : StringAt memory source (c::rest)) (room : Room dest source n (c::rest)) (positive : 1 ≤ n)
    (long : n ≤ (c::rest).length+1) : BoundedCopy memory dest source n (c::rest) (kaosStrncpy dest source n (quiet memory)) := by
  have first := string.first
  have small := room.small string
  obtain ⟨stored,real,space⟩ := string
  obtain ⟨buffer,apart⟩ := room
  have cut : ((c::rest).take (n-1)).length = n-1 := by
    rw [List.length_take]
    omega
  rw [strncpy_memory first positive small buffer (by omega)]
  refine ⟨?_,?_,?_,?_,?_⟩
  · intro a read
    rcases List.mem_append.mp read with counted | taken
    · cases List.eq_of_mem_replicate counted
      omega
    · have bounds := List.mem_range'_1.mp taken
      omega
  · refine ⟨fun k inside => ?_,?_⟩
    · rw [cut] at inside
      rw [List.getElem_take]
      exact (copied_byte buffer (by omega) (by omega) inside).trans (stored.1 k (by omega))
    · rw [cut]
      exact store_same _ _ _
  · intro a written
    rcases List.mem_append.mp written with taken | last
    · have bounds := List.mem_range'_1.mp taken
      omega
    · cases List.mem_singleton.mp last
      omega
  · intro a away
    have kept : store (copyLoop word n dest source memory) (dest+(n-1)) nul a = copyLoop word n dest source memory a :=
      store_other _ (by omega)
    refine kept.trans (copyLoop_outside (by omega) fun k below => ?_)
    rw [Nat.mod_eq_of_lt (by omega)]
    omega
  · rw [cut]

theorem strncpy_bounded (string : StringAt memory source text) (room : Room dest source n text) (positive : 1 ≤ n) :
    BoundedCopy memory dest source n text (kaosStrncpy dest source n (quiet memory)) ↔ text = [] ∨ n ≤ text.length+1 := by
  cases text with
  | nil => exact iff_of_true (empty_copied string room positive) (.inl rfl)
  | cons c rest =>
    constructor
    · intro bounded
      by_contra short
      obtain ⟨_,short⟩ := not_or.mp short
      -- The NUL is looked for at the end of the array instead.
      have returned := bounded.returned
      rw [strncpy_endless string.first positive (room.small string) room.buffer,List.length_take] at returned
      dsimp only at returned
      omega
    · intro either
      exact long_copied string room positive (either.resolve_left (List.cons_ne_nil c rest))

theorem strnlen_least (string : StringAt memory source text) (positive : 1 ≤ n) :
    (kaosStrnlen source n (quiet memory)).1 = min n text.length ↔ text = [] ∨ n ≤ text.length := by
  cases text with
  | nil =>
    rw [strnlen_empty (show (quiet memory).memory source = nul from string.stored.2) positive]
    simp
  | cons c rest =>
    rw [strnlen_endless (show (quiet memory).memory source ≠ nul from string.first)]
    simp

theorem bounded_copy_iff (string : StringAt memory source text) (positive : 1 ≤ n) :
    (∀ dest, Room dest source n text →
      (BoundedCopy memory dest source n text (kaosStrncpy dest source n (quiet memory)) ↔ text = [] ∨ n ≤ text.length+1)) ∧
    ((∃ length, kaosStrlen memory source = some length ∧ (kaosStrnlen source n (quiet memory)).1 = min n length) ↔
      text = [] ∨ n ≤ text.length) := by
  refine ⟨fun dest room => strncpy_bounded string room positive,?_⟩
  rw [← strnlen_least string positive,strlen_text string]
  constructor
  · rintro ⟨length,ends,least⟩
    cases Option.some.inj ends
    exact least
  · intro least
    exact ⟨text.length,rfl,least⟩

def held (text : List Byte) : Bytes := fun a => Fat16Paths.chars text (a-0x1000)

theorem held_string (real : nul ∉ text) (short : text.length < 0x1000) : StringAt (held text) 0x1000 text := by
  refine ⟨?_,real,by unfold word; omega⟩
  have same : (fun k => held text (0x1000+k)) = Fat16Paths.chars text := by
    funext k
    rw [held,Nat.add_sub_cancel_left]
  rw [same]
  exact Fat16Paths.chars_stored text

def kernelName : List Byte := [0x4B,0x45,0x52,0x4E,0x45,0x4C]

theorem kernel_name_copied : BoundedCopy (held kernelName) 0x2000 0x1000 4 kernelName (kaosStrncpy 0x2000 0x1000 4 (quiet (held kernelName))) ∧
    ∃ length, kaosStrlen (held kernelName) 0x1000 = some length ∧ (kaosStrnlen 0x1000 4 (quiet (held kernelName))).1 = min 4 length := by
  have exact_ := bounded_copy_iff (@held_string kernelName (by decide) (by decide)) (show 1 ≤ 4 by decide)
  exact ⟨(exact_.1 0x2000 ⟨by decide,by decide⟩).mpr (.inr (by decide)),exact_.2.mpr (.inr (by decide))⟩

-- The path "A" into the 1024 bytes of fat16_find_file_entry: the copy goes on for
-- 1022 bytes behind the NUL, and the answer is the last byte of the array.
theorem short_path_overread : StringAt (held [0x41]) 0x1000 [0x41] ∧
    (kaosStrncpy 0x2000 0x1000 1024 (quiet (held [0x41]))).1 = 0x2000+1023 ∧
    0x1000+1023 ∈ (kaosStrncpy 0x2000 0x1000 1024 (quiet (held [0x41]))).2.reads ∧
    ¬ BoundedCopy (held [0x41]) 0x2000 0x1000 1024 [0x41] (kaosStrncpy 0x2000 0x1000 1024 (quiet (held [0x41]))) ∧
    (kaosStrnlen 0x1000 1024 (quiet (held [0x41]))).1 = 1024 ∧ kaosStrlen (held [0x41]) 0x1000 = some 1 := by
  have string : StringAt (held [0x41]) 0x1000 [0x41] := held_string (by decide) (by decide)
  have copied := @strncpy_memory (held [0x41]) 0x2000 0x1000 1024 string.first (by decide) (by decide) (by decide) (by decide)
  have counted := @strnlen_endless 1024 0x1000 (quiet (held [0x41])) string.first
  have far : 0x1000+1023 ∈ (kaosStrncpy 0x2000 0x1000 1024 (quiet (held [0x41]))).2.reads := by
    rw [copied]
    exact List.mem_append_right _ (List.mem_range'_1.mpr (by omega))
  refine ⟨string,by rw [copied],far,?_,by rw [counted],strlen_text string⟩
  intro bounded
  have limit := (bounded.reads _ far).2
  rw [List.length_singleton] at limit
  omega

end KaracaOS.BoundedCopies
