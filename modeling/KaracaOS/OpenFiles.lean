import KaracaOS.BuddyRuns
import KaracaOS.Fat16Fragments

namespace KaracaOS.OpenFiles
open ByteMemory MemoryManager BootMap BuddyArena BuddyAllocator BuddyPages BuddyRuns Fat16Paths Fat16Fragments StepRuns

-- The tables of fopen.c with the allocator its FILE objects come from, and the
-- _fileno field of the FILE at an address.
structure Stdio where
  allocator : Allocator
  openFiles : Nat → DirEntry
  isOpenFileEntryUsed : Nat → Bool
  fileno : Nat → Nat

def maxOpenFiles : Nat := 64

-- An int, eleven char pointers and two ints on i686.
def sizeofFile : Nat := 4+11*4+8

-- The characters from index i on, at most n of them.
def kaosStrncmp (s1 s2 : Bytes) : Nat → Nat → Int
  | 0,_ => 0
  | n+1,i =>
    if s1 i ≠ s2 i then (s1 i).toInt-(s2 i).toInt
    else if s1 i = nul then 0
    else kaosStrncmp s1 s2 n (i+1)

def devStdin : List Byte := [0x2F,0x64,0x65,0x76,0x2F,0x73,0x74,0x64,0x69,0x6E]
def devStdout : List Byte := [0x2F,0x64,0x65,0x76,0x2F,0x73,0x74,0x64,0x6F,0x75,0x74]
def devStderr : List Byte := [0x2F,0x64,0x65,0x76,0x2F,0x73,0x74,0x64,0x65,0x72,0x72]

-- sizeof of a string literal counts its end.
def isDevice (device : List Byte) (path : Bytes) : Bool := kaosStrncmp (chars device) path (device.length+1) 0 = 0

def firstUnused (used : Nat → Bool) : Option Nat := (List.range maxOpenFiles).find? (fun i => !used i)

-- The FILE pointer, none for NULL. A found slot is written but never marked used.
-- The search makes every write, also the one behind path_fragment.
def kaosFopen (v : Volume) (s : Stdio) (path : Bytes) : Option (Option Nat × Stdio) :=
  match buddyAllocatorAlloc s.allocator sizeofFile with
  | none => none
  | some (.error _,allocator) => some (none,{s with allocator := allocator})
  | some (.ok (fp,_),allocator) =>
    if isDevice devStdin path then some (some fp,{s with allocator := allocator,fileno := Function.update s.fileno fp 0})
    else if isDevice devStdout path then some (some fp,{s with allocator := allocator,fileno := Function.update s.fileno fp 1})
    else if isDevice devStderr path then some (some fp,{s with allocator := allocator,fileno := Function.update s.fileno fp 2})
    else
      match fat16FindFileEntry spillFragment v path with
      | none => none
      | some (.error _) => some (none,{s with allocator := allocator})
      | some (.ok dirEntry) =>
        match firstUnused s.isOpenFileEntryUsed with
        | none => some (none,{s with allocator := allocator})
        | some i =>
          some (some fp,
            {s with
              allocator := allocator
              openFiles := Function.update s.openFiles i dirEntry
              fileno := Function.update s.fileno fp i})

def kaosFclose (s : Stdio) (stream : Nat) : Stdio :=
  let fileNo := s.fileno stream
  {s with
    isOpenFileEntryUsed := Function.update s.isOpenFileEntryUsed fileNo false
    openFiles := Function.update s.openFiles fileNo (fun _ => 0#8)}

-- The entry kaos_fread hands to fat16_read_file; the three devices read nothing.
def kaosFreadEntry (s : Stdio) (stream : Nat) : Option DirEntry :=
  let fileNo := s.fileno stream
  if fileNo = 0 ∨ fileNo = 1 ∨ fileNo = 2 then none else some (s.openFiles fileNo)

-- The streams that are open, each with the entry its path resolved to.
structure Stream where
  fp : Nat
  entry : DirEntry

structure System where
  stdio : Stdio
  streams : List Stream

inductive Call where
  | fopen (path : Bytes)
  | fclose (stream : Nat)

def serve (v : Volume) (s : System) : Call → Option System
  | .fopen path =>
    match kaosFopen v s.stdio path with
    | none => none
    | some (none,stdio) => some ⟨stdio,s.streams⟩
    | some (some fp,stdio) =>
      match fat16FindFileEntry spillFragment v path with
      | some (.ok entry) => some ⟨stdio,⟨fp,entry⟩::s.streams⟩
      | _ => some ⟨stdio,s.streams⟩
  | .fclose stream =>
    if s.streams.any (fun open_ => open_.fp = stream) then
      some ⟨kaosFclose s.stdio stream,s.streams.filter (fun open_ => open_.fp ≠ stream)⟩
    else none

-- The path of an existing regular file: no device, and no subdirectory.
def RegularFile (v : Volume) (path : Bytes) : Prop :=
  (isDevice devStdin path = false ∧ isDevice devStdout path = false ∧ isDevice devStderr path = false) ∧
  ∃ entry : DirEntry, fat16FindFileEntry spillFragment v path = some (.ok entry) ∧ entry.isSubdir = false

-- "EXAMPLE ELF" in a directory. The terminator of /EXAMPLE.ELF is one of the writes
-- behind path_fragment.
def exampleName : List Byte := [0x45#8,0x58#8,0x41#8,0x4D#8,0x50#8,0x4C#8,0x45#8,0x20#8,0x45#8,0x4C#8,0x46#8]
def exampleFile : DirEntry := fun i => exampleName.getD i nul

example : RegularFile ⟨[exampleFile],fun _ => []⟩ (chars exampleElf) := ⟨by decide,exampleFile,by decide +kernel,by decide⟩

def Call.Regular (v : Volume) : Call → Prop
  | .fopen path => RegularFile v path
  | .fclose _ => True

def initialUsed : Nat → Bool := fun i => decide (i < 3)

def Started (s : System) : Prop :=
  s.streams = [] ∧ s.stdio.openFiles = (fun _ _ => 0#8) ∧ s.stdio.isOpenFileEntryUsed = initialUsed

def NoInterference (s : System) : Prop :=
  s.streams.Pairwise (fun a b => s.stdio.fileno a.fp ≠ s.stdio.fileno b.fp) ∧
  ∀ a ∈ s.streams, 3 ≤ s.stdio.fileno a.fp ∧ s.stdio.openFiles (s.stdio.fileno a.fp) = a.entry ∧
    kaosFreadEntry s.stdio a.fp = some a.entry

-- No other stream is open, or there is no memory for the FILE.
def Alone (s : System) : Call → Prop
  | .fopen _ => s.streams = [] ∨ ∃ ret allocator, buddyAllocatorAlloc s.stdio.allocator sizeofFile = some (.error ret,allocator)
  | .fclose _ => True

-- Slot 3 is the only one ever handed out.
structure Tidy (s : System) : Prop where
  used : s.stdio.isOpenFileEntryUsed = initialUsed
  slot : ∀ a ∈ s.streams, s.stdio.fileno a.fp = 3 ∧ s.stdio.openFiles 3 = a.entry
  single : s.streams.length ≤ 1

theorem Tidy.no_interference (tidy : Tidy s) : NoInterference s := by
  refine ⟨?_,?_⟩
  · cases streams : s.streams with
    | nil => exact .nil
    | cons a rest =>
      have single := tidy.single
      rw [streams,List.length_cons] at single
      have none : rest = [] := List.length_eq_zero_iff.mp (by omega)
      rw [none]
      exact List.pairwise_singleton _ _
  · intro a member
    obtain ⟨slot,entry⟩ := tidy.slot a member
    refine ⟨by omega,by rw [slot,entry],?_⟩
    simp only [kaosFreadEntry,slot,entry]
    rfl

theorem started_tidy (s : System) (start : Started s) : Tidy s := by
  obtain ⟨none,_,used⟩ := start
  refine ⟨used,?_,?_⟩
  · intro a member
    rw [none] at member
    cases member
  · simp [none]

def opened (s : System) (allocator : Allocator) (slot : Nat) (stream : Stream) : System :=
  ⟨⟨allocator,Function.update s.stdio.openFiles slot stream.entry,s.stdio.isOpenFileEntryUsed,
    Function.update s.stdio.fileno stream.fp slot⟩,stream::s.streams⟩

theorem fopen_cases (regular : RegularFile v path) (used : s.stdio.isOpenFileEntryUsed = initialUsed)
    (taken : serve v s (.fopen path) = some next) :
    (∃ ret allocator, buddyAllocatorAlloc s.stdio.allocator sizeofFile = some (.error ret,allocator) ∧
      next = ⟨{s.stdio with allocator := allocator},s.streams⟩) ∨
    (∃ fp node allocator entry, buddyAllocatorAlloc s.stdio.allocator sizeofFile = some (.ok (fp,node),allocator) ∧
      next = opened s allocator 3 ⟨fp,entry⟩) := by
  obtain ⟨⟨one,two,three⟩,entry,found,_⟩ := regular
  have slot : firstUnused initialUsed = some 3 := by decide
  cases alloc : buddyAllocatorAlloc s.stdio.allocator sizeofFile with
  | none => simp [serve,kaosFopen,alloc] at taken
  | some outcome =>
    obtain ⟨result,allocator⟩ := outcome
    cases result with
    | error ret =>
      simp only [serve,kaosFopen,alloc,Option.some.injEq] at taken
      exact .inl ⟨ret,allocator,rfl,taken.symm⟩
    | ok block =>
      obtain ⟨fp,node⟩ := block
      simp only [serve,kaosFopen,alloc,one,two,three,found,used,slot,Bool.false_eq_true,if_false,Option.some.injEq] at taken
      refine .inr ⟨fp,node,allocator,entry,rfl,?_⟩
      rw [← taken,opened,used]

theorem fopen_tidy (tidy : Tidy s) (regular : RegularFile v path) (taken : serve v s (.fopen path) = some next)
    (alone : Alone s (.fopen path)) : Tidy next := by
  rcases fopen_cases regular tidy.used taken with ⟨_,_,_,rfl⟩ | ⟨fp,node,allocator,entry,alloc,rfl⟩
  · exact ⟨tidy.used,tidy.slot,tidy.single⟩
  · rcases alone with none | ⟨ret,other,refused⟩
    · refine ⟨tidy.used,?_,by simp [opened,none]⟩
      intro a member
      rw [opened,none] at member
      cases List.mem_singleton.mp member
      exact ⟨by simp [opened],by simp [opened]⟩
    · rw [alloc] at refused
      cases refused

theorem fopen_shares (tidy : Tidy s) (regular : RegularFile v path) (taken : serve v s (.fopen path) = some next)
    (clean : NoInterference next) : Alone s (.fopen path) := by
  rcases fopen_cases regular tidy.used taken with ⟨ret,allocator,refused,_⟩ | ⟨fp,node,allocator,entry,_,rfl⟩
  · exact .inr ⟨ret,allocator,refused⟩
  · refine .inl ?_
    cases streams : s.streams with
    | nil => rfl
    | cons a rest =>
      have slot := (tidy.slot a (by rw [streams]; exact List.mem_cons_self)).1
      have apart := clean.1
      rw [opened,streams] at apart
      refine absurd ?_ ((List.pairwise_cons.mp apart).1 a List.mem_cons_self)
      show Function.update s.stdio.fileno fp 3 fp = Function.update s.stdio.fileno fp 3 a.fp
      rw [Function.update_self,Function.update_apply,slot,ite_self]

theorem fclose_tidy (tidy : Tidy s) (taken : serve v s (.fclose stream) = some next) : Tidy next := by
  simp only [serve] at taken
  split at taken
  · rename_i held
    cases Option.some.inj taken
    obtain ⟨a,member,same⟩ := List.any_eq_true.mp held
    have same : a.fp = stream := of_decide_eq_true same
    have slot := (tidy.slot a member).1
    rw [same] at slot
    have only : s.streams = [a] := by
      obtain ⟨b,streams⟩ := List.length_eq_one_iff.mp (Nat.le_antisymm tidy.single (List.length_pos_of_mem member))
      rw [streams] at member ⊢
      rw [List.mem_singleton.mp member]
    have none : s.streams.filter (fun open_ => open_.fp ≠ stream) = [] := by
      rw [only]
      simp [same]
    refine ⟨?_,?_,?_⟩
    · show Function.update s.stdio.isOpenFileEntryUsed (s.stdio.fileno stream) false = initialUsed
      rw [slot,tidy.used]
      refine Function.update_eq_self_iff.mpr ?_
      rfl
    · intro b kept
      rw [none] at kept
      cases kept
    · rw [none]
      exact Nat.zero_le _
  · cases taken

theorem serve_clean_iff (tidy : Tidy s) (regular : c.Regular v) (taken : serve v s c = some next) :
    NoInterference next ↔ Alone s c := by
  cases c with
  | fopen path => exact ⟨fopen_shares tidy regular taken,fun alone => (fopen_tidy tidy regular taken alone).no_interference⟩
  | fclose stream => exact ⟨fun _ => trivial,fun _ => (fclose_tidy tidy taken).no_interference⟩

theorem streams_apart_while_alone (v : Volume)
    (path : Reached Started (serve v) (fun s c => c.Regular v ∧ Alone s c) s) :
    NoInterference s ∧ ∀ c next, c.Regular v → serve v s c = some next → (NoInterference next ↔ Alone s c) := by
  have tidy : Tidy s := by
    refine path.invariant Tidy started_tidy ?_
    rintro s c next tidy ⟨regular,alone⟩ taken
    cases c with
    | fopen path => exact fopen_tidy tidy regular taken alone
    | fclose stream => exact fclose_tidy tidy taken
  exact ⟨tidy.no_interference,fun c next regular taken => serve_clean_iff tidy regular taken⟩

theorem two_files_found :
    (blockFound sizeofFile firstArena windowStart 4096).any (fun a => (blockFound sizeofFile a (windowStart+4096) 4096).isSome) = true := by
  decide +kernel

theorem fileB_regular : RegularFile smallVolume (chars pathB.text) := by
  refine ⟨by decide,fileB,?_,by decide⟩
  decide +kernel

theorem fopen_fileB (s : System) (used : s.stdio.isOpenFileEntryUsed = initialUsed)
    (alloc : buddyAllocatorAlloc s.stdio.allocator sizeofFile = some (.ok (fp,node),allocator)) :
    ∃ next, serve smallVolume s (.fopen (chars pathB.text)) = some next ∧ next.stdio.allocator = allocator ∧
      next.stdio.isOpenFileEntryUsed = initialUsed ∧ next.streams.length = s.streams.length+1 := by
  have slot : firstUnused initialUsed = some 3 := by decide
  obtain ⟨⟨one,two,three⟩,entry,found,_⟩ := fileB_regular
  simp only [serve,kaosFopen,alloc,one,two,three,found,used,slot,Bool.false_eq_true,if_false]
  exact ⟨_,rfl,rfl,rfl,rfl⟩

def freshStdio (a : Allocator) : System := ⟨⟨a,fun _ _ => 0#8,initialUsed,fun _ => 0⟩,[]⟩

theorem streams_apart_while_alone_once : ∃ mm s, Booted ⟨mm,firstArena⟩ ∧
    Reached Started (serve smallVolume) (fun s c => c.Regular smallVolume ∧ Alone s c) s ∧ s.streams.length = 1 ∧ NoInterference s := by
  obtain ⟨mm,booted,supply⟩ := machine_booted
  have pages := two_files_found
  cases found : blockFound sizeofFile firstArena windowStart 4096 with
  | none => simp [found] at pages
  | some arena =>
    obtain ⟨node,j,_,alloc⟩ := @alloc_page sizeofFile windowStart arena ⟨mm,firstArena⟩ found (supply.paid _ _ (by decide))
      (Nat.lt_of_lt_of_le (by decide) supply.frames) (by decide) supply.first
    obtain ⟨s,taken,_,_,one⟩ := fopen_fileB (freshStdio ⟨mm,firstArena⟩) rfl alloc
    have path : Reached Started (serve smallVolume) (fun s c => c.Regular smallVolume ∧ Alone s c) s :=
      (Reached.start ⟨rfl,rfl,rfl⟩).extend (.fopen (chars pathB.text)) ⟨fileB_regular,.inl rfl⟩ taken
    exact ⟨mm,s,booted,path,one,(streams_apart_while_alone smallVolume path).1⟩

-- Opened twice: both streams have slot 3.
theorem two_streams_share : ∃ mm s, Booted ⟨mm,firstArena⟩ ∧
    follow (serve smallVolume) (freshStdio ⟨mm,firstArena⟩) [.fopen (chars pathB.text),.fopen (chars pathB.text)] = some s ∧
      Reached Started (serve smallVolume) (fun _ c => c.Regular smallVolume) s ∧ s.streams.length = 2 ∧ ¬ NoInterference s := by
  obtain ⟨mm,booted,supply⟩ := machine_booted
  have pages := two_files_found
  cases found : blockFound sizeofFile firstArena windowStart 4096 with
  | none => simp [found] at pages
  | some arena =>
    obtain ⟨node,j,first,alloc⟩ := @alloc_page sizeofFile windowStart arena ⟨mm,firstArena⟩ found (supply.paid _ _ (by decide))
      (Nat.lt_of_lt_of_le (by decide) supply.frames) (by decide) supply.first
    obtain ⟨middle,taken,allocator,used,one⟩ := fopen_fileB (freshStdio ⟨mm,firstArena⟩) rfl alloc
    rw [found] at pages
    obtain ⟨arena',found'⟩ := Option.isSome_iff_exists.mp (show (blockFound sizeofFile arena (windowStart+4096) 4096).isSome = true from pages)
    have left := freeFrames_allocated first (windowStart/4096) 1
    have enough := supply.frames
    obtain ⟨node',j',_,alloc'⟩ := @alloc_page sizeofFile (windowStart+4096) arena' ⟨allocated mm (windowStart/4096) j 1,arena⟩ found'
      (supply.paid arena _ (by decide)) (by dsimp only at left ⊢; omega) (by decide) (by
        show Bitmap.bit (Bitmap.setBit mm.vmAllocBitmap _) _ = false
        rw [Bitmap.bit_setBit,supply.second]
        decide)
    rw [← allocator] at alloc'
    obtain ⟨s,taken',_,_,two⟩ := fopen_fileB middle used alloc'
    have start : Reached Started (serve smallVolume) (fun _ c => c.Regular smallVolume) (freshStdio ⟨mm,firstArena⟩) :=
      .start ⟨rfl,rfl,rfl⟩
    have path := start.extend (.fopen (chars pathB.text)) fileB_regular taken
    have tidy := fopen_tidy (started_tidy _ ⟨rfl,rfl,rfl⟩) fileB_regular taken (.inl rfl)
    have streams : middle.streams ≠ [] := by
      intro none
      rw [none] at one
      cases one
    refine ⟨mm,s,booted,?_,path.extend (.fopen (chars pathB.text)) fileB_regular taken',?_,?_⟩
    · simp only [follow,List.foldlM_cons,List.foldlM_nil,taken,Option.bind_eq_bind,Option.bind_some,taken',Option.pure_def]
    · rw [two,one]
      rfl
    · intro clean
      rcases fopen_shares tidy fileB_regular taken' clean with none | ⟨_,_,refused⟩
      · exact streams none
      · rw [alloc'] at refused
        cases refused

end KaracaOS.OpenFiles
