import KaracaOS.OpenFiles

namespace KaracaOS.FailedOpens
open ByteMemory MemoryManager BootMap BuddyArena BuddyTree BuddyAllocator BuddyRuns DyadicTree Fat16Paths OpenFiles

-- The blocks in use, each with its address and length.
def liveBlocks (a : Arena) : Set (Nat × Nat) := {block | ∃ p, Live a p ∧ block = ((a.node p).vaddr,(a.node p).len)}

-- Where NULL is returned, the table and the blocks in use are those before.
def LeaksNothing (v : Volume) (s : Stdio) (path : Bytes) : Prop :=
  ∀ after, kaosFopen v s path = some (none,after) →
    after.openFiles = s.openFiles ∧ after.isOpenFileEntryUsed = s.isOpenFileEntryUsed ∧
      liveBlocks after.allocator.arena = liveBlocks s.allocator.arena

-- Behind the allocation nothing is given back: it must have failed, or no later exit be taken.
def NoLaterExit (v : Volume) (s : Stdio) (path : Bytes) : Prop :=
  (∀ block allocator, buddyAllocatorAlloc s.allocator sizeofFile ≠ some (.ok block,allocator)) ∨
  (isDevice devStdin path = true ∨ isDevice devStdout path = true ∨ isDevice devStderr path = true) ∨
  (∃ entry, fat16FindFileEntry spillFragment v path = some (.ok entry)) ∧ ∃ i < maxOpenFiles, s.isOpenFileEntryUsed i = false

variable {a b : Arena} {n n' : Nat} {t t' : DyadicTree Nat} {s next : Allocator}

theorem explored_blocks (grown : Grown a n t) (explored : Explored a b n n' t t' windowStart 31) : liveBlocks b = liveBlocks a := by
  have grown' := grown.explored explored
  ext block
  constructor
  · rintro ⟨p,⟨node,flag⟩,rfl⟩
    have member := grown'.node_label node
    rcases explored.origin p member with old | new
    · obtain ⟨same,place,len⟩ := explored.kept p (grown.planted.bounded p old)
      refine ⟨p,⟨grown.label_node old,same ▸ flag⟩,?_⟩
      rw [place,len]
    · rw [explored.fresh p member new] at flag
      cases flag
  · rintro ⟨p,live,rfl⟩
    have old := grown.node_label live.1
    obtain ⟨same,place,len⟩ := explored.kept p (grown.planted.bounded p old)
    obtain ⟨c,leaf,rfl⟩ := grown.live_leaf live
    have member := leaf_label (explored.grows.frozen_leaf live.2 leaf)
    refine ⟨c.label,⟨grown'.label_node member,same.trans live.2⟩,?_⟩
    rw [place,len]

theorem failed_alloc_blocks (grown : Grown s.arena n t) (ran : buddyAllocatorAlloc s len = some (.error ret,next)) :
    liveBlocks next.arena = liveBlocks s.arena := by
  cases alloc_cases ran with
  | refused _ => rfl
  | unfound _ searched =>
    obtain ⟨n',t',explored,_,_⟩ := grown.search searched
    exact explored_blocks grown explored
  | unbacked _ searched _ _ =>
    obtain ⟨n',t',explored,_,_⟩ := grown.search searched
    exact explored_blocks grown explored

theorem alloc_new_block (grown : Grown s.arena n t) (ran : buddyAllocatorAlloc s len = some (.ok (vaddr,node),next)) :
    ∃ block ∈ liveBlocks next.arena, block ∉ liveBlocks s.arena := by
  cases alloc_cases ran with
  | done _ searched _ =>
    rename_i arena mm _ _
    obtain ⟨n',t',explored,grown',found⟩ := grown.search searched
    obtain ⟨c,leaf,rfl,free,_,_⟩ := found _ rfl
    have marked : Grown (markAllocated arena c.label true) n' t' := grown'.mark (fun _ => ⟨c,leaf,rfl⟩)
    have same := markAllocated_same arena c.label true c.label
    refine ⟨((arena.node c.label).vaddr,(arena.node c.label).len),⟨c.label,⟨marked.label_node (leaf_label leaf),?_⟩,?_⟩,?_⟩
    · rw [markAllocated_flag,if_pos rfl]
    · rw [same.vaddr,same.len]
    · rw [← explored_blocks grown explored]
      rintro ⟨q,live,equal⟩
      obtain ⟨d,other,rfl⟩ := grown'.live_leaf live
      have apart := leaves_apart grown'.planted.fits leaf other (by
        rintro rfl
        rw [live.2] at free
        cases free)
      obtain ⟨start,size,_⟩ := grown'.block leaf
      obtain ⟨start',size',_⟩ := grown'.block other
      rw [start,size,start',size'] at equal
      obtain ⟨place,length⟩ := Prod.mk.inj equal
      have some_ : 0 < 2^c.level := Nat.two_pow_pos c.level
      exact apart ⟨c.start,⟨Nat.le_refl _,by omega⟩,by omega,by omega⟩

theorem unused_slot (used : Nat → Bool) : firstUnused used ≠ none ↔ ∃ i < maxOpenFiles, used i = false := by
  unfold firstUnused
  rw [Ne,List.find?_eq_none]
  simp

-- Every allocator that is reached from a fresh machine holds such a tree.
theorem failed_open_iff (v : Volume) (s : Stdio) (path : Bytes) (grown : ∃ n t, Grown s.allocator.arena n t) :
    LeaksNothing v s path ↔ NoLaterExit v s path := by
  obtain ⟨n,t,grown⟩ := grown
  unfold LeaksNothing NoLaterExit kaosFopen
  cases alloc : buddyAllocatorAlloc s.allocator sizeofFile with
  | none => simp
  | some outcome =>
    obtain ⟨result,allocator⟩ := outcome
    cases result with
    | error ret =>
      refine iff_of_true ?_ (.inl (by simp))
      intro after same
      cases same
      exact ⟨rfl,rfl,failed_alloc_blocks grown alloc⟩
    | ok block =>
      obtain ⟨fp,node⟩ := block
      obtain ⟨block,inside,outside⟩ := alloc_new_block grown alloc
      have leaked : liveBlocks allocator.arena ≠ liveBlocks s.allocator.arena := fun same => outside (same ▸ inside)
      have taken : ¬ ∀ block other, some (Except.ok (ε := SysRet) (fp,node),allocator) ≠ some (.ok block,other) := fun never => never _ _ rfl
      by_cases one : isDevice devStdin path = true
      · simp [one]
      · by_cases two : isDevice devStdout path = true
        · simp [one,two]
        · by_cases three : isDevice devStderr path = true
          · simp [one,two,three]
          · simp only [one,two,three,or_self,Bool.false_eq_true,if_false,false_or]
            rw [or_iff_right taken]
            cases found : fat16FindFileEntry spillFragment v path with
            | none => exact absurd found (find_file_entry_ends v path)
            | some answer =>
              cases answer with
              | error ret =>
                refine iff_of_false ?_ (fun late => by simp at late)
                exact fun clean => leaked (clean _ rfl).2.2
              | ok entry =>
                have slots := unused_slot s.isOpenFileEntryUsed
                cases free : firstUnused s.isOpenFileEntryUsed with
                | none =>
                  rw [free] at slots
                  refine iff_of_false ?_ (fun late => absurd (slots.mpr late.2) (fun some_ => some_ rfl))
                  exact fun clean => leaked (clean _ rfl).2.2
                | some i =>
                  rw [free] at slots
                  have slot := slots.mp (Option.some_ne_none i)
                  simp [slot]

theorem booted_grown (booted : Booted s) : ∃ n t, Grown s.arena n t := by
  obtain ⟨info,mm,_,planted⟩ := booted
  exact ⟨_,_,(init_grown planted).2.1⟩

theorem failed_open_stdin : ∃ mm, Booted ⟨mm,firstArena⟩ ∧
    LeaksNothing smallVolume (freshStdio ⟨mm,firstArena⟩).stdio (chars devStdin) := by
  obtain ⟨mm,booted,_⟩ := machine_booted
  exact ⟨mm,booted,(failed_open_iff smallVolume (freshStdio ⟨mm,firstArena⟩).stdio (chars devStdin) (booted_grown booted)).mpr
    (.inr (.inl (.inl (by decide))))⟩

-- "/C", of which the volume has nothing.
def missing : Bytes := chars [slash,0x43]

theorem missing_file_leaks : ∃ mm after, Booted ⟨mm,firstArena⟩ ∧
    kaosFopen smallVolume (freshStdio ⟨mm,firstArena⟩).stdio missing = some (none,after) ∧
    liveBlocks after.allocator.arena ≠ liveBlocks firstArena ∧
    ¬ LeaksNothing smallVolume (freshStdio ⟨mm,firstArena⟩).stdio missing := by
  obtain ⟨mm,booted,supply⟩ := machine_booted
  obtain ⟨n,t,grown⟩ := booted_grown booted
  have pages := two_files_found
  cases found : blockFound sizeofFile firstArena windowStart 4096 with
  | none => simp [found] at pages
  | some arena =>
    obtain ⟨node,j,_,alloc⟩ := @alloc_page sizeofFile windowStart arena ⟨mm,firstArena⟩ found (supply.paid _ _ (by decide))
      (Nat.lt_of_lt_of_le (by decide) supply.frames) (by decide) supply.first
    obtain ⟨block,inside,outside⟩ := alloc_new_block grown alloc
    have lost : fat16FindFileEntry spillFragment smallVolume missing = some (.error .notFound) := by decide +kernel
    have devices : isDevice devStdin missing = false ∧ isDevice devStdout missing = false ∧ isDevice devStderr missing = false := by decide
    have ran : kaosFopen smallVolume (freshStdio ⟨mm,firstArena⟩).stdio missing =
        some (none,{(freshStdio ⟨mm,firstArena⟩).stdio with allocator := ⟨allocated mm (windowStart/4096) j 1,arena⟩}) := by
      rw [kaosFopen,show (freshStdio ⟨mm,firstArena⟩).stdio.allocator = ⟨mm,firstArena⟩ from rfl,alloc]
      simp only [devices,lost,Bool.false_eq_true,if_false]
    have leaked : liveBlocks arena ≠ liveBlocks firstArena := fun same => outside (same ▸ inside)
    exact ⟨mm,_,booted,ran,leaked,fun clean => leaked (clean _ ran).2.2⟩

end KaracaOS.FailedOpens
