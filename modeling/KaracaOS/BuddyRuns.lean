import KaracaOS.BuddyPages

namespace KaracaOS.BuddyRuns
open Bitmap Paging MemoryManager BootMap BuddyArena BuddyTree BuddyAllocator BuddyPages DyadicTree StepRuns

-- The allocator with the nodes of the blocks its callers hold: a successful
-- alloc adds its node, a successful free takes out what starts at its address.
structure System where
  allocator : Allocator
  live : List Nat

inductive Request where
  | alloc (len : Nat)
  | free (addr : Nat)
  deriving DecidableEq, Repr

def serve (s : System) : Request → Option System
  | .alloc len =>
    match buddyAllocatorAlloc s.allocator len with
    | none => none
    | some (.ok (_,node),next) => some ⟨next,node::s.live⟩
    | some (.error _,next) => some ⟨next,s.live⟩
  | .free addr =>
    match buddyAllocatorFree s.allocator addr with
    | none => none
    | some (.noError,next) => some ⟨next,s.live.filter (fun p => (s.allocator.arena.node p).vaddr ≠ addr)⟩
    | some (_,next) => some ⟨next,s.live⟩

def Request.Proper : Request → Prop
  | .alloc len => len < word
  | .free addr => addr < word

def Request.IsAlloc : Request → Prop
  | .alloc _ => True
  | .free _ => False

-- mm_init and buddy_allocator__init on any memory map and any old memory contents.
def Started (s : System) : Prop :=
  s.live = [] ∧ ∃ info mm old, mmInit powerOn info = some (.noError,mm) ∧
    buddyAllocatorInit mm old = some (.noError,s.allocator)

def Covers (a : Arena) (p x : Nat) : Prop := (a.node p).vaddr ≤ x ∧ x < (a.node p).vaddr+(a.node p).len

def BlocksApart (s : System) : Prop :=
  s.live.Pairwise (fun p q => ∀ x, ¬ (Covers s.allocator.arena p x ∧ Covers s.allocator.arena q x)) ∧
  ∀ p ∈ s.live,
    0x10000000 ≤ (s.allocator.arena.node p).vaddr ∧
    (s.allocator.arena.node p).vaddr+(s.allocator.arena.node p).len ≤ 0x90000000 ∧
    (s.allocator.arena.node p).vaddr % 4096 = 0 ∧
    ∃ k, (s.allocator.arena.node p).len = 2^k ∧ 4096 ≤ (s.allocator.arena.node p).len

variable {s next : System} {a : Arena} {n : Nat} {t : DyadicTree Nat}

structure Held (s : System) (n : Nat) (t : DyadicTree Nat) : Prop where
  grown : Grown s.allocator.arena n t
  live : ∀ p ∈ s.live, p ∈ t.labels ∧ (s.allocator.arena.node p).isAllocated = true
  distinct : s.live.Nodup

theorem started_held (start : Started s) : Held s 1 (.leaf (nodeAt 0)) := by
  obtain ⟨none,info,mm,old,_,ran⟩ := start
  obtain ⟨_,grown,_⟩ := init_grown ran
  exact ⟨grown,by simp [none],by simp [none]⟩

-- A search never touches an allocated node, whichever branches it abandons.
theorem Held.explored (held : Held s n t) (explored : Explored s.allocator.arena b n n' t t' windowStart 31) (mm : Mm) :
    Held ⟨⟨mm,b⟩,s.live⟩ n' t' := by
  refine ⟨held.grown.explored explored,?_,held.distinct⟩
  intro p member
  obtain ⟨label,flag⟩ := held.live p member
  obtain ⟨c,leaf,rfl⟩ := held.grown.marked p label flag
  refine ⟨leaf_label (explored.grows.frozen_leaf flag leaf),?_⟩
  rw [(explored.kept c.label (held.grown.planted.bounded _ label)).1]
  exact flag

theorem Held.mark (held : Held ⟨⟨mm,a⟩,blocks⟩ n t) (leaf : b ∈ leaves t windowStart 31)
    (free : (a.node b.label).isAllocated = false) : Held ⟨⟨mm,markAllocated a b.label true⟩,b.label::blocks⟩ n t := by
  refine ⟨held.grown.mark (fun _ => ⟨b,leaf,rfl⟩),?_,List.nodup_cons.mpr ⟨?_,held.distinct⟩⟩
  · intro p member
    rcases List.mem_cons.mp member with rfl | old
    · exact ⟨leaf_label leaf,by simp [markAllocated_flag]⟩
    · obtain ⟨label,flag⟩ := held.live p old
      have flag : (a.node p).isAllocated = true := flag
      refine ⟨label,?_⟩
      show ((markAllocated a b.label true).node p).isAllocated = true
      rw [markAllocated_flag,flag]
      simp
  · intro member
    have flag : (a.node b.label).isAllocated = true := (held.live _ member).2
    rw [free] at flag
    cases flag

inductive Served (s : System) (len : Nat) : System → Prop where
  | refused : remMem s.allocator < len → Served s len s
  | unfound : findSpace len searchDepth s.allocator.arena.rootNode s.allocator.arena = some (.error ret,arena) →
      Served s len ⟨⟨s.allocator.mm,arena⟩,s.live⟩
  | unbacked : findSpace len searchDepth s.allocator.arena.rootNode s.allocator.arena = some (.ok node,arena) →
      allocPages (pageCount (arena.node node).len) (arena.node node).vaddr s.allocator.mm = some (ret,mm) → ret ≠ .noError →
      Served s len ⟨⟨mm,arena⟩,s.live⟩
  | done : findSpace len searchDepth s.allocator.arena.rootNode s.allocator.arena = some (.ok node,arena) →
      allocPages (pageCount (arena.node node).len) (arena.node node).vaddr s.allocator.mm = some (.noError,mm) →
      Served s len ⟨⟨mm,markAllocated arena node true⟩,node::s.live⟩

theorem serve_alloc (taken : serve s (.alloc len) = some next) : Served s len next := by
  cases ran : buddyAllocatorAlloc s.allocator len with
  | none => simp [serve,ran] at taken
  | some outcome =>
    obtain ⟨result,after⟩ := outcome
    simp only [serve,ran] at taken
    cases alloc_cases ran with
    | refused short =>
      cases Option.some.inj taken
      exact .refused short
    | unfound _ searched =>
      cases Option.some.inj taken
      exact .unfound searched
    | unbacked _ searched paged bad =>
      cases Option.some.inj taken
      exact .unbacked searched paged bad
    | done _ searched paged =>
      cases Option.some.inj taken
      exact .done searched paged

theorem Held.alloc (held : Held s n t) (taken : serve s (.alloc len) = some next) : ∃ n' t', Held next n' t' := by
  cases serve_alloc taken with
  | refused _ => exact ⟨n,t,held⟩
  | unfound searched =>
    obtain ⟨n',t',explored,_,_⟩ := held.grown.search searched
    exact ⟨n',t',held.explored explored _⟩
  | unbacked searched _ _ =>
    obtain ⟨n',t',explored,_,_⟩ := held.grown.search searched
    exact ⟨n',t',held.explored explored _⟩
  | done searched _ =>
    obtain ⟨n',t',explored,_,found⟩ := held.grown.search searched
    obtain ⟨b,leaf,rfl,free,_,_⟩ := found _ rfl
    exact ⟨n',t',(held.explored explored _).mark leaf free⟩

theorem Held.free (held : Held s n t) (taken : serve s (.free addr) = some next) : Held next n t := by
  by_cases start : addr = windowStart
  · subst start
    simp only [serve,free_start held.grown,Option.some.injEq] at taken
    subst taken
    refine ⟨held.grown.mark (fun flag => by cases flag),?_,held.distinct.filter _⟩
    intro p member
    obtain ⟨old,elsewhere⟩ := List.mem_filter.mp member
    have elsewhere : (s.allocator.arena.node p).vaddr ≠ windowStart := by simpa using elsewhere
    obtain ⟨label,flag⟩ := held.live p old
    refine ⟨label,?_⟩
    show ((markAllocated s.allocator.arena s.allocator.arena.rootNode false).node p).isAllocated = true
    have notRoot : p ≠ s.allocator.arena.rootNode := by
      intro same
      rw [same,held.grown.root_record.1] at elsewhere
      exact elsewhere rfl
    rw [markAllocated_flag,if_neg notRoot]
    exact flag
  · simp only [serve,free_other held.grown start,Option.some.injEq] at taken
    subst taken
    exact held

def Tended (s : System) : Prop := ∃ n t, Held s n t

theorem reached_tended (path : Reached Started serve admits s) : Tended s := by
  refine path.invariant Tended (fun s start => ⟨_,_,started_held start⟩) ?_
  rintro s request next ⟨n,t,held⟩ _ taken
  cases request with
  | alloc len => exact held.alloc taken
  | free addr => exact ⟨n,t,held.free taken⟩

theorem Held.blocks_apart (held : Held s n t) : BlocksApart s := by
  have leafOf : ∀ p ∈ s.live, ∃ b ∈ leaves t windowStart 31, b.label = p := by
    intro p member
    obtain ⟨label,flag⟩ := held.live p member
    exact held.grown.marked p label flag
  refine ⟨?_,?_⟩
  · refine held.distinct.imp_of_mem ?_
    rintro p q one two differ x ⟨⟨lp,hp⟩,⟨lq,hq⟩⟩
    obtain ⟨b,bleaf,rfl⟩ := leafOf p one
    obtain ⟨c,cleaf,rfl⟩ := leafOf q two
    obtain ⟨bstart,blen,_⟩ := held.grown.block bleaf
    obtain ⟨cstart,clen,_⟩ := held.grown.block cleaf
    rw [bstart,blen] at hp
    rw [bstart] at lp
    rw [cstart,clen] at hq
    rw [cstart] at lq
    have apart := leaves_apart held.grown.planted.fits bleaf cleaf (by rintro rfl; exact differ rfl)
    exact apart ⟨x,⟨lp,hp⟩,lq,hq⟩
  · intro p member
    obtain ⟨b,leaf,rfl⟩ := leafOf p member
    obtain ⟨start,len,low,high,aligned,size,_⟩ := held.grown.block leaf
    rw [start,len]
    exact ⟨low,high,aligned,b.level,rfl,size⟩

theorem live_blocks_disjoint (path : Reached Started serve (fun _ r => r.Proper) s) : BlocksApart s := by
  obtain ⟨n,t,held⟩ := reached_tended path
  exact held.blocks_apart

-- Tree memory that holds zeros, and the arena that buddy_allocator__init makes of it.
def blankArena : Arena := ⟨fun _ => 0,fun _ => 0,fun _ => ⟨0,0,0,false,false,0,0,false⟩,0⟩
def firstArena : Arena := plantRoot (takeBlock (freshArena blankArena) (blockAt 0)) (nodeAt 0)

theorem booted_fresh (booted : mmInit powerOn info = some (.noError,mm)) (enough : 5120 ≤ (freeFrames mm).card) :
    ∃ paged, buddyAllocatorInit mm blankArena = some (.noError,⟨paged,firstArena⟩) ∧ Fresh mm ⟨paged,firstArena⟩ := by
  obtain ⟨paged,ran⟩ := arenaPages_return enough (fun page low _ => powerOn_reserved booted (.inr low))
  have planted : buddyAllocatorInit mm blankArena = some (.noError,⟨paged,firstArena⟩) := by
    simp only [buddyAllocatorInit,ran,allocNode_spec (freshArena_tiled blankArena),show 0 < maxNodes by decide,if_true]
    rfl
  exact ⟨paged,planted,init_fresh booted planted⟩

theorem started_fresh (booted : mmInit powerOn info = some (.noError,mm)) (enough : 5120 ≤ (freeFrames mm).card) :
    ∃ s : System, Started s ∧ s.live = [] ∧ Fresh mm s.allocator := by
  obtain ⟨paged,planted,fresh⟩ := booted_fresh booted enough
  exact ⟨⟨_,[]⟩,⟨rfl,info,mm,blankArena,booted,planted⟩,rfl,fresh⟩

-- A machine with that many eight-frame groups of memory behind the kernel's.
theorem ram_started (small : 2048+groups < 131072) (enough : 639 ≤ groups) :
    ∃ mm start, mmInit powerOn (loaded (ram 2048 groups)) = some (.noError,mm) ∧ (freeFrames mm).card = 8*groups+8 ∧
      Started start ∧ start.live = [] ∧ Fresh mm start.allocator := by
  obtain ⟨mm,booted,frames⟩ := ram_machine small
  have least := Finset.card_le_card frames
  have most := Finset.card_le_card (ram_frames small booted)
  rw [Nat.card_Ico] at least most
  obtain ⟨start,started,empty,fresh⟩ := started_fresh booted (by omega)
  exact ⟨mm,start,booted,by omega,started,empty,fresh⟩

theorem small_machine : ∃ mm start, mmInit powerOn (loaded (ram 2048 2048)) = some (.noError,mm) ∧ (freeFrames mm).card = 16392 ∧
    Started start ∧ start.live = [] ∧ Fresh mm start.allocator := ram_started (by decide) (by decide)

-- Its first block is one page at the start of the window, for every request
-- whose size window has no other block in it.
theorem first_page (few : len ≤ 65536) (fits : ∀ k ≤ 31, 12 ≤ k → Fitting len (2^k) ∨ k = 12 → k = 12) :
    ∃ start s node, Started start ∧ buddyAllocatorAlloc start.allocator len = some (.ok (windowStart,node),s) ∧
      serve start (.alloc len) = some ⟨s,[node]⟩ ∧
      Live s.arena node ∧ (s.arena.node node).vaddr = windowStart ∧ (s.arena.node node).len = 4096 := by
  obtain ⟨mm,start,_,card,started,empty,fresh⟩ := small_machine
  have left := fresh.frames
  have paid : ¬ remMem start.allocator < len := by
    rw [remMem,fresh.available]
    unfold word
    omega
  have room : ∀ k ≤ 31, 12 ≤ k → Fitting len (2^k) ∨ k = 12 → 2^k/4096 ≤ (freeFrames start.allocator.mm).card := by
    intro k small large size
    rw [fits k small large size]
    omega
  obtain ⟨node,next,k,ran,live,first,size,small,large,window⟩ := fresh.alloc paid room
  refine ⟨start,next,node,started,ran,?_,live,first,?_⟩
  · simp only [serve,ran,empty]
  · rw [size,fits k small large window]
    rfl

theorem hundred_bytes : ∃ s node, Reached Started serve (fun _ r => r.Proper ∧ r.IsAlloc) s ∧ s.live = [node] ∧
    Live s.allocator.arena node ∧ (s.allocator.arena.node node).vaddr = windowStart ∧
    (s.allocator.arena.node node).len = 4096 := by
  obtain ⟨start,s,node,started,_,taken,live,first,len⟩ := first_page (show 100 ≤ 65536 by decide) (by decide)
  exact ⟨_,node,(Reached.start started).extend (.alloc 100) ⟨show 100 < word by decide,trivial⟩ taken,rfl,live,first,len⟩

-- A search finds a block at an address; the arena with it marked is the next one searched.
def blockFound (need : Nat) (a : Arena) (vaddr len : Nat) : Option Arena :=
  match findSpace need searchDepth a.rootNode a with
  | some (.ok node,next) => if (next.node node).vaddr = vaddr ∧ (next.node node).len = len then some (markAllocated next node true) else none
  | _ => none

theorem alloc_page {s : Allocator} (found : blockFound need s.arena vaddr 4096 = some arena) (paid : ¬ remMem s < need)
    (free : 0 < (freeFrames s.mm).card) (low : vaddr < word) (unreserved : Bitmap.bit s.mm.vmAllocBitmap (vaddr/4096) = false) :
    ∃ node j, FirstFree s.mm j ∧
      buddyAllocatorAlloc s need = some (.ok (vaddr,node),⟨allocated s.mm (vaddr/4096) j 1,arena⟩) := by
  unfold blockFound at found
  split at found
  · rename_i node next searched
    split at found
    · rename_i place
      cases Option.some.inj found
      obtain ⟨j,first,called⟩ := mmAlloc_progress vaddr 4096 free unreserved
      refine ⟨node,j,first,?_⟩
      have paged : allocPages 1 vaddr s.mm = some (.noError,allocated s.mm (vaddr/4096) j 1) := by
        rw [allocPages,Nat.mod_eq_of_lt low,called]
        rfl
      rw [buddyAllocatorAlloc,if_neg paid,searched]
      dsimp only
      rw [place.1,place.2,show pageCount 4096 = 1 by decide,paged]
    · cases found
  · cases found

structure Supply (mm : Mm) : Prop where
  paid : ∀ arena, ∀ need ≤ 65536, ¬ remMem ⟨mm,arena⟩ < need
  frames : 2 ≤ (freeFrames mm).card
  first : Bitmap.bit mm.vmAllocBitmap (windowStart/4096) = false
  second : Bitmap.bit mm.vmAllocBitmap ((windowStart+4096)/4096) = false

def Booted (a : Allocator) : Prop := ∃ info mm, mmInit powerOn info = some (.noError,mm) ∧ buddyAllocatorInit mm blankArena = some (.noError,a)

theorem machine_fresh : ∃ info first mm, mmInit powerOn info = some (.noError,first) ∧
    buddyAllocatorInit first blankArena = some (.noError,⟨mm,firstArena⟩) ∧ Fresh first ⟨mm,firstArena⟩ ∧
    16392 ≤ (freeFrames first).card ∧ (freeFrames first).card ≤ 1032192 := by
  obtain ⟨first,booted,frames⟩ := ram_machine (show 2048+2048 < 131072 by decide)
  have card : 16392 ≤ (freeFrames first).card := by simpa using Finset.card_le_card frames
  have bound : (freeFrames first).card ≤ 1032192 := by
    obtain ⟨detected,rfl⟩ := mmInit_reserves booted
    rw [← reserveKernel_available]
    exact reserveKernel_bound _ _
  obtain ⟨mm,planted,fresh⟩ := booted_fresh booted (by omega)
  exact ⟨_,first,mm,booted,planted,fresh,card,bound⟩

theorem machine_booted : ∃ mm, Booted ⟨mm,firstArena⟩ ∧ Supply mm := by
  obtain ⟨info,first,mm,booted,planted,fresh,card,bound⟩ := machine_fresh
  have frames := fresh.frames
  have available := fresh.available
  dsimp only at frames available
  refine ⟨mm,⟨info,first,booted,planted⟩,?_,by omega,fresh.window _ (by decide) (by decide),fresh.window _ (by decide) (by decide)⟩
  intro arena need small
  show ¬ mm.availableBlockCount*4096 % word < need
  rw [available]
  unfold word
  omega

theorem two_pages_found : (blockFound 100 firstArena windowStart 4096).any (fun a => (blockFound 200 a (windowStart+4096) 4096).isSome) = true := by
  decide +kernel

theorem two_pages : ∃ s p q, Reached Started serve (fun _ r => r.Proper ∧ r.IsAlloc) s ∧ s.live = [q,p] := by
  obtain ⟨mm,⟨info,first,booted,planted⟩,supply⟩ := machine_booted
  have pages := two_pages_found
  cases found : blockFound 100 firstArena windowStart 4096 with
  | none => simp [found] at pages
  | some arena =>
    rw [found] at pages
    obtain ⟨arena',found'⟩ := Option.isSome_iff_exists.mp (show (blockFound 200 arena (windowStart+4096) 4096).isSome = true from pages)
    have enough := supply.frames
    obtain ⟨p,j,free,alloc⟩ := @alloc_page 100 windowStart arena ⟨mm,firstArena⟩ found (supply.paid _ _ (by decide)) (by dsimp only; omega)
      (by decide) supply.first
    have left := freeFrames_allocated free (windowStart/4096) 1
    obtain ⟨q,j',_,alloc'⟩ := @alloc_page 200 (windowStart+4096) arena' ⟨allocated mm (windowStart/4096) j 1,arena⟩ found'
      (supply.paid arena _ (by decide)) (by dsimp only at left ⊢; omega) (by decide) (by
        show bit (setBit mm.vmAllocBitmap _) _ = false
        rw [bit_setBit,supply.second]
        decide)
    have start : Reached Started serve (fun _ r => r.Proper ∧ r.IsAlloc) ⟨⟨mm,firstArena⟩,[]⟩ := .start ⟨rfl,info,first,blankArena,booted,planted⟩
    have taken : serve ⟨⟨mm,firstArena⟩,[]⟩ (.alloc 100) = some ⟨⟨allocated mm (windowStart/4096) j 1,arena⟩,[p]⟩ := by
      simp only [serve,alloc]
    have taken' : serve ⟨⟨allocated mm (windowStart/4096) j 1,arena⟩,[p]⟩ (.alloc 200) =
        some ⟨⟨allocated (allocated mm (windowStart/4096) j 1) ((windowStart+4096)/4096) j' 1,arena'⟩,[q,p]⟩ := by
      simp only [serve,alloc']
    have one := start.extend (.alloc 100) ⟨show 100 < word by decide,trivial⟩ taken
    exact ⟨_,p,q,one.extend (.alloc 200) ⟨show 200 < word by decide,trivial⟩ taken',rfl⟩

theorem live_blocks_disjoint_two : ∃ s, Reached Started serve (fun _ r => r.Proper) s ∧ s.live.length = 2 ∧ BlocksApart s := by
  obtain ⟨s,p,q,path,live⟩ := two_pages
  have path := path.weaken (fun _ _ both => both.1)
  exact ⟨s,path,by simp [live],live_blocks_disjoint path⟩

-- The pages of a block, and of all blocks in use.
def pagesOf (a : Arena) (p : Nat) : Set Nat :=
  {page | (a.node p).vaddr/4096 ≤ page ∧ page < ((a.node p).vaddr+(a.node p).len)/4096}

theorem pagesOf_mark (a : Arena) (q : Nat) (flag : Bool) (p : Nat) : pagesOf (markAllocated a q flag) p = pagesOf a p := by
  have same := markAllocated_same a q flag p
  simp only [pagesOf,same.vaddr,same.len]

def livePages (a : Arena) : Set Nat := {page | ∃ p, Live a p ∧ page ∈ pagesOf a p}

def FullyBacked (s : Allocator) : Prop :=
  (∀ p, Live s.arena p → ∀ page ∈ pagesOf s.arena p,
    bit s.mm.vmAllocBitmap page = true ∧ bit s.mm.pageAllocBitmap (frame s.mm.tables page) = true) ∧
  Set.InjOn (frame s.mm.tables) (livePages s.arena)

-- The tree together with the pages that are known to be backed: those of every
-- allocated node, and those of requests that stopped midway.
structure Supplied (s : System) (n : Nat) (t : DyadicTree Nat) (held : Set Nat) : Prop where
  tree : Held s n t
  backed : Backed s.allocator.mm held
  covers : ∀ p ∈ t.labels, (s.allocator.arena.node p).isAllocated = true → pagesOf s.allocator.arena p ⊆ held

theorem started_supplied (start : Started s) : Supplied s 1 (.leaf (nodeAt 0)) ∅ := by
  have tree := started_held start
  obtain ⟨_,info,mm,old,_,ran⟩ := start
  obtain ⟨_,_,free⟩ := init_grown ran
  refine ⟨tree,.empty _,?_⟩
  intro p member flag
  cases List.mem_singleton.mp member
  rw [free] at flag
  cases flag

theorem Supplied.explored (supplied : Supplied s n t held)
    (explored : Explored s.allocator.arena b n n' t t' windowStart 31) (backed : Backed mm held') (more : held ⊆ held') :
    Supplied ⟨⟨mm,b⟩,s.live⟩ n' t' held' := by
  refine ⟨supplied.tree.explored explored mm,backed,?_⟩
  intro p member flag
  have flag : (b.node p).isAllocated = true := flag
  rcases explored.origin p member with old | new
  · obtain ⟨same,start,len⟩ := explored.kept p (supplied.tree.grown.planted.bounded p old)
    rw [same] at flag
    have pages : pagesOf b p = pagesOf s.allocator.arena p := by simp only [pagesOf,start,len]
    show pagesOf b p ⊆ held'
    rw [pages]
    exact (supplied.covers p old flag).trans more
  · rw [explored.fresh p member new] at flag
    cases flag

theorem Supplied.paged (supplied : Supplied s n t held)
    (searched : findSpace len searchDepth s.allocator.arena.rootNode s.allocator.arena = some (.ok node,arena))
    (paged : allocPages (pageCount (arena.node node).len) (arena.node node).vaddr s.allocator.mm = some (ret,mm)) :
    ∃ n' t' held', Supplied ⟨⟨mm,arena⟩,s.live⟩ n' t' held' ∧ Found len arena t' windowStart 31 node ∧
      (ret = .noError → pagesOf arena node ⊆ held') := by
  obtain ⟨n',t',explored,grown,found⟩ := supplied.tree.grown.search searched
  have found := found node rfl
  obtain ⟨b,leaf,rfl,_⟩ := id found
  obtain ⟨start,size,_,high,aligned,_,c,multiple⟩ := grown.block leaf
  have rounds : pageCount (2^b.level) = c := by
    rw [multiple,pageCount]
    omega
  rw [start,size,rounds] at paged
  obtain ⟨held',more,backed,all⟩ := allocPages_backed supplied.backed aligned (by unfold word; omega) paged
  refine ⟨n',t',held',supplied.explored explored backed more,found,?_⟩
  rintro good page ⟨low,below⟩
  rw [start] at low
  rw [start,size,multiple] at below
  have member := all good (page-b.start/4096) (by omega)
  rwa [Nat.add_sub_cancel' low] at member

theorem Supplied.mark (supplied : Supplied ⟨⟨mm,a⟩,blocks⟩ n t held) (found : Found len a t windowStart 31 node)
    (covered : pagesOf a node ⊆ held) : Supplied ⟨⟨mm,markAllocated a node true⟩,node::blocks⟩ n t held := by
  obtain ⟨b,leaf,rfl,free,_⟩ := found
  refine ⟨supplied.tree.mark leaf free,supplied.backed,?_⟩
  intro p member flag
  have flag : ((markAllocated a b.label true).node p).isAllocated = true := flag
  show pagesOf (markAllocated a b.label true) p ⊆ held
  rw [pagesOf_mark]
  rw [markAllocated_flag] at flag
  split at flag
  · rename_i here
    rw [here]
    exact covered
  · exact supplied.covers p member flag

theorem Supplied.alloc (supplied : Supplied s n t held) (taken : serve s (.alloc len) = some next) :
    ∃ n' t' held', Supplied next n' t' held' := by
  cases serve_alloc taken with
  | refused _ => exact ⟨n,t,held,supplied⟩
  | unfound searched =>
    obtain ⟨n',t',explored,_,_⟩ := supplied.tree.grown.search searched
    exact ⟨n',t',held,supplied.explored explored supplied.backed subset_rfl⟩
  | unbacked searched paged _ =>
    obtain ⟨n',t',held',partly,_,_⟩ := supplied.paged searched paged
    exact ⟨n',t',held',partly⟩
  | done searched paged =>
    obtain ⟨n',t',held',wholly,found,covered⟩ := supplied.paged searched paged
    exact ⟨n',t',held',wholly.mark found (covered rfl)⟩

theorem Supplied.fully_backed (supplied : Supplied s n t held) : FullyBacked s.allocator := by
  have inside : livePages s.allocator.arena ⊆ held := by
    rintro page ⟨p,live,member⟩
    exact supplied.covers p (supplied.tree.grown.node_label live.1) live.2 member
  refine ⟨?_,supplied.backed.owned.apart.mono inside⟩
  intro p live page member
  have known := inside ⟨p,live,member⟩
  exact ⟨supplied.backed.reserved page known,supplied.backed.owned.inside known⟩

def Stocked (s : System) : Prop := ∃ n t held, Supplied s n t held

theorem live_blocks_backed (path : Reached Started serve (fun _ r => r.Proper ∧ r.IsAlloc) s) : FullyBacked s.allocator := by
  have stocked : Stocked s := by
    refine path.invariant Stocked (fun s start => ⟨_,_,_,started_supplied start⟩) ?_
    rintro s request next ⟨n,t,held,supplied⟩ ⟨_,allocates⟩ taken
    cases request with
    | alloc len => exact supplied.alloc taken
    | free addr => cases allocates
  obtain ⟨n,t,held,supplied⟩ := stocked
  exact supplied.fully_backed

theorem live_blocks_backed_two : ∃ s p q, Reached Started serve (fun _ r => r.Proper ∧ r.IsAlloc) s ∧
    p ≠ q ∧ Live s.allocator.arena p ∧ Live s.allocator.arena q ∧ FullyBacked s.allocator := by
  obtain ⟨s,p,q,path,live⟩ := two_pages
  obtain ⟨n,t,held⟩ := reached_tended path
  have alive : ∀ x ∈ s.live, Live s.allocator.arena x := fun x member =>
    ⟨held.grown.label_node (held.live x member).1,(held.live x member).2⟩
  have distinct := held.distinct
  rw [live] at alive distinct
  have differ : p ≠ q := by
    rintro rfl
    simp at distinct
  exact ⟨s,p,q,path,differ,alive p (by simp),alive q (by simp),live_blocks_backed path⟩

-- What freeing a block should do, to the tree, the bitmaps and the page tables.
structure Releases (s next : Allocator) (p : Nat) : Prop where
  cleared : next.arena.node p = {s.arena.node p with isAllocated := false}
  nodes : ∀ q, q ≠ p → next.arena.node q = s.arena.node q
  virtual : ∀ page, bit next.mm.vmAllocBitmap page = true ↔ bit s.mm.vmAllocBitmap page = true ∧ page ∉ pagesOf s.arena p
  physical : ∀ f, bit next.mm.pageAllocBitmap f = true ↔
    bit s.mm.pageAllocBitmap f = true ∧ ∀ page ∈ pagesOf s.arena p, frame s.mm.tables page ≠ f
  others : ∀ q, q ≠ p → Live s.arena q → ∀ page ∈ pagesOf s.arena q,
    frame next.mm.tables page = frame s.mm.tables page ∧
    bit next.mm.vmAllocBitmap page = bit s.mm.vmAllocBitmap page ∧
    bit next.mm.pageAllocBitmap (frame s.mm.tables page) = bit s.mm.pageAllocBitmap (frame s.mm.tables page)

def FreesExactlyOne (s : Allocator) (addr : Nat) : Prop :=
  (∀ p, Live s.arena p → (s.arena.node p).vaddr = addr →
    ∃ next, buddyAllocatorFree s addr = some (.noError,next) ∧ Releases s next p) ∧
  ((∀ p, Live s.arena p → (s.arena.node p).vaddr ≠ addr) → buddyAllocatorFree s addr = some (.notFound,s))

theorem root_released {s : Allocator} (grown : Grown s.arena n t) (whole : (s.arena.node s.arena.rootNode).isAllocated = true) :
    Releases s ⟨freePages 524288 windowStart s.mm,markAllocated s.arena s.arena.rootNode false⟩ s.arena.rootNode := by
  obtain ⟨start,len⟩ := grown.root_record
  obtain ⟨virtual,physical,_⟩ := @freePages_given s.mm 524288 windowStart
  have range : pagesOf s.arena s.arena.rootNode = {page | windowStart/4096 ≤ page ∧ page < windowStart/4096+524288} := by
    rw [pagesOf,start,len]
    rfl
  refine ⟨by simp [markAllocated],fun q other => by simp [markAllocated,other],?_,?_,?_⟩
  · rw [range]
    exact virtual
  · rw [range]
    intro f
    rw [physical f]
    exact and_congr_right fun _ => ⟨fun all page inside => all page inside.1 inside.2,fun all page low high => all page ⟨low,high⟩⟩
  · intro q other live
    exact absurd (grown.only_root whole live) other

-- The address of the window: the call always acts on the root.
theorem Held.frees_start (held : Held s n t) : FreesExactlyOne s.allocator windowStart ↔
    (s.allocator.arena.node s.allocator.arena.rootNode).isAllocated = true := by
  have freed := free_start held.grown
  constructor
  · rintro ⟨found,absent⟩
    by_contra unmarked
    have noLive : ∀ p, Live s.allocator.arena p → (s.allocator.arena.node p).vaddr ≠ windowStart := by
      intro p live here
      -- The block is a node below the root, and the call clears the root's flag.
      obtain ⟨next,ran,released⟩ := found p live here
      have equal := (Prod.mk.inj (Option.some.inj (ran.symm.trans freed))).2
      have notRoot : p ≠ s.allocator.arena.rootNode := by
        intro same
        exact unmarked (same ▸ live.2)
      have flag := congrArg TreeNode.isAllocated released.cleared
      rw [equal,markAllocated_flag,if_neg notRoot,live.2] at flag
      cases flag
    have bad := (Prod.mk.inj (Option.some.inj (freed.symm.trans (absent noLive)))).1
    cases bad
  · intro whole
    refine ⟨?_,?_⟩
    · intro p live _
      cases held.grown.only_root whole live
      exact ⟨_,freed,root_released held.grown whole⟩
    · intro none
      exact absurd held.grown.root_record.1 (none _ ⟨.root,whole⟩)

-- Any other address: the call finds nothing.
theorem Held.frees_other (held : Held s n t) (other : addr ≠ windowStart) : FreesExactlyOne s.allocator addr ↔
    ∀ p, Live s.allocator.arena p → (s.allocator.arena.node p).vaddr ≠ addr := by
  have missed := free_other held.grown other
  constructor
  · rintro ⟨found,_⟩ p live here
    obtain ⟨next,ran,_⟩ := found p live here
    cases Option.some.inj (missed.symm.trans ran)
  · intro none
    exact ⟨fun p live here => absurd here (none p live),fun _ => missed⟩

theorem Held.frees_iff (held : Held s n t) (addr : Nat) : FreesExactlyOne s.allocator addr ↔
    (addr = windowStart ∧ (s.allocator.arena.node s.allocator.arena.rootNode).isAllocated = true) ∨
    (addr ≠ windowStart ∧ ∀ p, Live s.allocator.arena p → (s.allocator.arena.node p).vaddr ≠ addr) := by
  by_cases start : addr = windowStart
  · subst start
    rw [held.frees_start]
    simp
  · rw [held.frees_other start]
    simp [start]

theorem free_exact_iff (path : Reached Started serve (fun _ r => r.Proper) s) (addr : Nat) :
    FreesExactlyOne s.allocator addr ↔
    (addr = windowStart ∧ (s.allocator.arena.node s.allocator.arena.rootNode).isAllocated = true) ∨
    (addr ≠ windowStart ∧ ∀ p, Live s.allocator.arena p → (s.allocator.arena.node p).vaddr ≠ addr) := by
  obtain ⟨n,t,held⟩ := reached_tended path
  exact held.frees_iff addr

theorem Held.page_below (held : Held s n t) (live : Live s.allocator.arena p) (len : (s.allocator.arena.node p).len = 4096) :
    (s.allocator.arena.node s.allocator.arena.rootNode).isAllocated ≠ true := by
  intro whole
  have top := held.grown.root_record.2
  rw [← held.grown.only_root whole live,len] at top
  exact absurd top (by decide)

theorem free_exact_iff_one : ∃ s, Reached Started serve (fun _ r => r.Proper) s ∧
    FreesExactlyOne s.allocator 0 ∧ ¬ FreesExactlyOne s.allocator windowStart := by
  obtain ⟨s,node,path,_,live,first,len⟩ := hundred_bytes
  have path := path.weaken (fun _ _ both => both.1)
  obtain ⟨n,t,held⟩ := reached_tended path
  refine ⟨s,path,?_,?_⟩
  · refine (free_exact_iff path 0).mpr (.inr ⟨by decide,?_⟩)
    intro p live
    obtain ⟨b,leaf,rfl⟩ := held.grown.live_leaf live
    obtain ⟨start,_,low,_⟩ := held.grown.block leaf
    omega
  · rw [free_exact_iff path windowStart]
    rintro (⟨_,whole⟩ | ⟨other,_⟩)
    · exact held.page_below live len whole
    · exact other rfl

-- alloc(100) and then free(0x10000000): the call succeeds, but the flag it
-- clears is the root's, and the block's own stays set.
theorem freed_block_stays_allocated : ∃ s node, Reached Started serve (fun _ r => r.Proper) s ∧ Live s.allocator.arena node ∧
    (s.allocator.arena.node node).vaddr = 0x10000000 ∧ ¬ FreesExactlyOne s.allocator 0x10000000 := by
  obtain ⟨s,node,path,_,live,first,len⟩ := hundred_bytes
  have path := path.weaken (fun _ _ both => both.1)
  obtain ⟨n,t,held⟩ := reached_tended path
  refine ⟨s,node,path,live,first,?_⟩
  intro frees
  rcases (held.frees_iff windowStart).mp frees with ⟨_,whole⟩ | ⟨other,_⟩
  · exact held.page_below live len whole
  · exact other rfl

end KaracaOS.BuddyRuns
