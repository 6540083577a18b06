import KaracaOS.StepRuns
import KaracaOS.BootMap
import KaracaOS.BuddyTree

namespace KaracaOS.BuddyAllocator
open Bitmap Paging MemoryManager BuddyArena BuddyTree DyadicTree StepRuns

structure Allocator where
  mm : Mm
  arena : Arena

def windowStart : Nat := 0x10000000
def windowLen : Nat := 0x90000000-0x10000000

def arenaPages : Nat := treeAreaSize/4096

-- One round of the first loop of buddy_allocator__init. An error is printed and
-- the kernel spins for good (none).
def arenaPage (mm : Mm) (i : Nat) : Option Mm :=
  match mmAlloc mm (0xC8000000+i*4096) 4096 with
  | some (.ok _,mm) => some mm
  | _ => none

-- `old` is what the arena's memory held before.
def freshArena (old : Arena) : Arena :=
  {old with
    used := Function.update (Function.update old.used treeLocation 1) (treeLocation+16) 0
    size := Function.update (Function.update old.size treeLocation 16) (treeLocation+16) (treeAreaSize-8-8)}

def plantRoot (a : Arena) (rootNode : Nat) : Arena :=
  {a with
    node := Function.update a.node rootNode {a.node rootNode with len := windowLen,vaddr := windowStart,isAllocated := false}
    rootNode := rootNode}

def buddyAllocatorInit (mm : Mm) (old : Arena) : Option (SysRet × Allocator) :=
  match repeated arenaPage arenaPages 0 mm with
  | none => none
  | some mm =>
    match allocNode (freshArena old) with
    | none => none
    | some (.error ret,a) => some (ret,⟨mm,a⟩)
    | some (.ok rootNode,a) => some (.noError,⟨mm,plantRoot a rootNode⟩)

-- The page loop of buddy_allocator__alloc: it returns on the first error.
def allocPages : Nat → Nat → Mm → Option (SysRet × Mm)
  | 0,_,mm => some (.noError,mm)
  | pages+1,i,mm =>
    match mmAlloc mm (i%word) 4096 with
    | none => none
    | some (.error ret,mm) => some (ret,mm)
    | some (.ok _,mm) => allocPages pages (i+4096) mm

-- Rounds of for (i = vaddr; i < vaddr + len; i += 4096).
def pageCount (len : Nat) : Nat := (len+4095)/4096

def remMem (s : Allocator) : Nat := s.mm.availableBlockCount*4096 % word

-- A length below 2^32 can be halved 32 times.
def searchDepth : Nat := 33

def markAllocated (a : Arena) (node : Nat) (flag : Bool) : Arena :=
  {a with node := Function.update a.node node {a.node node with isAllocated := flag}}

-- .ok carries *out_addr and the node it belongs to, which the caller never sees.
def buddyAllocatorAlloc (s : Allocator) (len : Nat) : Option (Except SysRet (Nat × Nat) × Allocator) :=
  if remMem s < len then some (.error .memAllocError,s) else
  match findSpace len searchDepth s.arena.rootNode s.arena with
  | none => none
  | some (.error ret,arena) => some (.error ret,⟨s.mm,arena⟩)
  | some (.ok node,arena) =>
    let info := arena.node node
    match allocPages (pageCount info.len) info.vaddr s.mm with
    | none => none
    | some (.noError,mm) => some (.ok (info.vaddr,node),⟨mm,markAllocated arena node true⟩)
    | some (ret,mm) => some (.error ret,⟨mm,arena⟩)

-- `info` is read once, for the root, and never moved along with `node`.
def freeWalk (a : Arena) (info addr : Nat) : Nat → Nat → Option SysRet
  | 0,_ => none
  | fuel+1,node =>
    if (a.node info).vaddr = addr then some .noError
    else
      let node :=
        if (a.node info).vaddr < addr then (a.node node).right
        else if addr < (a.node info).vaddr then (a.node node).left
        else node
      if node = 0 then some .notFound else freeWalk a info addr fuel node

def freePages : Nat → Nat → Mm → Mm
  | 0,_,mm => mm
  | pages+1,i,mm => freePages pages (i+4096) (mmFree mm i).2

def buddyAllocatorFree (s : Allocator) (addr : Nat) : Option (SysRet × Allocator) :=
  let info := s.arena.rootNode
  let root := s.arena.node info
  match freeWalk s.arena info addr searchDepth info with
  | none => none
  | some .noError =>
    some (.noError,⟨freePages (pageCount ((root.vaddr+root.len)%word-root.vaddr)) root.vaddr s.mm,markAllocated s.arena info false⟩)
  | some ret => some (ret,s)

-- Nodes reachable from the root, and those that hold a block.
inductive Node (a : Arena) : Nat → Prop where
  | root : Node a a.rootNode
  | left : Node a p → (a.node p).left ≠ 0 → Node a (a.node p).left
  | right : Node a p → (a.node p).right ≠ 0 → Node a (a.node p).right

def Live (a : Arena) (p : Nat) : Prop := Node a p ∧ (a.node p).isAllocated = true

-- The allocator's tree: it covers the window, and no allocated node is split.
structure Grown (a : Arena) (n : Nat) (t : DyadicTree Nat) : Prop where
  planted : Planted a n t windowStart 31
  root : a.rootNode = t.label
  marked : ∀ p ∈ t.labels, (a.node p).isAllocated = true → ∃ b ∈ leaves t windowStart 31, b.label = p

variable {s next : Allocator} {a : Arena} {n : Nat} {t : DyadicTree Nat}

theorem holds_child (holds : Holds a t v k) (member : p ∈ t.labels) :
    ((a.node p).left ≠ 0 → (a.node p).left ∈ t.labels) ∧ ((a.node p).right ≠ 0 → (a.node p).right ∈ t.labels) := by
  induction t generalizing v k with
  | leaf q =>
    cases List.mem_singleton.mp member
    exact ⟨fun some_ => absurd holds.2.1.1 some_,fun some_ => absurd holds.2.1.2 some_⟩
  | fork q l r ihl ihr =>
    obtain ⟨_,left,right,_,_,lower,upper⟩ := holds
    rcases List.mem_cons.mp member with rfl | below
    · exact ⟨fun _ => by simp [labels,left],fun _ => by simp [labels,right]⟩
    · rcases List.mem_append.mp below with inl | inr
      · obtain ⟨one,two⟩ := ihl lower inl
        exact ⟨fun some_ => by simp [labels,one some_],fun some_ => by simp [labels,two some_]⟩
      · obtain ⟨one,two⟩ := ihr upper inr
        exact ⟨fun some_ => by simp [labels,one some_],fun some_ => by simp [labels,two some_]⟩

theorem Grown.node_label (grown : Grown a n t) (node : Node a p) : p ∈ t.labels := by
  induction node with
  | root => simp [grown.root]
  | left _ some_ ih => exact (holds_child grown.planted.holds ih).1 some_
  | right _ some_ ih => exact (holds_child grown.planted.holds ih).2 some_

theorem holds_node (holds : Holds a t v k) (top : Node a t.label) (member : p ∈ t.labels) : Node a p := by
  induction t generalizing v k with
  | leaf q =>
    cases List.mem_singleton.mp member
    exact top
  | fork q l r ihl ihr =>
    obtain ⟨_,left,right,_,_,lower,upper⟩ := holds
    have first : Node a l.label := left ▸ .left top (by rw [left]; exact lower.present)
    have second : Node a r.label := right ▸ .right top (by rw [right]; exact upper.present)
    rcases List.mem_cons.mp member with rfl | below
    · exact top
    · rcases List.mem_append.mp below with inl | inr
      · exact ihl lower first inl
      · exact ihr upper second inr

theorem Grown.label_node (grown : Grown a n t) (member : p ∈ t.labels) : Node a p :=
  holds_node grown.planted.holds (grown.root ▸ .root) member

theorem Grown.live_leaf (grown : Grown a n t) (live : Live a p) : ∃ b ∈ leaves t windowStart 31, b.label = p :=
  grown.marked p (grown.node_label live.1) live.2

theorem Grown.root_record (grown : Grown a n t) :
    (a.node a.rootNode).vaddr = windowStart ∧ (a.node a.rootNode).len = windowLen := by
  rw [grown.root]
  exact grown.planted.holds.start

theorem Grown.block (grown : Grown a n t) (leaf : b ∈ leaves t windowStart 31) :
    (a.node b.label).vaddr = b.start ∧ (a.node b.label).len = 2^b.level ∧
      0x10000000 ≤ b.start ∧ b.start+2^b.level ≤ 0x90000000 ∧ b.start % 4096 = 0 ∧ 4096 ≤ 2^b.level ∧ 4096 ∣ 2^b.level := by
  obtain ⟨start,len⟩ := grown.planted.holds.leaf_record leaf
  obtain ⟨low,high,least,_,m,placed⟩ := leaf_inside grown.planted.fits leaf
  have page : 2^12 ∣ 2^b.level := pow_dvd_pow 2 least
  obtain ⟨c,multiple⟩ := page
  refine ⟨start,len,low,high,?_,?_,⟨c,multiple⟩⟩
  · rw [placed,multiple]
    unfold windowStart
    have regroup : m*(2^12*c) = 4096*(m*c) := by ring
    rw [regroup]
    omega
  · exact Nat.pow_le_pow_right (n := 2) (by decide) least

theorem Grown.only_root (grown : Grown a n t) (whole : (a.node a.rootNode).isAllocated = true) (live : Live a p) :
    p = a.rootNode := by
  rw [grown.root] at whole ⊢
  obtain ⟨b,leaf,label⟩ := grown.marked t.label (label_mem t) whole
  have known := grown.node_label live.1
  cases t with
  | leaf q => exact List.mem_singleton.mp known
  | fork q l r =>
    have top := (List.nodup_cons.mp grown.planted.distinct).1
    have below : b.label ∈ l.labels ++ r.labels := by
      rcases List.mem_append.mp leaf with left | right
      · exact List.mem_append.mpr (.inl (leaf_label left))
      · exact List.mem_append.mpr (.inr (leaf_label right))
    rw [label] at below
    exact absurd below top

theorem freshArena_tiled (old : Arena) : Tiled (freshArena old) 0 := by
  have apart : treeLocation ≠ treeLocation+16 := by decide
  have first : blockAt 0 = treeLocation+16 := rfl
  refine ⟨by simp [freshArena],fun i below => by omega,?_,by decide⟩
  rw [first]
  exact ⟨by simp [freshArena],by simp [freshArena]; decide⟩

theorem init_grown (ran : buddyAllocatorInit mm old = some (.noError,s)) :
    repeated arenaPage arenaPages 0 mm = some s.mm ∧ Grown s.arena 1 (.leaf (nodeAt 0)) ∧
      (s.arena.node (nodeAt 0)).isAllocated = false := by
  unfold buddyAllocatorInit at ran
  cases paged : repeated arenaPage arenaPages 0 mm with
  | none => simp [paged] at ran
  | some mm' =>
    have tiled := freshArena_tiled old
    simp only [paged,allocNode_spec tiled,show 0 < maxNodes by decide,if_true,Option.some.injEq,Prod.mk.injEq,true_and] at ran
    subst ran
    have tiled' := takeBlock_tiled tiled (by decide)
    have leaf := takeBlock_leaf (freshArena old) 0
    refine ⟨rfl,⟨⟨⟨tiled'.tree,tiled'.nodes,tiled'.rest,tiled'.room⟩,?_,show 12 ≤ 31 by decide,by simp [labels],?_⟩,rfl,?_⟩,?_⟩
    · refine ⟨by decide,?_,?_,?_⟩
      · simp only [plantRoot,Function.update_self]
        exact leaf
      · simp [plantRoot]
      · simp [plantRoot,windowLen]
    · intro p member
      cases List.mem_singleton.mp member
      decide
    · intro p member flag
      cases List.mem_singleton.mp member
      simp [plantRoot] at flag
    · simp [plantRoot]

theorem markAllocated_same (a : Arena) (node : Nat) (flag : Bool) (p : Nat) : SameLinks (a.node p) ((markAllocated a node flag).node p) := by
  by_cases here : p = node
  · subst here
    simp only [markAllocated,Function.update_self]
    exact ⟨rfl,rfl,rfl,rfl⟩
  · exact .of_eq (Function.update_of_ne here _ _)

theorem markAllocated_flag (a : Arena) (node : Nat) (flag : Bool) (p : Nat) :
    ((markAllocated a node flag).node p).isAllocated = if p = node then flag else (a.node p).isAllocated := by
  by_cases here : p = node
  · subst here
    simp [markAllocated]
  · simp [markAllocated,here]

theorem Grown.mark (grown : Grown a n t) (fits : flag = true → ∃ b ∈ leaves t windowStart 31, b.label = node) :
    Grown (markAllocated a node flag) n t := by
  obtain ⟨tiled,holds,fit,distinct,bounded⟩ := grown.planted
  refine ⟨⟨⟨tiled.tree,tiled.nodes,tiled.rest,tiled.room⟩,
    holds.transport (fun p _ => markAllocated_same a node flag p),fit,distinct,bounded⟩,grown.root,?_⟩
  intro p member marked
  rw [markAllocated_flag] at marked
  split at marked
  · rename_i here
    rw [here]
    exact fits marked
  · exact grown.marked p member marked

theorem Grown.explored (grown : Grown a n t) (explored : Explored a b n n' t t' windowStart 31) : Grown b n' t' := by
  refine ⟨explored.planted,?_,?_⟩
  · rw [explored.root,grown.root,explored.grows.label]
  · intro p member flag
    rcases explored.origin p member with old | new
    · have before : (a.node p).isAllocated = true := by
        rw [← (explored.kept p (grown.planted.bounded p old)).1]
        exact flag
      obtain ⟨c,leaf,rfl⟩ := grown.marked p old before
      exact ⟨c,explored.grows.frozen_leaf before leaf,rfl⟩
    · rw [explored.fresh p member new] at flag
      cases flag

inductive Outcome (s : Allocator) (len : Nat) : Except SysRet (Nat × Nat) → Allocator → Prop where
  | refused : remMem s < len → Outcome s len (.error .memAllocError) s
  | unfound : ¬ remMem s < len → findSpace len searchDepth s.arena.rootNode s.arena = some (.error ret,arena) →
      Outcome s len (.error ret) ⟨s.mm,arena⟩
  | unbacked : ¬ remMem s < len → findSpace len searchDepth s.arena.rootNode s.arena = some (.ok node,arena) →
      allocPages (pageCount (arena.node node).len) (arena.node node).vaddr s.mm = some (ret,mm) → ret ≠ .noError →
      Outcome s len (.error ret) ⟨mm,arena⟩
  | done : ¬ remMem s < len → findSpace len searchDepth s.arena.rootNode s.arena = some (.ok node,arena) →
      allocPages (pageCount (arena.node node).len) (arena.node node).vaddr s.mm = some (.noError,mm) →
      Outcome s len (.ok ((arena.node node).vaddr,node)) ⟨mm,markAllocated arena node true⟩

theorem alloc_cases (ran : buddyAllocatorAlloc s len = some (result,next)) : Outcome s len result next := by
  unfold buddyAllocatorAlloc at ran
  split at ran
  · rename_i short
    cases Option.some.inj ran
    exact .refused short
  · rename_i enough
    cases found : findSpace len searchDepth s.arena.rootNode s.arena with
    | none => simp [found] at ran
    | some outcome =>
      obtain ⟨answer,arena⟩ := outcome
      cases answer with
      | error ret =>
        simp only [found] at ran
        cases Option.some.inj ran
        exact .unfound enough found
      | ok node =>
        simp only [found] at ran
        cases paged : allocPages (pageCount (arena.node node).len) (arena.node node).vaddr s.mm with
        | none => simp [paged] at ran
        | some outcome =>
          obtain ⟨ret,mm⟩ := outcome
          by_cases good : ret = .noError
          · subst good
            simp only [paged] at ran
            cases Option.some.inj ran
            exact .done enough found paged
          · have ran : some (.error ret,⟨mm,arena⟩) = some (result,next) := by
              rw [← ran]
              cases ret <;> simp_all
            cases Option.some.inj ran
            exact .unbacked enough found paged good

theorem Grown.search (grown : Grown a n t) (ran : findSpace len searchDepth a.rootNode a = some (answer,b)) :
    ∃ n' t', Explored a b n n' t t' windowStart 31 ∧ Grown b n' t' ∧
      ∀ q, answer = .ok q → Found len b t' windowStart 31 q := by
  rw [grown.root] at ran
  obtain ⟨n',t',explored,found⟩ := findSpace_explores len searchDepth grown.planted (by decide) ran
  exact ⟨n',t',explored,grown.explored explored,found⟩

theorem freeWalk_start (a : Arena) (here : (a.node info).vaddr = addr) (fuel node : Nat) :
    freeWalk a info addr (fuel+1) node = some .noError := by
  rw [freeWalk,if_pos here]

theorem freeWalk_other (holds : Holds a t v k) (fits : Fits 12 t k) (other : (a.node info).vaddr ≠ addr) (enough : k-12 < fuel) :
    freeWalk a info addr fuel t.label = some .notFound := by
  induction t generalizing v k fuel with
  | leaf p =>
    obtain ⟨fuel,rfl⟩ : ∃ m, fuel = m+1 := ⟨fuel-1,by omega⟩
    obtain ⟨left,right⟩ := holds.2.1
    rw [freeWalk,if_neg other]
    rcases Nat.lt_or_gt_of_ne other with less | more
    · simp [label,less,right]
    · simp [label,more,Nat.not_lt_of_gt more,left]
  | fork p l r ihl ihr =>
    obtain ⟨fuel,rfl⟩ : ∃ m, fuel = m+1 := ⟨fuel-1,by omega⟩
    obtain ⟨_,left,right,_,_,lower,upper⟩ := holds
    obtain ⟨tall,fitl,fitr⟩ := fits
    show freeWalk a info addr (fuel+1) p = some .notFound
    rw [freeWalk,if_neg other]
    rcases Nat.lt_or_gt_of_ne other with less | more
    · simp only [less,right,if_true]
      rw [if_neg upper.present]
      exact ihr upper fitr (by omega)
    · simp only [more,Nat.not_lt_of_gt more,left,if_true,if_false]
      rw [if_neg lower.present]
      exact ihl lower fitl (by omega)

theorem free_start (grown : Grown s.arena n t) : buddyAllocatorFree s windowStart =
    some (.noError,⟨freePages 524288 windowStart s.mm,markAllocated s.arena s.arena.rootNode false⟩) := by
  obtain ⟨start,len⟩ := grown.root_record
  have walk : freeWalk s.arena s.arena.rootNode windowStart searchDepth s.arena.rootNode = some .noError :=
    freeWalk_start s.arena start 32 _
  have rounds : pageCount ((windowStart+windowLen)%word-windowStart) = 524288 := by decide
  simp only [buddyAllocatorFree,walk,start,len,rounds]

theorem free_other (grown : Grown s.arena n t) (other : addr ≠ windowStart) : buddyAllocatorFree s addr = some (.notFound,s) := by
  have walk : freeWalk s.arena s.arena.rootNode addr searchDepth t.label = some .notFound :=
    freeWalk_other grown.planted.holds grown.planted.fits (by rw [grown.root_record.1]; exact other.symm) (by decide)
  rw [← grown.root] at walk
  simp only [buddyAllocatorFree,walk]

end KaracaOS.BuddyAllocator
