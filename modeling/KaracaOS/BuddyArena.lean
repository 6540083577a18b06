import KaracaOS.SysDefs

namespace KaracaOS.BuddyArena

-- The node arena of buddy_allocator.c with the sizes of i686: an 8-byte header,
-- binary_tree_t of 8, binary_tree_node_t of 20 and alloc_info of 12 bytes.
def treeLocation : Nat := 0xC8000000
def treeAreaSize : Nat := 20*1024*1024
def headerSize : Nat := 8
def blockSize : Nat := 20+12+headerSize
def minMemSplit : Nat := 4*1024

-- A node together with the info its value pointer always points at. 0 is NULL.
structure TreeNode where
  left : Nat
  right : Nat
  parent : Nat
  isLeft : Bool
  isRight : Bool
  vaddr : Nat
  len : Nat
  isAllocated : Bool
  deriving DecidableEq, Repr

-- The two words of a header and the node behind it, by their addresses.
structure Arena where
  used : Nat → Nat
  size : Nat → Nat
  node : Nat → TreeNode
  rootNode : Nat

-- The bytes of the arena are mapped and those behind it are not: a header that
-- is not inside raises a page fault, whose handler never returns (none).
def inArena (ptr : Nat) : Prop := treeLocation ≤ ptr ∧ ptr+headerSize ≤ treeLocation+treeAreaSize
instance (ptr : Nat) : Decidable (inArena ptr) := inferInstanceAs (Decidable (_ ∧ _))

def findBlock (a : Arena) : Nat → Nat → Option (Except SysRet Nat)
  | 0,_ => none
  | fuel+1,ptr =>
    if ¬ inArena ptr then none
    else if a.used ptr = 0 ∧ blockSize ≤ a.size ptr then some (.ok ptr)
    else
      let next := (ptr+a.size ptr)%word
      if treeAreaSize < (next+word-treeLocation)%word then some (.error .unavailable)
      else findBlock a fuel next

-- vaddr and len of a fresh node are what the memory held before.
def takeBlock (a : Arena) (ptr : Nat) : Arena :=
  {a with
    used := Function.update (Function.update a.used ptr 1) (ptr+blockSize) 0
    size := Function.update (Function.update a.size ptr blockSize) (ptr+blockSize) (a.size ptr-blockSize)
    node := Function.update a.node (ptr+headerSize)
      {a.node (ptr+headerSize) with
        left := 0,right := 0,parent := 0,isLeft := false,isRight := false,isAllocated := false}}

def allocNode (a : Arena) : Option (Except SysRet Nat × Arena) :=
  match findBlock a treeAreaSize treeLocation with
  | none => none
  | some (.error ret) => some (.error ret,a)
  | some (.ok ptr) => if inArena (ptr+blockSize) then some (.ok (ptr+headerSize),takeBlock a ptr) else none

-- The pointer sums go through uint64_t and are cut back to 32 bits.
def linkHalves (a : Arena) (node left right : Nat) : Arena :=
  let parent := a.node node
  let rightVaddr := (parent.vaddr+parent.len/2)%word
  let leftNode := {a.node left with
    vaddr := parent.vaddr,len := (rightVaddr+word-parent.vaddr)%word,isAllocated := false,isLeft := true}
  let rightNode := {a.node right with
    vaddr := rightVaddr,len := (parent.vaddr+parent.len+word-rightVaddr)%word,isAllocated := false,isRight := true}
  let children := Function.update (Function.update a.node left leftNode) right rightNode
  {a with node := Function.update children node {parent with left := left,right := right}}

def splitNode (a : Arena) (node : Nat) : Option (SysRet × Arena) :=
  if (a.node node).len ≤ minMemSplit then some (.outOfRange,a) else
  match allocNode a with
  | none => none
  | some (.error ret,a) => some (ret,a)
  | some (.ok left,a) =>
    match allocNode a with
    | none => none
    | some (.error ret,a) => some (ret,a)
    | some (.ok right,a) => some (.noError,linkHalves a node left right)

def Fitting (len size : Nat) : Prop := 2*len%word < size ∧ size < 4*len%word
instance (len size : Nat) : Decidable (Fitting len size) := inferInstanceAs (Decidable (_ ∧ _))

def TreeNode.Leaf (n : TreeNode) : Prop := n.left = 0 ∧ n.right = 0
instance (n : TreeNode) : Decidable n.Leaf := inferInstanceAs (Decidable (_ ∧ _))

-- A child's answer counts when it found a node that is not allocated.
def accepted (answer : Except SysRet Nat) (a : Arena) : Option Nat :=
  match answer with
  | .ok found => if (a.node found).isAllocated then none else some found
  | .error _ => none

-- Each level halves a 32-bit length; fuel counts the levels still allowed. A
-- NULL node is not dereferenced (none).
def findSpace (len : Nat) : Nat → Nat → Arena → Option (Except SysRet Nat × Arena)
  | 0,_,_ => none
  | fuel+1,node,a =>
    if node = 0 then none
    else if (a.node node).isAllocated then some (.error .notFound,a)
    else if Fitting len (a.node node).len then
      if (a.node node).Leaf then some (.ok node,a) else some (.error .notFound,a)
    else if (a.node node).Leaf ∧ (a.node node).len ≤ minMemSplit then some (.ok node,a)
    else
      match (if (a.node node).Leaf then splitNode a node else some (.noError,a)) with
      | none => none
      | some (.noError,a) =>
        match findSpace len fuel (a.node node).left a with
        | none => none
        | some (answer,a) =>
          match accepted answer a with
          | some found => some (.ok found,a)
          | none =>
            match findSpace len fuel (a.node node).right a with
            | none => none
            | some (answer,a) =>
              match accepted answer a with
              | some found => some (.ok found,a)
              | none => some (.error .notFound,a)
      | some (ret,a) => some (.error ret,a)

-- Headers: the tree's own block, n node blocks, and the free rest.
def blockAt (i : Nat) : Nat := treeLocation+16+blockSize*i
def nodeAt (i : Nat) : Nat := blockAt i+headerSize
def maxNodes : Nat := 524287

structure Tiled (a : Arena) (n : Nat) : Prop where
  tree : a.used treeLocation = 1 ∧ a.size treeLocation = 16
  nodes : ∀ i < n, a.used (blockAt i) = 1 ∧ a.size (blockAt i) = blockSize
  rest : a.used (blockAt n) = 0 ∧ a.size (blockAt n) = 20971504-blockSize*n
  room : n ≤ maxNodes

variable {a : Arena} {n : Nat}

theorem blockAt_succ (i : Nat) : blockAt i+blockSize = blockAt (i+1) := by unfold blockAt blockSize headerSize; omega

theorem inArena_block (bound : i ≤ maxNodes) : inArena (blockAt i) := by
  unfold maxNodes at bound
  unfold inArena blockAt blockSize headerSize treeLocation treeAreaSize
  omega

theorem endTest_passes (low : treeLocation ≤ next) (near : next ≤ treeLocation+treeAreaSize) :
    next%word = next ∧ ¬ treeAreaSize < (next+word-treeLocation)%word := by
  unfold treeLocation treeAreaSize at *
  unfold word
  omega

theorem findBlock_skip (fuel : Nat) (inside : inArena ptr) (taken : a.used ptr = 1)
    (near : ptr+a.size ptr ≤ treeLocation+treeAreaSize) :
    findBlock a (fuel+1) ptr = findBlock a fuel (ptr+a.size ptr) := by
  obtain ⟨small,close⟩ := endTest_passes (Nat.le_add_right_of_le inside.1) near
  rw [findBlock,if_neg (not_not.mpr inside),if_neg (by simp [taken])]
  simp only [small,close,if_false]

-- Following the size fields from block to block, for whatever is computed on the way.
theorem along_blocks {β : Type} (f : Nat → Nat → β) (g : β → β) (step : ∀ i < n, ∀ fuel, f (fuel+1) (blockAt i) = g (f fuel (blockAt (i+1))))
    (fuel : Nat) : f (n+fuel) (blockAt 0) = g^[n] (f fuel (blockAt n)) := by
  induction n generalizing fuel with
  | zero => rw [Nat.zero_add,Function.iterate_zero,id]
  | succ n ih =>
    rw [Nat.add_right_comm,Nat.add_assoc,ih (fun i below => step i (by omega)) (fuel+1),step n (Nat.lt_succ_self n),
      Function.iterate_succ_apply]

theorem block_near (below : i < n) (room : n ≤ maxNodes) : inArena (blockAt i) ∧ blockAt i+blockSize ≤ treeLocation+treeAreaSize := by
  refine ⟨inArena_block (by omega),?_⟩
  unfold maxNodes at room
  unfold blockAt blockSize headerSize treeAreaSize
  omega

theorem findBlock_start (tiled : Tiled a n) (fuel : Nat) :
    findBlock a (n+fuel+1) treeLocation = findBlock a fuel (blockAt n) := by
  obtain ⟨taken,size⟩ := tiled.tree
  have passed : ∀ i < n, ∀ fuel, findBlock a (fuel+1) (blockAt i) = id (findBlock a fuel (blockAt (i+1))) := by
    intro i below fuel
    obtain ⟨taken,size⟩ := tiled.nodes i below
    obtain ⟨inside,near⟩ := block_near below tiled.room
    rw [findBlock_skip _ inside taken (by rw [size]; exact near),size,blockAt_succ]
    rfl
  rw [findBlock_skip _ (by decide) taken (by rw [size]; decide),size]
  show findBlock a (n+fuel) (blockAt 0) = _
  rw [along_blocks (findBlock a) id passed fuel,Function.iterate_id]
  rfl

theorem findBlock_found (tiled : Tiled a n) (room : n < maxNodes) :
    findBlock a treeAreaSize treeLocation = some (.ok (blockAt n)) := by
  unfold maxNodes at room
  have split : treeAreaSize = n+(20971520-n-2+1)+1 := by unfold treeAreaSize; omega
  have fits : blockSize ≤ a.size (blockAt n) := by
    rw [tiled.rest.2]
    unfold blockSize headerSize
    omega
  rw [split,findBlock_start tiled,findBlock,if_neg (not_not.mpr (inArena_block (by unfold maxNodes; omega))),
    if_pos ⟨tiled.rest.1,fits⟩]

-- The last 24 bytes are skipped and the walk reads the header behind the arena.
theorem findBlock_full (tiled : Tiled a n) (full : n = maxNodes) : findBlock a treeAreaSize treeLocation = none := by
  have split : treeAreaSize = n+(20971520-n-3+1+1)+1 := by rw [full]; decide
  have size : a.size (blockAt n) = 24 := by rw [tiled.rest.2,full]; decide
  have behind : (blockAt n+24)%word = treeLocation+treeAreaSize := by rw [full]; decide
  rw [split,findBlock_start tiled,findBlock,if_neg (not_not.mpr (inArena_block (Nat.le_of_eq full))),
    if_neg (fun fits => absurd (size ▸ fits.2) (by decide))]
  simp only [size,behind]
  rw [if_neg (by decide),findBlock,if_pos (by decide)]

theorem takeBlock_tiled (tiled : Tiled a n) (room : n < maxNodes) : Tiled (takeBlock a (blockAt n)) (n+1) := by
  have apart : ∀ i, i ≤ n → blockAt i ≠ blockAt (n+1) := by
    intro i below
    unfold blockAt blockSize headerSize
    omega
  have tree : ∀ i, treeLocation ≠ blockAt i := by
    intro i
    unfold blockAt
    omega
  refine ⟨?_,?_,?_,by omega⟩
  · simp [takeBlock,blockAt_succ,tree,tiled.tree]
  · intro i below
    by_cases last : i = n
    · subst last
      simp [takeBlock,blockAt_succ,apart i (Nat.le_refl _)]
    · have differ : blockAt i ≠ blockAt n := by unfold blockAt blockSize headerSize; omega
      simp [takeBlock,blockAt_succ,apart i (by omega),differ,tiled.nodes i (by omega)]
  · simp only [takeBlock,blockAt_succ,Function.update_self,true_and,tiled.rest.2]
    unfold blockSize headerSize
    omega

theorem allocNode_spec (tiled : Tiled a n) :
    allocNode a = if n < maxNodes then some (.ok (nodeAt n),takeBlock a (blockAt n)) else none := by
  have bound := tiled.room
  split
  · rename_i room
    have next : inArena (blockAt n+blockSize) := by
      rw [blockAt_succ]
      exact inArena_block room
    simp only [allocNode,findBlock_found tiled room,if_pos next]
    rfl
  · rename_i full
    simp only [allocNode,findBlock_full tiled (by omega)]

theorem allocNode_cases (tiled : Tiled a n) (ran : allocNode a = some (answer,next)) :
    n < maxNodes ∧ answer = .ok (nodeAt n) ∧ next = takeBlock a (blockAt n) := by
  rw [allocNode_spec tiled] at ran
  split at ran
  · rename_i room
    cases Option.some.inj ran
    exact ⟨room,rfl,rfl⟩
  · cases ran

end KaracaOS.BuddyArena
