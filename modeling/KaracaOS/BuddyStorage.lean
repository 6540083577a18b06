import KaracaOS.ByteMemory
import KaracaOS.BuddyAllocator

namespace KaracaOS.BuddyStorage
open ByteMemory BuddyArena BuddyAllocator

-- How the search loop of __buddy_allocator__alloc_node ends.
inductive Walked where
  | found (ptr : Nat)
  | overflow
  | outside (ptr : Nat)
  | endless
  deriving DecidableEq, Repr

-- The arena as the bytes it is: headers, nodes and infos lie in one memory. A
-- header that is not inside the arena is not read (outside).
def walk (bytes : Bytes) : Nat → Nat → Walked
  | 0,_ => .endless
  | fuel+1,ptr =>
    if ¬ inArena ptr then .outside ptr
    else if get32 bytes ptr = 0 ∧ blockSize ≤ get32 bytes (ptr+4) then .found ptr
    else
      let next := (ptr+get32 bytes (ptr+4))%word
      if treeAreaSize < (next+word-treeLocation)%word then .overflow else walk bytes fuel next

-- The stores into a new node, in the order of the source. value points at the
-- info behind the node, and vaddr and len stay what the memory held.
def newNode (bytes : Bytes) (node : Nat) : Bytes :=
  let info := node+20
  let bytes := put32 bytes node 0
  let bytes := put32 bytes (node+4) 0
  let bytes := put32 bytes (node+8) 0
  let bytes := put8 bytes (node+16) 0
  let bytes := put8 bytes (node+17) 0
  let bytes := put8 bytes (info+8) 0
  put32 bytes (node+12) info

inductive Call where
  | done (node : Nat)
  | unavailable
  | outside (ptr : Nat)
  | endless
  deriving DecidableEq, Repr

def allocNode (bytes : Bytes) : Call × Bytes :=
  match walk bytes treeAreaSize treeLocation with
  | .endless => (.endless,bytes)
  | .outside ptr => (.outside ptr,bytes)
  | .overflow => (.unavailable,bytes)
  | .found ptr =>
    let bytes := put32 bytes ptr 1
    let oldSize := get32 bytes (ptr+4)
    let bytes := put32 bytes (ptr+4) blockSize
    let nextBlockPtr := (ptr+get32 bytes (ptr+4))%word
    if ¬ inArena nextBlockPtr then (.outside nextBlockPtr,bytes) else
    let bytes := put32 bytes nextBlockPtr 0
    let bytes := put32 bytes (nextBlockPtr+4) ((oldSize+word-get32 bytes (ptr+4))%word)
    (.done (ptr+headerSize),newNode bytes (ptr+headerSize))

-- The four words that buddy_allocator__init stores in front of the first call.
def headerSetup (bytes : Bytes) : Bytes :=
  let bytes := put32 bytes treeLocation 1
  let bytes := put32 bytes (treeLocation+4) 16
  let bytes := put32 bytes (treeLocation+16) 0
  put32 bytes (treeLocation+16+4) (treeAreaSize-8-8)

-- buddy_allocator__init behind its page loop.
def init (bytes : Bytes) : Call × Bytes :=
  match allocNode (headerSetup bytes) with
  | (.done rootNode,bytes) =>
    let allocInfo := get32 bytes (rootNode+12)
    let bytes := put32 bytes (allocInfo+4) windowLen
    let bytes := put32 bytes allocInfo windowStart
    let bytes := put8 bytes (allocInfo+8) 0
    (.done rootNode,put32 bytes (treeLocation+8) rootNode)
  | other => other

-- The same memory as an arena of headers and nodes.
def readNode (bytes : Bytes) (p : Nat) : TreeNode where
  left := get32 bytes p
  right := get32 bytes (p+4)
  parent := get32 bytes (p+8)
  isLeft := get8 bytes (p+16) ≠ 0
  isRight := get8 bytes (p+17) ≠ 0
  vaddr := get32 bytes (p+20)
  len := get32 bytes (p+24)
  isAllocated := get8 bytes (p+28) ≠ 0

def view (bytes : Bytes) : Arena where
  used := get32 bytes
  size := fun ptr => get32 bytes (ptr+4)
  node := readNode bytes
  rootNode := get32 bytes (treeLocation+8)

def Walked.answer : Walked → Option (Except SysRet Nat)
  | .found ptr => some (.ok ptr)
  | .overflow => some (.error .unavailable)
  | _ => none

-- Arenas that agree wherever the allocator has headers and nodes.
structure Alike (a b : Arena) : Prop where
  tree : b.used treeLocation = a.used treeLocation ∧ b.size treeLocation = a.size treeLocation
  blocks : ∀ i, b.used (blockAt i) = a.used (blockAt i) ∧ b.size (blockAt i) = a.size (blockAt i)
  nodes : ∀ i, b.node (nodeAt i) = a.node (nodeAt i)
  root : b.rootNode = a.rootNode

-- A header as its two words, and the headers from one address to the end of the arena.
structure Header where
  used : Nat
  size : Nat
  deriving DecidableEq, Repr

def chain (bytes : Bytes) : Nat → Nat → List Header
  | 0,_ => []
  | fuel+1,ptr =>
    if treeLocation+treeAreaSize ≤ ptr then []
    else ⟨get32 bytes ptr,get32 bytes (ptr+4)⟩ :: chain bytes fuel (ptr+get32 bytes (ptr+4))

def headers (bytes : Bytes) : List Header := chain bytes treeAreaSize treeLocation

-- That many calls, all of them successful, with the nodes they returned.
def calls : Nat → Bytes → Option (List Nat × Bytes)
  | 0,bytes => some ([],bytes)
  | n+1,bytes =>
    match allocNode bytes with
    | (.done node,bytes) => (calls n bytes).map (fun (nodes,bytes) => (node::nodes,bytes))
    | _ => none

-- A node and its info take 20 and 12 bytes.
def nodeSize : Nat := 20+12

variable {bytes next memory : Bytes} {a b c : Arena} {n m : Nat}

theorem Alike.tiled (alike : Alike a b) (tiled : Tiled a n) : Tiled b n := by
  refine ⟨?_,?_,?_,tiled.room⟩
  · rw [alike.tree.1,alike.tree.2]
    exact tiled.tree
  · intro i below
    rw [(alike.blocks i).1,(alike.blocks i).2]
    exact tiled.nodes i below
  · rw [(alike.blocks n).1,(alike.blocks n).2]
    exact tiled.rest

theorem Alike.trans (one : Alike a b) (two : Alike b c) : Alike a c := by
  refine ⟨⟨two.tree.1.trans one.tree.1,two.tree.2.trans one.tree.2⟩,?_,?_,two.root.trans one.root⟩
  · intro i
    exact ⟨(two.blocks i).1.trans (one.blocks i).1,(two.blocks i).2.trans (one.blocks i).2⟩
  · intro i
    exact (two.nodes i).trans (one.nodes i)

theorem Alike.takeBlock (alike : Alike a b) (n : Nat) : Alike (takeBlock a (blockAt n)) (takeBlock b (blockAt n)) := by
  have node : blockAt n+headerSize = nodeAt n := rfl
  refine ⟨?_,?_,?_,alike.root⟩
  · simp only [BuddyArena.takeBlock,Function.update_apply,alike.tree,alike.blocks]
    exact ⟨trivial,trivial⟩
  · intro i
    simp only [BuddyArena.takeBlock,Function.update_apply,alike.blocks]
    exact ⟨trivial,trivial⟩
  · intro i
    simp only [BuddyArena.takeBlock,Function.update_apply,node,alike.nodes]

theorem Alike.plantRoot (alike : Alike a b) : Alike (plantRoot a (nodeAt n)) (plantRoot b (nodeAt n)) := by
  refine ⟨alike.tree,alike.blocks,?_,rfl⟩
  intro i
  simp only [BuddyAllocator.plantRoot,Function.update_apply,alike.nodes]

theorem walk_findBlock (bytes : Bytes) (fuel ptr : Nat) : findBlock (view bytes) fuel ptr = (walk bytes fuel ptr).answer := by
  induction fuel generalizing ptr with
  | zero => rfl
  | succ fuel ih =>
    rw [findBlock,walk]
    by_cases inside : inArena ptr
    · rw [if_neg (not_not.mpr inside),if_neg (not_not.mpr inside)]
      by_cases fits : get32 bytes ptr = 0 ∧ blockSize ≤ get32 bytes (ptr+4)
      · rw [if_pos fits,if_pos (show (view bytes).used ptr = 0 ∧ blockSize ≤ (view bytes).size ptr from fits)]
        rfl
      · rw [if_neg fits,if_neg (show ¬ ((view bytes).used ptr = 0 ∧ blockSize ≤ (view bytes).size ptr) from fits)]
        by_cases over_ : treeAreaSize < ((ptr+get32 bytes (ptr+4))%word+word-treeLocation)%word
        · simp only [view,over_,if_true]
          rfl
        · simp only [view,over_,if_false]
          exact ih _
    · rw [if_pos inside,if_pos inside]
      rfl

theorem walk_found (tiled : Tiled (view bytes) n) (room : n < maxNodes) : walk bytes treeAreaSize treeLocation = .found (blockAt n) := by
  have found := findBlock_found tiled room
  rw [walk_findBlock] at found
  cases ended : walk bytes treeAreaSize treeLocation with
  | found ptr =>
    rw [ended] at found
    cases found
    rfl
  | overflow => simp [ended,Walked.answer] at found
  | outside ptr => simp [ended,Walked.answer] at found
  | endless => simp [ended,Walked.answer] at found

def taken (bytes : Bytes) (i : Nat) : Bytes :=
  newNode (put32 (put32 (put32 (put32 bytes (blockAt i) 1) (blockAt i+4) blockSize) (blockAt (i+1)) 0) (blockAt (i+1)+4)
    (get32 bytes (blockAt i+4)-blockSize)) (nodeAt i)

theorem allocNode_taken (tiled : Tiled (view bytes) n) (room : n < maxNodes) : allocNode bytes = (.done (nodeAt n),taken bytes n) := by
  have size : get32 bytes (blockAt n+4) = 20971504-blockSize*n := tiled.rest.2
  have bound := get32_lt bytes (blockAt n+4)
  have fits : blockSize ≤ get32 bytes (blockAt n+4) := by
    unfold maxNodes at room
    rw [size]
    unfold blockSize headerSize
    omega
  have written : ∀ old : Bytes, get32 (put32 old (blockAt n+4) blockSize) (blockAt n+4) = blockSize := fun old => get32_put32 old _ _
  have kept : ∀ old : Bytes, get32 (put32 old (blockAt n) 1) (blockAt n+4) = get32 old (blockAt n+4) :=
    fun old => get32_put32_away (by omega)
  have behind : get32 (put32 (put32 (put32 bytes (blockAt n) 1) (blockAt n+4) blockSize) (blockAt (n+1)) 0) (blockAt n+4) = blockSize := by
    rw [get32_put32_away (by rw [← blockAt_succ]; unfold blockSize headerSize; omega),written]
  have inside : inArena (blockAt (n+1)) := inArena_block room
  have small : blockAt (n+1) < word := by
    have high := inside.2
    unfold treeLocation treeAreaSize at high
    unfold word
    omega
  have next : (blockAt n+blockSize)%word = blockAt (n+1) := by rw [blockAt_succ,Nat.mod_eq_of_lt small]
  have rest : (get32 bytes (blockAt n+4)+word-blockSize)%word = get32 bytes (blockAt n+4)-blockSize := by
    unfold word
    omega
  simp only [allocNode,walk_found tiled room,written,kept,next,inside,not_true_eq_false,if_false,behind,rest]
  rfl

theorem agree_newNode (out : first+count ≤ node ∨ node+32 ≤ first) : Agree (newNode bytes node) bytes first count := by
  intro i low high
  simp only [newNode]
  rw [put32_other (by omega),put8_other (by omega),put8_other (by omega),put8_other (by omega),put32_other (by omega),
    put32_other (by omega),put32_other (by omega)]

theorem newNode_value (bytes : Bytes) (small : node+20 < word) : get32 (newNode bytes node) (node+12) = node+20 := by
  rw [newNode,get32_put32]
  exact Nat.mod_eq_of_lt small

theorem readNode_new (bytes : Bytes) (node : Nat) : readNode (newNode bytes node) node =
    {readNode bytes node with left := 0,right := 0,parent := 0,isLeft := false,isRight := false,isAllocated := false} := by
  simp (disch := omega) only [readNode,newNode,get32_put32_away,get32_put8_away,get8_put32_away,get8_put8_away,get32_put32,get8_put8]
  rfl

theorem readNode_agree (agree : Agree next bytes p 32) : readNode next p = readNode bytes p := by
  simp only [readNode]
  rw [get32_agree (agree.narrow (Nat.le_refl _) (by omega)),get32_agree (agree.narrow (by omega : p ≤ p+4) (by omega)),
    get32_agree (agree.narrow (by omega : p ≤ p+8) (by omega)),get8_agree (agree.narrow (by omega : p ≤ p+16) (by omega)),
    get8_agree (agree.narrow (by omega : p ≤ p+17) (by omega)),get32_agree (agree.narrow (by omega : p ≤ p+20) (by omega)),
    get32_agree (agree.narrow (by omega : p ≤ p+24) (by omega)),get8_agree (agree.narrow (by omega : p ≤ p+28) (by omega))]

theorem agree_taken (out : first+count ≤ blockAt i ∨ blockAt (i+1)+headerSize ≤ first) : Agree (taken bytes i) bytes first count := by
  have next := blockAt_succ i
  unfold blockSize at next
  unfold headerSize at next out
  have node : nodeAt i = blockAt i+8 := rfl
  intro j low high
  have outside : j+1 ≤ nodeAt i ∨ nodeAt i+32 ≤ j := by omega
  rw [taken,agree_newNode outside j (Nat.le_refl _) (Nat.lt_succ_self j),put32_other (by omega),put32_other (by omega),
    put32_other (by omega),put32_other (by omega)]

theorem taken_headers (bytes : Bytes) (i : Nat) :
    get32 (taken bytes i) (blockAt i) = 1 ∧ get32 (taken bytes i) (blockAt i+4) = blockSize ∧
    get32 (taken bytes i) (blockAt (i+1)) = 0 ∧ get32 (taken bytes i) (blockAt (i+1)+4) = get32 bytes (blockAt i+4)-blockSize := by
  have next := blockAt_succ i
  unfold blockSize headerSize at next
  have node : nodeAt i = blockAt i+8 := rfl
  have bound := get32_lt bytes (blockAt i+4)
  have aside : ∀ (old : Bytes) (field : Nat), field+4 ≤ nodeAt i ∨ nodeAt i+32 ≤ field → get32 (newNode old (nodeAt i)) field = get32 old field :=
    fun old field out => get32_agree (agree_newNode (by omega))
  refine ⟨?_,?_,?_,?_⟩
  · rw [taken,aside _ _ (by omega),get32_put32_away (by omega),get32_put32_away (by omega),get32_put32_away (by omega),get32_put32]
  · rw [taken,aside _ _ (by omega),get32_put32_away (by omega),get32_put32_away (by omega),get32_put32]
    rfl
  · rw [taken,aside _ _ (by omega),get32_put32_away (by omega),get32_put32]
  · rw [taken,aside _ _ (by omega),get32_put32]
    exact Nat.mod_eq_of_lt (by omega)

theorem readNode_taken (bytes : Bytes) (i : Nat) : readNode (taken bytes i) (nodeAt i) =
    {readNode bytes (nodeAt i) with left := 0,right := 0,parent := 0,isLeft := false,isRight := false,isAllocated := false} := by
  have next := blockAt_succ i
  unfold blockSize headerSize at next
  have node : nodeAt i = blockAt i+8 := rfl
  rw [taken,readNode_new,readNode_agree]
  intro j low high
  rw [put32_other (by omega),put32_other (by omega),put32_other (by omega),put32_other (by omega)]

theorem view_taken (bytes : Bytes) (n : Nat) : Alike (takeBlock (view bytes) (blockAt n)) (view (taken bytes n)) := by
  obtain ⟨used,size,used',size'⟩ := taken_headers bytes n
  have header : ∀ i, i ≠ n → i ≠ n+1 → Agree (taken bytes n) bytes (blockAt i) 8 := by
    intro i one two
    refine agree_taken ?_
    unfold blockAt blockSize headerSize
    omega
  refine ⟨?_,?_,?_,?_⟩
  · have front : Agree (taken bytes n) bytes treeLocation 16 := agree_taken (by unfold blockAt; omega)
    have apart : ∀ i, treeLocation ≠ blockAt i := by
      intro i
      unfold blockAt
      omega
    simp only [takeBlock,view,blockAt_succ,Function.update_of_ne (apart n),Function.update_of_ne (apart (n+1))]
    exact ⟨get32_agree (front.narrow (Nat.le_refl _) (by omega)),get32_agree (front.narrow (by omega) (by omega))⟩
  · intro i
    have differ : ∀ j, i ≠ j → blockAt i ≠ blockAt j := by
      intro j other
      unfold blockAt blockSize headerSize
      omega
    by_cases last : i = n
    · subst last
      simp only [takeBlock,view,blockAt_succ,Function.update_of_ne (differ (i+1) (by omega)),Function.update_self]
      exact ⟨used,size⟩
    · by_cases behind : i = n+1
      · subst behind
        simp only [takeBlock,view,blockAt_succ,Function.update_self]
        exact ⟨used',size'⟩
      · simp only [takeBlock,view,blockAt_succ,Function.update_of_ne (differ n last),Function.update_of_ne (differ (n+1) behind)]
        have kept := header i last behind
        exact ⟨get32_agree (kept.narrow (Nat.le_refl _) (by omega)),get32_agree (kept.narrow (by omega) (by omega))⟩
  · intro i
    by_cases last : i = n
    · subst last
      simp only [takeBlock,view,show blockAt i+headerSize = nodeAt i from rfl,Function.update_self]
      exact readNode_taken bytes i
    · have apart : nodeAt i ≠ blockAt n+headerSize := by
        unfold nodeAt blockAt blockSize headerSize
        omega
      simp only [takeBlock,view,Function.update_of_ne apart]
      refine readNode_agree (agree_taken ?_)
      unfold nodeAt blockAt blockSize headerSize
      omega
  · exact get32_agree (agree_taken (by unfold blockAt; omega))

theorem taken_tiled (tiled : Tiled (view bytes) n) (room : n < maxNodes) : Tiled (view (taken bytes n)) (n+1) :=
  (view_taken bytes n).tiled (takeBlock_tiled tiled room)

theorem view_headerSetup (bytes : Bytes) : Alike (freshArena (view bytes)) (view (headerSetup bytes)) := by
  have first : blockAt 0 = treeLocation+16 := rfl
  have away : ∀ start count, treeLocation+24 ≤ start → Agree (headerSetup bytes) bytes start count := by
    intro start count above i low high
    rw [headerSetup,put32_other (by omega),put32_other (by omega),put32_other (by omega),put32_other (by omega)]
  refine ⟨?_,?_,?_,?_⟩
  · have apart : treeLocation ≠ treeLocation+16 := by decide
    simp only [freshArena,view,headerSetup,Function.update_of_ne apart,Function.update_self]
    simp (disch := omega) only [get32_put32_away,get32_put32]
    decide
  · intro i
    by_cases zero : i = 0
    · subst zero
      simp only [freshArena,view,headerSetup,first,Function.update_self]
      simp (disch := omega) only [get32_put32_away,get32_put32]
      decide
    · have apart : blockAt i ≠ treeLocation ∧ blockAt i ≠ treeLocation+16 ∧ treeLocation+24 ≤ blockAt i := by
        unfold blockAt blockSize headerSize
        omega
      obtain ⟨one,two,high⟩ := apart
      simp only [freshArena,view,Function.update_of_ne one,Function.update_of_ne two]
      exact ⟨get32_agree (away _ 4 high),get32_agree (away _ 4 (by omega))⟩
  · intro i
    exact readNode_agree (away _ 32 (by unfold nodeAt blockAt headerSize; omega))
  · simp only [freshArena,view,headerSetup]
    simp (disch := omega) only [get32_put32_away]

theorem headerSetup_tiled (bytes : Bytes) : Tiled (view (headerSetup bytes)) 0 :=
  (view_headerSetup bytes).tiled (freshArena_tiled (view bytes))

theorem walk_step (fuel : Nat) (inside : inArena ptr) (used : get32 bytes ptr = 1) (size : get32 bytes (ptr+4) = s)
    (near : ptr+s ≤ treeLocation+treeAreaSize) : walk bytes (fuel+1) ptr = walk bytes fuel (ptr+s) := by
  obtain ⟨small,close⟩ := endTest_passes (Nat.le_add_right_of_le inside.1) near
  rw [walk,if_neg (not_not.mpr inside),if_neg (by simp [used])]
  simp only [size,small,close,if_false]

theorem walk_rest (tiled : Tiled (view bytes) n) (fuel : Nat) : walk bytes (n+fuel+1) treeLocation = walk bytes fuel (blockAt n) := by
  obtain ⟨used,size⟩ := tiled.tree
  have passed : ∀ i < n, ∀ fuel, walk bytes (fuel+1) (blockAt i) = id (walk bytes fuel (blockAt (i+1))) := by
    intro i below fuel
    obtain ⟨used,size⟩ := tiled.nodes i below
    obtain ⟨inside,near⟩ := block_near below tiled.room
    rw [walk_step fuel inside used size near,blockAt_succ]
    rfl
  rw [walk_step (n+fuel) (by decide) used size (by decide)]
  show walk bytes (n+fuel) (blockAt 0) = _
  rw [along_blocks (walk bytes) id passed fuel,Function.iterate_id]
  rfl

-- The last free block has 24 bytes. The step over them ends exactly where the
-- arena does, which the end test lets pass.
theorem walk_full (tiled : Tiled (view bytes) n) (full : n = maxNodes) :
    walk bytes treeAreaSize treeLocation = .outside (treeLocation+treeAreaSize) := by
  have size : get32 bytes (blockAt n+4) = 24 := by
    have rest := tiled.rest.2
    rw [full] at rest ⊢
    exact rest
  have behind : (blockAt n+24)%word = treeLocation+treeAreaSize := by rw [full]; decide
  have split : treeAreaSize = n+(20971520-n-3+1+1)+1 := by rw [full]; decide
  rw [split,walk_rest tiled,walk,if_neg (not_not.mpr (inArena_block (Nat.le_of_eq full))),
    if_neg (fun fits => absurd (size ▸ fits.2) (by decide))]
  simp only [size,behind]
  rw [if_neg (by decide),walk,if_pos (by decide),← split]

theorem allocNode_full (tiled : Tiled (view bytes) n) (full : n = maxNodes) :
    allocNode bytes = (.outside (treeLocation+treeAreaSize),bytes) := by
  simp only [allocNode,walk_full tiled full]

theorem allocNode_refines (tiled : Tiled (view bytes) n) :
    (∀ answer a, BuddyArena.allocNode (view bytes) = some (answer,a) →
      ∃ node, answer = .ok node ∧ (allocNode bytes).1 = .done node ∧ Alike a (view (allocNode bytes).2)) ∧
    (BuddyArena.allocNode (view bytes) = none → ∃ ptr, allocNode bytes = (.outside ptr,bytes) ∧ ¬ inArena ptr) := by
  refine ⟨?_,?_⟩
  · intro answer a ran
    obtain ⟨room,rfl,rfl⟩ := allocNode_cases tiled ran
    rw [allocNode_taken tiled room]
    exact ⟨nodeAt n,rfl,rfl,view_taken bytes n⟩
  · intro stuck
    rw [allocNode_spec tiled] at stuck
    split at stuck
    · cases stuck
    · have bound := tiled.room
      exact ⟨_,allocNode_full tiled (by omega),by decide⟩

theorem chain_step (fuel : Nat) (inside : inArena ptr) (used : get32 bytes ptr = u) (size : get32 bytes (ptr+4) = s) :
    chain bytes (fuel+1) ptr = ⟨u,s⟩ :: chain bytes fuel (ptr+s) := by
  have below : ¬ treeLocation+treeAreaSize ≤ ptr := by
    have high := inside.2
    unfold headerSize at high
    omega
  rw [chain,if_neg below,used,size]

theorem iterate_cons {β : Type} (x : β) (n : Nat) (tail : List β) : (List.cons x)^[n] tail = List.replicate n x ++ tail := by
  induction n with
  | zero => rfl
  | succ n ih => rw [Function.iterate_succ_apply',ih,List.replicate_succ,List.cons_append]

theorem tiled_headers (tiled : Tiled (view bytes) n) :
    headers bytes = ⟨1,16⟩ :: (List.replicate n ⟨1,40⟩ ++ [⟨0,20971504-40*n⟩]) := by
  have room := tiled.room
  unfold maxNodes at room
  obtain ⟨used,size⟩ := tiled.tree
  obtain ⟨free,rest⟩ := tiled.rest
  have passed : ∀ i < n, ∀ fuel, chain bytes (fuel+1) (blockAt i) = List.cons ⟨1,40⟩ (chain bytes fuel (blockAt (i+1))) := by
    intro i below fuel
    obtain ⟨used,size⟩ := tiled.nodes i below
    rw [chain_step fuel (block_near below tiled.room).1 used size,blockAt_succ]
    rfl
  have split : treeAreaSize = n+(20971520-n-2+1)+1 := by unfold treeAreaSize; omega
  have last : treeLocation+treeAreaSize ≤ blockAt n+(20971504-blockSize*n) := by
    unfold blockAt blockSize headerSize treeAreaSize
    omega
  have stop : chain bytes (20971520-n-2) (blockAt n+(20971504-blockSize*n)) = [] := by
    obtain ⟨k,equal⟩ : ∃ k, 20971520-n-2 = k+1 := ⟨20971520-n-3,by omega⟩
    rw [equal,chain,if_pos last]
  rw [headers,split,chain_step _ (by decide) used size]
  show _ :: chain bytes (n+(20971520-n-2+1)) (blockAt 0) = _
  rw [along_blocks (chain bytes) _ passed,chain_step _ (inArena_block tiled.room) free rest,stop,iterate_cons]
  rfl

theorem tiled_sizes (tiled : Tiled (view bytes) n) : ((headers bytes).map Header.size).sum = treeAreaSize := by
  have room := tiled.room
  unfold maxNodes at room
  rw [tiled_headers tiled]
  simp only [List.map_cons,List.map_append,List.map_replicate,List.map_nil,List.sum_cons,List.sum_append,List.sum_replicate,
    List.sum_nil,smul_eq_mul]
  unfold treeAreaSize
  omega

theorem calls_tiled (tiled : Tiled (view bytes) n) (ran : calls m bytes = some (nodes,next)) :
    nodes = (List.range' n m).map nodeAt ∧ Tiled (view next) (n+m) := by
  induction m generalizing bytes n nodes with
  | zero =>
    cases Option.some.inj ran
    exact ⟨rfl,tiled⟩
  | succ m ih =>
    by_cases room : n < maxNodes
    · simp only [calls,allocNode_taken tiled room,Option.map_eq_some_iff,Prod.mk.injEq] at ran
      obtain ⟨⟨rest,last⟩,ran,rfl,rfl⟩ := ran
      obtain ⟨rfl,tiled'⟩ := ih (taken_tiled tiled room) ran
      refine ⟨by rw [List.range'_succ,List.map_cons],?_⟩
      rwa [Nat.add_assoc,Nat.add_comm 1 m] at tiled'
    · have bound := tiled.room
      simp [calls,allocNode_full tiled (by omega)] at ran

theorem calls_return (tiled : Tiled (view bytes) n) (room : n+m ≤ maxNodes) : ∃ nodes next, calls m bytes = some (nodes,next) := by
  induction m generalizing bytes n with
  | zero => exact ⟨[],bytes,rfl⟩
  | succ m ih =>
    obtain ⟨rest,last,ran⟩ := ih (taken_tiled tiled (by omega)) (by omega)
    exact ⟨nodeAt n::rest,last,by simp only [calls,allocNode_taken tiled (by omega : n < maxNodes),ran,Option.map_some]⟩

theorem node_storage_tiles (ran : calls n (headerSetup memory) = some (nodes,bytes)) :
    headers bytes = ⟨1,16⟩ :: (List.replicate n ⟨1,40⟩ ++ [⟨0,20971504-40*n⟩]) ∧
    ((headers bytes).map Header.size).sum = treeAreaSize ∧ nodes.length = n ∧
    nodes.Pairwise (fun p q => p+nodeSize ≤ q ∨ q+nodeSize ≤ p) ∧
    ∀ p ∈ nodes, treeLocation ≤ p ∧ p+nodeSize ≤ treeLocation+treeAreaSize := by
  obtain ⟨rfl,tiled⟩ := calls_tiled (headerSetup_tiled memory) ran
  rw [Nat.zero_add] at tiled
  refine ⟨tiled_headers tiled,tiled_sizes tiled,by simp,?_,?_⟩
  · have ordered : (List.range' 0 n).Pairwise (fun i j => i < j) := List.pairwise_lt_range'
    refine List.pairwise_map.mpr (ordered.imp ?_)
    intro i j less
    left
    unfold nodeAt blockAt nodeSize blockSize headerSize
    omega
  · intro p member
    obtain ⟨i,inside,rfl⟩ := List.mem_map.mp member
    have below : i < n := by simpa using inside
    obtain ⟨_,near⟩ := block_near below tiled.room
    refine ⟨by unfold nodeAt blockAt; omega,?_⟩
    unfold blockSize headerSize at near
    unfold nodeAt nodeSize headerSize
    omega

theorem two_nodes_tile : ∃ nodes bytes, calls 2 (headerSetup (fun _ => 0)) = some (nodes,bytes) ∧
    headers bytes = ⟨1,16⟩ :: (List.replicate 2 ⟨1,40⟩ ++ [⟨0,20971504-40*2⟩]) := by
  obtain ⟨nodes,bytes,ran⟩ := calls_return (m := 2) (headerSetup_tiled (fun _ => 0)) (by decide)
  exact ⟨nodes,bytes,ran,(node_storage_tiles ran).1⟩

-- A block that a call could take.
def FreeBlockLeft (bytes : Bytes) : Prop := ∃ h ∈ headers bytes, h.used = 0 ∧ blockSize ≤ h.size

-- A call that comes back without a header outside the arena, and that reports
-- an arena without such a block and leaves it alone.
def CallSafe (bytes : Bytes) : Prop :=
  ((∃ node, (allocNode bytes).1 = .done node) ∨ (allocNode bytes).1 = .unavailable) ∧
  (¬ FreeBlockLeft bytes → allocNode bytes = (.unavailable,bytes))

def CallsSafe : Nat → Bytes → Prop
  | 0,_ => True
  | m+1,bytes => CallSafe bytes ∧ CallsSafe m (allocNode bytes).2

-- Another 40 bytes are left exactly as long as a node is.
theorem free_block_left (tiled : Tiled (view bytes) n) : FreeBlockLeft bytes ↔ n < maxNodes := by
  have room := tiled.room
  have large : blockSize ≤ 20971504-40*n ↔ n < maxNodes := by
    unfold maxNodes at *
    unfold blockSize headerSize
    omega
  rw [FreeBlockLeft,tiled_headers tiled,← large]
  simp [List.mem_replicate]

theorem callSafe_iff (tiled : Tiled (view bytes) n) : CallSafe bytes ↔ n < maxNodes := by
  have bound := tiled.room
  constructor
  · rintro ⟨returns,_⟩
    by_contra full
    rw [allocNode_full tiled (by omega)] at returns
    rcases returns with ⟨node,done⟩ | refused
    · cases done
    · cases refused
  · intro room
    refine ⟨.inl ⟨nodeAt n,by rw [allocNode_taken tiled room]⟩,?_⟩
    intro none_
    exact absurd ((free_block_left tiled).mpr room) none_

-- The induction is on the calls; each safe one takes one more node.
theorem callsSafe_iff (tiled : Tiled (view bytes) n) : CallsSafe m bytes ↔ n+m ≤ maxNodes := by
  induction m generalizing bytes n with
  | zero => simp [CallsSafe,tiled.room]
  | succ m ih =>
    rw [CallsSafe,callSafe_iff tiled]
    constructor
    · rintro ⟨room,later⟩
      rw [allocNode_taken tiled room] at later
      have bound := (ih (taken_tiled tiled room)).mp later
      omega
    · intro enough
      have room : n < maxNodes := by omega
      refine ⟨room,?_⟩
      rw [allocNode_taken tiled room]
      exact (ih (taken_tiled tiled room)).mpr (by omega)

-- The stores of buddy_allocator__init behind its call, with the info where the
-- call put it.
def rooted (bytes : Bytes) (rootNode : Nat) : Bytes :=
  put32 (put8 (put32 (put32 bytes (rootNode+20+4) windowLen) (rootNode+20) windowStart) (rootNode+20+8) 0) (treeLocation+8) rootNode

theorem rooted_other (one : i < treeLocation+8 ∨ treeLocation+12 ≤ i) (two : i < nodeAt 0+20 ∨ nodeAt 0+29 ≤ i) :
    rooted bytes (nodeAt 0) i = bytes i := by
  rw [rooted,put32_other (by omega),put8_other (by omega),put32_other (by omega),put32_other (by omega)]

theorem readNode_rooted (bytes : Bytes) : readNode (rooted bytes (nodeAt 0)) (nodeAt 0) =
    {readNode bytes (nodeAt 0) with len := windowLen,vaddr := windowStart,isAllocated := false} := by
  have apart : treeLocation+12 ≤ nodeAt 0 := by decide
  simp (disch := omega) only [readNode,rooted,get32_put32_away,get32_put8_away,get8_put32_away,get8_put8_away,get32_put32,get8_put8]
  rfl

theorem view_rooted (bytes : Bytes) : Alike (plantRoot (view bytes) (nodeAt 0)) (view (rooted bytes (nodeAt 0))) := by
  have first : nodeAt 0 = treeLocation+24 := rfl
  refine ⟨?_,?_,?_,?_⟩
  · have front : Agree (rooted bytes (nodeAt 0)) bytes treeLocation 8 := fun i low high => rooted_other (by omega) (by omega)
    exact ⟨get32_agree (front.narrow (Nat.le_refl _) (by omega)),get32_agree (front.narrow (by omega) (by omega))⟩
  · intro i
    have header : Agree (rooted bytes (nodeAt 0)) bytes (blockAt i) 8 := by
      intro j low high
      unfold blockAt blockSize headerSize at low high
      exact rooted_other (by omega) (by omega)
    exact ⟨get32_agree (header.narrow (Nat.le_refl _) (by omega)),get32_agree (header.narrow (by omega) (by omega))⟩
  · intro i
    by_cases zero : i = 0
    · subst zero
      simp only [plantRoot,view,Function.update_self]
      exact readNode_rooted bytes
    · have apart : nodeAt i ≠ nodeAt 0 ∧ nodeAt 0+40 ≤ nodeAt i := by
        unfold nodeAt blockAt blockSize headerSize
        omega
      simp only [plantRoot,view,Function.update_of_ne apart.1]
      exact readNode_agree (fun j low high => rooted_other (by omega) (by omega))
  · show get32 (rooted bytes (nodeAt 0)) (treeLocation+8) = nodeAt 0
    rw [rooted,get32_put32]
    rfl

theorem plantRoot_tiled (tiled : Tiled a n) (root : Nat) : Tiled (plantRoot a root) n := ⟨tiled.tree,tiled.nodes,tiled.rest,tiled.room⟩

theorem init_rooted (called : allocNode (headerSetup memory) = (.done node,bytes)) (value : get32 bytes (node+12) = node+20) :
    init memory = (.done node,rooted bytes node) := by
  unfold init rooted
  simp only [called,value]

theorem init_done (memory : Bytes) : init memory = (.done (nodeAt 0),rooted (taken (headerSetup memory) 0) (nodeAt 0)) := by
  have small : nodeAt 0+20 < word := by decide
  refine init_rooted (allocNode_taken (headerSetup_tiled memory) (show 0 < maxNodes by decide)) ?_
  rw [taken]
  exact newNode_value _ small

theorem init_refines (memory : Bytes) :
    Alike (plantRoot (takeBlock (freshArena (view memory)) (blockAt 0)) (nodeAt 0)) (view (init memory).2) := by
  rw [init_done]
  have first := (view_headerSetup memory).takeBlock 0
  have second := first.trans (view_taken (headerSetup memory) 0)
  exact second.plantRoot.trans (view_rooted _)

theorem init_tiled (memory : Bytes) : Tiled (view (init memory).2) 1 :=
  (init_refines memory).tiled (plantRoot_tiled (takeBlock_tiled (freshArena_tiled (view memory)) (by decide)) _)

-- 524287 nodes fit, and buddy_allocator__init takes the first of them.
theorem alloc_calls_safe_iff (memory : Bytes) (m : Nat) : CallsSafe m (init memory).2 ↔ m ≤ 524286 := by
  rw [callsSafe_iff (init_tiled memory)]
  unfold maxNodes
  omega

-- The call after those reads the header behind the last byte of the arena.
theorem last_call_leaves_arena : ∃ nodes bytes, calls 524286 (init (fun _ => 0)).2 = some (nodes,bytes) ∧
    (allocNode bytes).1 = .outside 0xC9400000 ∧ ¬ CallsSafe 524287 (init (fun _ => 0)).2 := by
  have tiled := init_tiled (fun _ => 0)
  obtain ⟨nodes,bytes,ran⟩ := calls_return (m := 524286) tiled (by decide)
  obtain ⟨_,full⟩ := calls_tiled tiled ran
  refine ⟨nodes,bytes,ran,?_,?_⟩
  · rw [allocNode_full full (by decide)]
    rfl
  · rw [callsSafe_iff tiled]
    decide

end KaracaOS.BuddyStorage
