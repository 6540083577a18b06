import KaracaOS.BuddyBudget

namespace KaracaOS.BuddyRefines
open Bitmap Paging MemoryManager BootMap BuddyArena BuddyTree BuddyAllocator BuddyPages BuddyRuns BuddySearch BuddyBudget DyadicTree StepRuns
open BuddyGuards (allocPages_ended)

-- The nodes below one node: those of the same arena with that node as its root.
def Under (a : Arena) (top : Nat) : Nat → Prop := Node {a with rootNode := top}

-- What a leaf may become. Only a free one is divided, into new nodes that are
-- not allocated, and the leaves among them share its range out exactly.
structure Divided (a next : Arena) (p : Nat) : Prop where
  free : ¬ (next.node p).Leaf → (a.node p).isAllocated = false
  fresh : ∀ q, Under next p q → q ≠ p → ¬ Node a q ∧ (next.node q).isAllocated = false
  inside : ∀ q, Under next p q → (next.node q).Leaf → ∀ x, Covers next q x → Covers a p x
  cover : ∀ x, Covers a p x → ∃! q, Under next p q ∧ (next.node q).Leaf ∧ Covers next q x

structure Refined (a next : Arena) : Prop where
  root : next.rootNode = a.rootNode
  kept : ∀ p, Node a p → Node next p ∧ (next.node p).isAllocated = (a.node p).isAllocated ∧
    (next.node p).vaddr = (a.node p).vaddr ∧ (next.node p).len = (a.node p).len
  inner : ∀ p, Node a p → ¬ (a.node p).Leaf → (next.node p).left = (a.node p).left ∧ (next.node p).right = (a.node p).right
  leaves : ∀ p, Node a p → (a.node p).Leaf → Divided a next p

-- The search comes back and has only refined the tree, and a split that
-- reports an error has left its node a leaf.
def SearchRefines (a : Arena) (len : Nat) : Prop :=
  (∃ answer next, findSpace len searchDepth a.rootNode a = some (answer,next) ∧ Refined a next) ∧
  ∀ p ret next, (a.node p).Leaf → splitNode a p = some (ret,next) → ret ≠ .noError → (next.node p).Leaf

variable {a next : Arena} {s : System} {n : Nat} {t t' : DyadicTree Nat} {v k len : Nat}

theorem under_iff (holds : Holds a t v k) : Under a t.label p ↔ p ∈ t.labels := by
  constructor
  · intro under
    induction under with
    | root => exact label_mem t
    | left _ some_ ih => exact (holds_child holds ih).1 some_
    | right _ some_ ih => exact (holds_child holds ih).2 some_
  · exact holds_node (holds.transport (fun _ _ => .of_eq rfl)) .root

theorem holds_single (holds : Holds a t v k) (member : b ∈ leaves t v k) : Holds a (.leaf b.label) b.start b.level := by
  induction t generalizing v k with
  | leaf p =>
    cases List.mem_singleton.mp member
    exact holds
  | fork p l r ihl ihr =>
    obtain ⟨_,_,_,_,_,lower,upper⟩ := holds
    exact (List.mem_append.mp member).elim (ihl lower) (ihr upper)

-- The part of the grown tree that stands where a leaf stood.
structure Part (next : Arena) (t t' : DyadicTree Nat) (b : Block Nat) (u : DyadicTree Nat) : Prop where
  top : u.label = b.label
  holds : Holds next u b.start b.level
  fits : Fits 12 u b.level
  within : u.labels ⊆ t'.labels
  fresh : ∀ q ∈ u.labels, q ∈ t.labels → q = b.label

theorem Part.widen {l l' : DyadicTree Nat} (part : Part next l l' b u) (inside : l'.labels ⊆ t'.labels)
    (apart : ∀ q ∈ l'.labels, q ∈ t.labels → q ∈ l.labels) : Part next t t' b u := by
  refine ⟨part.top,part.holds,part.fits,fun q here => inside (part.within here),?_⟩
  intro q here old
  exact part.fresh q here (apart q (part.within here) old)

theorem leaf_part (grows : Grows frozen t t') (holds : Holds next t' v k) (fits : Fits 12 t' k) (distinct : t'.labels.Nodup)
    (member : b ∈ leaves t v k) : ∃ u, Part next t t' b u ∧ (u = .leaf b.label ∨ ¬ frozen b.label) := by
  induction grows generalizing v k with
  | same =>
    refine ⟨.leaf b.label,⟨rfl,holds_single holds member,(leaf_inside fits member).2.2.1,?_,?_⟩,.inl rfl⟩
    · intro q here
      rw [List.mem_singleton.mp here]
      exact leaf_label member
    · intro q here _
      exact List.mem_singleton.mp here
  | @split a t free equal =>
    cases List.mem_singleton.mp member
    exact ⟨t,⟨equal,holds,fits,List.Subset.refl _,fun q _ here => List.mem_singleton.mp here⟩,.inr free⟩
  | @both l l' r r' a growl growr ihl ihr =>
    obtain ⟨_,_,_,_,_,lower,upper⟩ := holds
    obtain ⟨_,fitl,fitr⟩ := fits
    obtain ⟨top,rest⟩ := List.nodup_cons.mp distinct
    obtain ⟨dl,dr,apart⟩ := List.nodup_append.mp rest
    rcases List.mem_append.mp member with left | right
    · obtain ⟨u,part,whole⟩ := ihl lower fitl dl left
      refine ⟨u,part.widen (fun q here => by simp [labels,here]) ?_,whole⟩
      intro q inl old
      rcases List.mem_cons.mp old with rfl | below
      · exact absurd (List.mem_append.mpr (.inl inl)) top
      · exact (List.mem_append.mp below).elim id fun oldr => absurd rfl (apart q inl q (growr.labels_subset oldr))
    · obtain ⟨u,part,whole⟩ := ihr upper fitr dr right
      refine ⟨u,part.widen (fun q here => by simp [labels,here]) ?_,whole⟩
      intro q inr old
      rcases List.mem_cons.mp old with rfl | below
      · exact absurd (List.mem_append.mpr (.inr inr)) top
      · exact (List.mem_append.mp below).elim (fun oldl => absurd rfl (apart q (growl.labels_subset oldl) q inr)) id

theorem Part.covered (part : Part next t t' b u) (x : Nat) :
    (∀ q, Under next b.label q → (next.node q).Leaf → Covers next q x → b.start ≤ x ∧ x < b.start+2^b.level) ∧
    (b.start ≤ x → x < b.start+2^b.level → ∃! q, Under next b.label q ∧ (next.node q).Leaf ∧ Covers next q x) := by
  have block : ∀ c ∈ leaves u b.start b.level, Covers next c.label x ↔ c.start ≤ x ∧ x < c.start+2^c.level := by
    intro c member
    obtain ⟨start,size⟩ := part.holds.leaf_record member
    rw [Covers,start,size]
  have found : ∀ q, Under next b.label q → (next.node q).Leaf → ∃ c ∈ leaves u b.start b.level, c.label = q := by
    intro q under leaf
    rw [← part.top] at under
    exact holds_leaf part.holds ((under_iff part.holds).mp under) leaf
  refine ⟨?_,?_⟩
  · intro q under leaf covers
    obtain ⟨c,member,rfl⟩ := found q under leaf
    have inside := leaf_inside part.fits member
    have covers := (block c member).mp covers
    omega
  · intro low high
    obtain ⟨c,member,inside⟩ := leaves_cover part.fits low high
    have under : Under next b.label c.label := by
      rw [← part.top]
      exact (under_iff part.holds).mpr (leaf_label member)
    refine ⟨c.label,⟨under,leaves_leaf part.holds member,(block c member).mpr inside⟩,?_⟩
    rintro q ⟨under',leaf',covers⟩
    obtain ⟨d,other,rfl⟩ := found q under' leaf'
    by_contra differ
    refine leaves_apart part.fits other member ?_ ⟨x,(block d other).mp covers,inside⟩
    rintro rfl
    exact differ rfl

theorem same_links (before : Holds a t v k) (after : Holds next t v k) (member : p ∈ t.labels) :
    (next.node p).left = (a.node p).left ∧ (next.node p).right = (a.node p).right := by
  induction t generalizing v k with
  | leaf q =>
    cases List.mem_singleton.mp member
    exact ⟨after.2.1.1.trans before.2.1.1.symm,after.2.1.2.trans before.2.1.2.symm⟩
  | fork q l r ihl ihr =>
    obtain ⟨_,left,right,_,_,lower,upper⟩ := before
    obtain ⟨_,left',right',_,_,lower',upper'⟩ := after
    rcases List.mem_cons.mp member with rfl | below
    · exact ⟨left'.trans left.symm,right'.trans right.symm⟩
    · exact (List.mem_append.mp below).elim (ihl lower lower') (ihr upper upper')

theorem inner_links (grows : Grows frozen t t') (before : Holds a t v k) (after : Holds next t' v k) (member : p ∈ t.labels)
    (inner : ¬ (a.node p).Leaf) : (next.node p).left = (a.node p).left ∧ (next.node p).right = (a.node p).right := by
  induction grows generalizing v k with
  | same => exact same_links before after member
  | split _ _ =>
    cases List.mem_singleton.mp member
    exact absurd before.2.1 inner
  | both growl growr ihl ihr =>
    obtain ⟨_,left,right,_,_,lower,upper⟩ := before
    obtain ⟨_,left',right',_,_,lower',upper'⟩ := after
    rcases List.mem_cons.mp member with rfl | below
    · rw [left,right,left',right',growl.label,growr.label]
      exact ⟨rfl,rfl⟩
    · exact (List.mem_append.mp below).elim (ihl lower lower') (ihr upper upper')

theorem Part.divided (part : Part next t t' b u) (whole : u = .leaf b.label ∨ ¬ (a.node b.label).isAllocated = true) (grown : Grown a n t)
    (explored : Explored a next n n' t t' windowStart 31) (member : b ∈ leaves t windowStart 31) : Divided a next b.label := by
  obtain ⟨start,size,_⟩ := grown.block member
  refine ⟨?_,?_,?_,?_⟩
  · intro split
    rcases whole with single | free
    · have leaf := part.holds
      rw [single] at leaf
      exact absurd leaf.2.1 split
    · simpa using free
  · intro q under other
    rw [← part.top,under_iff part.holds] at under
    have new : q ∉ t.labels := fun old => other (part.fresh q under old)
    refine ⟨fun node => new (grown.node_label node),?_⟩
    rcases explored.origin q (part.within under) with old | high
    · exact absurd old new
    · exact explored.fresh q (part.within under) high
  · intro q under leaf x covers
    rw [Covers,start,size]
    exact (part.covered x).1 q under leaf covers
  · intro x inside
    rw [Covers,start,size] at inside
    exact (part.covered x).2 inside.1 inside.2

theorem explored_refined (grown : Grown a n t) (explored : Explored a next n n' t t' windowStart 31) : Refined a next := by
  have grown' := grown.explored explored
  refine ⟨explored.root,?_,?_,?_⟩
  · intro p node
    have label := grown.node_label node
    exact ⟨grown'.label_node (explored.grows.labels_subset label),explored.kept p (grown.planted.bounded p label)⟩
  · intro p node inner
    exact inner_links explored.grows grown.planted.holds explored.planted.holds (grown.node_label node) inner
  · intro p node leaf
    obtain ⟨b,member,rfl⟩ := holds_leaf grown.planted.holds (grown.node_label node) leaf
    obtain ⟨u,part,whole⟩ := leaf_part explored.grows explored.planted.holds explored.planted.fits explored.planted.distinct member
    exact part.divided whole grown explored member

theorem split_error (tiled : Tiled a n) (ran : splitNode a p = some (ret,next)) (bad : ret ≠ .noError) : next = a := by
  by_cases small : (a.node p).len ≤ minMemSplit
  · rw [splitNode,if_pos small] at ran
    cases Option.some.inj ran
    rfl
  · exact absurd (splitNode_halves tiled small ran).1 bad

theorem searched (grown : Grown a n t) (ran : findSpace len searchDepth a.rootNode a = some (answer,next)) : SearchRefines a len := by
  obtain ⟨_,_,explored,_,_⟩ := grown.search ran
  refine ⟨⟨answer,next,ran,explored_refined grown explored⟩,?_⟩
  intro p ret next leaf split bad
  rw [split_error grown.planted.tiled split bad]
  exact leaf

theorem grown_refines_iff (grown : Grown a n t) (len : Nat) :
    SearchRefines a len ↔ ∀ p, FirstOffered a (blockLevel len) p → RoomFor a (blockLevel len) p := by
  constructor
  · rintro ⟨⟨answer,next,ran,_⟩,_⟩ p first
    by_contra full
    rw [(search_offered grown first).2 full] at ran
    cases ran
  · intro enough
    by_cases none_ : ∀ p, ¬ Offered a (blockLevel len) p
    · exact searched grown (search_unoffered grown none_)
    · push Not at none_
      obtain ⟨_,offered⟩ := none_
      obtain ⟨p,first⟩ := exists_first offered
      obtain ⟨q,next,ran,_⟩ := (search_offered grown first).1 (enough p first)
      exact searched grown ran

theorem descend_keeps (holds : Arena → Prop)
    (keeps : ∀ {a next : Arena} {node : Nat} {answer : Except SysRet Nat}, holds a → findSpace len fuel node a = some (answer,next) → holds next)
    (start : holds a) (ran : descend len fuel node a = some (answer,next)) : holds next := by
  unfold descend at ran
  cases first : findSpace len fuel (a.node node).left a with
  | none => simp [first] at ran
  | some outcome =>
    obtain ⟨answer₁,one⟩ := outcome
    have lower := keeps start first
    simp only [first] at ran
    split at ran
    · cases Option.some.inj ran
      exact lower
    · cases second : findSpace len fuel (one.node node).right one with
      | none => simp [second] at ran
      | some outcome =>
        obtain ⟨answer₂,two⟩ := outcome
        have upper := keeps lower second
        simp only [second] at ran
        split at ran <;> cases Option.some.inj ran <;> exact upper

-- Whatever the splits keep, a search keeps; nothing else in it writes.
theorem findSpace_keeps (holds : Arena → Prop)
    (split_ : ∀ {a next : Arena} {p : Nat} {ret : SysRet}, holds a → splitNode a p = some (ret,next) → holds next)
    (start : holds a) (ran : findSpace len fuel node a = some (answer,next)) : holds next := by
  induction fuel generalizing node a answer next with
  | zero => cases ran
  | succ fuel ih =>
    by_cases present : node = 0
    · rw [findSpace,if_pos present] at ran
      cases ran
    cases free : (a.node node).isAllocated with
    | true =>
      rw [findSpace,if_neg present,if_pos free] at ran
      cases Option.some.inj ran
      exact start
    | false =>
      by_cases window : Fitting len (a.node node).len
      · rw [findSpace,if_neg present,if_neg (by simp [free]),if_pos window] at ran
        split at ran <;> cases Option.some.inj ran <;> exact start
      by_cases leaf : (a.node node).Leaf
      · by_cases small : (a.node node).len ≤ minMemSplit
        · rw [findSpace,if_neg present,if_neg (by simp [free]),if_neg window,if_pos ⟨leaf,small⟩] at ran
          cases Option.some.inj ran
          exact start
        · rw [findSpace_split present free window leaf small] at ran
          obtain ⟨⟨ret,middle⟩,halved,rest⟩ := Option.bind_eq_some_iff.mp ran
          have after := split_ start halved
          by_cases good : ret = .noError
          · simp only [good,if_true] at rest
            exact descend_keeps holds ih after rest
          · simp only [good,if_false] at rest
            cases Option.some.inj rest
            exact after
      · rw [findSpace_fork present free window leaf] at ran
        exact descend_keeps holds ih start ran

-- Links lead to nodes that __buddy_allocator__alloc_node has handed out.
def HandedOut (n p : Nat) : Prop := p = 0 ∨ ∃ i < n, p = nodeAt i

structure Linked (a : Arena) (n : Nat) : Prop where
  tiled : Tiled a n
  children : ∀ i < n, HandedOut n (a.node (nodeAt i)).left ∧ HandedOut n (a.node (nodeAt i)).right

theorem HandedOut.more (out : HandedOut n p) (wider : n ≤ n') : HandedOut n' p := by
  rcases out with zero | ⟨i,below,same⟩
  · exact .inl zero
  · exact .inr ⟨i,by omega,same⟩

theorem Linked.halved (linked : Linked a n) (tiled : Tiled (halved a n p) (n+2)) : Linked (halved a n p) (n+2) := by
  refine ⟨tiled,?_⟩
  intro i below
  have one : nodeAt n ≠ nodeAt (n+1) := Nat.ne_of_lt (nodeAt_next n)
  by_cases parent : nodeAt i = p
  · have links : ((BuddyTree.halved a n p).node p).left = nodeAt n ∧ ((BuddyTree.halved a n p).node p).right = nodeAt (n+1) := by
      simp [BuddyTree.halved,linkHalves]
    rw [parent,links.1,links.2]
    exact ⟨.inr ⟨n,by omega,rfl⟩,.inr ⟨n+1,by omega,rfl⟩⟩
  by_cases last : i < n
  · have differ : nodeAt i ≠ nodeAt n ∧ nodeAt i ≠ nodeAt (n+1) := by
      unfold nodeAt blockAt blockSize headerSize
      omega
    rw [halved_other a parent differ.1 differ.2]
    obtain ⟨left,right⟩ := linked.children i last
    exact ⟨left.more (by omega),right.more (by omega)⟩
  · have new : nodeAt i = nodeAt n ∨ nodeAt i = nodeAt (n+1) := by
      have which : i = n ∨ i = n+1 := by omega
      exact which.imp (congrArg nodeAt) (congrArg nodeAt)
    have leaf : ((BuddyTree.halved a n p).node (nodeAt i)).Leaf := by
      rcases new with same | same
      · rw [same] at parent ⊢
        simp [BuddyTree.halved,linkHalves,takeBlock,parent,one,TreeNode.Leaf,show blockAt n+headerSize = nodeAt n from rfl,
          show blockAt (n+1)+headerSize = nodeAt (n+1) from rfl]
      · rw [same] at parent ⊢
        simp [BuddyTree.halved,linkHalves,takeBlock,parent,TreeNode.Leaf,show blockAt n+headerSize = nodeAt n from rfl,
          show blockAt (n+1)+headerSize = nodeAt (n+1) from rfl]
    rw [leaf.1,leaf.2]
    exact ⟨.inl rfl,.inl rfl⟩

theorem search_linked (linked : Linked a n) (ran : findSpace len fuel node a = some (answer,next)) : ∃ n', Linked next n' := by
  refine findSpace_keeps (fun a => ∃ n, Linked a n) ?_ ⟨n,linked⟩ ran
  rintro a next p ret ⟨n,linked⟩ split
  by_cases small : (a.node p).len ≤ minMemSplit
  · rw [splitNode,if_pos small] at split
    cases Option.some.inj split
    exact ⟨n,linked⟩
  · obtain ⟨_,rfl,tiled⟩ := splitNode_halves linked.tiled small split
    exact ⟨n+2,linked.halved tiled⟩

theorem Linked.labels (linked : Linked a n) (grown : Grown a n t) (root : HandedOut n a.rootNode) : t.labels.length ≤ n := by
  have known : ∀ p, Node a p → p ∈ (List.range n).map nodeAt := by
    have some_ : ∀ p, p ≠ 0 → HandedOut n p → p ∈ (List.range n).map nodeAt := by
      intro p present out
      obtain ⟨i,below,rfl⟩ := out.resolve_left present
      exact List.mem_map_of_mem (List.mem_range.mpr below)
    intro p node
    induction node with
    | root => exact some_ _ (by rw [grown.root]; exact grown.planted.holds.present) root
    | left _ present ih =>
      obtain ⟨i,below,rfl⟩ := List.mem_map.mp ih
      exact some_ _ present (linked.children i (List.mem_range.mp below)).1
    | right _ present ih =>
      obtain ⟨i,below,rfl⟩ := List.mem_map.mp ih
      exact some_ _ present (linked.children i (List.mem_range.mp below)).2
  have inside : t.labels ⊆ (List.range n).map nodeAt := fun p member => known p (grown.label_node member)
  simpa using (grown.planted.distinct.subperm inside).length_le

-- A machine with 3 GiB that has handed out m single pages and nothing else.
structure Draining (s : System) (n : Nat) (t : DyadicTree Nat) (m : Nat) : Prop where
  booked : Booked s n t
  linked : Linked s.allocator.arena n
  root : HandedOut n s.allocator.arena.rootNode
  pages : ∀ p, Live s.allocator.arena p → (s.allocator.arena.node p).len = 4096
  count : s.live.length = m
  budget : s.allocator.mm.availableBlockCount = 786440

theorem Draining.few (draining : Draining s n t m) : t.labels.length ≤ n ∧ n ≤ 524287 ∧ m ≤ n := by
  have tree := draining.booked.tree
  have labels := draining.linked.labels tree.grown draining.root
  have inside : s.live ⊆ t.labels := fun p member => (tree.live p member).1
  have live := (tree.distinct.subperm inside).length_le
  rw [draining.count] at live
  exact ⟨labels,tree.grown.planted.tiled.room,by omega⟩

-- A window that is all single pages would need twice as many nodes as there are.
theorem Draining.offered (draining : Draining s n t m) : ∃ p, Offered s.allocator.arena 12 p := by
  have grown := draining.booked.tree.grown
  by_contra none_
  have pages : ∀ b ∈ leaves t windowStart 31, 2^b.level = 4096 := by
    intro b member
    obtain ⟨_,size,_⟩ := grown.block member
    cases flag : (s.allocator.arena.node b.label).isAllocated with
    | true =>
      rw [← size]
      exact draining.pages b.label ⟨grown.label_node (leaf_label member),flag⟩
    | false =>
      have least := (leaf_inside grown.planted.fits member).2.2.1
      exact absurd ⟨b.label,(offered_iff grown 12 b.label).mpr ⟨b,mem_offers.mpr ⟨member,flag,least⟩,rfl⟩⟩ none_
  have whole := leaves_sum (v := windowStart) grown.planted.fits
  rw [List.map_congr_left pages,List.map_const',List.sum_replicate,smul_eq_mul] at whole
  have count := labels_length t windowStart 31
  obtain ⟨labels,room,_⟩ := draining.few
  omega

theorem Draining.held (draining : Draining s n t m) : heldPages s = m := by
  have tree := draining.booked.tree
  have single : ∀ p ∈ s.live, nodePages s.allocator.arena p = 1 := by
    intro p member
    obtain ⟨label,flag⟩ := tree.live p member
    rw [nodePages,draining.pages p ⟨tree.grown.label_node label,flag⟩]
  rw [heldPages,List.map_congr_left single,List.map_const',List.sum_replicate,draining.count,smul_eq_mul,Nat.mul_one]

theorem Linked.mark (linked : Linked a n) (node : Nat) (flag : Bool) : Linked (markAllocated a node flag) n := by
  refine ⟨⟨linked.tiled.tree,linked.tiled.nodes,linked.tiled.rest,linked.tiled.room⟩,?_⟩
  intro i below
  have same := markAllocated_same a node flag (nodeAt i)
  rw [same.left,same.right]
  exact linked.children i below

theorem Draining.marked (draining : Draining s n t m) (explored : Explored s.allocator.arena a n n' t t' windowStart 31)
    (grown : Grown (markAllocated a q true) n' t') (page : (a.node q).len = 4096) :
    ∀ p, Live (markAllocated a q true) p → ((markAllocated a q true).node p).len = 4096 := by
  rintro p ⟨node,flag⟩
  rw [(markAllocated_same a q true p).len]
  rw [markAllocated_flag] at flag
  by_cases here : p = q
  · rw [here]
    exact page
  rw [if_neg here] at flag
  have before := draining.booked.tree.grown
  rcases explored.origin p (grown.node_label node) with old | new
  · obtain ⟨same,_,size⟩ := explored.kept p (before.planted.bounded p old)
    rw [same] at flag
    rw [size]
    exact draining.pages p ⟨before.label_node old,flag⟩
  · rw [explored.fresh p (grown.node_label node) new] at flag
    cases flag

theorem Draining.backed (draining : Draining s n t m) (explored : Explored s.allocator.arena a n n' t t' windowStart 31)
    (leaf : b ∈ leaves t' windowStart 31) (free : (a.node b.label).isAllocated = false) (page : (a.node b.label).len = 4096) :
    ∃ mm, allocPages 1 (a.node b.label).vaddr s.allocator.mm = some (.noError,mm) ∧ mm.availableBlockCount = 786440 ∧
      Booked ⟨⟨mm,markAllocated a b.label true⟩,b.label::s.live⟩ n' t' := by
  have after := draining.booked.explored explored
  obtain ⟨start,size,_,high,aligned,_⟩ := after.tree.grown.block leaf
  have start : (a.node b.label).vaddr = b.start := start
  have size : 4096 = 2^b.level := page.symm.trans size
  have books := draining.booked.books
  rw [draining.held,draining.budget] at books
  have few := draining.few
  have clear : ∀ k < 1, bit s.allocator.mm.vmAllocBitmap (b.start/4096+k) = false := by
    intro k zero
    exact after.clear leaf free (by omega) (by omega)
  have low : b.start+1*4096 ≤ word := by unfold word; omega
  obtain ⟨mm,paged⟩ := allocPages_returns (show 1 ≤ (freeFrames s.allocator.mm).card by omega) aligned low clear
  have ended := allocPages_ended aligned low paged
  have available : mm.availableBlockCount = s.allocator.mm.availableBlockCount := by
    cases ended with
    | through _ claimed => exact claimed.available
  rw [show (1 : Nat) = 2^b.level/4096 by rw [← size]] at ended
  rw [start]
  exact ⟨mm,paged,available.trans draining.budget,(after.paged leaf free ended).2⟩

-- One more page: either the walk over the arena leaves it or a block is found,
-- which the page loop backs.
theorem Draining.step (draining : Draining s n t m) : findSpace 100 searchDepth s.allocator.arena.rootNode s.allocator.arena = none ∨
    ∃ next n' t', serve s (.alloc 100) = some next ∧ Draining next n' t' (m+1) := by
  have level : blockLevel 100 = 12 := blockLevel_small (by decide)
  have grown := draining.booked.tree.grown
  obtain ⟨_,offered⟩ := draining.offered
  obtain ⟨p,first⟩ := exists_first offered
  rw [← level] at first
  by_cases room : RoomFor s.allocator.arena (blockLevel 100) p
  · right
    obtain ⟨q,arena,ran,picked⟩ := (search_offered grown first).1 room
    have page : (arena.node q).len = 4096 := by rw [picked.len,level]; rfl
    have one : pageCount (arena.node q).len = 1 := by rw [page]; rfl
    obtain ⟨n',t',explored,_,found⟩ := grown.search ran
    obtain ⟨b,leaf,rfl,free,_⟩ := found q rfl
    obtain ⟨mm,paged,available,booked⟩ := draining.backed explored leaf free page
    obtain ⟨n'',linked⟩ := search_linked draining.linked ran
    rw [tiled_unique linked.tiled explored.planted.tiled] at linked
    have paid : ¬ remMem s.allocator < 100 := by rw [remMem,draining.budget]; decide
    refine ⟨⟨⟨mm,markAllocated arena b.label true⟩,b.label::s.live⟩,n',t',?_,booked,linked.mark _ _,?_,?_,?_,available⟩
    · simp only [serve,buddyAllocatorAlloc,if_neg paid,ran,one,paged]
    · show HandedOut n' arena.rootNode
      rw [explored.root]
      exact draining.root.more explored.more
    · exact draining.marked explored booked.tree.grown page
    · rw [List.length_cons,draining.count]
  · exact .inl ((search_offered grown first).2 room)

theorem draining_start : ∃ s n t, Started s ∧ Draining s n t 0 := by
  obtain ⟨mm,s,_,card,started,empty,fresh⟩ := ram_started (show 2048+98304 < 131072 by decide) (show 639 ≤ 98304 by decide)
  have grown := fresh.grown
  have leaf := grown.planted.holds.2.1
  refine ⟨s,1,_,started,started_booked started,⟨grown.planted.tiled,?_⟩,?_,?_,by rw [empty]; rfl,fresh.available.trans card⟩
  · intro i below
    obtain rfl : i = 0 := by omega
    rw [leaf.1,leaf.2]
    exact ⟨.inl rfl,.inl rfl⟩
  · rw [grown.root]
    exact .inr ⟨0,by decide,rfl⟩
  · rintro p ⟨node,flag⟩
    rw [List.mem_singleton.mp (grown.node_label node),fresh.free] at flag
    cases flag

-- The induction is on the requests; there are not enough nodes to serve them all.
theorem drained : ∃ s, Reached Started serve (fun _ r => r.Proper ∧ r.IsAlloc) s ∧
    findSpace 100 searchDepth s.allocator.arena.rootNode s.allocator.arena = none := by
  by_contra lasting
  have served : ∀ m, ∃ s n t, Reached Started serve (fun _ r => r.Proper ∧ r.IsAlloc) s ∧ Draining s n t m := by
    intro m
    induction m with
    | zero =>
      obtain ⟨s,n,t,started,draining⟩ := draining_start
      exact ⟨s,n,t,.start started,draining⟩
    | succ m ih =>
      obtain ⟨s,n,t,path,draining⟩ := ih
      rcases draining.step with stuck | ⟨next,n',t',taken,draining'⟩
      · exact absurd ⟨s,path,stuck⟩ lasting
      · exact ⟨next,n',t',path.extend (.alloc 100) ⟨show 100 < word by decide,trivial⟩ taken,draining'⟩
  obtain ⟨s,n,t,_,draining⟩ := served 524288
  have few := draining.few
  omega

theorem search_refines_iff (path : Reached Started serve (fun _ r => r.Proper) s) (len : Nat) : SearchRefines s.allocator.arena len ↔
    ∀ p, FirstOffered s.allocator.arena (blockLevel len) p → RoomFor s.allocator.arena (blockLevel len) p := by
  obtain ⟨n,t,held⟩ := reached_tended path
  exact grown_refines_iff held.grown len

theorem first_search_refines : ∃ s, Reached Started serve (fun _ r => r.Proper) s ∧ SearchRefines s.allocator.arena 100 := by
  obtain ⟨_,s,_,_,started,_,fresh⟩ := small_machine
  refine ⟨s,.start started,(search_refines_iff (.start started) 100).mpr ?_⟩
  rintro p ⟨⟨node,_⟩,_⟩
  rw [List.mem_singleton.mp (fresh.grown.node_label node)]
  exact window_room fresh.grown (blockLevel_sought 100).least

theorem exhausted_search_lost : ∃ s, Reached Started serve (fun _ r => r.Proper) s ∧ ¬ SearchRefines s.allocator.arena 100 := by
  obtain ⟨s,path,stuck⟩ := drained
  refine ⟨s,path.weaken (fun _ _ both => both.1),?_⟩
  rintro ⟨⟨answer,next,ran,_⟩,_⟩
  rw [stuck] at ran
  cases ran

end KaracaOS.BuddyRefines
