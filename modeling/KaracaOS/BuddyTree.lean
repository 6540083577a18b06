import KaracaOS.DyadicTree
import KaracaOS.BuddyArena

namespace KaracaOS.BuddyTree
open BuddyArena DyadicTree

-- The nodes of the arena spell out a dyadic tree whose labels are node pointers.
def Holds (a : Arena) : DyadicTree Nat → Nat → Nat → Prop
  | .leaf p,v,k => p ≠ 0 ∧ (a.node p).Leaf ∧ (a.node p).vaddr = v ∧ (a.node p).len = 2^k
  | .fork p l r,v,k =>
    p ≠ 0 ∧ (a.node p).left = l.label ∧ (a.node p).right = r.label ∧ (a.node p).vaddr = v ∧ (a.node p).len = 2^k ∧
      Holds a l v (k-1) ∧ Holds a r (v+2^(k-1)) (k-1)

structure SameLinks (n n' : TreeNode) : Prop where
  left : n'.left = n.left
  right : n'.right = n.right
  vaddr : n'.vaddr = n.vaddr
  len : n'.len = n.len

theorem SameLinks.of_eq {n n' : TreeNode} (equal : n' = n) : SameLinks n n' := by
  subst equal
  exact ⟨rfl,rfl,rfl,rfl⟩

variable {a next : Arena} {n n' : Nat} {t t' l l' r r' : DyadicTree Nat} {v k : Nat}

theorem Holds.transport (holds : Holds a t v k) (same : ∀ p ∈ t.labels, SameLinks (a.node p) (next.node p)) :
    Holds next t v k := by
  induction t generalizing v k with
  | leaf p =>
    obtain ⟨present,⟨left,right⟩,start,size⟩ := holds
    have here := same p (by simp [labels])
    exact ⟨present,⟨here.left.trans left,here.right.trans right⟩,here.vaddr.trans start,here.len.trans size⟩
  | fork p l r ihl ihr =>
    obtain ⟨present,left,right,start,size,lower,upper⟩ := holds
    have here := same p (by simp [labels])
    exact ⟨present,here.left.trans left,here.right.trans right,here.vaddr.trans start,here.len.trans size,
      ihl lower (fun q member => same q (by simp [labels,member])),
      ihr upper (fun q member => same q (by simp [labels,member]))⟩

theorem Holds.present (holds : Holds a t v k) : t.label ≠ 0 := by
  cases t with
  | leaf p => exact holds.1
  | fork p l r => exact holds.1

theorem Holds.start (holds : Holds a t v k) : (a.node t.label).vaddr = v ∧ (a.node t.label).len = 2^k := by
  cases t with
  | leaf p => exact ⟨holds.2.2.1,holds.2.2.2⟩
  | fork p l r => exact ⟨holds.2.2.2.1,holds.2.2.2.2.1⟩

theorem Holds.leaf_iff (holds : Holds a t v k) : (a.node t.label).Leaf ↔ t = .leaf t.label := by
  cases t with
  | leaf p => exact ⟨fun _ => rfl,fun _ => holds.2.1⟩
  | fork p l r =>
    have child := holds.2.2.2.2.2.1.present
    refine ⟨fun leaf => ?_,fun equal => by cases equal⟩
    exact absurd (holds.2.1.symm.trans leaf.1) child

theorem Holds.leaf_record (holds : Holds a t v k) (member : b ∈ leaves t v k) :
    (a.node b.label).vaddr = b.start ∧ (a.node b.label).len = 2^b.level := by
  induction t generalizing v k with
  | leaf p =>
    cases List.mem_singleton.mp member
    exact ⟨holds.2.2.1,holds.2.2.2⟩
  | fork p l r ihl ihr =>
    obtain ⟨_,_,_,_,_,lower,upper⟩ := holds
    rcases List.mem_append.mp member with left | right
    · exact ihl lower left
    · exact ihr upper right

-- An arena of n nodes that holds the tree in nodes of its own.
structure Planted (a : Arena) (n : Nat) (t : DyadicTree Nat) (v k : Nat) : Prop where
  tiled : Tiled a n
  holds : Holds a t v k
  fits : Fits 12 t k
  distinct : t.labels.Nodup
  bounded : ∀ p ∈ t.labels, p < nodeAt n

-- What a search may do to it: split blocks that are not allocated, into nodes
-- taken from the free rest, and nothing else.
structure Explored (a next : Arena) (n n' : Nat) (t t' : DyadicTree Nat) (v k : Nat) : Prop where
  planted : Planted next n' t' v k
  more : n ≤ n'
  grows : Grows (fun p => (a.node p).isAllocated = true) t t'
  origin : ∀ p ∈ t'.labels, p ∈ t.labels ∨ nodeAt n ≤ p
  outside : ∀ p < nodeAt n, p ∉ t.labels → next.node p = a.node p
  kept : ∀ p < nodeAt n, (next.node p).isAllocated = (a.node p).isAllocated ∧
    (next.node p).vaddr = (a.node p).vaddr ∧ (next.node p).len = (a.node p).len
  fresh : ∀ p ∈ t'.labels, nodeAt n ≤ p → (next.node p).isAllocated = false
  root : next.rootNode = a.rootNode

theorem nodeAt_mono (below : n ≤ n') : nodeAt n ≤ nodeAt n' := by
  unfold nodeAt blockAt blockSize headerSize
  omega

theorem Explored.refl (planted : Planted a n t v k) : Explored a a n n t t v k :=
  ⟨planted,Nat.le_refl _,.same,fun _ member => .inl member,fun _ _ _ => rfl,fun _ _ => ⟨rfl,rfl,rfl⟩,
    fun p member high => absurd (planted.bounded p member) (by omega),rfl⟩

theorem Explored.trans (first : Explored a middle n m t t' v k) (second : Explored middle next m n' t' t'' v k)
    (planted : Planted a n t v k) : Explored a next n n' t t'' v k := by
  have wider := nodeAt_mono first.more
  refine ⟨second.planted,Nat.le_trans first.more second.more,?_,?_,?_,?_,?_,second.root.trans first.root⟩
  · refine first.grows.trans ?_ second.grows
    intro p member fixed
    rw [(first.kept p (planted.bounded p member)).1]
    exact fixed
  · intro p member
    rcases second.origin p member with old | new
    · exact first.origin p old
    · exact .inr (Nat.le_trans wider new)
  · intro p low out
    have still : p ∉ t'.labels := by
      intro member
      rcases first.origin p member with old | new
      · exact out old
      · omega
    rw [second.outside p (by omega) still,first.outside p low out]
  · intro p low
    obtain ⟨flag,start,size⟩ := second.kept p (by omega)
    obtain ⟨flag',start',size'⟩ := first.kept p low
    exact ⟨flag.trans flag',start.trans start',size.trans size'⟩
  · intro p member high
    rcases second.origin p member with old | new
    · rw [(second.kept p (first.planted.bounded p old)).1]
      exact first.fresh p old high
    · exact second.fresh p member new

-- One half of a tree under a search, whether the search went there or not.
structure Half (a next : Arena) (n n' : Nat) (t t' : DyadicTree Nat) (v k : Nat) : Prop where
  holds : Holds next t' v k
  fits : Fits 12 t' k
  distinct : t'.labels.Nodup
  bounded : ∀ p ∈ t'.labels, p < nodeAt n'
  grows : Grows (fun p => (a.node p).isAllocated = true) t t'
  origin : ∀ p ∈ t'.labels, p ∈ t.labels ∨ nodeAt n ≤ p
  fresh : ∀ p ∈ t'.labels, nodeAt n ≤ p → (next.node p).isAllocated = false

theorem Explored.half (explored : Explored a next n n' t t' v k) : Half a next n n' t t' v k :=
  ⟨explored.planted.holds,explored.planted.fits,explored.planted.distinct,explored.planted.bounded,explored.grows,
    explored.origin,explored.fresh⟩

theorem Half.still (planted : Planted a n t v k) (more : n ≤ n') (same : ∀ q ∈ t.labels, next.node q = a.node q) :
    Half a next n n' t t v k := by
  have wider := nodeAt_mono more
  refine ⟨planted.holds.transport (fun q member => .of_eq (same q member)),planted.fits,planted.distinct,?_,.same,
    fun _ member => .inl member,?_⟩
  · intro q member
    exact Nat.lt_of_lt_of_le (planted.bounded q member) wider
  · intro q member high
    exact absurd (planted.bounded q member) (by omega)

theorem Planted.left (planted : Planted a n (.fork p l r) v k) : Planted a n l v (k-1) := by
  obtain ⟨_,rest⟩ := List.nodup_cons.mp planted.distinct
  exact ⟨planted.tiled,planted.holds.2.2.2.2.2.1,planted.fits.2.1,(List.nodup_append.mp rest).1,
    fun q member => planted.bounded q (by simp [labels,member])⟩

theorem Planted.right (planted : Planted a n (.fork p l r) v k) : Planted a n r (v+2^(k-1)) (k-1) := by
  obtain ⟨_,rest⟩ := List.nodup_cons.mp planted.distinct
  exact ⟨planted.tiled,planted.holds.2.2.2.2.2.2,planted.fits.2.2,(List.nodup_append.mp rest).2.1,
    fun q member => planted.bounded q (by simp [labels,member])⟩

theorem Planted.apart (planted : Planted a n (.fork p l r) v k) :
    p ∉ l.labels ∧ p ∉ r.labels ∧ ∀ q ∈ l.labels, q ∉ r.labels := by
  obtain ⟨top,rest⟩ := List.nodup_cons.mp planted.distinct
  exact ⟨fun other => top (List.mem_append.mpr (.inl other)),fun other => top (List.mem_append.mpr (.inr other)),
    fun q inl inr => (List.nodup_append.mp rest).2.2 q inl q inr rfl⟩

theorem Planted.fork (planted : Planted a n (.fork p l r) v k) (tiled : Tiled next n') (more : n ≤ n')
    (same : next.node p = a.node p) (lower : Half a next n n' l l' v (k-1)) (upper : Half a next n n' r r' (v+2^(k-1)) (k-1))
    (disjoint : ∀ q ∈ l'.labels, q ∉ r'.labels) : Planted next n' (.fork p l' r') v k := by
  obtain ⟨present,left,right,start,size,_⟩ := planted.holds
  obtain ⟨notLeft,notRight,_⟩ := planted.apart
  have below : p < nodeAt n := planted.bounded p (by simp [labels])
  refine ⟨tiled,⟨present,?_,?_,?_,?_,lower.holds,upper.holds⟩,⟨planted.fits.1,lower.fits,upper.fits⟩,?_,?_⟩
  · rw [same,left,lower.grows.label]
  · rw [same,right,upper.grows.label]
  · rw [same,start]
  · rw [same,size]
  · refine List.nodup_cons.mpr ⟨?_,List.nodup_append.mpr ⟨lower.distinct,upper.distinct,?_⟩⟩
    · intro member
      rcases List.mem_append.mp member with inl | inr
      · exact (lower.origin p inl).elim notLeft (by omega)
      · exact (upper.origin p inr).elim notRight (by omega)
    · rintro q inl q' inr rfl
      exact disjoint q inl inr
  · intro q member
    have wider := nodeAt_mono more
    simp only [labels,List.mem_cons,List.mem_append] at member
    rcases member with rfl | inl | inr
    · omega
    · exact lower.bounded q inl
    · exact upper.bounded q inr

theorem Explored.fork (planted : Planted a n (.fork p l r) v k) (went : Explored a next n n' t t' w (k-1))
    (part : ∀ q ∈ t.labels, q ∈ l.labels ∨ q ∈ r.labels)
    (lower : Half a next n n' l l' v (k-1)) (upper : Half a next n n' r r' (v+2^(k-1)) (k-1))
    (disjoint : ∀ q ∈ l'.labels, q ∉ r'.labels) : Explored a next n n' (.fork p l r) (.fork p l' r') v k := by
  obtain ⟨notLeft,notRight,_⟩ := planted.apart
  have below : p < nodeAt n := planted.bounded p (by simp [labels])
  have same : next.node p = a.node p := went.outside p below (fun member => (part p member).elim notLeft notRight)
  refine ⟨planted.fork went.planted.tiled went.more same lower upper disjoint,went.more,.both lower.grows upper.grows,?_,?_,went.kept,?_,
    went.root⟩
  · intro q member
    simp only [labels,List.mem_cons,List.mem_append] at member ⊢
    rcases member with rfl | inl | inr
    · exact .inl (.inl rfl)
    · exact (lower.origin q inl).imp_left (fun old => .inr (.inl old))
    · exact (upper.origin q inr).imp_left (fun old => .inr (.inr old))
  · intro q low out
    refine went.outside q low (fun member => out ?_)
    simpa [labels] using Or.inr (part q member)
  · intro q member high
    simp only [labels,List.mem_cons,List.mem_append] at member
    rcases member with rfl | inl | inr
    · omega
    · exact lower.fresh q inl high
    · exact upper.fresh q inr high

theorem Explored.lower (planted : Planted a n (.fork p l r) v k) (half : Explored a next n n' l l' v (k-1)) :
    Explored a next n n' (.fork p l r) (.fork p l' r) v k := by
  obtain ⟨_,_,apart⟩ := planted.apart
  have still := Half.still planted.right half.more
    (fun q member => half.outside q (planted.right.bounded q member) (fun other => apart q other member))
  refine .fork planted half (fun _ => .inl) half.half still ?_
  intro q inl inr
  rcases half.origin q inl with old | new
  · exact apart q old inr
  · exact absurd (planted.right.bounded q inr) (by omega)

theorem Explored.upper (planted : Planted a n (.fork p l r) v k) (half : Explored a next n n' r r' (v+2^(k-1)) (k-1)) :
    Explored a next n n' (.fork p l r) (.fork p l r') v k := by
  obtain ⟨_,_,apart⟩ := planted.apart
  have still := Half.still planted.left half.more
    (fun q member => half.outside q (planted.left.bounded q member) (fun other => apart q member other))
  refine .fork planted half (fun _ => .inr) still half.half ?_
  intro q inl inr
  rcases half.origin q inr with old | new
  · exact apart q inl old
  · exact absurd (planted.left.bounded q inl) (by omega)

theorem takeBlock_node (a : Arena) (out : p ≠ nodeAt n) : (takeBlock a (blockAt n)).node p = a.node p :=
  Function.update_of_ne out _ _

theorem takeBlock_leaf (a : Arena) (i : Nat) : ((takeBlock a (blockAt i)).node (nodeAt i)).Leaf := by
  simp [takeBlock,nodeAt,TreeNode.Leaf]

theorem linkHalves_tiled (tiled : Tiled a n) : Tiled (linkHalves a p left right) n :=
  ⟨tiled.tree,tiled.nodes,tiled.rest,tiled.room⟩

theorem pow_small (window : v+2^k ≤ word) (positive : 12 < k) :
    v+2^(k-1) < word ∧ 2^(k-1) < word ∧ 2^k/2 = 2^(k-1) ∧ 2^(k-1)+2^(k-1) = 2^k := by
  have whole := half positive
  have pos := Nat.two_pow_pos (k-1)
  refine ⟨by omega,by omega,by omega,whole⟩

theorem linkHalves_nodes (window : v+2^k ≤ word) (positive : 12 < k) (start : (a.node p).vaddr = v) (size : (a.node p).len = 2^k)
    (one : p ≠ left) (two : p ≠ right) (three : left ≠ right) :
    ((linkHalves a p left right).node p).left = left ∧ ((linkHalves a p left right).node p).right = right ∧
    ((linkHalves a p left right).node p).vaddr = v ∧ ((linkHalves a p left right).node p).len = 2^k ∧
    ((linkHalves a p left right).node p).isAllocated = (a.node p).isAllocated ∧
    (linkHalves a p left right).node left = {a.node left with vaddr := v,len := 2^(k-1),isAllocated := false,isLeft := true} ∧
    (linkHalves a p left right).node right =
      {a.node right with vaddr := v+2^(k-1),len := 2^(k-1),isAllocated := false,isRight := true} := by
  obtain ⟨low,small,halved,whole⟩ := pow_small window positive
  have middle : (v+2^k/2)%word = v+2^(k-1) := by rw [halved,Nat.mod_eq_of_lt low]
  have lower : (v+2^(k-1)+word-v)%word = 2^(k-1) := by
    rw [show v+2^(k-1)+word-v = 2^(k-1)+word by omega,Nat.add_mod_right,Nat.mod_eq_of_lt small]
  have upper : (v+2^k+word-(v+2^(k-1)))%word = 2^(k-1) := by
    rw [show v+2^k+word-(v+2^(k-1)) = 2^(k-1)+word by omega,Nat.add_mod_right,Nat.mod_eq_of_lt small]
  simp [linkHalves,start,size,middle,lower,upper,one.symm,two.symm,three]

def halved (a : Arena) (n p : Nat) : Arena :=
  linkHalves (takeBlock (takeBlock a (blockAt n)) (blockAt (n+1))) p (nodeAt n) (nodeAt (n+1))

theorem nodeAt_next (n : Nat) : nodeAt n < nodeAt (n+1) := by
  unfold nodeAt blockAt blockSize headerSize
  omega

theorem splitNode_halves (tiled : Tiled a n) (large : ¬ (a.node p).len ≤ minMemSplit) (ran : splitNode a p = some (ret,next)) :
    ret = .noError ∧ next = halved a n p ∧ Tiled (halved a n p) (n+2) := by
  unfold splitNode at ran
  rw [if_neg large] at ran
  cases first : allocNode a with
  | none => simp [first] at ran
  | some outcome =>
    obtain ⟨answer,one⟩ := outcome
    obtain ⟨room,rfl,rfl⟩ := allocNode_cases tiled first
    have tiled' := takeBlock_tiled tiled room
    simp only [first] at ran
    cases second : allocNode (takeBlock a (blockAt n)) with
    | none => simp [second] at ran
    | some outcome =>
      obtain ⟨answer,two⟩ := outcome
      obtain ⟨room',rfl,rfl⟩ := allocNode_cases tiled' second
      simp only [second,Option.some.injEq,Prod.mk.injEq] at ran
      obtain ⟨rfl,rfl⟩ := ran
      exact ⟨rfl,rfl,linkHalves_tiled (takeBlock_tiled tiled' room')⟩

theorem taken_node (a : Arena) (one : q ≠ nodeAt n) (two : q ≠ nodeAt (n+1)) :
    (takeBlock (takeBlock a (blockAt n)) (blockAt (n+1))).node q = a.node q := by
  rw [takeBlock_node _ two,takeBlock_node _ one]

theorem halved_other (a : Arena) (out : q ≠ p) (one : q ≠ nodeAt n) (two : q ≠ nodeAt (n+1)) : (halved a n p).node q = a.node q := by
  rw [← taken_node a one two]
  simp [halved,linkHalves,out,one,two]

theorem halved_holds (planted : Planted a n (.leaf p) v k) (window : v+2^k ≤ word) (positive : 12 < k) :
    Holds (halved a n p) (.fork p (.leaf (nodeAt n)) (.leaf (nodeAt (n+1)))) v k ∧
    ((halved a n p).node p).isAllocated = (a.node p).isAllocated ∧
    ((halved a n p).node (nodeAt n)).isAllocated = false ∧ ((halved a n p).node (nodeAt (n+1))).isAllocated = false := by
  obtain ⟨present,_,start,size⟩ := planted.holds
  have below : p < nodeAt n := planted.bounded p (by simp [labels])
  have above := nodeAt_next n
  have parent := taken_node a (show p ≠ nodeAt n by omega) (show p ≠ nodeAt (n+1) by omega)
  obtain ⟨left,right,start',size',flag,lower,upper⟩ := linkHalves_nodes window positive
    (by rw [parent]; exact start) (by rw [parent]; exact size) (show p ≠ nodeAt n by omega)
    (show p ≠ nodeAt (n+1) by omega) (show nodeAt n ≠ nodeAt (n+1) by omega)
  have lowerLeaf : ((takeBlock (takeBlock a (blockAt n)) (blockAt (n+1))).node (nodeAt n)).Leaf := by
    rw [takeBlock_node _ (by omega)]
    exact takeBlock_leaf a n
  have upperLeaf := takeBlock_leaf (takeBlock a (blockAt n)) (n+1)
  refine ⟨⟨present,left,right,start',size',?_,?_⟩,by rw [halved,flag,parent],by rw [halved,lower],by rw [halved,upper]⟩
  · refine ⟨by unfold nodeAt blockAt treeLocation; omega,?_,by rw [halved,lower],by rw [halved,lower]⟩
    rw [halved,lower]
    exact lowerLeaf
  · refine ⟨by unfold nodeAt blockAt treeLocation; omega,?_,by rw [halved,upper],by rw [halved,upper]⟩
    rw [halved,upper]
    exact upperLeaf

theorem tall_level (least : 12 ≤ k) (large : ¬ 2^k ≤ minMemSplit) : 12 < k := by
  by_contra flat
  exact large (by rw [show k = 12 by omega]; decide)

theorem splitNode_explores (planted : Planted a n (.leaf p) v k) (window : v+2^k ≤ word) (large : ¬ 2^k ≤ minMemSplit)
    (free : (a.node p).isAllocated = false) (ran : splitNode a p = some (ret,next)) :
    ret = .noError ∧ Explored a next n (n+2) (.leaf p) (.fork p (.leaf (nodeAt n)) (.leaf (nodeAt (n+1)))) v k := by
  obtain ⟨_,_,start,size⟩ := planted.holds
  obtain ⟨rfl,rfl,tiled⟩ := splitNode_halves planted.tiled (by rwa [size]) ran
  have positive := tall_level planted.fits large
  obtain ⟨holds,flag,lower,upper⟩ := halved_holds planted window positive
  have below : p < nodeAt n := planted.bounded p (by simp [labels])
  have above := nodeAt_next n
  have beyond : nodeAt (n+1) < nodeAt (n+2) := nodeAt_next (n+1)
  refine ⟨rfl,⟨⟨tiled,holds,?_,?_,?_⟩,by omega,?_,?_,?_,?_,?_,rfl⟩⟩
  · exact ⟨positive,show 12 ≤ k-1 by omega,show 12 ≤ k-1 by omega⟩
  · have distinct : p ≠ nodeAt n ∧ p ≠ nodeAt (n+1) ∧ nodeAt n ≠ nodeAt (n+1) := ⟨by omega,by omega,by omega⟩
    simp [labels,distinct]
  · intro q member
    simp only [labels,List.cons_append,List.nil_append,List.mem_cons,List.not_mem_nil,or_false] at member
    omega
  · exact .split (by simp [free]) rfl
  · intro q member
    simp only [labels,List.cons_append,List.nil_append,List.mem_cons,List.not_mem_nil,or_false] at member ⊢
    omega
  · intro q low out
    exact halved_other a (by simpa [labels] using out) (by omega) (by omega)
  · intro q low
    by_cases here : q = p
    · subst here
      exact ⟨flag,holds.2.2.2.1.trans start.symm,holds.2.2.2.2.1.trans size.symm⟩
    · rw [halved_other a here (by omega) (by omega)]
      exact ⟨rfl,rfl,rfl⟩
  · intro q member high
    simp only [labels,List.cons_append,List.nil_append,List.mem_cons,List.not_mem_nil,or_false] at member
    rcases member with rfl | rfl | rfl
    · omega
    · exact lower
    · exact upper

-- A search ends on a free leaf. On the way down no larger block was in the size
-- window, and the leaf is in it or cannot be halved.
def Found (len : Nat) (a : Arena) (t : DyadicTree Nat) (v k q : Nat) : Prop :=
  ∃ b ∈ leaves t v k, b.label = q ∧ (a.node q).isAllocated = false ∧ (Fitting len (2^b.level) ∨ b.level = 12) ∧
    ∀ p, b.level < p → p ≤ k → ¬ Fitting len (2^p)

theorem Found.above (found : Found len a t w (k-1) q) (part : ∀ b ∈ leaves t w (k-1), b ∈ leaves t' v k)
    (window : ¬ Fitting len (2^k)) : Found len a t' v k q := by
  obtain ⟨b,member,label,free,size,none⟩ := found
  refine ⟨b,part b member,label,free,size,?_⟩
  intro level above below
  by_cases top : level = k
  · rwa [top]
  · exact none level above (by omega)

theorem accepted_some (took : accepted answer a = some q) : answer = .ok q := by
  cases answer with
  | error ret => cases took
  | ok found =>
    simp only [accepted] at took
    split at took
    · cases took
    · rw [Option.some.inj took]

-- The part of find_space behind the size checks.
def descend (len fuel node : Nat) (a : Arena) : Option (Except SysRet Nat × Arena) :=
  match findSpace len fuel (a.node node).left a with
  | none => none
  | some (answer,a) =>
    match accepted answer a with
    | some found => some (.ok found,a)
    | none =>
      match findSpace len fuel (a.node node).right a with
      | none => none
      | some (answer,a) =>
        match accepted answer a with
        | some found => some (.ok found,a)
        | none => some (.error .notFound,a)

theorem findSpace_fork (present : node ≠ 0) (free : (a.node node).isAllocated = false)
    (window : ¬ Fitting len (a.node node).len) (inner : ¬ (a.node node).Leaf) :
    findSpace len (fuel+1) node a = descend len fuel node a := by
  rw [findSpace,if_neg present,if_neg (by simp [free]),if_neg window,if_neg (fun both => inner both.1),if_neg inner]
  rfl

theorem findSpace_split (present : node ≠ 0) (free : (a.node node).isAllocated = false)
    (window : ¬ Fitting len (a.node node).len) (leaf : (a.node node).Leaf) (large : ¬ (a.node node).len ≤ minMemSplit) :
    findSpace len (fuel+1) node a =
      (splitNode a node).bind (fun (ret,next) => if ret = .noError then descend len fuel node next else some (.error ret,next)) := by
  rw [findSpace,if_neg present,if_neg (by simp [free]),if_neg window,if_neg (fun both => large both.2),if_pos leaf]
  cases splitNode a node with
  | none => rfl
  | some outcome =>
    obtain ⟨ret,next⟩ := outcome
    cases ret <;> rfl

-- What a search from a subtree does and finds; the induction is on its fuel.
def Searches (len fuel : Nat) : Prop :=
  ∀ {a next : Arena} {n : Nat} {t : DyadicTree Nat} {v k : Nat} {answer : Except SysRet Nat},
    Planted a n t v k → v+2^k ≤ word → findSpace len fuel t.label a = some (answer,next) →
      ∃ n' t', Explored a next n n' t t' v k ∧ ∀ q, answer = .ok q → Found len next t' v k q

theorem descend_explores (searches : Searches len fuel) (planted : Planted a n (.fork p l r) v k) (bounded : v+2^k ≤ word)
    (window : ¬ Fitting len (2^k)) (ran : descend len fuel p a = some (answer,next)) :
    ∃ n' l' r', Explored a next n n' (.fork p l r) (.fork p l' r') v k ∧
      ∀ q, answer = .ok q → Found len next (.fork p l' r') v k q := by
  have whole := half planted.fits.1
  have positive := Nat.two_pow_pos (k-1)
  unfold descend at ran
  rw [planted.holds.2.1] at ran
  cases first : findSpace len fuel l.label a with
  | none => simp [first] at ran
  | some outcome =>
    obtain ⟨answer₁,one⟩ := outcome
    obtain ⟨n₁,l',explored,found⟩ := searches planted.left (by omega) first
    have lower := Explored.lower planted explored
    simp only [first] at ran
    cases took : accepted answer₁ one with
    | some q =>
      simp only [took,Option.some.injEq,Prod.mk.injEq] at ran
      obtain ⟨rfl,rfl⟩ := ran
      refine ⟨n₁,l',r,lower,?_⟩
      intro q' same
      cases same
      exact (found q (accepted_some took)).above (fun b member => List.mem_append.mpr (.inl member)) window
    | none =>
      simp only [took,lower.planted.holds.2.2.1] at ran
      cases second : findSpace len fuel r.label one with
      | none => simp [second] at ran
      | some outcome =>
        obtain ⟨answer₂,two⟩ := outcome
        obtain ⟨n₂,r',explored₂,found₂⟩ := searches lower.planted.right (by omega) second
        have both := lower.trans (Explored.upper lower.planted explored₂) planted
        simp only [second] at ran
        cases took₂ : accepted answer₂ two with
        | some q =>
          simp only [took₂,Option.some.injEq,Prod.mk.injEq] at ran
          obtain ⟨rfl,rfl⟩ := ran
          refine ⟨n₂,l',r',both,?_⟩
          intro q' same
          cases same
          exact (found₂ q (accepted_some took₂)).above (fun b member => List.mem_append.mpr (.inr member)) window
        | none =>
          simp only [took₂,Option.some.injEq,Prod.mk.injEq] at ran
          obtain ⟨rfl,rfl⟩ := ran
          exact ⟨n₂,l',r',both,fun q same => by cases same⟩

theorem small_level (least : 12 ≤ k) (small : 2^k ≤ minMemSplit) : k = 12 := by
  by_contra other
  have larger : 2^13 ≤ 2^k := Nat.pow_le_pow_right (by decide) (by omega)
  have bound : 2^k ≤ 4*1024 := small
  omega

theorem findSpace_explores (len fuel : Nat) : Searches len fuel := by
  induction fuel with
  | zero =>
    intro a next n t v k answer planted bounded ran
    cases ran
  | succ fuel ih =>
    intro a next n t v k answer planted bounded ran
    have present := planted.holds.present
    have size := planted.holds.start.2
    have still : Explored a a n n t t v k := .refl planted
    cases free : (a.node t.label).isAllocated with
    | true =>
      rw [findSpace,if_neg present,if_pos free] at ran
      cases Option.some.inj ran
      exact ⟨n,t,still,fun q same => by cases same⟩
    | false =>
      by_cases window : Fitting len (2^k)
      · rw [findSpace,if_neg present,if_neg (by simp [free]),if_pos (by rwa [size])] at ran
        split at ran
        · rename_i leaf
          cases Option.some.inj ran
          refine ⟨n,t,still,?_⟩
          intro q same
          cases same
          rw [planted.holds.leaf_iff.mp leaf]
          exact ⟨⟨t.label,v,k⟩,List.mem_singleton.mpr rfl,rfl,free,.inl window,fun p above below => absurd below (Nat.not_le_of_lt above)⟩
        · cases Option.some.inj ran
          exact ⟨n,t,still,fun q same => by cases same⟩
      · cases t with
        | fork p l r =>
          have inner : ¬ (a.node p).Leaf := fun leaf => by cases planted.holds.leaf_iff.mp leaf
          rw [findSpace_fork present free (by rwa [size]) inner] at ran
          obtain ⟨n',l',r',explored,found⟩ := descend_explores ih planted bounded window ran
          exact ⟨n',_,explored,found⟩
        | leaf p =>
          have leaf : (a.node p).Leaf := planted.holds.2.1
          by_cases small : 2^k ≤ minMemSplit
          · have ran : some (.ok p,a) = some (answer,next) := by
              rw [← ran,findSpace,if_neg present,if_neg (by simp [free]),if_neg (by rwa [size]),
                if_pos ⟨leaf,by rwa [size]⟩]
              rfl
            cases Option.some.inj ran
            refine ⟨n,.leaf p,still,?_⟩
            intro q same
            cases same
            exact ⟨⟨p,v,k⟩,List.mem_singleton.mpr rfl,rfl,free,.inr (small_level planted.fits small),
              fun p above below => absurd below (Nat.not_le_of_lt above)⟩
          · rw [findSpace_split present free (by rwa [size]) leaf (by rwa [size])] at ran
            obtain ⟨⟨ret,middle⟩,halved,rest⟩ := Option.bind_eq_some_iff.mp ran
            obtain ⟨rfl,split⟩ := splitNode_explores planted bounded small free halved
            obtain ⟨n',l',r',explored,found⟩ := descend_explores ih split.planted bounded window rest
            exact ⟨n',_,split.trans explored planted,found⟩

theorem splitNode_returns (planted : Planted a n (.leaf p) v k) (large : ¬ 2^k ≤ minMemSplit) (room : n+2 ≤ maxNodes) :
    ∃ next, splitNode a p = some (.noError,next) := by
  have size : (a.node p).len = 2^k := planted.holds.2.2.2
  have tiled := takeBlock_tiled planted.tiled (by omega)
  refine ⟨halved a n p,?_⟩
  rw [splitNode,if_neg (by rwa [size]),allocNode_spec planted.tiled,if_pos (by omega)]
  dsimp only
  rw [allocNode_spec tiled,if_pos (by omega)]
  rfl

theorem accepted_free (free : (a.node q).isAllocated = false) : accepted (.ok q) a = some q := by
  simp [accepted,free]

-- A search that comes back with a node, which starts where a free leaf starts,
-- or leaves the arena alone because the subtree has nothing to offer.
def Settles (len fuel : Nat) (a : Arena) (t : DyadicTree Nat) : Prop :=
  ∃ answer next, findSpace len fuel t.label a = some (answer,next) ∧
    ((∃ q, answer = .ok q ∧ (next.node q).isAllocated = false ∧ ∀ p, t = .leaf p → (next.node q).vaddr = (a.node p).vaddr) ∨
      (next = a ∧ answer = .error .notFound ∧ ∀ p, t = .leaf p → (a.node p).isAllocated = true))

theorem descend_settles (planted : Planted a n (.fork p l r) v k) (lower : Settles len fuel a l) (upper : Settles len fuel a r) :
    ∃ answer next, descend len fuel p a = some (answer,next) ∧
      ((∃ q, answer = .ok q ∧ (next.node q).isAllocated = false ∧
          ∀ p, l = .leaf p → (a.node p).isAllocated = false → (next.node q).vaddr = (a.node p).vaddr) ∨
        (next = a ∧ answer = .error .notFound ∧ ∀ q, l = .leaf q → (a.node q).isAllocated = true)) := by
  unfold descend
  rw [planted.holds.2.1]
  obtain ⟨answer,next,ran,⟨q,rfl,free,start⟩ | ⟨rfl,rfl,taken⟩⟩ := lower
  · exact ⟨.ok q,next,by simp only [ran,accepted_free free],.inl ⟨q,rfl,free,fun p leaf _ => start p leaf⟩⟩
  · simp only [ran,accepted,planted.holds.2.2.1]
    obtain ⟨answer,last,ran',⟨q,rfl,free,_⟩ | ⟨rfl,rfl,_⟩⟩ := upper
    · refine ⟨.ok q,last,by simp only [ran',free,Bool.false_eq_true,if_false],.inl ⟨q,rfl,free,?_⟩⟩
      intro p leaf open_
      rw [taken p leaf] at open_
      cases open_
    · exact ⟨.error .notFound,last,by simp only [ran'],.inr ⟨rfl,rfl,taken⟩⟩

-- One level of fuel for each halving, and room for two nodes at each.
theorem findSpace_settles (len : Nat) (enough : k-12 < fuel) (planted : Planted a n t v k) (bounded : v+2^k ≤ word)
    (room : n+2*(k-12) ≤ maxNodes) : Settles len fuel a t := by
  induction fuel generalizing a n t v k with
  | zero => omega
  | succ fuel ih =>
    have present := planted.holds.present
    have size := planted.holds.start.2
    have positive := Nat.two_pow_pos (k-1)
    cases free : (a.node t.label).isAllocated with
    | true =>
      refine ⟨.error .notFound,a,by rw [findSpace,if_neg present,if_pos free],.inr ⟨rfl,rfl,?_⟩⟩
      intro p same
      subst same
      exact free
    | false =>
      by_cases window : Fitting len (2^k)
      · by_cases leaf : (a.node t.label).Leaf
        · exact ⟨.ok t.label,a,by rw [findSpace,if_neg present,if_neg (by simp [free]),if_pos (by rwa [size]),if_pos leaf],
            .inl ⟨_,rfl,free,fun p same => by rw [same]; rfl⟩⟩
        · refine ⟨.error .notFound,a,?_,.inr ⟨rfl,rfl,?_⟩⟩
          · rw [findSpace,if_neg present,if_neg (by simp [free]),if_pos (by rwa [size]),if_neg leaf]
          · intro p same
            subst same
            exact absurd planted.holds.2.1 leaf
      · cases t with
        | fork p l r =>
          have inner : ¬ (a.node p).Leaf := fun leaf => by cases planted.holds.leaf_iff.mp leaf
          have whole := half planted.fits.1
          have lower := ih (by have := planted.fits.1; omega) planted.left (by omega) (by omega)
          have upper := ih (by have := planted.fits.1; omega) planted.right (by omega) (by omega)
          obtain ⟨answer,next,ran,result⟩ := descend_settles planted lower upper
          refine ⟨answer,next,(findSpace_fork present free (by rwa [size]) inner).trans ran,?_⟩
          rcases result with ⟨q,rfl,open_,_⟩ | ⟨rfl,rfl,_⟩
          · exact .inl ⟨q,rfl,open_,fun p same => by cases same⟩
          · exact .inr ⟨rfl,rfl,fun q same => by cases same⟩
        | leaf p =>
          obtain ⟨present,leaf,start,size⟩ : p ≠ 0 ∧ (a.node p).Leaf ∧ (a.node p).vaddr = v ∧ (a.node p).len = 2^k := planted.holds
          have free : (a.node p).isAllocated = false := free
          have least : 12 ≤ k := planted.fits
          by_cases small : 2^k ≤ minMemSplit
          · refine ⟨.ok p,a,?_,.inl ⟨p,rfl,free,fun q same => by cases same; rfl⟩⟩
            show findSpace len (fuel+1) p a = _
            rw [findSpace,if_neg present,if_neg (by simp [free]),if_neg (by rwa [size]),if_pos ⟨leaf,by rwa [size]⟩]
          · have tall := tall_level least small
            have whole := half tall
            obtain ⟨middle,halved⟩ := splitNode_returns planted small (by omega)
            obtain ⟨_,split⟩ := splitNode_explores planted bounded small free halved
            have lower := ih (by omega) split.planted.left (by omega) (by omega)
            have upper := ih (by omega) split.planted.right (by omega) (by omega)
            obtain ⟨answer,next,ran,result⟩ := descend_settles split.planted lower upper
            refine ⟨answer,next,?_,?_⟩
            · show findSpace len (fuel+1) p a = _
              rw [findSpace_split present free (by rwa [size]) leaf (by rwa [size]),halved]
              exact ran
            · have fresh := split.fresh (nodeAt n) (by simp [labels]) (Nat.le_refl _)
              have placed : (middle.node (nodeAt n)).vaddr = v := split.planted.left.holds.2.2.1
              rcases result with ⟨q,rfl,open_,first⟩ | ⟨_,_,taken⟩
              · refine .inl ⟨q,rfl,open_,?_⟩
                intro p' same
                cases same
                rw [first (nodeAt n) rfl fresh,placed,start]
              · rw [taken (nodeAt n) rfl] at fresh
                cases fresh

end KaracaOS.BuddyTree
