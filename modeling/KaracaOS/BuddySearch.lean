import KaracaOS.BuddyRuns

namespace KaracaOS.BuddySearch
open Bitmap Paging MemoryManager BootMap BuddyArena BuddyTree BuddyAllocator BuddyPages BuddyRuns DyadicTree StepRuns

-- The block size, as a power of two, that a request comes to: the largest that
-- lies between twice and four times its length, or else one page.
def blockLevel (len : Nat) : Nat := max 12 (Nat.findGreatest (fun k => Fitting len (2^k)) 31)

-- That size seen from a subtree of level k.
structure Sought (len size k : Nat) : Prop where
  least : 12 ≤ size
  reach : size ≤ k
  coarse : ∀ p, size < p → p ≤ k → ¬ Fitting len (2^p)
  fine : Fitting len (2^size) ∨ size = 12

-- The leaves a search can use, from left to right.
def offers (a : Arena) (size : Nat) (t : DyadicTree Nat) (v k : Nat) : List (Block Nat) :=
  (leaves t v k).filter fun b => !(a.node b.label).isAllocated && decide (size ≤ b.level)

structure Picked (a : Arena) (q v size : Nat) : Prop where
  free : (a.node q).isAllocated = false
  start : (a.node q).vaddr = v
  len : (a.node q).len = 2^size

def Unmarked (a : Arena) (t : DyadicTree Nat) : Prop := Inner (fun p => (a.node p).isAllocated = false) t

variable {a next : Arena} {n : Nat} {t l r : DyadicTree Nat} {v k len size fuel : Nat} {b : Block Nat}

theorem blockLevel_sought (len : Nat) : Sought len (blockLevel len) 31 := by
  have bound : Nat.findGreatest (fun k => Fitting len (2^k)) 31 ≤ 31 := Nat.findGreatest_le 31
  refine ⟨Nat.le_max_left _ _,Nat.max_le.mpr ⟨by decide,bound⟩,?_,?_⟩
  · intro p above below fits
    have greatest := Nat.le_findGreatest (P := fun k => Fitting len (2^k)) below fits
    have larger : Nat.findGreatest (fun k => Fitting len (2^k)) 31 ≤ blockLevel len := Nat.le_max_right _ _
    omega
  · by_cases small : Nat.findGreatest (fun k => Fitting len (2^k)) 31 ≤ 12
    · exact .inr (Nat.max_eq_left small)
    · left
      rw [blockLevel,Nat.max_eq_right (by omega)]
      exact Nat.findGreatest_of_ne_zero (P := fun k => Fitting len (2^k)) rfl (by omega)

theorem Sought.below (sought : Sought len size k) (less : size < k) : Sought len size (k-1) :=
  ⟨sought.least,by omega,fun p above under => sought.coarse p above (by omega),sought.fine⟩

theorem offers_fork (a : Arena) (size p : Nat) (l r : DyadicTree Nat) (v k : Nat) :
    offers a size (.fork p l r) v k = offers a size l v (k-1) ++ offers a size r (v+2^(k-1)) (k-1) := by
  simp only [offers,leaves,List.filter_append]

theorem offers_leaf (reach : size ≤ k) : offers a size (.leaf p) v k = if (a.node p).isAllocated then [] else [⟨p,v,k⟩] := by
  cases flag : (a.node p).isAllocated <;> simp [offers,leaves,flag,reach]

theorem offers_flat (fits : Fits 12 (.fork p l r) size) : offers a size (.fork p l r) v size = [] := by
  apply List.filter_eq_nil_iff.mpr
  intro b member
  obtain ⟨tall,fitl,fitr⟩ := fits
  have level : b.level ≤ size-1 := by
    rcases List.mem_append.mp member with left | right
    · exact (leaf_inside fitl left).2.2.2.1
    · exact (leaf_inside fitr right).2.2.2.1
  have short : ¬ size ≤ b.level := by omega
  simp [short]

theorem Sought.fork (sought : Sought len size k) (fits : Fits 12 (.fork p l r) k) (window : ¬ Fitting len (2^k)) : size < k := by
  have reach := sought.reach
  by_contra flat
  have same : size = k := by omega
  rcases sought.fine with fit | least
  · rw [same] at fit
    exact window fit
  · have tall := fits.1
    omega

theorem descend_left (left : findSpace len fuel (a.node p).left a = some (.ok q,next)) (free : (next.node q).isAllocated = false) :
    descend len fuel p a = some (.ok q,next) := by
  simp only [descend,left,accepted_free free]

theorem descend_right (left : findSpace len fuel (a.node p).left a = some (.error ret,a)) :
    descend len fuel p a = (findSpace len fuel (a.node p).right a).map fun (answer,next) =>
      match accepted answer next with
      | some q => (.ok q,next)
      | none => (.error .notFound,next) := by
  have refused : accepted (.error ret) a = none := rfl
  simp only [descend,left,refused]
  cases findSpace len fuel (a.node p).right a with
  | none => rfl
  | some outcome =>
    obtain ⟨answer,next⟩ := outcome
    cases took : accepted answer next <;> simp [took]

theorem fork_descends (planted : Planted a n (.fork p l r) v k) (free : (a.node p).isAllocated = false) (window : ¬ Fitting len (2^k)) :
    findSpace len (fuel+1) p a = descend len fuel p a := by
  obtain ⟨present,_,_,_,size,_⟩ := planted.holds
  have inner : ¬ (a.node p).Leaf := fun leaf => by cases planted.holds.leaf_iff.mp leaf
  exact findSpace_fork present free (by rwa [size]) inner

theorem findSpace_unoffered (sought : Sought len size k) (planted : Planted a n t v k) (unmarked : Unmarked a t)
    (none_ : offers a size t v k = []) (enough : k-12 < fuel) : findSpace len fuel t.label a = some (.error .notFound,a) := by
  induction t generalizing v k fuel with
  | leaf p =>
    obtain ⟨fuel,rfl⟩ : ∃ m, fuel = m+1 := ⟨fuel-1,by omega⟩
    rw [offers_leaf sought.reach] at none_
    cases flag : (a.node p).isAllocated with
    | true => rw [label,findSpace,if_neg planted.holds.1,if_pos flag]
    | false => simp [flag] at none_
  | fork p l r ihl ihr =>
    obtain ⟨fuel,rfl⟩ : ∃ m, fuel = m+1 := ⟨fuel-1,by omega⟩
    obtain ⟨free,unmarkedl,unmarkedr⟩ := unmarked
    obtain ⟨present,left,right,_,len_,_⟩ := planted.holds
    have tall := planted.fits.1
    show findSpace len (fuel+1) p a = _
    by_cases window : Fitting len (2^k)
    · have inner : ¬ (a.node p).Leaf := fun leaf => by cases planted.holds.leaf_iff.mp leaf
      rw [findSpace,if_neg present,if_neg (by simp [free]),if_pos (by rwa [len_]),if_neg inner]
    · have less := sought.fork planted.fits window
      rw [offers_fork] at none_
      obtain ⟨nonel,noner⟩ := List.append_eq_nil_iff.mp none_
      have lower := ihl (sought.below less) planted.left unmarkedl nonel (by omega : k-1-12 < fuel)
      have upper := ihr (sought.below less) planted.right unmarkedr noner (by omega : k-1-12 < fuel)
      rw [fork_descends planted free window,descend_right (by rw [left]; exact lower),right,upper]
      rfl

-- With room the search ends in a block of the size sought; without it the walk
-- over the arena leaves the mapped pages.
def Settled (len fuel p : Nat) (a : Arena) (n extra v size : Nat) : Prop :=
  (n+2*extra ≤ maxNodes → ∃ q next, findSpace len fuel p a = some (.ok q,next) ∧ Picked next q v size) ∧
  (maxNodes < n+2*extra → findSpace len fuel p a = none)

theorem splitNode_full (planted : Planted a n (.leaf p) v k) (large : ¬ 2^k ≤ minMemSplit) (full : maxNodes < n+2) : splitNode a p = none := by
  have len_ : (a.node p).len = 2^k := planted.holds.2.2.2
  rw [splitNode,if_neg (by rwa [len_]),allocNode_spec planted.tiled]
  by_cases room : n < maxNodes
  · rw [if_pos room]
    dsimp only
    rw [allocNode_spec (takeBlock_tiled planted.tiled room),if_neg (by omega)]
  · rw [if_neg room]

theorem descend_never (left : findSpace len fuel (a.node p).left a = none) : descend len fuel p a = none := by
  simp only [descend,left]

theorem findSpace_leaf (sought : Sought len size k) (planted : Planted a n (.leaf p) v k) (bounded : v+2^k ≤ word)
    (free : (a.node p).isAllocated = false) (enough : k-12 < fuel) : Settled len fuel p a n (k-size) v size := by
  induction fuel generalizing a n p v k with
  | zero => omega
  | succ fuel ih =>
    obtain ⟨present,leaf,start,len_⟩ : p ≠ 0 ∧ (a.node p).Leaf ∧ (a.node p).vaddr = v ∧ (a.node p).len = 2^k := planted.holds
    have reach := sought.reach
    have least := sought.least
    by_cases here : size = k
    · subst here
      have taken : findSpace len (fuel+1) p a = some (.ok p,a) := by
        by_cases window : Fitting len (2^size)
        · rw [findSpace,if_neg present,if_neg (by simp [free]),if_pos (by rwa [len_]),if_pos leaf]
        · have page : (a.node p).len ≤ minMemSplit := by
            rw [len_,sought.fine.resolve_left window]
            decide
          rw [findSpace,if_neg present,if_neg (by simp [free]),if_neg (by rwa [len_]),if_pos ⟨leaf,page⟩]
      have bound := planted.tiled.room
      exact ⟨fun _ => ⟨p,a,taken,free,start,len_⟩,fun full => by omega⟩
    · have window : ¬ Fitting len (2^k) := sought.coarse k (by omega) (Nat.le_refl _)
      have large : ¬ 2^k ≤ minMemSplit := by
        intro small
        have flat := small_level (show 12 ≤ k by omega) small
        omega
      have whole := half (show 12 < k by omega)
      by_cases room : n+2 ≤ maxNodes
      · obtain ⟨middle,halved⟩ := splitNode_returns planted large room
        obtain ⟨_,split⟩ := splitNode_explores planted bounded large free halved
        have left : (middle.node p).left = nodeAt n := split.planted.holds.2.1
        have open_ := split.fresh (nodeAt n) (by simp [labels]) (Nat.le_refl _)
        obtain ⟨found,lost⟩ := ih (sought.below (by omega)) split.planted.left (by omega) open_ (by omega)
        have unfolded : findSpace len (fuel+1) p a = descend len fuel p middle := by
          rw [findSpace_split present free (by rwa [len_]) leaf (by rwa [len_]),halved]
          rfl
        refine ⟨?_,?_⟩
        · intro fits
          obtain ⟨q,next,ran,picked⟩ := found (by omega)
          exact ⟨q,next,unfolded.trans (descend_left (by rwa [left]) picked.free),picked⟩
        · intro full
          exact unfolded.trans (descend_never (by rw [left]; exact lost (by omega)))
      · refine ⟨fun fits => by omega,fun _ => ?_⟩
        rw [findSpace_split present free (by rwa [len_]) leaf (by rwa [len_]),splitNode_full planted large (by omega)]
        rfl

theorem Settled.of_left (settled : Settled len fuel (a.node p).left a n extra v size)
    (same : findSpace len (fuel+1) p a = descend len fuel p a) : Settled len (fuel+1) p a n extra v size := by
  refine ⟨?_,fun full => same.trans (descend_never (settled.2 full))⟩
  intro fits
  obtain ⟨q,next,ran,picked⟩ := settled.1 fits
  exact ⟨q,next,same.trans (descend_left ran picked.free),picked⟩

theorem Settled.of_right (settled : Settled len fuel (a.node p).right a n extra v size)
    (missed : findSpace len fuel (a.node p).left a = some (.error .notFound,a))
    (same : findSpace len (fuel+1) p a = descend len fuel p a) : Settled len (fuel+1) p a n extra v size := by
  rw [descend_right missed] at same
  refine ⟨?_,?_⟩
  · intro fits
    obtain ⟨q,next,ran,picked⟩ := settled.1 fits
    rw [ran] at same
    refine ⟨q,next,?_,picked⟩
    simpa only [Option.map_some,accepted_free picked.free] using same
  · intro full
    rw [settled.2 full] at same
    exact same

-- The first leaf on offer decides; the induction follows the search from left
-- to right.
theorem findSpace_offered (sought : Sought len size k) (planted : Planted a n t v k) (bounded : v+2^k ≤ word) (unmarked : Unmarked a t)
    (some_ : offers a size t v k = b::rest) (enough : k-12 < fuel) :
    Settled len fuel t.label a n (b.level-size) b.start size := by
  induction t generalizing v k fuel rest with
  | leaf p =>
    rw [offers_leaf sought.reach] at some_
    cases flag : (a.node p).isAllocated with
    | true => simp [flag] at some_
    | false =>
      rw [flag] at some_
      cases some_
      exact findSpace_leaf sought planted bounded flag enough
  | fork p l r ihl ihr =>
    obtain ⟨fuel,rfl⟩ : ∃ m, fuel = m+1 := ⟨fuel-1,by omega⟩
    obtain ⟨free,unmarkedl,unmarkedr⟩ := unmarked
    have tall := planted.fits.1
    have whole := half tall
    have window : ¬ Fitting len (2^k) := by
      intro fits
      have same : size = k := by
        by_contra differ
        have reach := sought.reach
        exact sought.coarse k (by omega) (Nat.le_refl _) fits
      subst same
      rw [offers_flat planted.fits] at some_
      cases some_
    have less := sought.fork planted.fits window
    have descends : findSpace len (fuel+1) p a = descend len fuel p a := fork_descends planted free window
    obtain ⟨_,left,right,_⟩ := planted.holds
    show Settled len (fuel+1) p a n (b.level-size) b.start size
    rw [offers_fork] at some_
    cases first : offers a size l v (k-1) with
    | nil =>
      rw [first,List.nil_append] at some_
      have missed := findSpace_unoffered (sought.below less) planted.left unmarkedl first (show k-1-12 < fuel by omega)
      have settled := ihr (sought.below less) planted.right (by omega) unmarkedr some_ (show k-1-12 < fuel by omega)
      exact Settled.of_right (by rwa [right]) (by rwa [left]) descends
    | cons c others =>
      rw [first] at some_
      cases some_
      have settled := ihl (sought.below less) planted.left (by omega) unmarkedl first (show k-1-12 < fuel by omega)
      exact Settled.of_left (by rwa [left]) descends

-- The same without the tree: free leaves that are large enough, the lowest of
-- them, and the nodes its halving takes from the arena.
def Offered (a : Arena) (size p : Nat) : Prop :=
  Node a p ∧ (a.node p).Leaf ∧ (a.node p).isAllocated = false ∧ 2^size ≤ (a.node p).len

def FirstOffered (a : Arena) (size p : Nat) : Prop := Offered a size p ∧ ∀ q, Offered a size q → (a.node p).vaddr ≤ (a.node q).vaddr

def RoomFor (a : Arena) (size p : Nat) : Prop := ∃ n, Tiled a n ∧ n+2*(Nat.log 2 (a.node p).len-size) ≤ maxNodes

theorem tiled_unique (one : Tiled a n) (two : Tiled a m) : n = m := by
  rcases Nat.lt_trichotomy n m with less | same | more
  · have used := (two.nodes n less).1
    rw [one.rest.1] at used
    cases used
  · exact same
  · have used := (one.nodes m more).1
    rw [two.rest.1] at used
    cases used

theorem holds_leaf (holds : Holds a t v k) (member : p ∈ t.labels) (leaf : (a.node p).Leaf) : ∃ b ∈ leaves t v k, b.label = p := by
  induction t generalizing v k with
  | leaf q =>
    cases List.mem_singleton.mp member
    exact ⟨⟨p,v,k⟩,List.mem_singleton.mpr rfl,rfl⟩
  | fork q l r ihl ihr =>
    obtain ⟨_,left,_,_,_,lower,upper⟩ := holds
    rcases List.mem_cons.mp member with rfl | below
    · exact absurd (left.symm.trans leaf.1) lower.present
    · rcases List.mem_append.mp below with inl | inr
      · obtain ⟨b,found,same⟩ := ihl lower inl
        exact ⟨b,List.mem_append.mpr (.inl found),same⟩
      · obtain ⟨b,found,same⟩ := ihr upper inr
        exact ⟨b,List.mem_append.mpr (.inr found),same⟩

theorem leaves_leaf (holds : Holds a t v k) (member : b ∈ leaves t v k) : (a.node b.label).Leaf := by
  induction t generalizing v k with
  | leaf q =>
    cases List.mem_singleton.mp member
    exact holds.2.1
  | fork q l r ihl ihr =>
    obtain ⟨_,_,_,_,_,lower,upper⟩ := holds
    exact (List.mem_append.mp member).elim (ihl lower) (ihr upper)

theorem mem_offers : b ∈ offers a size t v k ↔ b ∈ leaves t v k ∧ (a.node b.label).isAllocated = false ∧ size ≤ b.level := by
  simp [offers]

theorem offered_iff (grown : Grown a n t) (size p : Nat) :
    Offered a size p ↔ ∃ b ∈ offers a size t windowStart 31, b.label = p := by
  constructor
  · rintro ⟨node,leaf,free,large⟩
    obtain ⟨b,member,rfl⟩ := holds_leaf grown.planted.holds (grown.node_label node) leaf
    rw [(grown.block member).2.1] at large
    exact ⟨b,mem_offers.mpr ⟨member,free,(Nat.pow_le_pow_iff_right (by decide)).mp large⟩,rfl⟩
  · rintro ⟨b,offer,rfl⟩
    obtain ⟨member,free,large⟩ := mem_offers.mp offer
    refine ⟨grown.label_node (leaf_label member),leaves_leaf grown.planted.holds member,free,?_⟩
    rw [(grown.block member).2.1]
    exact Nat.pow_le_pow_right (by decide) large

theorem grown_unmarked (grown : Grown a n t) : Unmarked a t := by
  refine inner_of_leaves (v := windowStart) (k := 31) grown.planted.distinct ?_
  intro p member flag
  exact grown.marked p member (by simpa using flag)

theorem first_offer (grown : Grown a n t) (first : FirstOffered a size p) :
    ∃ b rest, offers a size t windowStart 31 = b::rest ∧ b.label = p := by
  obtain ⟨offered,lowest⟩ := first
  obtain ⟨b,offer,rfl⟩ := (offered_iff grown size p).mp offered
  cases list : offers a size t windowStart 31 with
  | nil =>
    rw [list] at offer
    cases offer
  | cons c rest =>
    refine ⟨c,rest,rfl,?_⟩
    have head : c ∈ offers a size t windowStart 31 := by
      rw [list]
      exact List.mem_cons_self
    have below := lowest c.label ((offered_iff grown size c.label).mpr ⟨c,head,rfl⟩)
    rw [(grown.block (mem_offers.mp offer).1).1,(grown.block (mem_offers.mp head).1).1] at below
    have ordered : (offers a size t windowStart 31).Pairwise (fun b c => b.start < c.start) :=
      (leaves_ordered grown.planted.fits).sublist List.filter_sublist
    rw [list] at ordered offer
    rcases List.mem_cons.mp offer with rfl | later
    · rfl
    · have above := (List.pairwise_cons.mp ordered).1 b later
      omega

theorem exists_first (offered : Offered a size p) : ∃ q, FirstOffered a size q := by
  obtain ⟨x,⟨q,member,rfl⟩,least⟩ := WellFounded.has_min Nat.lt_wfRel.wf {x | ∃ q, Offered a size q ∧ (a.node q).vaddr = x} ⟨_,p,offered,rfl⟩
  exact ⟨q,member,fun c other => Nat.le_of_not_lt (least _ ⟨c,other,rfl⟩)⟩

theorem search_unoffered (grown : Grown a n t) (none_ : ∀ p, ¬ Offered a (blockLevel len) p) :
    findSpace len searchDepth a.rootNode a = some (.error .notFound,a) := by
  have empty : offers a (blockLevel len) t windowStart 31 = [] := by
    apply List.eq_nil_iff_forall_not_mem.mpr
    intro b offer
    exact none_ b.label ((offered_iff grown _ _).mpr ⟨b,offer,rfl⟩)
  rw [grown.root]
  exact findSpace_unoffered (blockLevel_sought len) grown.planted (grown_unmarked grown) empty (by decide)

theorem search_offered (grown : Grown a n t) (first : FirstOffered a (blockLevel len) p) :
    (RoomFor a (blockLevel len) p → ∃ q next, findSpace len searchDepth a.rootNode a = some (.ok q,next) ∧
      Picked next q (a.node p).vaddr (blockLevel len)) ∧
    (¬ RoomFor a (blockLevel len) p → findSpace len searchDepth a.rootNode a = none) := by
  obtain ⟨b,rest,list,rfl⟩ := first_offer grown first
  have member : b ∈ leaves t windowStart 31 := by
    refine (mem_offers.mp (?_ : b ∈ offers a (blockLevel len) t windowStart 31)).1
    rw [list]
    exact List.mem_cons_self
  obtain ⟨start,size,_⟩ := grown.block member
  obtain ⟨found,lost⟩ := findSpace_offered (blockLevel_sought len) grown.planted (by decide) (grown_unmarked grown) list
    (show 31-12 < searchDepth by decide)
  have level : Nat.log 2 (a.node b.label).len = b.level := by
    rw [size]
    exact Nat.log_pow (by decide) _
  rw [← grown.root] at found lost
  rw [start]
  refine ⟨?_,?_⟩
  · rintro ⟨m,tiled,room⟩
    rw [← tiled_unique grown.planted.tiled tiled,level] at room
    exact found room
  · intro none_
    refine lost ?_
    by_contra room
    exact none_ ⟨n,grown.planted.tiled,by rw [level]; omega⟩

theorem search_found (grown : Grown a n t) (ran : findSpace len searchDepth a.rootNode a = some (.ok q,next)) :
    ∃ p, FirstOffered a (blockLevel len) p ∧ RoomFor a (blockLevel len) p ∧ Picked next q (a.node p).vaddr (blockLevel len) := by
  by_cases none_ : ∀ p, ¬ Offered a (blockLevel len) p
  · rw [search_unoffered grown none_] at ran
    cases ran
  · push Not at none_
    obtain ⟨_,offered⟩ := none_
    obtain ⟨p,first⟩ := exists_first offered
    obtain ⟨found,lost⟩ := search_offered grown first
    by_cases room : RoomFor a (blockLevel len) p
    · obtain ⟨q',next',ran',picked⟩ := found room
      rw [ran] at ran'
      cases ran'
      exact ⟨p,first,room,picked⟩
    · rw [lost room] at ran
      cases ran

theorem window_first (grown : Grown a 1 (.leaf (nodeAt 0))) (free : (a.node (nodeAt 0)).isAllocated = false) (level : size ≤ 31) :
    FirstOffered a size (nodeAt 0) := by
  obtain ⟨_,leaf,_,len_⟩ := grown.planted.holds
  refine ⟨⟨grown.label_node (by simp [labels]),leaf,free,?_⟩,?_⟩
  · rw [len_]
    exact Nat.pow_le_pow_right (by decide) level
  · rintro q ⟨node,_⟩
    rw [List.mem_singleton.mp (grown.node_label node)]

theorem window_room (grown : Grown a 1 (.leaf (nodeAt 0))) (least : 12 ≤ size) : RoomFor a size (nodeAt 0) := by
  obtain ⟨_,_,_,len_⟩ := grown.planted.holds
  refine ⟨1,grown.planted.tiled,?_⟩
  rw [len_,Nat.log_pow (by decide)]
  unfold maxNodes
  omega

theorem blockLevel_small (small : len ≤ 2048) : blockLevel len = 12 := by
  obtain ⟨least,_,_,fine⟩ := blockLevel_sought len
  rcases fine with ⟨_,high⟩ | page
  · by_contra larger
    have above : 2^13 ≤ 2^blockLevel len := Nat.pow_le_pow_right (by decide) (by omega)
    unfold word at high
    omega
  · exact page

-- A page of the window that lies in no allocated leaf.
def Uncovered (a : Arena) (x : Nat) : Prop :=
  x%4096 = 0 ∧ windowStart ≤ x ∧ x < windowStart+windowLen ∧ ∀ p, Live a p → ¬ Covers a p x

theorem covers_block (grown : Grown a n t) (member : b ∈ leaves t windowStart 31) :
    Covers a b.label x ↔ b.start ≤ x ∧ x < b.start+2^b.level := by
  obtain ⟨start,size,_⟩ := grown.block member
  rw [Covers,start,size]

-- The first free leaf starts at the lowest such page: whatever lies below it is
-- covered by leaves that are all allocated.
theorem first_uncovered (grown : Grown a n t) (first : FirstOffered a 12 p) : IsLeast {x | Uncovered a x} (a.node p).vaddr := by
  obtain ⟨offered,lowest⟩ := first
  obtain ⟨b,offer,rfl⟩ := (offered_iff grown 12 p).mp offered
  obtain ⟨member,free,_⟩ := mem_offers.mp offer
  obtain ⟨start,_,low,high,aligned,_,_⟩ := grown.block member
  have positive := Nat.two_pow_pos b.level
  have window : windowStart+windowLen = 0x90000000 := by decide
  refine ⟨⟨by rw [start]; exact aligned,by rw [start]; exact low,by rw [start,window]; omega,?_⟩,?_⟩
  · intro q live covers
    obtain ⟨c,leaf,rfl⟩ := grown.live_leaf live
    have differ : b ≠ c := by
      rintro rfl
      rw [live.2] at free
      cases free
    rw [covers_block grown leaf,start] at covers
    exact leaves_apart grown.planted.fits member leaf differ
      ⟨b.start,⟨Nat.le_refl _,by omega⟩,covers⟩
  · rintro x ⟨_,above,below,uncovered⟩
    obtain ⟨c,leaf,inside⟩ := leaves_cover grown.planted.fits above (show x < windowStart+2^31 by rw [window] at below; exact below)
    have open_ : (a.node c.label).isAllocated = false := by
      cases flag : (a.node c.label).isAllocated with
      | false => rfl
      | true =>
        exact absurd ((covers_block grown leaf).mpr inside) (uncovered c.label ⟨grown.label_node (leaf_label leaf),flag⟩)
    have large := (leaf_inside grown.planted.fits leaf).2.2.1
    have below := lowest c.label ((offered_iff grown 12 c.label).mpr ⟨c,mem_offers.mpr ⟨leaf,open_,large⟩,rfl⟩)
    rw [(grown.block leaf).1] at below
    exact Nat.le_trans below inside.1

theorem small_request_first_fit (path : Reached Started serve (fun _ r => r.Proper) s) (small : len ≤ 2048) :
    let a := s.allocator.arena
    ((∃ p, Node a p ∧ (a.node p).Leaf ∧ (a.node p).isAllocated = false) → (∀ p, FirstOffered a 12 p → RoomFor a 12 p) →
      ∃ q next, findSpace len searchDepth a.rootNode a = some (.ok q,next) ∧ Node next q ∧ (next.node q).Leaf ∧
        (next.node q).isAllocated = false ∧ (next.node q).len = 4096 ∧ IsLeast {x | Uncovered a x} (next.node q).vaddr) ∧
    ((∀ p, Node a p → (a.node p).Leaf → (a.node p).isAllocated = true) →
      findSpace len searchDepth a.rootNode a = some (.error .notFound,a)) := by
  obtain ⟨n,t,held⟩ := reached_tended path
  have grown := held.grown
  have level := blockLevel_small small
  refine ⟨?_,?_⟩
  · rintro ⟨p,node,leaf,free⟩ room
    obtain ⟨b,member,rfl⟩ := holds_leaf grown.planted.holds (grown.node_label node) leaf
    have page : 2^12 ≤ (s.allocator.arena.node b.label).len := by
      rw [(grown.block member).2.1]
      exact (grown.block member).2.2.2.2.2.1
    obtain ⟨p,first⟩ := exists_first ⟨node,leaf,free,page⟩
    obtain ⟨found,_⟩ := search_offered grown (show FirstOffered _ (blockLevel len) p by rwa [level])
    rw [level] at found
    obtain ⟨q,next,ran,picked⟩ := found (room p first)
    obtain ⟨n',t',_,grown',ends⟩ := grown.search ran
    obtain ⟨c,leaf',rfl,_⟩ := ends q rfl
    refine ⟨c.label,next,ran,grown'.label_node (leaf_label leaf'),leaves_leaf grown'.planted.holds leaf',picked.free,picked.len,?_⟩
    rw [picked.start]
    exact first_uncovered grown first
  · intro full
    refine search_unoffered grown ?_
    rintro p ⟨node,leaf,free,_⟩
    rw [full p node leaf] at free
    cases free

theorem hundred_bytes_first_fit : ∃ s q next, Reached Started serve (fun _ r => r.Proper) s ∧
    findSpace 100 searchDepth s.allocator.arena.rootNode s.allocator.arena = some (.ok q,next) ∧ (next.node q).len = 4096 ∧
    IsLeast {x | Uncovered s.allocator.arena x} (next.node q).vaddr := by
  obtain ⟨start,_,_,started,_⟩ := first_page (show 100 ≤ 65536 by decide) (by decide)
  have held := started_held started
  have grown := held.grown
  obtain ⟨_,_,_,_,_,ran⟩ := id started
  obtain ⟨_,_,free⟩ := init_grown ran
  have node : Node start.allocator.arena (nodeAt 0) := grown.label_node (by simp [labels])
  have path : Reached Started serve (fun _ r => r.Proper) start := .start started
  obtain ⟨found,_⟩ := small_request_first_fit path (show 100 ≤ 2048 by decide)
  obtain ⟨q,next,searched,_,_,_,len_,least⟩ := found ⟨_,node,grown.planted.holds.2.1,free⟩ (by
    rintro p ⟨⟨inside,_⟩,_⟩
    cases List.mem_singleton.mp (grown.node_label inside)
    exact window_room grown (by decide))
  exact ⟨start,q,next,path,searched,len_,least⟩

end KaracaOS.BuddySearch
