import Mathlib

namespace OrderedTree
variable {ι α : Type*} {compare : α → α → Int} {val other : ι → α} {t l r : BinaryTree ι}

-- A three-way comparison whose "at most" is a total preorder.
structure TotalPreorder (compare : α → α → Int) : Prop where
  swap : ∀ a b, compare a b < 0 ↔ 0 < compare b a
  trans : ∀ a b c, compare a b ≤ 0 → compare b c ≤ 0 → compare a c ≤ 0

structure TotalOrder (compare : α → α → Int) : Prop extends TotalPreorder compare where
  equal : ∀ a b, compare a b = 0 → a = b

theorem TotalPreorder.refl (preorder : TotalPreorder compare) (value : α) : compare value value = 0 := by
  have := preorder.swap value value
  omega

def labels : BinaryTree ι → List ι
  | .nil => []
  | .node q l r => q::(labels l++labels r)

def values (val : ι → α) (t : BinaryTree ι) : Multiset α := ((labels t).map val : List α)

-- At least the node's value to the left, strictly less to the right.
def Ordered (compare : α → α → Int) (val : ι → α) : BinaryTree ι → Prop
  | .nil => True
  | .node q l r =>
    (∀ x ∈ labels l, compare (val q) (val x) ≤ 0) ∧ (∀ x ∈ labels r, 0 < compare (val q) (val x)) ∧
    Ordered compare val l ∧ Ordered compare val r

def grow (compare : α → α → Int) (val : ι → α) (p : ι) : BinaryTree ι → BinaryTree ι
  | .nil => .node p .nil .nil
  | .node q l r => if compare (val q) (val p) ≤ 0 then .node q (grow compare val p l) r else .node q l (grow compare val p r)

-- The label at the end of the left spine, and what hangs to the right of it.
def leftmost : BinaryTree ι → Option (ι × BinaryTree ι)
  | .nil => none
  | .node q .nil r => some (q,r)
  | .node _ (.node p l r) _ => leftmost (.node p l r)

def depth : BinaryTree ι → Nat
  | .nil => 0
  | .node _ l r => max (depth l) (depth r)+1

theorem depth_labels (t : BinaryTree ι) : depth t ≤ (labels t).length := by
  induction t with
  | nil => exact Nat.le_refl _
  | node q l r ihl ihr =>
    simp only [depth,labels,List.length_cons,List.length_append]
    omega

theorem Ordered.congr (ordered : Ordered compare val t) (same : ∀ x ∈ labels t, other x = val x) : Ordered compare other t := by
  induction t with
  | nil => trivial
  | node q l r ihl ihr =>
    obtain ⟨lower,upper,left,right⟩ := ordered
    have here : other q = val q := same q List.mem_cons_self
    have inLeft : ∀ x ∈ labels l, other x = val x := fun x member => same x (List.mem_cons_of_mem _ (List.mem_append_left _ member))
    have inRight : ∀ x ∈ labels r, other x = val x := fun x member => same x (List.mem_cons_of_mem _ (List.mem_append_right _ member))
    refine ⟨?_,?_,ihl left inLeft,ihr right inRight⟩
    · intro x member
      rw [here,inLeft x member]
      exact lower x member
    · intro x member
      rw [here,inRight x member]
      exact upper x member

theorem grow_labels (t : BinaryTree ι) (p : ι) : (labels (grow compare val p t)).Perm (p::labels t) := by
  induction t with
  | nil => exact .refl _
  | node q l r ihl ihr =>
    unfold grow
    split
    · have inner : (q::(labels (grow compare val p l)++labels r)).Perm (q::p::(labels l++labels r)) := (ihl.append_right _).cons q
      exact inner.trans (.swap _ _ _)
    · have inner : (q::(labels l++labels (grow compare val p r))).Perm (q::p::(labels l++labels r)) :=
        ((ihr.append_left _).trans List.perm_middle).cons q
      exact inner.trans (.swap _ _ _)

theorem Ordered.grow (ordered : Ordered compare val t) (p : ι) : Ordered compare val (grow compare val p t) := by
  induction t with
  | nil => simp [OrderedTree.grow,Ordered,labels]
  | node q l r ihl ihr =>
    obtain ⟨lower,upper,left,right⟩ := ordered
    unfold OrderedTree.grow
    split
    · rename_i least
      refine ⟨?_,upper,ihl left,right⟩
      intro x member
      rcases List.mem_cons.mp ((grow_labels l p).subset member) with rfl | old
      · exact least
      · exact lower x old
    · rename_i greater
      refine ⟨lower,?_,left,ihr right⟩
      intro x member
      rcases List.mem_cons.mp ((grow_labels r p).subset member) with rfl | old
      · exact Int.lt_of_not_ge greater
      · exact upper x old

theorem leftmost_sublist (found : leftmost t = some (q,rest)) : (q::labels rest).Sublist (labels t) := by
  induction t with
  | nil => cases found
  | node p l r ihl _ =>
    cases l with
    | nil =>
      cases Option.some.inj found
      exact .refl _
    | node p' l' r' =>
      have inner := ihl found
      exact .cons _ (inner.trans (List.sublist_append_left _ _))

theorem Ordered.leftmost (ordered : Ordered compare val t) (found : leftmost t = some (q,rest)) :
    (∀ x ∈ labels rest, 0 < compare (val q) (val x)) ∧ Ordered compare val rest := by
  induction t with
  | nil => cases found
  | node p l r ihl _ =>
    obtain ⟨_,upper,left,right⟩ := ordered
    cases l with
    | nil =>
      cases Option.some.inj found
      exact ⟨upper,right⟩
    | node p' l' r' => exact ihl left found

-- The node keeps its left subtree when it takes over the value of the leftmost
-- label of its right one.
theorem Ordered.replace (preorder : TotalPreorder compare) (ordered : Ordered compare val (.node q l r))
    (found : OrderedTree.leftmost r = some (c,rest)) (taken : other q = val c) (left : ∀ x ∈ labels l, other x = val x)
    (right : ∀ x ∈ labels rest, other x = val x) : Ordered compare other (.node q l rest) := by
  obtain ⟨lower,upper,inLeft,inRight⟩ := ordered
  obtain ⟨above,inRest⟩ := inRight.leftmost found
  have less : 0 < compare (val q) (val c) := upper c ((leftmost_sublist found).subset List.mem_cons_self)
  have down : compare (val c) (val q) ≤ 0 := Int.le_of_lt ((preorder.swap _ _).mpr less)
  refine ⟨?_,?_,inLeft.congr left,inRest.congr right⟩
  · intro x member
    rw [taken,left x member]
    exact preorder.trans _ _ _ down (lower x member)
  · intro x member
    rw [taken,right x member]
    exact above x member

-- A node seen from one of its sides; true is the left one.
def fork (q : ι) (side : Bool) (sub rest : BinaryTree ι) : BinaryTree ι := if side then .node q sub rest else .node q rest sub

def Beside (compare : α → α → Int) (side : Bool) (above below : α) : Prop :=
  if side then compare above below ≤ 0 else 0 < compare above below

variable {sub sub' rest : BinaryTree ι} {q : ι} {side : Bool}

theorem mem_fork : x ∈ labels (fork q side sub rest) ↔ x = q ∨ x ∈ labels sub ∨ x ∈ labels rest := by
  cases side <;> simp [fork,labels,or_comm]

theorem depth_fork : depth (fork q side sub rest) = max (depth sub) (depth rest)+1 := by
  cases side
  · exact congrArg (·+1) (Nat.max_comm _ _)
  · rfl

theorem fork_sublist (part : (labels sub').Sublist (labels sub)) :
    (labels (fork q side sub' rest)).Sublist (labels (fork q side sub rest)) := by
  cases side
  · exact (part.append_left _).cons_cons _
  · exact (part.append_right _).cons_cons _

theorem sub_sublist : (labels sub).Sublist (labels (fork q side sub rest)) := by
  cases side
  · exact .cons _ (List.sublist_append_right _ _)
  · exact .cons _ (List.sublist_append_left _ _)

theorem fork_values (val : ι → α) : values val (fork q side sub rest) = val q ::ₘ (values val sub+values val rest) := by
  cases side
  · rw [add_comm]
    simp [fork,values,labels]
  · simp [fork,values,labels]

theorem fork_nodup (distinct : (labels (fork q side sub rest)).Nodup) :
    q ∉ labels sub ∧ q ∉ labels rest ∧ (labels sub).Nodup ∧ (labels rest).Nodup ∧ ∀ x ∈ labels sub, x ∉ labels rest := by
  cases side with
  | false =>
    obtain ⟨out,both⟩ := List.nodup_cons.mp distinct
    obtain ⟨one,two,apart⟩ := List.nodup_append.mp both
    exact ⟨fun member => out (List.mem_append_right _ member),fun member => out (List.mem_append_left _ member),two,one,
      fun x inSub inRest => apart x inRest x inSub rfl⟩
  | true =>
    obtain ⟨out,both⟩ := List.nodup_cons.mp distinct
    obtain ⟨one,two,apart⟩ := List.nodup_append.mp both
    exact ⟨fun member => out (List.mem_append_left _ member),fun member => out (List.mem_append_right _ member),one,two,
      fun x inSub inRest => apart x inSub x inRest rfl⟩

theorem fork_ordered : Ordered compare val (fork q side sub rest) ↔
    (∀ x ∈ labels sub, Beside compare side (val q) (val x)) ∧ (∀ x ∈ labels rest, Beside compare (!side) (val q) (val x)) ∧
    Ordered compare val sub ∧ Ordered compare val rest := by
  cases side
  · simp only [fork,Ordered,Beside,Bool.false_eq_true,if_false,Bool.not_false,if_true]
    tauto
  · simp only [fork,Ordered,Beside,Bool.false_eq_true,if_false,Bool.not_true,if_true]

-- Induction down one chosen side of every node.
@[elab_as_elim] theorem along (choice : ι → Bool) {motive : BinaryTree ι → Prop} (nil : motive .nil)
    (onward : ∀ q sub rest, motive sub → motive (fork q (choice q) sub rest)) (t : BinaryTree ι) : motive t := by
  induction t with
  | nil => exact nil
  | node q l r ihl ihr =>
    cases chosen : choice q with
    | true =>
      have left := onward q l r ihl
      rwa [chosen] at left
    | false =>
      have right := onward q r l ihr
      rwa [chosen] at right

theorem beside_decide (compare : α → α → Int) (above below : α) : Beside compare (decide (compare above below ≤ 0)) above below := by
  by_cases least : compare above below ≤ 0
  · rw [decide_eq_true least]
    exact least
  · rw [decide_eq_false least]
    exact Int.not_le.mp least

theorem grow_fork (beside : Beside compare side (val q) (val p)) :
    grow compare val p (fork q side sub rest) = fork q side (grow compare val p sub) rest := by
  cases side
  · exact if_neg (Int.not_le.mpr beside)
  · exact if_pos beside

-- Where a search that goes left to what is larger comes to rest.
def search (compare : α → α → Int) (val : ι → α) (value : α) : BinaryTree ι → Option ι
  | .nil => none
  | .node q l r =>
    if compare (val q) value = 0 then some q
    else if compare (val q) value < 0 then search compare val value l else search compare val value r

-- The side on which the search goes on.
def Toward (compare : α → α → Int) (side : Bool) (here value : α) : Prop :=
  if side then compare here value < 0 else 0 < compare here value

theorem search_fork (toward : Toward compare side (val q) value) :
    search compare val value (fork q side sub rest) = search compare val value sub := by
  cases side with
  | false =>
    have more : 0 < compare (val q) value := toward
    rw [fork,if_neg Bool.false_ne_true,search,if_neg (by omega),if_neg (by omega)]
  | true =>
    have less : compare (val q) value < 0 := toward
    rw [fork,if_pos rfl,search,if_neg (by omega),if_pos less]

-- Induction along the way of a search.
@[elab_as_elim] theorem descend (compare : α → α → Int) (val : ι → α) (value : α) {motive : BinaryTree ι → Prop} (nil : motive .nil)
    (found : ∀ q l r, compare (val q) value = 0 → motive (.node q l r))
    (onward : ∀ q side sub rest, Toward compare side (val q) value → motive sub → motive (fork q side sub rest)) (t : BinaryTree ι) :
    motive t := by
  induction t with
  | nil => exact nil
  | node q l r ihl ihr =>
    rcases Int.lt_trichotomy (compare (val q) value) 0 with less | equal | more
    · exact onward q true l r less ihl
    · exact found q l r equal
    · exact onward q false r l more ihr

theorem search_sound (found : search compare val value t = some q) : q ∈ labels t ∧ compare (val q) value = 0 := by
  induction t using descend compare val value with
  | nil => cases found
  | found p l r equal =>
    rw [search,if_pos equal] at found
    cases Option.some.inj found
    exact ⟨List.mem_cons_self,equal⟩
  | onward p side sub rest toward ih =>
    rw [search_fork toward] at found
    obtain ⟨member,equal⟩ := ih found
    exact ⟨mem_fork.mpr (.inr (.inl member)),equal⟩

theorem Ordered.search (preorder : TotalPreorder compare) (ordered : Ordered compare val t) (member : x ∈ labels t)
    (equal : compare (val x) value = 0) : ∃ q, search compare val value t = some q := by
  induction t using descend compare val value with
  | nil => cases member
  | found p l r here =>
    rw [OrderedTree.search,if_pos here]
    exact ⟨p,rfl⟩
  | onward p side sub rest toward ih =>
    obtain ⟨_,aside,inSub,_⟩ := fork_ordered.mp ordered
    have back : compare value (val x) ≤ 0 := by
      have := preorder.swap (val x) value
      omega
    rw [search_fork toward]
    rcases mem_fork.mp member with rfl | deeper | elsewhere
    · cases side with
      | true => exact absurd equal (Int.ne_of_lt toward)
      | false => exact absurd equal (Int.ne_of_gt toward)
    · exact ih inSub deeper
    · have beside := aside x elsewhere
      cases side with
      | true =>
        have less : compare (val p) value < 0 := toward
        have above : 0 < compare (val p) (val x) := beside
        have below := preorder.trans (val p) value (val x) (by omega) back
        omega
      | false =>
        have more : 0 < compare (val p) value := toward
        have below := preorder.trans (val p) (val x) value beside (by omega)
        omega

end OrderedTree
