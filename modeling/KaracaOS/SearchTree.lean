import KaracaOS.StepRuns
import KaracaOS.OrderedTree

namespace KaracaOS.SearchTree
open OrderedTree StepRuns

-- binary_tree_node_t by its address; 0 is NULL.
structure TreeNode (α : Type) where
  left : Nat
  right : Nat
  parent : Nat
  value : α
  isLeft : Bool
  isRight : Bool
  deriving DecidableEq, Repr

abbrev Heap (α : Type) := Nat → TreeNode α

-- true is the left child.
def TreeNode.child (n : TreeNode α) : Bool → Nat
  | true => n.left
  | false => n.right

def setChild (heap : Heap α) (node : Nat) (side : Bool) (child : Nat) : Heap α :=
  Function.update heap node (if side then {heap node with left := child} else {heap node with right := child})

def attach (heap : Heap α) (node : Nat) (side : Bool) (newNode : Nat) : Heap α :=
  let heap := setChild heap node side newNode
  Function.update heap newNode {heap newNode with parent := node,isLeft := side,isRight := !side}

-- The recursions go down one level with each unit of fuel; none is a NULL
-- pointer followed or a walk that does not end.
def binaryTreeNodeInsert (compare : α → α → Int) : Nat → Heap α → Nat → Nat → Option (Heap α)
  | 0,_,_,_ => none
  | fuel+1,heap,node,newNode =>
    if node = 0 then none
    else if compare (heap node).value (heap newNode).value ≤ 0 then
      if (heap node).left = 0 then some (attach heap node true newNode)
      else binaryTreeNodeInsert compare fuel heap (heap node).left newNode
    else
      if (heap node).right = 0 then some (attach heap node false newNode)
      else binaryTreeNodeInsert compare fuel heap (heap node).right newNode

def binaryTreeNodeFind (compare : α → α → Int) : Nat → Heap α → Nat → α → Option Nat
  | 0,_,_,_ => none
  | fuel+1,heap,node,value =>
    if node = 0 then some 0
    else if compare (heap node).value value = 0 then some node
    else if compare (heap node).value value < 0 then binaryTreeNodeFind compare fuel heap (heap node).left value
    else binaryTreeNodeFind compare fuel heap (heap node).right value

-- while(current_node->left) current_node = current_node->left
def leftmostLoop (heap : Heap α) : Nat → Nat → Option Nat
  | 0,_ => none
  | fuel+1,currentNode =>
    if currentNode = 0 then none
    else if (heap currentNode).left = 0 then some currentNode
    else leftmostLoop heap fuel (heap currentNode).left

-- The parent's pointer on the node's side, by the node's own flags.
def relink (heap : Heap α) (node child : Nat) : Option (Heap α) :=
  let parent := (heap node).parent
  if (heap node).isLeft then (if parent = 0 then none else some (setChild heap parent true child))
  else if (heap node).isRight then (if parent = 0 then none else some (setChild heap parent false child))
  else some heap

def takeOver (heap : Heap α) (node currentNode : Nat) : Heap α :=
  Function.update heap node {heap node with value := (heap currentNode).value,right := (heap currentNode).right}

def detach (fuel : Nat) (heap : Heap α) (node : Nat) : Option (Heap α) :=
  if (heap node).left = 0 ∧ (heap node).right = 0 then relink heap node 0
  else if (heap node).left = 0 then relink heap node (heap node).right
  else if (heap node).right = 0 then relink heap node (heap node).left
  else (leftmostLoop heap fuel (heap node).right).map (takeOver heap node)

def binaryTreeNodeDelete (compare : α → α → Int) : Nat → Heap α → Nat → α → Option (Heap α)
  | 0,_,_,_ => none
  | fuel+1,heap,node,value =>
    if node = 0 then some heap
    else if compare (heap node).value value = 0 then detach fuel heap node
    else if compare (heap node).value value < 0 then binaryTreeNodeDelete compare fuel heap (heap node).left value
    else binaryTreeNodeDelete compare fuel heap (heap node).right value

-- The tree with the nodes inserted so far and the values they had then.
structure Store (α : Type) where
  heap : Heap α
  rootNode : Nat
  inserted : List (Nat × α)

def Store.nodes (s : Store α) : List Nat := s.inserted.map Prod.fst
def Store.depthBound (s : Store α) : Nat := s.inserted.length+2

def binaryTreeInsert (compare : α → α → Int) (s : Store α) (newNode : Nat) : Option (Store α) :=
  if s.rootNode = 0 then some {s with rootNode := newNode}
  else (binaryTreeNodeInsert compare s.depthBound s.heap s.rootNode newNode).map fun heap => {s with heap := heap}

def binaryTreeFind (compare : α → α → Int) (s : Store α) (value : α) : Option Nat :=
  binaryTreeNodeFind compare s.depthBound s.heap s.rootNode value

def binaryTreeDelete (compare : α → α → Int) (s : Store α) (value : α) : Option (Store α) :=
  match binaryTreeNodeFind compare s.depthBound s.heap s.rootNode value with
  | none => none
  | some node =>
    if node = 0 then some s
    else (binaryTreeNodeDelete compare s.depthBound s.heap s.rootNode value).map fun heap => {s with heap := heap}

inductive Call (α : Type) where
  | insert (newNode : Nat) (content : TreeNode α)
  | delete (value : α)

-- The caller fills in a node and hands it over.
def serve (compare : α → α → Int) (s : Store α) : Call α → Option (Store α)
  | .insert newNode content =>
    (binaryTreeInsert compare {s with heap := Function.update s.heap newNode content} newNode).map fun next =>
      {next with inserted := (newNode,content.value)::s.inserted}
  | .delete value => binaryTreeDelete compare s value

def Empty (s : Store α) : Prop := s.rootNode = 0 ∧ s.inserted = []

-- Each node is inserted once, with null children.
def Call.Fresh (s : Store α) : Call α → Prop
  | .insert newNode content => newNode ≠ 0 ∧ newNode ∉ s.nodes ∧ content.left = 0 ∧ content.right = 0
  | .delete _ => True

instance (s : Store α) (call : Call α) : Decidable (call.Fresh s) :=
  match call with
  | .insert _ _ => inferInstanceAs (Decidable (_ ∧ _))
  | .delete _ => inferInstanceAs (Decidable True)

-- The node that becomes the root does not claim to be anyone's child.
def Call.PlainRoot (s : Store α) : Call α → Prop
  | .insert _ content => s.rootNode = 0 → content.isLeft = false ∧ content.isRight = false
  | .delete _ => True

def valueOf (heap : Heap α) (node : Nat) : α := (heap node).value

-- The structure reachable from a pointer is this tree of addresses.
def Rep (heap : Heap α) : BinaryTree Nat → Nat → Prop
  | .nil,p => p = 0
  | .node q l r,p => p = q ∧ q ≠ 0 ∧ Rep heap l (heap q).left ∧ Rep heap r (heap q).right

-- A finite tree, no node of it twice.
def Shape (s : Store α) (t : BinaryTree Nat) : Prop := Rep s.heap t s.rootNode ∧ (labels t).Nodup

def reachable (s : Store α) (t : BinaryTree Nat) : Multiset α := values (valueOf s.heap) t

def SearchOrdered (compare : α → α → Int) (s : Store α) : Prop :=
  ∃ t, Shape s t ∧ Ordered compare (valueOf s.heap) t ∧ reachable s t ≤ (s.inserted.map Prod.snd : List α)

def Shrinks (s next : Store α) : Prop := ∃ t t', Shape s t ∧ Shape next t' ∧ reachable next t' ≤ reachable s t

variable {α : Type} {compare : α → α → Int} {heap next : Heap α} {t l r t' : BinaryTree Nat} {p q c : Nat} {side : Bool}

theorem setChild_other (other : q ≠ p) : setChild heap p side c q = heap q := Function.update_of_ne other _ _

theorem setChild_self (heap : Heap α) (p : Nat) (side : Bool) (c : Nat) (s : Bool) :
    (setChild heap p side c p).child s = if s = side then c else (heap p).child s := by
  rw [setChild,Function.update_self]
  cases side <;> cases s <;> rfl

theorem setChild_value (heap : Heap α) (p : Nat) (side : Bool) (c q : Nat) : (setChild heap p side c q).value = (heap q).value := by
  by_cases here : q = p
  · subst here
    rw [setChild,Function.update_self]
    cases side <;> rfl
  · rw [setChild_other here]

-- Where a node says it hangs.
def SameLinks (n n' : TreeNode α) : Prop := n'.parent = n.parent ∧ n'.isLeft = n.isLeft ∧ n'.isRight = n.isRight

theorem setChild_links (heap : Heap α) (p : Nat) (side : Bool) (c q : Nat) : SameLinks (heap q) (setChild heap p side c q) := by
  by_cases here : q = p
  · subst here
    rw [setChild,Function.update_self]
    cases side <;> exact ⟨rfl,rfl,rfl⟩
  · rw [setChild_other here]
    exact ⟨rfl,rfl,rfl⟩

theorem Rep.congr (rep : Rep heap t p) (same : ∀ x ∈ labels t, ∀ s, (next x).child s = (heap x).child s) : Rep next t p := by
  induction t generalizing p with
  | nil => exact rep
  | node q l r ihl ihr =>
    obtain ⟨here,present,left,right⟩ := rep
    have toLeft : (next q).left = (heap q).left := same q List.mem_cons_self true
    have toRight : (next q).right = (heap q).right := same q List.mem_cons_self false
    refine ⟨here,present,?_,?_⟩
    · rw [toLeft]
      exact ihl left (fun x member => same x (List.mem_cons_of_mem _ (List.mem_append_left _ member)))
    · rw [toRight]
      exact ihr right (fun x member => same x (List.mem_cons_of_mem _ (List.mem_append_right _ member)))

theorem Rep.top (rep : Rep heap t p) (present : p ≠ 0) : p ∈ labels t := by
  cases t with
  | nil => exact absurd rep present
  | node q l r =>
    rw [rep.1]
    exact List.mem_cons_self

theorem Rep.child_mem (rep : Rep heap t p) (member : q ∈ labels t) (side : Bool) (some_ : (heap q).child side ≠ 0) :
    (heap q).child side ∈ labels t := by
  induction t generalizing p with
  | nil => cases member
  | node x l r ihl ihr =>
    obtain ⟨_,_,left,right⟩ := rep
    rcases List.mem_cons.mp member with rfl | deeper
    · cases side with
      | true => exact List.mem_cons_of_mem _ (List.mem_append_left _ (left.top some_))
      | false => exact List.mem_cons_of_mem _ (List.mem_append_right _ (right.top some_))
    · rcases List.mem_append.mp deeper with inLeft | inRight
      · exact List.mem_cons_of_mem _ (List.mem_append_left _ (ihl left inLeft))
      · exact List.mem_cons_of_mem _ (List.mem_append_right _ (ihr right inRight))

theorem Rep.present (rep : Rep heap t p) : ∀ x ∈ labels t, x ≠ 0 := by
  induction t generalizing p with
  | nil =>
    intro x member
    cases member
  | node q l r ihl ihr =>
    obtain ⟨_,present,left,right⟩ := rep
    intro x member
    rcases List.mem_cons.mp member with rfl | deeper
    · exact present
    · rcases List.mem_append.mp deeper with inLeft | inRight
      · exact ihl left x inLeft
      · exact ihr right x inRight

theorem nodup_node (distinct : (labels (.node q l r)).Nodup) :
    q ∉ labels l ∧ q ∉ labels r ∧ (labels l).Nodup ∧ (labels r).Nodup ∧ ∀ x ∈ labels l, x ∉ labels r := by
  obtain ⟨out,rest⟩ := List.nodup_cons.mp distinct
  obtain ⟨left,right,apart⟩ := List.nodup_append.mp rest
  refine ⟨fun member => out (List.mem_append_left _ member),fun member => out (List.mem_append_right _ member),left,right,?_⟩
  intro x inLeft inRight
  exact apart x inLeft x inRight rfl

theorem attach_other (one : x ≠ q) (two : x ≠ p) : attach heap q side p x = heap x := by
  rw [attach,Function.update_of_ne two,setChild_other one]

theorem attach_child (apart : q ≠ p) (heap : Heap α) (side : Bool) (x : Nat) (s : Bool) :
    (attach heap q side p x).child s = if x = q ∧ s = side then p else (heap x).child s := by
  by_cases new : x = p
  · subst new
    rw [attach,Function.update_self,if_neg (fun both => apart both.1.symm),setChild_other apart.symm]
    cases s <;> rfl
  · by_cases here : x = q
    · subst here
      rw [attach,Function.update_of_ne new,setChild_self]
      simp
    · rw [attach_other here new,if_neg (fun both => here both.1)]

theorem attach_value (heap : Heap α) (q : Nat) (side : Bool) (p : Nat) : valueOf (attach heap q side p) = valueOf heap := by
  funext x
  unfold valueOf attach
  by_cases new : x = p
  · subst new
    rw [Function.update_self]
    exact setChild_value _ _ _ _ _
  · rw [Function.update_of_ne new]
    exact setChild_value _ _ _ _ _

theorem attach_links (heap : Heap α) (q : Nat) (side : Bool) (old : x ≠ p) : SameLinks (heap x) (attach heap q side p x) := by
  rw [attach,Function.update_of_ne old]
  exact setChild_links heap q side p x

theorem attach_hung (heap : Heap α) (q : Nat) (side : Bool) (p : Nat) : (attach heap q side p p).parent = q ∧
    (attach heap q side p p).isLeft = side ∧ (attach heap q side p p).isRight = !side := by
  rw [attach,Function.update_self]
  exact ⟨rfl,rfl,rfl⟩

theorem Rep.attach_away (rep : Rep heap t c) (apart : q ≠ p) (out : q ∉ labels t) : Rep (attach heap q side p) t c := by
  refine rep.congr ?_
  intro x member s
  rw [attach_child apart,if_neg]
  rintro ⟨rfl,_⟩
  exact out member

theorem rep_leaf (nonzero : p ≠ 0) (blank : ∀ s, (heap p).child s = 0) : Rep heap (.node p .nil .nil) p :=
  ⟨rfl,nonzero,blank true,blank false⟩

theorem rep_fork {sub rest : BinaryTree Nat} : Rep heap (fork q side sub rest) p ↔
    p = q ∧ q ≠ 0 ∧ Rep heap sub ((heap q).child side) ∧ Rep heap rest ((heap q).child (!side)) := by
  cases side
  · simp only [fork,Rep,Bool.false_eq_true,if_false,Bool.not_false,TreeNode.child]
    tauto
  · simp only [fork,Rep,if_true,Bool.not_true,TreeNode.child]

theorem nodeInsert_step (present : q ≠ 0) (beside : Beside compare side (valueOf heap q) (valueOf heap p)) :
    binaryTreeNodeInsert compare (fuel+1) heap q p = if (heap q).child side = 0 then some (attach heap q side p)
      else binaryTreeNodeInsert compare fuel heap ((heap q).child side) p := by
  rw [binaryTreeNodeInsert,if_neg present]
  cases side
  · exact if_neg (Int.not_le.mpr beside)
  · exact if_pos beside

theorem nodeFind_step (present : q ≠ 0) (toward : Toward compare side (valueOf heap q) value) :
    binaryTreeNodeFind compare (fuel+1) heap q value = binaryTreeNodeFind compare fuel heap ((heap q).child side) value := by
  rw [binaryTreeNodeFind,if_neg present]
  cases side with
  | false =>
    have more : 0 < compare (heap q).value value := toward
    rw [if_neg (by omega),if_neg (by omega)]
    rfl
  | true =>
    have less : compare (heap q).value value < 0 := toward
    rw [if_neg (by omega),if_pos less]
    rfl

theorem nodeDelete_step (present : q ≠ 0) (toward : Toward compare side (valueOf heap q) value) :
    binaryTreeNodeDelete compare (fuel+1) heap q value = binaryTreeNodeDelete compare fuel heap ((heap q).child side) value := by
  rw [binaryTreeNodeDelete,if_neg present]
  cases side with
  | false =>
    have more : 0 < compare (heap q).value value := toward
    rw [if_neg (by omega),if_neg (by omega)]
    rfl
  | true =>
    have less : compare (heap q).value value < 0 := toward
    rw [if_neg (by omega),if_pos less]
    rfl

theorem Rep.empty (rep : Rep heap t p) (none_ : p = 0) : t = .nil := by
  cases t with
  | nil => rfl
  | node q _ _ => exact absurd (rep.1.symm.trans none_) rep.2.1

theorem nodeInsert_spec (rep : Rep heap t q) (present : q ≠ 0) (distinct : (labels t).Nodup) (fresh : p ∉ labels t) (nonzero : p ≠ 0)
    (blank : ∀ s, (heap p).child s = 0) (enough : depth t ≤ fuel) : ∃ a side, a ∈ labels t ∧ (heap a).child side = 0 ∧
      binaryTreeNodeInsert compare fuel heap q p = some (attach heap a side p) ∧
      Rep (attach heap a side p) (grow compare (valueOf heap) p t) q := by
  induction t using along (fun x => decide (compare (valueOf heap x) (valueOf heap p) ≤ 0)) generalizing q fuel with
  | nil => exact absurd rep present
  | onward x sub rest ih =>
    have beside := beside_decide compare (valueOf heap x) (valueOf heap p)
    generalize decide (compare (valueOf heap x) (valueOf heap p) ≤ 0) = side at *
    obtain ⟨rfl,_,below,aside⟩ := rep_fork.mp rep
    obtain ⟨outSub,outRest,distinctSub,_,apart⟩ := fork_nodup distinct
    rw [depth_fork] at enough
    obtain ⟨fuel,rfl⟩ : ∃ m, fuel = m+1 := ⟨fuel-1,by omega⟩
    have other : q ≠ p := fun same => fresh (by rw [← same]; exact mem_fork.mpr (.inl rfl))
    have freshSub : p ∉ labels sub := fun member => fresh (mem_fork.mpr (.inr (.inl member)))
    rw [nodeInsert_step present beside,grow_fork beside]
    by_cases empty : (heap q).child side = 0
    · rw [if_pos empty,below.empty empty]
      refine ⟨q,side,mem_fork.mpr (.inl rfl),empty,rfl,rep_fork.mpr ⟨rfl,present,?_,?_⟩⟩
      · rw [attach_child other,if_pos ⟨rfl,rfl⟩]
        exact rep_leaf nonzero (fun s => by rw [attach_child other,if_neg (fun both => other both.1.symm),blank])
      · rw [attach_child other,if_neg (fun both => Bool.not_ne_self side both.2)]
        exact aside.attach_away other outRest
    · rw [if_neg empty]
      obtain ⟨a,sd,member,free,ran,grown⟩ := ih below empty distinctSub freshSub (show depth sub ≤ fuel by omega)
      have here : q ≠ a := fun same => outSub (by rw [same]; exact member)
      have far : a ≠ p := fun same => freshSub (by rw [← same]; exact member)
      have kept : ∀ s, (attach heap a sd p q).child s = (heap q).child s := fun s =>
        (attach_child far heap sd q s).trans (if_neg (fun both => here both.1))
      refine ⟨a,sd,mem_fork.mpr (.inr (.inl member)),free,ran,rep_fork.mpr ⟨rfl,present,?_,?_⟩⟩
      · rw [kept]
        exact grown
      · rw [kept]
        exact aside.attach_away far (apart a member)

theorem leftmostLoop_spec (rep : Rep heap t p) (present : p ≠ 0) (enough : depth t ≤ fuel) : ∃ c rest,
    leftmost t = some (c,rest) ∧ leftmostLoop heap fuel p = some c ∧ Rep heap rest (heap c).right := by
  induction t generalizing p fuel with
  | nil => exact absurd rep present
  | node q l r ihl _ =>
    obtain ⟨rfl,_,left,right⟩ := rep
    have deep : max (depth l) (depth r)+1 ≤ fuel := enough
    obtain ⟨fuel,rfl⟩ : ∃ m, fuel = m+1 := ⟨fuel-1,by omega⟩
    rw [leftmostLoop,if_neg present]
    cases l with
    | nil =>
      rw [if_pos (show (heap p).left = 0 from left)]
      exact ⟨p,r,rfl,rfl,right⟩
    | node y l' r' =>
      have down : (heap p).left ≠ 0 := by
        rw [left.1]
        exact left.2.1
      rw [if_neg down]
      exact ihl left down (by omega)

-- What a delete does to the tree below a pointer: some nodes are left out, a
-- pointer that changed is one that a node left out had, no node's own idea of
-- its parent changes.
structure Trimmed (compare : α → α → Int) (heap next : Heap α) (t t' : BinaryTree Nat) : Prop where
  part : (labels t').Sublist (labels t)
  moved : ∀ x ∈ labels t', ∀ s, (next x).child s = (heap x).child s ∨
    ∃ y ∈ labels t, y ∉ labels t' ∧ ∃ s', (next x).child s = (heap y).child s'
  links : ∀ x, SameLinks (heap x) (next x)
  ordered : Ordered compare (valueOf heap) t → Ordered compare (valueOf next) t'
  values : values (valueOf next) t' ≤ values (valueOf heap) t
  others : ∀ x, x ∉ labels t → valueOf next x = valueOf heap x

-- The same for the tree on one side of q, with the rest of the nodes in `all` untouched.
structure Pruned (compare : α → α → Int) (heap next : Heap α) (all : List Nat) (q : Nat) (side : Bool) (t t' : BinaryTree Nat) : Prop
    extends Trimmed compare heap next t t' where
  rep : Rep next t' ((next q).child side)
  frame : ∀ x ∈ all, x ∉ labels t → ∀ s, ¬ (x = q ∧ s = side) → (next x).child s = (heap x).child s
  slot : (next q).child side = (heap q).child side ∨
    ∃ y ∈ labels t, y ∉ labels t' ∧ ∃ s', (next q).child side = (heap y).child s'

theorem values_le (part : (labels t').Sublist (labels t)) (same : ∀ x ∈ labels t', valueOf next x = valueOf heap x) :
    values (valueOf next) t' ≤ values (valueOf heap) t := by
  have equal : (labels t').map (valueOf next) = (labels t').map (valueOf heap) := List.map_congr_left same
  unfold OrderedTree.values
  rw [equal]
  exact (part.map _).subperm

theorem Trimmed.refl (t : BinaryTree Nat) (same : ∀ x ∈ labels t, ∀ s, (next x).child s = (heap x).child s)
    (links : ∀ x, SameLinks (heap x) (next x)) (kept : ∀ x, valueOf next x = valueOf heap x) : Trimmed compare heap next t t :=
  ⟨.refl _,fun x member s => .inl (same x member s),links,fun ordered => ordered.congr (fun x _ => kept x),
    values_le (.refl _) (fun x _ => kept x),fun x _ => kept x⟩

theorem Pruned.still (rep : Rep heap t ((heap q).child side)) (inside : q ∈ all) (below : ∀ x ∈ labels t, x ∈ all)
    (same : ∀ x ∈ all, ∀ s, (next x).child s = (heap x).child s) (links : ∀ x, SameLinks (heap x) (next x))
    (kept : ∀ x, valueOf next x = valueOf heap x) : Pruned compare heap next all q side t t := by
  refine ⟨.refl t (fun x member => same x (below x member)) links kept,?_,fun x member _ s _ => same x member s,.inl (same q inside side)⟩
  rw [same q inside side]
  exact rep.congr (fun x member => same x (below x member))

-- A node with one child, or none, makes room for the tree on its side s.
theorem Pruned.relinked (rep : Rep heap (.node c l r) ((heap q).child side)) (out : q ∉ labels (.node c l r))
    (distinct : (labels (.node c l r)).Nodup) (s : Bool) (kept : t' = if s then l else r) :
    Pruned compare heap (setChild heap q side ((heap c).child s)) all q side (.node c l r) t' := by
  obtain ⟨_,_,left,right⟩ := rep
  obtain ⟨outLeft,outRight,_,_,_⟩ := nodup_node distinct
  have part : (labels t').Sublist (labels l++labels r) := by
    rw [kept]
    cases s
    · exact List.sublist_append_right _ _
    · exact List.sublist_append_left _ _
  have whole : (labels t').Sublist (labels (.node c l r)) := .cons _ part
  have gone : c ∉ labels t' := fun member => by
    rcases List.mem_append.mp (part.subset member) with inLeft | inRight
    · exact outLeft inLeft
    · exact outRight inRight
  have away : ∀ x ∈ labels t', x ≠ q := fun x member same => out (by rw [← same]; exact whole.subset member)
  have below : Rep heap t' ((heap c).child s) := by
    rw [kept]
    cases s
    · exact right
    · exact left
  have here : (setChild heap q side ((heap c).child s) q).child side = (heap c).child s := by
    rw [setChild_self,if_pos rfl]
  refine ⟨⟨whole,?_,setChild_links heap q side _,?_,values_le whole (fun x _ => setChild_value heap q side _ x),
    fun x _ => setChild_value heap q side _ x⟩,?_,?_,.inr ⟨c,List.mem_cons_self,gone,s,here⟩⟩
  · intro x member s'
    rw [setChild_other (away x member)]
    exact .inl rfl
  · rintro ⟨_,_,inLeft,inRight⟩
    rw [kept]
    cases s
    · exact inRight.congr (fun x _ => setChild_value heap q side _ x)
    · exact inLeft.congr (fun x _ => setChild_value heap q side _ x)
  · rw [here]
    exact below.congr (fun x member s' => by rw [setChild_other (away x member)])
  · intro x _ _ s' other
    by_cases same : x = q
    · subst same
      rw [setChild_self,if_neg (fun equal => other ⟨rfl,equal⟩)]
    · rw [setChild_other same]

theorem takeOver_other (other : x ≠ q) : takeOver heap q c x = heap x := Function.update_of_ne other _ _

theorem takeOver_links (heap : Heap α) (q c x : Nat) : SameLinks (heap x) (takeOver heap q c x) := by
  by_cases here : x = q
  · subst here
    rw [takeOver,Function.update_self]
    exact ⟨rfl,rfl,rfl⟩
  · rw [takeOver_other here]
    exact ⟨rfl,rfl,rfl⟩

-- A node with two children takes over the value of the leftmost node to its
-- right, and everything of the right subtree but that node's own right side is lost.
theorem takeOver_trimmed (preorder : TotalPreorder compare) (rep : Rep heap (.node q l r) q)
    (distinct : (labels (.node q l r)).Nodup) (found : leftmost r = some (c,rest)) (below : Rep heap rest (heap c).right) :
    Trimmed compare heap (takeOver heap q c) (.node q l r) (.node q l rest) ∧ Rep (takeOver heap q c) (.node q l rest) q := by
  obtain ⟨_,present,left,right⟩ := rep
  obtain ⟨outLeft,outRight,_,distinctRight,apart⟩ := nodup_node distinct
  have inner := leftmost_sublist found
  have fewer : (labels rest).Sublist (labels r) := (List.sublist_cons_self _ _).trans inner
  have member : c ∈ labels r := inner.subset List.mem_cons_self
  have gone : c ∉ labels rest := (List.nodup_cons.mp (inner.nodup distinctRight)).1
  have outRest : q ∉ labels rest := fun inRest => outRight (fewer.subset inRest)
  have removed : c ∉ labels (.node q l rest) := by
    intro inside
    rcases List.mem_cons.mp inside with same | deeper
    · exact outRight (by rw [← same]; exact member)
    · rcases List.mem_append.mp deeper with inLeft | inRest
      · exact apart c inLeft member
      · exact gone inRest
  have same : ∀ x ∈ labels l++labels rest, takeOver heap q c x = heap x := by
    intro x inside
    refine takeOver_other ?_
    rintro rfl
    rcases List.mem_append.mp inside with inLeft | inRest
    · exact outLeft inLeft
    · exact outRest inRest
  have value : valueOf (takeOver heap q c) q = valueOf heap c := by
    rw [valueOf,takeOver,Function.update_self]
    rfl
  have toRight : (takeOver heap q c q).right = (heap c).right := by
    rw [takeOver,Function.update_self]
  have toLeft : (takeOver heap q c q).left = (heap q).left := by
    rw [takeOver,Function.update_self]
  have kept : ∀ x ∈ labels l++labels rest, valueOf (takeOver heap q c) x = valueOf heap x := by
    intro x inside
    rw [valueOf,same x inside]
    rfl
  refine ⟨⟨(fewer.append_left _).cons_cons _,?_,takeOver_links heap q c,?_,?_,?_⟩,rfl,present,?_,?_⟩
  · intro x inside s
    rcases List.mem_cons.mp inside with rfl | deeper
    · cases s with
      | true => exact .inl toLeft
      | false => exact .inr ⟨c,List.mem_cons_of_mem _ (List.mem_append_right _ member),removed,false,toRight⟩
    · rw [same x deeper]
      exact .inl rfl
  · intro ordered
    exact ordered.replace preorder found value (fun x inside => kept x (List.mem_append_left _ inside))
      (fun x inside => kept x (List.mem_append_right _ inside))
  · have listed : (labels (.node q l rest)).map (valueOf (takeOver heap q c)) =
        valueOf heap c::((labels l).map (valueOf heap)++(labels rest).map (valueOf heap)) := by
      rw [labels,List.map_cons,value,List.map_congr_left kept,List.map_append]
    have smaller : (valueOf heap c::(labels rest).map (valueOf heap)).Sublist ((labels r).map (valueOf heap)) := inner.map _
    unfold OrderedTree.values
    rw [listed,labels,List.map_cons,List.map_append]
    refine Multiset.coe_le.mpr ?_
    refine List.perm_middle.symm.subperm.trans ?_
    exact ((smaller.append_left _).cons _).subperm
  · intro x outside
    have other : x ≠ q := fun equal => outside (by rw [equal]; exact List.mem_cons_self)
    rw [valueOf,takeOver_other other]
    rfl
  · rw [toLeft]
    exact left.congr (fun x inside s => by rw [same x (List.mem_append_left _ inside)])
  · rw [toRight]
    exact below.congr (fun x inside s => by rw [same x (List.mem_append_right _ inside)])

theorem Pruned.widen {sub sub' rest : BinaryTree Nat} {s : Bool} (rep : Rep heap (fork c s sub rest) c)
    (below : ∀ x ∈ labels (fork c s sub rest), x ∈ all) (distinct : (labels (fork c s sub rest)).Nodup)
    (pruned : Pruned compare heap next all c s sub sub') :
    Trimmed compare heap next (fork c s sub rest) (fork c s sub' rest) ∧ Rep next (fork c s sub' rest) c := by
  obtain ⟨_,present,_,beside⟩ := rep_fork.mp rep
  obtain ⟨outSub,outRest,_,_,apart⟩ := fork_nodup distinct
  have node : c ∈ all := below c (mem_fork.mpr (.inl rfl))
  have far : (next c).child (!s) = (heap c).child (!s) := by
    refine pruned.frame c node outSub (!s) ?_
    rintro ⟨_,same⟩
    cases s <;> cases same
  have still : ∀ x ∈ labels rest, ∀ s', (next x).child s' = (heap x).child s' := by
    intro x member s'
    refine pruned.frame x (below x (mem_fork.mpr (.inr (.inr member)))) (fun inSub => apart x inSub member) s' ?_
    rintro ⟨rfl,_⟩
    exact outRest member
  have dropped : ∀ y ∈ labels sub, y ∉ labels sub' → y ∉ labels (fork c s sub' rest) := by
    intro y member gone again
    rcases mem_fork.mp again with rfl | inSub | inRest
    · exact outSub member
    · exact gone inSub
    · exact apart y member inRest
  have own : valueOf next c = valueOf heap c := pruned.others c outSub
  have beyond : ∀ x ∈ labels rest, valueOf next x = valueOf heap x := fun x member =>
    pruned.others x (fun inSub => apart x inSub member)
  refine ⟨⟨fork_sublist pruned.part,?_,pruned.links,?_,?_,?_⟩,?_⟩
  · intro x member s'
    have source : (∃ y ∈ labels sub, y ∉ labels sub' ∧ ∃ s'', (next x).child s' = (heap y).child s'') →
        ∃ y ∈ labels (fork c s sub rest), y ∉ labels (fork c s sub' rest) ∧ ∃ s'', (next x).child s' = (heap y).child s'' := by
      rintro ⟨y,old,gone,found⟩
      exact ⟨y,mem_fork.mpr (.inr (.inl old)),dropped y old gone,found⟩
    rcases mem_fork.mp member with rfl | inSub | inRest
    · by_cases same : s' = s
      · subst same
        exact pruned.slot.imp_right source
      · rw [show s' = !s by cases s <;> cases s' <;> simp_all]
        exact .inl far
    · exact (pruned.moved x inSub s').imp_right source
    · exact .inl (still x inRest s')
  · intro ordered
    obtain ⟨lower,upper,inSub,inRest⟩ := fork_ordered.mp ordered
    refine fork_ordered.mpr ⟨?_,?_,pruned.ordered inSub,inRest.congr beyond⟩
    · intro x member
      have value : valueOf next x ∈ values (valueOf heap) sub :=
        Multiset.mem_of_le pruned.values (List.mem_map_of_mem member)
      obtain ⟨y,old,same⟩ := List.mem_map.mp value
      rw [own,← same]
      exact lower y old
    · intro x member
      rw [own,beyond x member]
      exact upper x member
  · have equal : values (valueOf next) rest = values (valueOf heap) rest := by
      unfold OrderedTree.values
      rw [List.map_congr_left beyond]
    rw [fork_values,fork_values,own,equal]
    exact Multiset.cons_le_cons _ (add_le_add_left pruned.values _)
  · intro x outside
    exact pruned.others x (fun member => outside (mem_fork.mpr (.inr (.inl member))))
  · exact rep_fork.mpr ⟨rfl,present,pruned.rep,by rw [far]; exact beside.congr still⟩

theorem Pruned.lift {sub sub' rest : BinaryTree Nat} {s : Bool} (rep : Rep heap (fork c s sub rest) ((heap q).child side))
    (inside : q ∈ all) (below : ∀ x ∈ labels (fork c s sub rest), x ∈ all) (out : q ∉ labels (fork c s sub rest))
    (distinct : (labels (fork c s sub rest)).Nodup) (pruned : Pruned compare heap next all c s sub sub') :
    Pruned compare heap next all q side (fork c s sub rest) (fork c s sub' rest) := by
  have here : (heap q).child side = c := (rep_fork.mp rep).1
  have away : ∀ x ∈ all, x ∉ labels (fork c s sub rest) → ∀ s', (next x).child s' = (heap x).child s' := by
    intro x member outside s'
    refine pruned.frame x member (fun inSub => outside (mem_fork.mpr (.inr (.inl inSub)))) s' ?_
    rintro ⟨rfl,_⟩
    exact outside (mem_fork.mpr (.inl rfl))
  obtain ⟨trimmed,after⟩ := pruned.widen (by rwa [here] at rep) below distinct
  refine ⟨trimmed,?_,fun x member outside s' _ => away x member outside s',.inl (away q inside out side)⟩
  rw [away q inside out side,here]
  exact after

-- A child knows its parent, or believes in a node that has left the tree.
def Linked (heap : Heap α) (all nodes : List Nat) : Prop :=
  ∀ p ∈ all, ∀ side, (heap p).child side ≠ 0 →
    ((heap ((heap p).child side)).parent = p ∧ (heap ((heap p).child side)).isLeft = side ∧
      (heap ((heap p).child side)).isRight = !side) ∨
    ((heap ((heap p).child side)).parent ∈ nodes ∧ (heap ((heap p).child side)).parent ∉ all)

variable {all nodes : List Nat}

theorem relink_prunes (linked : Linked heap all nodes) (nonzero : ∀ x ∈ nodes, x ≠ 0) (inside : q ∈ all) (present : q ≠ 0)
    (rep : Rep heap (.node c l r) ((heap q).child side)) (below : ∀ x ∈ labels (.node c l r), x ∈ all)
    (out : q ∉ labels (.node c l r)) (distinct : (labels (.node c l r)).Nodup) (s : Bool) :
    ∃ next t', relink heap c ((heap c).child s) = some next ∧ Pruned compare heap next all q side (.node c l r) t' := by
  have here : (heap q).child side = c := rep.1
  have hangs := linked q inside side (by rw [here]; exact rep.2.1)
  rw [here] at hangs
  rcases hangs with ⟨parent,isLeft,isRight⟩ | ⟨known,gone⟩
  · refine ⟨setChild heap q side ((heap c).child s),if s then l else r,?_,.relinked rep out distinct s rfl⟩
    rw [relink,parent,isLeft,isRight]
    cases side <;> simp [present]
  · have outside : ∀ side' x, x ∈ all → ∀ s', (setChild heap (heap c).parent side' ((heap c).child s) x).child s' = (heap x).child s' := by
      intro side' x member s'
      rw [setChild_other]
      rintro rfl
      exact gone member
    have stray : ∀ side', Pruned compare heap (setChild heap (heap c).parent side' ((heap c).child s)) all q side (.node c l r) (.node c l r) :=
      fun side' => .still rep inside below (outside side') (setChild_links heap _ side' _) (fun x => setChild_value heap _ side' _ x)
    have real : (heap c).parent ≠ 0 := nonzero _ known
    unfold relink
    dsimp only
    rw [if_neg real,if_neg real]
    split
    · exact ⟨_,_,rfl,stray true⟩
    · split
      · exact ⟨_,_,rfl,stray false⟩
      · exact ⟨_,_,rfl,.still rep inside below (fun _ _ _ => rfl) (fun _ => ⟨rfl,rfl,rfl⟩) (fun _ => rfl)⟩

theorem takeOver_prunes (preorder : TotalPreorder compare) (rep : Rep heap (.node c l r) ((heap q).child side))
    (out : q ∉ labels (.node c l r)) (distinct : (labels (.node c l r)).Nodup)
    (found : leftmost r = some (p,rest)) (below : Rep heap rest (heap p).right) :
    Pruned compare heap (takeOver heap c p) all q side (.node c l r) (.node c l rest) := by
  have here : (heap q).child side = c := rep.1
  have other : q ≠ c := fun same => out (by rw [same]; exact List.mem_cons_self)
  rw [here] at rep
  obtain ⟨trimmed,after⟩ := takeOver_trimmed preorder rep distinct found below
  refine ⟨trimmed,?_,?_,.inl (by rw [takeOver_other other])⟩
  · rw [takeOver_other other,here]
    exact after
  · intro x _ outside s _
    rw [takeOver_other (fun same => outside (by rw [same]; exact List.mem_cons_self))]

theorem detach_prunes (preorder : TotalPreorder compare) (linked : Linked heap all nodes) (nonzero : ∀ x ∈ nodes, x ≠ 0)
    (inside : q ∈ all) (present : q ≠ 0) (rep : Rep heap (.node c l r) ((heap q).child side))
    (below : ∀ x ∈ labels (.node c l r), x ∈ all) (out : q ∉ labels (.node c l r)) (distinct : (labels (.node c l r)).Nodup)
    (enough : depth r ≤ fuel) :
    ∃ next t', detach fuel heap c = some next ∧ Pruned compare heap next all q side (.node c l r) t' := by
  have by_side := @relink_prunes α compare heap l r q c side all nodes linked nonzero inside present rep below out distinct
  unfold detach
  by_cases left : (heap c).left = 0
  · by_cases right : (heap c).right = 0
    · rw [if_pos ⟨left,right⟩,← right]
      exact by_side false
    · rw [if_neg (fun both => right both.2),if_pos left]
      exact by_side false
  · rw [if_neg (fun both => left both.1),if_neg left]
    by_cases right : (heap c).right = 0
    · rw [if_pos right]
      exact by_side true
    · rw [if_neg right]
      obtain ⟨p,rest,found,loop,hangs⟩ := leftmostLoop_spec rep.2.2.2 right enough
      rw [loop]
      exact ⟨_,_,rfl,takeOver_prunes preorder rep out distinct found hangs⟩

theorem nodeDelete_prunes (preorder : TotalPreorder compare) (linked : Linked heap all nodes) (nonzero : ∀ x ∈ nodes, x ≠ 0)
    (inside : q ∈ all) (present : q ≠ 0) (rep : Rep heap t ((heap q).child side)) (below : ∀ x ∈ labels t, x ∈ all)
    (out : q ∉ labels t) (distinct : (labels t).Nodup) (enough : depth t < fuel) (value : α) :
    ∃ next t', binaryTreeNodeDelete compare fuel heap ((heap q).child side) value = some next ∧
      Pruned compare heap next all q side t t' := by
  induction t using descend compare (valueOf heap) value generalizing q side fuel with
  | nil =>
    obtain ⟨fuel,rfl⟩ : ∃ m, fuel = m+1 := ⟨fuel-1,by omega⟩
    rw [binaryTreeNodeDelete,if_pos (show (heap q).child side = 0 from rep)]
    exact ⟨heap,.nil,rfl,.still rep inside below (fun _ _ _ => rfl) (fun _ => ⟨rfl,rfl,rfl⟩) (fun _ => rfl)⟩
  | found c l r same =>
    have here : (heap q).child side = c := rep.1
    have deep : max (depth l) (depth r)+1 < fuel := enough
    obtain ⟨fuel,rfl⟩ : ∃ m, fuel = m+1 := ⟨fuel-1,by omega⟩
    rw [here,binaryTreeNodeDelete,if_neg rep.2.1,if_pos (show compare (heap c).value value = 0 from same)]
    exact detach_prunes preorder linked nonzero inside present rep below out distinct (by omega)
  | onward c sd sub rest toward ih =>
    obtain ⟨here,real,sound,_⟩ := rep_fork.mp rep
    rw [depth_fork] at enough
    obtain ⟨fuel,rfl⟩ : ∃ m, fuel = m+1 := ⟨fuel-1,by omega⟩
    obtain ⟨outSub,_,distinctSub,_,_⟩ := fork_nodup distinct
    rw [here,nodeDelete_step real toward]
    obtain ⟨next,sub',ran,pruned⟩ := ih (below c (mem_fork.mpr (.inl rfl))) real sound
      (fun x member => below x (mem_fork.mpr (.inr (.inl member)))) outSub distinctSub (show depth sub < fuel by omega)
    exact ⟨next,_,ran,pruned.lift rep inside below out distinct⟩

-- The tree of a state, its nodes among those inserted.
structure Standing (s : Store α) (t : BinaryTree Nat) : Prop where
  rep : Rep s.heap t s.rootNode
  distinct : (labels t).Nodup
  known : ∀ x ∈ labels t, x ∈ s.nodes
  nonzero : ∀ x ∈ s.nodes, x ≠ 0

-- The state between calls.
structure Valid (compare : α → α → Int) (s : Store α) (t : BinaryTree Nat) : Prop where
  rep : Rep s.heap t s.rootNode
  distinct : (labels t).Nodup
  known : ∀ x ∈ labels t, x ∈ s.nodes
  nonzero : ∀ x ∈ s.nodes, x ≠ 0
  linked : Linked s.heap (labels t) s.nodes
  root : s.rootNode ≠ 0 → (s.heap s.rootNode).isLeft = false ∧ (s.heap s.rootNode).isRight = false
  ordered : Ordered compare (valueOf s.heap) t
  contained : reachable s t ≤ (s.inserted.map Prod.snd : List α)

variable {s : Store α}

theorem Valid.standing (valid : Valid compare s t) : Standing s t := ⟨valid.rep,valid.distinct,valid.known,valid.nonzero⟩

theorem Standing.depth (standing : Standing s t) : depth t ≤ s.inserted.length := by
  have few := (List.subperm_of_subset standing.distinct standing.known).length_le
  have deep := depth_labels t
  rw [Store.nodes,List.length_map] at few
  omega

theorem empty_standing (empty : Empty s) : Standing s .nil := by
  refine ⟨empty.1,List.nodup_nil,?_,?_⟩
  · intro x member
    cases member
  · rw [Store.nodes,empty.2]
    intro x member
    cases member

theorem Linked.trim (linked : Linked heap (labels t) nodes) (known : ∀ x ∈ labels t, x ∈ nodes) (trimmed : Trimmed compare heap next t t') :
    Linked next (labels t') nodes := by
  intro p member side some_
  have stays : ∀ c, (heap c).parent ∈ nodes ∧ (heap c).parent ∉ labels t → (next c).parent ∈ nodes ∧ (next c).parent ∉ labels t' := by
    rintro c ⟨old,gone⟩
    rw [(trimmed.links c).1]
    exact ⟨old,fun again => gone (trimmed.part.subset again)⟩
  rcases trimmed.moved p member side with same | ⟨y,old,gone,s',same⟩
  · rw [same] at some_ ⊢
    obtain ⟨parent,isLeft,isRight⟩ := trimmed.links ((heap p).child side)
    rcases linked p (trimmed.part.subset member) side some_ with here | stray
    · rw [parent,isLeft,isRight]
      exact .inl here
    · exact .inr (stays _ stray)
  · rw [same] at some_ ⊢
    refine .inr ?_
    rcases linked y old s' some_ with ⟨parent,_,_⟩ | stray
    · rw [(trimmed.links _).1,parent]
      exact ⟨known y old,gone⟩
    · exact stays _ stray

theorem Valid.trim (valid : Valid compare s t) (trimmed : Trimmed compare s.heap next t t') (rep : Rep next t' s.rootNode) :
    Valid compare {s with heap := next} t' := by
  refine ⟨rep,trimmed.part.nodup valid.distinct,fun x member => valid.known x (trimmed.part.subset member),valid.nonzero,
    valid.linked.trim valid.known trimmed,?_,trimmed.ordered valid.ordered,le_trans trimmed.values valid.contained⟩
  intro present
  obtain ⟨_,isLeft,isRight⟩ := trimmed.links s.rootNode
  obtain ⟨notLeft,notRight⟩ := valid.root present
  exact ⟨isLeft.trans notLeft,isRight.trans notRight⟩

theorem nodeFind_search (rep : Rep heap t p) (enough : depth t < fuel) (value : α) :
    binaryTreeNodeFind compare fuel heap p value = some ((search compare (valueOf heap) value t).getD 0) := by
  induction t using descend compare (valueOf heap) value generalizing p fuel with
  | nil =>
    obtain ⟨fuel,rfl⟩ : ∃ m, fuel = m+1 := ⟨fuel-1,by omega⟩
    rw [binaryTreeNodeFind,if_pos (show p = 0 from rep)]
    rfl
  | found q l r equal =>
    obtain ⟨rfl,present,_,_⟩ := rep
    obtain ⟨fuel,rfl⟩ : ∃ m, fuel = m+1 := ⟨fuel-1,by omega⟩
    rw [binaryTreeNodeFind,if_neg present,if_pos (show compare (heap p).value value = 0 from equal),search,if_pos equal]
    rfl
  | onward q side sub rest toward ih =>
    obtain ⟨rfl,present,below,_⟩ := rep_fork.mp rep
    rw [depth_fork] at enough
    obtain ⟨fuel,rfl⟩ : ∃ m, fuel = m+1 := ⟨fuel-1,by omega⟩
    rw [nodeFind_step present toward,search_fork toward]
    exact ih below (by omega)

-- A root with at most one child does not go away, since it is on nobody's side.
theorem root_detach (preorder : TotalPreorder compare) (rep : Rep heap (.node q l r) q) (distinct : (labels (.node q l r)).Nodup)
    (plain : (heap q).isLeft = false ∧ (heap q).isRight = false) (enough : depth r ≤ fuel) :
    ∃ next t', detach fuel heap q = some next ∧ Trimmed compare heap next (.node q l r) t' ∧ Rep next t' q := by
  have stays : ∀ child, relink heap q child = some heap := fun child => by simp [relink,plain.1,plain.2]
  have same : Trimmed compare heap heap (.node q l r) (.node q l r) :=
    .refl _ (fun _ _ _ => rfl) (fun _ => ⟨rfl,rfl,rfl⟩) (fun _ => rfl)
  unfold detach
  rw [stays,stays,stays]
  split
  · exact ⟨_,_,rfl,same,rep⟩
  · split
    · exact ⟨_,_,rfl,same,rep⟩
    · split
      · exact ⟨_,_,rfl,same,rep⟩
      · rename_i right
        obtain ⟨c,rest,found,loop,hangs⟩ := leftmostLoop_spec rep.2.2.2 right enough
        obtain ⟨trimmed,after⟩ := takeOver_trimmed preorder rep distinct found hangs
        rw [loop]
        exact ⟨_,_,rfl,trimmed,after⟩

theorem Standing.delete_below (preorder : TotalPreorder compare) (standing : Standing s t) (linked : Linked s.heap (labels t) nodes)
    (nonzero : ∀ x ∈ nodes, x ≠ 0) (other : s.rootNode ≠ 0 → compare (s.heap s.rootNode).value value ≠ 0) :
    ∃ next t', binaryTreeNodeDelete compare s.depthBound s.heap s.rootNode value = some next ∧
      Trimmed compare s.heap next t t' ∧ Rep next t' s.rootNode := by
  have deep := standing.depth
  have rep := standing.rep
  have distinct := standing.distinct
  rw [show s.depthBound = s.inserted.length+1+1 from rfl]
  cases t using descend compare (valueOf s.heap) value with
  | nil =>
    rw [show s.rootNode = 0 from rep,binaryTreeNodeDelete,if_pos rfl]
    exact ⟨s.heap,.nil,rfl,.refl _ (fun _ _ _ => rfl) (fun _ => ⟨rfl,rfl,rfl⟩) (fun _ => rfl),rfl⟩
  | found q l r equal =>
    rw [show s.rootNode = q from rep.1] at other
    exact absurd equal (other rep.2.1)
  | onward q side sub rest toward =>
    obtain ⟨here,real,below,_⟩ := rep_fork.mp rep
    obtain ⟨outSub,_,distinctSub,_,_⟩ := fork_nodup distinct
    rw [here] at rep ⊢
    rw [depth_fork] at deep
    obtain ⟨next,sub',ran,pruned⟩ := @nodeDelete_prunes α compare s.heap sub q side (labels (fork q side sub rest)) nodes (s.inserted.length+1)
      preorder linked nonzero (mem_fork.mpr (.inl rfl)) real below (fun x member => mem_fork.mpr (.inr (.inl member))) outSub distinctSub
      (by omega) value
    rw [nodeDelete_step real toward]
    exact ⟨next,_,ran,pruned.widen rep (fun _ member => member) distinct⟩

theorem Valid.delete (preorder : TotalPreorder compare) (valid : Valid compare s t) (value : α) :
    ∃ next t', binaryTreeDelete compare s value = some next ∧ Valid compare next t' ∧ reachable next t' ≤ reachable s t := by
  have deep := valid.standing.depth
  have bound : s.depthBound = s.inserted.length+1+1 := rfl
  unfold binaryTreeDelete
  rw [@nodeFind_search α compare s.heap t s.rootNode s.depthBound valid.rep (by omega) value]
  dsimp only
  by_cases missing : (search compare (valueOf s.heap) value t).getD 0 = 0
  · rw [if_pos missing]
    exact ⟨s,t,rfl,valid,le_refl _⟩
  · rw [if_neg missing]
    have trims : ∃ next t', binaryTreeNodeDelete compare s.depthBound s.heap s.rootNode value = some next ∧
        Trimmed compare s.heap next t t' ∧ Rep next t' s.rootNode := by
      by_cases atRoot : s.rootNode ≠ 0 → compare (s.heap s.rootNode).value value ≠ 0
      · exact valid.standing.delete_below preorder valid.linked valid.nonzero atRoot
      · obtain ⟨present,equal⟩ := Classical.not_imp.mp atRoot
        cases t with
        | nil => exact absurd valid.rep present
        | node q l r =>
          have tall : max (OrderedTree.depth l) (OrderedTree.depth r)+1 ≤ s.inserted.length := deep
          have rep := valid.rep
          rw [show s.rootNode = q from rep.1] at rep
          rw [bound,binaryTreeNodeDelete,if_neg present,if_pos (not_not.mp equal),show s.rootNode = q from valid.rep.1]
          exact root_detach preorder rep valid.distinct (by rw [← valid.rep.1]; exact valid.root present) (by omega)
    obtain ⟨next,t',ran,trimmed,after⟩ := trims
    rw [ran]
    exact ⟨_,t',rfl,valid.trim trimmed after,trimmed.values⟩

theorem Linked.congr (linked : Linked heap (labels t) nodes) (rep : Rep heap t q) (same : ∀ x ∈ labels t, next x = heap x) :
    Linked next (labels t) nodes := by
  intro x member side some_
  rw [same x member] at some_ ⊢
  rw [same _ (rep.child_mem member side some_)]
  exact linked x member side some_

theorem Linked.attach {more : List Nat} (linked : Linked heap (labels t) nodes) (rep : Rep heap t q) (fresh : p ∉ nodes)
    (outside : p ∉ labels t) (wider : nodes ⊆ more) (blank : ∀ s, (heap p).child s = 0) (member : a ∈ labels t)
    (only : ∀ x ∈ all, x = p ∨ x ∈ labels t) : Linked (attach heap a side p) all more := by
  have other : a ≠ p := fun same => outside (by rw [← same]; exact member)
  intro y inside sd some_
  rw [attach_child other] at some_ ⊢
  by_cases new : y = a ∧ sd = side
  · rw [if_pos new]
    obtain ⟨rfl,rfl⟩ := new
    exact .inl (attach_hung heap y sd p)
  · rw [if_neg new] at some_ ⊢
    rcases only y inside with rfl | old
    · exact absurd (blank sd) some_
    · have below : (heap y).child sd ∈ labels t := rep.child_mem old sd some_
      have apart : (heap y).child sd ≠ p := fun same => outside (by rw [← same]; exact below)
      obtain ⟨parent,isLeft,isRight⟩ := attach_links heap a side apart
      rw [parent,isLeft,isRight]
      refine (linked y old sd some_).imp_right ?_
      rintro ⟨before,gone⟩
      refine ⟨wider before,?_⟩
      intro again
      rcases only _ again with same | inTree
      · exact fresh (by rw [← same]; exact before)
      · exact gone inTree

-- What an insert leaves behind: the node alone, or hung on a free side of a
-- node of the tree.
structure Grown (compare : α → α → Int) (s next : Store α) (t t' : BinaryTree Nat) (p : Nat) (content : TreeNode α) : Prop where
  inserted : next.inserted = (p,content.value)::s.inserted
  listed : (labels t').Perm (p::labels t)
  value : valueOf next.heap = valueOf (Function.update s.heap p content)
  ordered : Ordered compare (valueOf s.heap) t → Ordered compare (valueOf next.heap) t'
  place : (s.rootNode = 0 ∧ t' = .node p .nil .nil ∧ next.rootNode = p ∧ next.heap = Function.update s.heap p content) ∨
    (s.rootNode ≠ 0 ∧ next.rootNode = s.rootNode ∧ ∃ a ∈ labels t, ∃ side, next.heap = attach (Function.update s.heap p content) a side p)

theorem fill_same (content : TreeNode α) (outside : p ∉ labels t) : ∀ x ∈ labels t, Function.update heap p content x = heap x :=
  fun _ member => Function.update_of_ne (fun equal => outside (by rw [← equal]; exact member)) _ _

theorem fill_values (content : TreeNode α) (outside : p ∉ labels t) :
    ∀ x ∈ labels t, valueOf (Function.update heap p content) x = valueOf heap x := by
  intro x member
  rw [valueOf,fill_same content outside x member]
  rfl

theorem fill_blank (blank : content.left = 0 ∧ content.right = 0) (heap : Heap α) :
    ∀ side, (Function.update heap p content p).child side = 0 := by
  intro side
  rw [Function.update_self]
  cases side
  · exact blank.2
  · exact blank.1

theorem Standing.insert (standing : Standing s t) (fresh : (Call.insert p content).Fresh s) :
    ∃ next t', serve compare s (.insert p content) = some next ∧ Standing next t' ∧ Grown compare s next t t' p content := by
  obtain ⟨nonzero,unknown,noChildren⟩ := fresh
  have deep := standing.depth
  have outside : p ∉ labels t := fun member => unknown (standing.known p member)
  have blank := @fill_blank α p content noChildren s.heap
  have nonzeros : ∀ x ∈ p::s.nodes, x ≠ 0 := by
    intro x member
    rcases List.mem_cons.mp member with rfl | old
    · exact nonzero
    · exact standing.nonzero x old
  unfold serve binaryTreeInsert
  dsimp only
  by_cases empty : s.rootNode = 0
  · rw [if_pos empty]
    have nothing : t = .nil := by
      cases t with
      | nil => rfl
      | node q l r => exact absurd (standing.rep.1.symm.trans empty) standing.rep.2.1
    subst nothing
    refine ⟨_,.node p .nil .nil,rfl,⟨rep_leaf nonzero blank,List.nodup_singleton p,?_,nonzeros⟩,
      ⟨rfl,.refl _,rfl,fun _ => ?_,.inl ⟨empty,rfl,rfl,rfl⟩⟩⟩
    · intro x member
      exact List.mem_cons.mpr (.inl (List.mem_singleton.mp member))
    · exact ⟨fun x member => absurd member List.not_mem_nil,fun x member => absurd member List.not_mem_nil,trivial,trivial⟩
  · rw [if_neg empty]
    have filled : Rep (Function.update s.heap p content) t s.rootNode :=
      standing.rep.congr (fun x member side => congrArg (·.child side) (fill_same content outside x member))
    obtain ⟨a,side,member,_,ran,grown⟩ := @nodeInsert_spec α compare (Function.update s.heap p content) t p s.rootNode (s.inserted.length+2)
      filled empty standing.distinct outside nonzero blank (by omega)
    have same := attach_value (Function.update s.heap p content) a side p
    have listed := @grow_labels Nat α compare (valueOf (Function.update s.heap p content)) t p
    rw [show ({s with heap := Function.update s.heap p content} : Store α).depthBound = s.inserted.length+2 from rfl,ran]
    refine ⟨_,_,rfl,⟨grown,listed.nodup_iff.mpr (List.nodup_cons.mpr ⟨outside,standing.distinct⟩),?_,nonzeros⟩,
      ⟨rfl,listed,same,?_,.inr ⟨empty,rfl,a,member,side,rfl⟩⟩⟩
    · intro x inside
      rcases List.mem_cons.mp (listed.subset inside) with rfl | old
      · exact List.mem_cons_self
      · exact List.mem_cons_of_mem _ (standing.known x old)
    · intro ordered
      dsimp only
      rw [same]
      exact (ordered.congr (fill_values content outside)).grow p

theorem Grown.linked {last : Store α} {more : List Nat} (grown : Grown compare s last t t' p content) (standing : Standing s t)
    (linked : Linked s.heap (labels t) nodes) (fresh : (Call.insert p content).Fresh s) (unknown : p ∉ nodes) (wider : nodes ⊆ more) :
    Linked last.heap (labels t') more := by
  obtain ⟨_,new,noChildren⟩ := fresh
  have outside : p ∉ labels t := fun member => new (standing.known p member)
  have blank := @fill_blank α p content noChildren s.heap
  rcases grown.place with ⟨_,rfl,_,alone⟩ | ⟨_,_,a,member,side,hung⟩
  · intro x inside side some_
    rw [alone,List.mem_singleton.mp inside] at some_
    exact absurd (blank side) some_
  · have filled : Rep (Function.update s.heap p content) t s.rootNode :=
      standing.rep.congr (fun x member side => congrArg (·.child side) (fill_same content outside x member))
    rw [hung]
    exact (linked.congr standing.rep (fill_same content outside)).attach filled unknown outside wider blank member
      (fun x inside => List.mem_cons.mp (grown.listed.subset inside))

theorem Valid.insert (valid : Valid compare s t) (fresh : (Call.insert p content).Fresh s) (plain : (Call.insert p content).PlainRoot s) :
    ∃ next t', serve compare s (.insert p content) = some next ∧ Valid compare next t' := by
  obtain ⟨next,t',ran,after,grown⟩ := @Standing.insert α compare t p s content valid.standing fresh
  have outside : p ∉ labels t := fun member => fresh.2.1 (valid.known p member)
  have nodes : next.nodes = p::s.nodes := by rw [Store.nodes,grown.inserted]; rfl
  have value : valueOf next.heap p = content.value := by rw [grown.value,valueOf,Function.update_self]
  refine ⟨next,t',ran,after.rep,after.distinct,after.known,after.nonzero,?_,?_,grown.ordered valid.ordered,?_⟩
  · rw [nodes]
    exact grown.linked valid.standing valid.linked fresh fresh.2.1 (List.subset_cons_self _ _)
  · intro present
    rcases grown.place with ⟨empty,_,root,alone⟩ | ⟨some_,root,a,_,side,hung⟩
    · rw [alone,root,Function.update_self]
      exact plain empty
    · have apart : s.rootNode ≠ p := fun equal => outside (by rw [← equal]; exact valid.rep.top some_)
      obtain ⟨_,isLeft,isRight⟩ := attach_links (Function.update s.heap p content) a side apart
      rw [root,hung,isLeft,isRight,Function.update_of_ne apart]
      exact valid.root some_
  · unfold reachable OrderedTree.values
    rw [Multiset.coe_eq_coe.mpr (grown.listed.map _),grown.inserted,List.map_cons,List.map_cons,value,grown.value,
      List.map_congr_left (fill_values content outside)]
    exact Multiset.cons_le_cons _ valid.contained

theorem Valid.shape (valid : Valid compare s t) : Shape s t := ⟨valid.rep,valid.distinct⟩

theorem Valid.serve (preorder : TotalPreorder compare) (valid : Valid compare s t) (call : Call α) (fresh : call.Fresh s)
    (plain : call.PlainRoot s) : ∃ next t', serve compare s call = some next ∧ Valid compare next t' := by
  cases call with
  | insert newNode content => exact valid.insert fresh plain
  | delete value =>
    obtain ⟨next,t',ran,after,_⟩ := valid.delete preorder value
    exact ⟨next,t',ran,after⟩

theorem tree_ordered_while_plain (preorder : TotalPreorder compare)
    (path : Reached Empty (serve compare) (fun s call => call.Fresh s ∧ call.PlainRoot s) s) :
    SearchOrdered compare s ∧
      (∀ call, call.Fresh s → call.PlainRoot s → ∃ next, serve compare s call = some next) ∧
      ∀ value next, serve compare s (.delete value) = some next → Shrinks s next := by
  have held : ∃ t, Valid compare s t := by
    refine path.invariant (fun s => ∃ t, Valid compare s t) ?_ ?_
    · rintro first ⟨root,none⟩
      have nowhere : first.nodes = [] := by rw [Store.nodes,none,List.map_nil]
      refine ⟨.nil,root,List.nodup_nil,?_,?_,?_,fun present => absurd root present,trivial,Multiset.zero_le _⟩
      · intro x member
        cases member
      · rw [nowhere]
        intro x member
        cases member
      · intro x member
        cases member
    · rintro first call next ⟨t,valid⟩ ⟨fresh,plain⟩ ran
      obtain ⟨other,t',found,after⟩ := valid.serve preorder call fresh plain
      rw [ran] at found
      cases Option.some.inj found
      exact ⟨t',after⟩
  obtain ⟨t,valid⟩ := held
  refine ⟨⟨t,valid.shape,valid.ordered,valid.contained⟩,?_,?_⟩
  · intro call fresh plain
    obtain ⟨next,_,ran,_⟩ := valid.serve preorder call fresh plain
    exact ⟨next,ran⟩
  · intro value next ran
    obtain ⟨other,t',found,after,less⟩ := valid.delete preorder value
    rw [show serve compare s (.delete value) = binaryTreeDelete compare s value from rfl,found] at ran
    cases Option.some.inj ran
    exact ⟨t,t',valid.shape,after.shape,less⟩

def difference (a b : Int) : Int := a-b

def plainNode (value : Int) : TreeNode Int := ⟨0,0,0,value,false,false⟩

def emptyStore : Store Int := ⟨fun _ => plainNode 0,0,[]⟩

theorem difference_preorder : TotalPreorder difference := by
  refine ⟨?_,?_⟩ <;> intros <;> unfold difference at * <;> omega

theorem tree_ordered_after_delete : ∃ s, follow (serve difference) emptyStore
      [.insert 1 (plainNode 5),.insert 2 (plainNode 3),.insert 3 (plainNode 8),.delete 5] = some s ∧
    SearchOrdered difference s ∧ s.inserted.length = 3 := by
  have fresh : Reached Empty (serve difference) (fun s call => call.Fresh s ∧ call.PlainRoot s) emptyStore := .start ⟨rfl,rfl⟩
  have first := fresh.extend (.insert 1 (plainNode 5)) ⟨by decide,fun _ => ⟨rfl,rfl⟩⟩ rfl
  have second := first.extend (.insert 2 (plainNode 3)) ⟨by decide,fun _ => ⟨rfl,rfl⟩⟩ rfl
  have third := second.extend (.insert 3 (plainNode 8)) ⟨by decide,fun _ => ⟨rfl,rfl⟩⟩ rfl
  have last := third.extend (.delete 5) ⟨trivial,trivial⟩ rfl
  exact ⟨_,rfl,(tree_ordered_while_plain difference_preorder last).1,rfl⟩

-- The node still says it is the left child of the second one, which is then
-- made to point at itself.
theorem used_root_makes_cycle : TotalPreorder difference ∧
    ∃ s, Reached Empty (serve difference) (fun s call => call.Fresh s) s ∧ ¬ SearchOrdered difference s := by
  refine ⟨difference_preorder,?_⟩
  have fresh : Reached Empty (serve difference) (fun s call => call.Fresh s) emptyStore := .start ⟨rfl,rfl⟩
  have first := fresh.extend (.insert 1 ⟨0,0,2,5,true,false⟩) (by decide) rfl
  have second := first.extend (.insert 2 (plainNode 3)) (by decide) rfl
  have last := second.extend (.delete 5) trivial rfl
  refine ⟨_,last,?_⟩
  rintro ⟨t,⟨rep,distinct⟩,_⟩
  cases t with
  | nil => cases rep
  | node q l r =>
    obtain ⟨rfl,_,_,right⟩ := rep
    cases r with
    | nil => cases right
    | node q' l' r' =>
      obtain ⟨rfl,_,again,_⟩ := right
      have twice := again.top (by decide)
      obtain ⟨_,_,_,inner,_⟩ := nodup_node distinct
      exact (nodup_node inner).1 twice

end KaracaOS.SearchTree
