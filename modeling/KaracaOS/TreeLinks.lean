import KaracaOS.SearchTree

namespace KaracaOS.SearchTree
open OrderedTree StepRuns

-- Child pointers followed from the root.
inductive Reaches (heap : Heap α) (root : Nat) : Nat → Prop where
  | root : root ≠ 0 → Reaches heap root root
  | child (side : Bool) : Reaches heap root x → (heap x).child side ≠ 0 → Reaches heap root ((heap x).child side)

def Coherent (s : Store α) : Prop :=
  ∀ n, Reaches s.heap s.rootNode n → ∀ c, c ≠ 0 → c = (s.heap n).left ∨ c = (s.heap n).right →
    (s.heap c).parent = n ∧ ((s.heap c).isLeft = true ↔ c = (s.heap n).left) ∧ ((s.heap c).isRight = true ↔ c = (s.heap n).right)

-- The end of the left spine below a pointer.
inductive LeftEnd (heap : Heap α) : Nat → Nat → Prop where
  | here : (heap x).left = 0 → LeftEnd heap x x
  | down : (heap x).left ≠ 0 → LeftEnd heap (heap x).left c → LeftEnd heap x c

def TreeNode.Full (n : TreeNode α) : Prop := n.left ≠ 0 ∧ n.right ≠ 0

def TreeNode.onlyChild (n : TreeNode α) : Nat := if n.left = 0 then n.right else n.left

-- Taking the node out hangs no node in a new place. A node with at most one
-- child is taken out through its own parent pointer and flags.
def Quiet (s : Store α) (n : Nat) : Prop :=
  ((s.heap n).Full → ∀ c, LeftEnd s.heap (s.heap n).right c → (s.heap c).right = 0) ∧
  (¬ (s.heap n).Full → (s.heap n).isLeft = true ∨ (s.heap n).isRight = true → (s.heap n).parent ≠ 0 ∧
    (Reaches s.heap s.rootNode (s.heap n).parent →
      (s.heap n).onlyChild = 0 ∨ (s.heap (s.heap n).parent).child (s.heap n).isLeft = (s.heap n).onlyChild))

def Call.Quiet (compare : α → α → Int) (s : Store α) : Call α → Prop
  | .insert _ _ => True
  | .delete value => ∀ n, n ≠ 0 → binaryTreeFind compare s value = some n → SearchTree.Quiet s n

variable {α : Type} {compare : α → α → Int} {heap next : Heap α} {t l r t' : BinaryTree Nat} {p q c n x root : Nat} {side : Bool} {s : Store α}

theorem Rep.reaches (rep : Rep heap t p) (above : p ≠ 0 → Reaches heap root p) (member : x ∈ labels t) : Reaches heap root x := by
  induction t generalizing p with
  | nil => cases member
  | node q l r ihl ihr =>
    obtain ⟨rfl,present,left,right⟩ := rep
    rcases List.mem_cons.mp member with rfl | deeper
    · exact above present
    · rcases List.mem_append.mp deeper with inLeft | inRight
      · exact ihl left (fun some_ => (above present).child true some_) inLeft
      · exact ihr right (fun some_ => (above present).child false some_) inRight

theorem Rep.reached (rep : Rep heap t root) (path : Reaches heap root x) : x ∈ labels t := by
  induction path with
  | root present => exact rep.top present
  | child side _ some_ ih => exact rep.child_mem ih side some_

theorem Rep.reaches_iff (rep : Rep heap t root) : Reaches heap root x ↔ x ∈ labels t := ⟨rep.reached,rep.reaches .root⟩

theorem Reaches.upto (path : Reaches heap root n) (same : ∀ x, x ≠ n → ∀ s, (next x).child s = (heap x).child s) :
    Reaches next root n := by
  have either : ∀ x, Reaches heap root x → Reaches next root x ∨ Reaches next root n := by
    intro x reached
    induction reached with
    | root present => exact .inl (.root present)
    | @child x side _ some_ ih =>
      rcases ih with before | done
      · by_cases here : x = n
        · rw [here] at before
          exact .inr before
        · rw [← same x here side] at some_ ⊢
          exact .inl (before.child side some_)
      · exact .inr done
  exact (either n path).elim id id

theorem LeftEnd.unique (one : LeftEnd heap p c) (two : LeftEnd heap p q) : c = q := by
  induction one with
  | here none_ =>
    cases two with
    | here => rfl
    | down some_ => exact absurd none_ some_
  | down some_ _ ih =>
    cases two with
    | here none_ => exact absurd none_ some_
    | down _ rest => exact ih rest

theorem leftmostLoop_end (ran : leftmostLoop heap fuel p = some c) : LeftEnd heap p c := by
  induction fuel generalizing p with
  | zero => cases ran
  | succ fuel ih =>
    rw [leftmostLoop] at ran
    split at ran
    · cases ran
    · split at ran
      · rename_i last
        cases Option.some.inj ran
        exact .here last
      · rename_i more
        exact .down more (ih ran)

theorem relink_eq (heap : Heap α) (n c : Nat) : relink heap n c =
    if (heap n).isLeft = true ∨ (heap n).isRight = true then
      (if (heap n).parent = 0 then none else some (setChild heap (heap n).parent (heap n).isLeft c))
    else some heap := by
  unfold relink
  cases isLeft : (heap n).isLeft <;> cases isRight : (heap n).isRight <;> simp

theorem detach_full (full : (heap n).Full) : detach fuel heap n = (leftmostLoop heap fuel (heap n).right).map (takeOver heap n) := by
  rw [detach,if_neg (fun both => full.1 both.1),if_neg full.1,if_neg full.2]

theorem detach_slim (slim : ¬ (heap n).Full) : detach fuel heap n = relink heap n (heap n).onlyChild := by
  unfold detach TreeNode.onlyChild
  by_cases left : (heap n).left = 0
  · by_cases right : (heap n).right = 0
    · rw [if_pos ⟨left,right⟩,if_pos left,right]
    · rw [if_neg (fun both => right both.2),if_pos left,if_pos left]
  · have right : (heap n).right = 0 := not_not.mp (fun some_ => slim ⟨left,some_⟩)
    rw [if_neg (fun both => left both.1),if_neg left,if_pos right,if_neg left]

theorem onlyChild_side (n : TreeNode α) : ∃ side, n.child side = n.onlyChild := by
  unfold TreeNode.onlyChild
  split
  · exact ⟨false,rfl⟩
  · exact ⟨true,rfl⟩

theorem nodeDelete_detach (rep : Rep heap t p) (enough : depth t < fuel) (found : search compare (valueOf heap) value t = some n) :
    ∃ rest l r, depth r ≤ rest ∧ Rep heap (.node n l r) n ∧ (labels (.node n l r)).Sublist (labels t) ∧
      binaryTreeNodeDelete compare fuel heap p value = detach rest heap n := by
  induction t using descend compare (valueOf heap) value generalizing p fuel with
  | nil => cases found
  | found q l r equal =>
    have whole := rep
    obtain ⟨rfl,present,_,_⟩ := rep
    have deep : max (depth l) (depth r)+1 < fuel := enough
    obtain ⟨fuel,rfl⟩ : ∃ m, fuel = m+1 := ⟨fuel-1,by omega⟩
    rw [search,if_pos equal] at found
    cases Option.some.inj found
    rw [binaryTreeNodeDelete,if_neg present,if_pos (show compare (heap n).value value = 0 from equal)]
    exact ⟨fuel,l,r,by omega,whole,.refl _,rfl⟩
  | onward q side sub aside toward ih =>
    obtain ⟨rfl,present,below,_⟩ := rep_fork.mp rep
    rw [depth_fork] at enough
    obtain ⟨fuel,rfl⟩ : ∃ m, fuel = m+1 := ⟨fuel-1,by omega⟩
    rw [search_fork toward] at found
    rw [nodeDelete_step present toward]
    obtain ⟨rest,l,r,bound,under,part,ran⟩ := ih below (show depth sub < fuel by omega) found
    exact ⟨rest,l,r,bound,under,part.trans sub_sublist,ran⟩

theorem Standing.find (standing : Standing s t) (value : α) :
    binaryTreeFind compare s value = some ((search compare (valueOf s.heap) value t).getD 0) := by
  have deep := standing.depth
  exact nodeFind_search standing.rep (by rw [Store.depthBound]; omega) value

theorem Standing.delete (standing : Standing s t) (found : search compare (valueOf s.heap) value t = some n) :
    ∃ rest l r, OrderedTree.depth r ≤ rest ∧ Rep s.heap (.node n l r) n ∧ (labels (.node n l r)).Sublist (labels t) ∧
      binaryTreeNodeDelete compare s.depthBound s.heap s.rootNode value = detach rest s.heap n ∧
      binaryTreeDelete compare s value = (detach rest s.heap n).map fun heap => {s with heap := heap} := by
  have deep := standing.depth
  have present : n ≠ 0 := standing.rep.present n (search_sound found).1
  obtain ⟨rest,l,r,bound,below,part,ran⟩ := nodeDelete_detach standing.rep (show OrderedTree.depth t < s.depthBound by rw [Store.depthBound]; omega) found
  have walked := @Standing.find α compare t s standing value
  rw [found,binaryTreeFind] at walked
  refine ⟨rest,l,r,bound,below,part,ran,?_⟩
  rw [binaryTreeDelete,walked]
  dsimp only [Option.getD_some]
  rw [if_neg present,ran]

-- A tree in which every node knows where it hangs.
structure Tidy (s : Store α) (t : BinaryTree Nat) : Prop extends Standing s t where
  linked : Linked s.heap (labels t) []

theorem Linked.hung (linked : Linked heap all []) (member : p ∈ all) (side : Bool) (some_ : (heap p).child side ≠ 0) :
    (heap ((heap p).child side)).parent = p ∧ (heap ((heap p).child side)).isLeft = side ∧ (heap ((heap p).child side)).isRight = !side :=
  (linked p member side some_).resolve_right (fun stray => List.not_mem_nil stray.1)

theorem Tidy.coherent (tidy : Tidy s t) : Coherent s := by
  intro n path c present child
  have member : n ∈ labels t := tidy.rep.reached path
  have hung : ∀ side, c = (s.heap n).child side → (s.heap c).parent = n ∧ (s.heap c).isLeft = side ∧ (s.heap c).isRight = !side := by
    rintro side rfl
    exact tidy.linked.hung member side present
  refine ⟨?_,⟨?_,fun left => (hung true left).2.1⟩,⟨?_,fun right => (hung false right).2.2⟩⟩
  · rcases child with left | right
    · exact (hung true left).1
    · exact (hung false right).1
  · intro isLeft
    refine child.resolve_right (fun right => ?_)
    rw [(hung false right).2.1] at isLeft
    cases isLeft
  · intro isRight
    refine child.resolve_left (fun left => ?_)
    rw [(hung true left).2.2] at isRight
    cases isRight

-- Pointers are only cleared.
def Cut (heap next : Heap α) (all : List Nat) : Prop :=
  (∀ x ∈ all, ∀ s, (next x).child s = (heap x).child s ∨ (next x).child s = 0) ∧ ∀ x, SameLinks (heap x) (next x)

theorem Rep.cut (rep : Rep heap t p) (cut : ∀ x ∈ labels t, ∀ s, (next x).child s = (heap x).child s ∨ (next x).child s = 0) :
    ∃ t', Rep next t' p ∧ (labels t').Sublist (labels t) := by
  induction t generalizing p with
  | nil => exact ⟨.nil,rep,.refl _⟩
  | node q l r ihl ihr =>
    obtain ⟨rfl,present,left,right⟩ := rep
    have onSide : ∀ side sub, (∃ t', Rep next t' ((heap p).child side) ∧ (labels t').Sublist (labels sub)) →
        ∃ t', Rep next t' ((next p).child side) ∧ (labels t').Sublist (labels sub) := by
      intro side sub kept
      rcases cut p List.mem_cons_self side with same | cleared
      · rw [same]
        exact kept
      · rw [cleared]
        exact ⟨.nil,rfl,List.nil_sublist _⟩
    obtain ⟨l',toLeft,partLeft⟩ := onSide true l
      (ihl left (fun x member => cut x (List.mem_cons_of_mem _ (List.mem_append_left _ member))))
    obtain ⟨r',toRight,partRight⟩ := onSide false r
      (ihr right (fun x member => cut x (List.mem_cons_of_mem _ (List.mem_append_right _ member))))
    exact ⟨.node p l' r',⟨rfl,present,toLeft,toRight⟩,(partLeft.append partRight).cons_cons _⟩

theorem Tidy.cut (tidy : Tidy s t) (cut : Cut s.heap next (labels t)) : ∃ t', Tidy {s with heap := next} t' := by
  obtain ⟨t',rep,part⟩ := tidy.rep.cut cut.1
  refine ⟨t',⟨⟨rep,part.nodup tidy.distinct,fun x member => tidy.known x (part.subset member),tidy.nonzero⟩,?_⟩⟩
  intro x member side some_
  rcases cut.1 x (part.subset member) side with same | cleared
  · dsimp only at some_ ⊢
    rw [same] at some_ ⊢
    obtain ⟨parent,isLeft,isRight⟩ := cut.2 ((s.heap x).child side)
    rw [parent,isLeft,isRight]
    exact .inl (tidy.linked.hung (part.subset member) side some_)
  · exact absurd cleared some_

theorem takeOver_child (heap : Heap α) (n c : Nat) (side : Bool) :
    (takeOver heap n c n).child side = if side = true then (heap n).left else (heap c).right := by
  rw [takeOver,Function.update_self]
  cases side <;> rfl

theorem takeOver_cut (last : (heap c).right = 0) : Cut heap (takeOver heap n c) all := by
  refine ⟨?_,takeOver_links heap n c⟩
  intro x _ side
  by_cases here : x = n
  · subst here
    rw [takeOver_child]
    cases side
    · exact .inr last
    · exact .inl rfl
  · rw [takeOver_other here]
    exact .inl rfl

theorem setChild_cut (harmless : p ∈ all → c = 0 ∨ (heap p).child side = c) : Cut heap (setChild heap p side c) all := by
  refine ⟨?_,setChild_links heap p side c⟩
  intro x member sd
  by_cases here : x = p
  · subst here
    rw [setChild_self]
    by_cases same : sd = side
    · subst same
      rw [if_pos rfl]
      rcases harmless member with cleared | kept
      · exact .inr cleared
      · exact .inl kept.symm
    · rw [if_neg same]
      exact .inl rfl
  · rw [setChild_other here]
    exact .inl rfl

theorem Quiet.detach (quiet : Quiet s n) (standing : Standing s t) (rep : Rep s.heap (.node n l r) n) (enough : OrderedTree.depth r ≤ fuel) :
    ∃ next, detach fuel s.heap n = some next ∧ Cut s.heap next (labels t) := by
  by_cases full : (s.heap n).Full
  · obtain ⟨c,_,_,loop,_⟩ := leftmostLoop_spec rep.2.2.2 full.2 enough
    rw [detach_full full,loop]
    exact ⟨_,rfl,takeOver_cut (quiet.1 full c (leftmostLoop_end loop))⟩
  · rw [detach_slim full,relink_eq]
    split
    · rename_i flags
      obtain ⟨parent,harmless⟩ := quiet.2 full flags
      rw [if_neg parent]
      exact ⟨_,rfl,setChild_cut (fun member => harmless (standing.rep.reaches_iff.mpr member))⟩
    · exact ⟨_,rfl,fun _ _ _ => .inl rfl,fun _ => ⟨rfl,rfl,rfl⟩⟩

theorem Coherent.hung (coherent : Coherent s) (path : Reaches s.heap s.rootNode n) (here : (s.heap n).child side = c) (present : c ≠ 0) :
    (s.heap c).parent = n ∧ (side = true → (s.heap c).isLeft = true) ∧ (side = false → (s.heap c).isRight = true) := by
  cases side with
  | true =>
    obtain ⟨parent,isLeft,_⟩ := coherent n path c present (.inl here.symm)
    exact ⟨parent,fun _ => isLeft.mpr here.symm,fun no => (by cases no)⟩
  | false =>
    obtain ⟨parent,_,isRight⟩ := coherent n path c present (.inr here.symm)
    exact ⟨parent,fun no => (by cases no),fun _ => isRight.mpr here.symm⟩

theorem Tidy.takeOver_quiet (tidy : Tidy s t) (member : n ∈ labels t) (inside : c ∈ labels t) (other : c ≠ n)
    (coherent : Coherent {s with heap := takeOver s.heap n c}) : (s.heap c).right = 0 := by
  by_contra some_
  have within : Reaches (takeOver s.heap n c) s.rootNode n :=
    (tidy.rep.reaches_iff.mpr member).upto (fun x away side => by rw [takeOver_other away])
  have parent := (coherent.hung within (takeOver_child s.heap n c false) some_).1
  obtain ⟨before,_,_⟩ := tidy.linked.hung inside false some_
  obtain ⟨same,_,_⟩ := takeOver_links s.heap n c ((s.heap c).child false)
  exact other (before.symm.trans (same.symm.trans parent))

theorem Tidy.setChild_quiet (tidy : Tidy s t) (member : n ∈ labels t) (path : Reaches s.heap s.rootNode p)
    (coherent : Coherent {s with heap := setChild s.heap p side (s.heap n).onlyChild}) :
    (s.heap n).onlyChild = 0 ∨ (s.heap p).child side = (s.heap n).onlyChild := by
  by_contra both
  obtain ⟨some_,moved⟩ := not_or.mp both
  obtain ⟨sd,only⟩ := onlyChild_side (s.heap n)
  obtain ⟨above,isLeft,isRight⟩ := tidy.linked.hung member sd (by rw [only]; exact some_)
  rw [only] at above isLeft isRight
  obtain ⟨sameParent,sameLeft,sameRight⟩ := setChild_links s.heap p side (s.heap n).onlyChild (s.heap n).onlyChild
  have within : Reaches (setChild s.heap p side (s.heap n).onlyChild) s.rootNode p :=
    path.upto (fun x away s => by rw [setChild_other away])
  have new : (setChild s.heap p side (s.heap n).onlyChild p).child side = (s.heap n).onlyChild := by
    rw [setChild_self,if_pos rfl]
  have here : p = n := (coherent.hung within new some_).1.symm.trans (sameParent.trans above)
  subst here
  -- now the same child hangs on both sides
  have apart : sd ≠ side := fun same => moved (by rw [← same]; exact only)
  have old : (setChild s.heap p side (s.heap p).onlyChild p).child sd = (s.heap p).onlyChild := by
    rw [setChild_self,if_neg apart,only]
  have oneSide := (coherent.hung within new some_).2
  have otherSide := (coherent.hung within old some_).2
  dsimp only at oneSide otherSide
  rw [sameLeft,sameRight,isLeft,isRight] at oneSide otherSide
  cases sd <;> cases side <;> simp_all

theorem Tidy.detach_quiet (tidy : Tidy s t) (rep : Rep s.heap (.node n l r) n) (part : (labels (.node n l r)).Sublist (labels t))
    (enough : OrderedTree.depth r ≤ fuel) (ran : detach fuel s.heap n = some next) (coherent : Coherent {s with heap := next}) : Quiet s n := by
  have member : n ∈ labels t := part.subset List.mem_cons_self
  refine ⟨?_,?_⟩
  · intro full c last
    obtain ⟨c',rest,found,loop,_⟩ := leftmostLoop_spec rep.2.2.2 full.2 enough
    cases (leftmostLoop_end loop).unique last
    rw [detach_full full,loop] at ran
    cases Option.some.inj ran
    have below : c ∈ labels r := (leftmost_sublist found).subset List.mem_cons_self
    have outside : n ∉ labels r := (nodup_node (part.nodup tidy.distinct)).2.1
    exact tidy.takeOver_quiet member (part.subset (List.mem_cons_of_mem _ (List.mem_append_right _ below)))
      (fun same => outside (by rw [← same]; exact below)) coherent
  · intro slim flags
    rw [detach_slim slim,relink_eq,if_pos flags] at ran
    by_cases parent : (s.heap n).parent = 0
    · rw [if_pos parent] at ran
      cases ran
    · rw [if_neg parent] at ran
      cases Option.some.inj ran
      exact ⟨parent,fun path => tidy.setChild_quiet member path coherent⟩

theorem Tidy.delete_found (tidy : Tidy s t) (found : search compare (valueOf s.heap) value t = some n) :
    ((∃ next, binaryTreeDelete compare s value = some next ∧ Coherent next) ↔ Quiet s n) ∧
      (Quiet s n → ∃ next t', binaryTreeDelete compare s value = some next ∧ Tidy next t') := by
  obtain ⟨rest,l,r,enough,rep,part,_,ran⟩ := tidy.toStanding.delete found
  have kept : Quiet s n → ∃ next t', binaryTreeDelete compare s value = some next ∧ Tidy next t' := by
    intro quiet
    obtain ⟨next,taken,cut⟩ := quiet.detach tidy.toStanding rep enough
    obtain ⟨t',after⟩ := tidy.cut cut
    rw [ran,taken]
    exact ⟨_,t',rfl,after⟩
  refine ⟨⟨?_,?_⟩,kept⟩
  · rintro ⟨next,done,coherent⟩
    rw [ran] at done
    obtain ⟨heap,taken,rfl⟩ := Option.map_eq_some_iff.mp done
    exact tidy.detach_quiet rep part enough taken coherent
  · intro quiet
    obtain ⟨next,t',done,after⟩ := kept quiet
    exact ⟨next,done,after.coherent⟩

theorem Tidy.insert (tidy : Tidy s t) (fresh : (Call.insert p content).Fresh s) :
    ∃ next t', serve compare s (.insert p content) = some next ∧ Tidy next t' ∧ Grown compare s next t t' p content := by
  obtain ⟨next,t',ran,after,grown⟩ := @Standing.insert α compare t p s content tidy.toStanding fresh
  exact ⟨next,t',ran,⟨after,grown.linked tidy.toStanding tidy.linked fresh List.not_mem_nil (List.nil_subset _)⟩,grown⟩

theorem Tidy.serve (tidy : Tidy s t) (call : Call α) (fresh : call.Fresh s) :
    ((∃ next, serve compare s call = some next ∧ Coherent next) ↔ call.Quiet compare s) ∧
      (call.Quiet compare s → ∃ next t', serve compare s call = some next ∧ Tidy next t') := by
  cases call with
  | insert p content =>
    obtain ⟨next,t',ran,after,_⟩ := @Tidy.insert α compare t p s content tidy fresh
    exact ⟨⟨fun _ => trivial,fun _ => ⟨next,ran,after.coherent⟩⟩,fun _ => ⟨next,t',ran,after⟩⟩
  | delete value =>
    have walked := @Standing.find α compare t s tidy.toStanding value
    cases found : search compare (valueOf s.heap) value t with
    | none =>
      rw [found] at walked
      have ran : binaryTreeDelete compare s value = some s := by
        rw [binaryTreeDelete,← binaryTreeFind,walked]
        rfl
      refine ⟨⟨?_,fun _ => ⟨s,ran,tidy.coherent⟩⟩,fun _ => ⟨s,t,ran,tidy⟩⟩
      intro _ n present same
      rw [walked] at same
      exact absurd (Option.some.inj same).symm present
    | some n =>
      rw [found] at walked
      have real : n ≠ 0 := tidy.rep.present n (search_sound found).1
      have only : (Call.delete value).Quiet compare s ↔ SearchTree.Quiet s n := by
        refine ⟨fun quiet => quiet n real walked,fun quiet m _ same => ?_⟩
        rw [walked] at same
        cases Option.some.inj same
        exact quiet
      rw [only]
      exact tidy.delete_found found

theorem links_coherent_while_quiet (path : Reached Empty (serve compare) (fun s call => call.Fresh s ∧ call.Quiet compare s) s) :
    Coherent s ∧ ∀ call, call.Fresh s → ((∃ next, serve compare s call = some next ∧ Coherent next) ↔ call.Quiet compare s) := by
  have held : ∃ t, Tidy s t := by
    refine path.invariant (fun s => ∃ t, Tidy s t) ?_ ?_
    · intro first empty
      exact ⟨.nil,⟨empty_standing empty,fun _ member => absurd member List.not_mem_nil⟩⟩
    · rintro first call next ⟨t,tidy⟩ ⟨fresh,quiet⟩ ran
      obtain ⟨other,t',found,after⟩ := (tidy.serve call fresh).2 quiet
      rw [ran] at found
      cases Option.some.inj found
      exact ⟨t',after⟩
  obtain ⟨t,tidy⟩ := held
  exact ⟨tidy.coherent,fun call fresh => (tidy.serve call fresh).1⟩

theorem links_coherent_after_delete : ∃ s, follow (serve difference) emptyStore
      [.insert 1 (plainNode 5),.insert 2 (plainNode 3),.insert 3 (plainNode 8),.delete 5] = some s ∧ Coherent s ∧ (s.heap 1).value = 3 := by
  have fresh : Reached Empty (serve difference) (fun s call => call.Fresh s ∧ call.Quiet difference s) emptyStore := .start ⟨rfl,rfl⟩
  have first := fresh.extend (.insert 1 (plainNode 5)) ⟨by decide,trivial⟩ rfl
  have second := first.extend (.insert 2 (plainNode 3)) ⟨by decide,trivial⟩ rfl
  have third := second.extend (.insert 3 (plainNode 8)) ⟨by decide,trivial⟩ rfl
  have last := third.extend (.delete 5) ⟨trivial,by
    intro n _ found
    cases Option.some.inj found
    refine ⟨?_,fun slim => absurd ⟨by decide,by decide⟩ slim⟩
    intro _ c ends
    cases ends with
    | here => rfl
    | down some_ => exact absurd rfl some_⟩ rfl
  exact ⟨_,rfl,(links_coherent_while_quiet last).1,rfl⟩

-- The child of the node taken out still names it as its parent.
theorem moved_child_keeps_parent : ∃ s : Store Int, Reached Empty (serve difference) (fun s call => call.Fresh s ∧ call.PlainRoot s) s ∧
    ¬ Coherent s := by
  have fresh : Reached Empty (serve difference) (fun s call => call.Fresh s ∧ call.PlainRoot s) emptyStore := .start ⟨rfl,rfl⟩
  have first := fresh.extend (.insert 1 (plainNode 5)) ⟨by decide,fun _ => ⟨rfl,rfl⟩⟩ rfl
  have second := first.extend (.insert 2 (plainNode 3)) ⟨by decide,fun _ => ⟨rfl,rfl⟩⟩ rfl
  have third := second.extend (.insert 3 (plainNode 1)) ⟨by decide,fun _ => ⟨rfl,rfl⟩⟩ rfl
  have last := third.extend (.delete 3) ⟨trivial,trivial⟩ rfl
  refine ⟨_,last,fun coherent => ?_⟩
  have parent := (coherent 1 (.root (by decide)) 3 (by decide) (.inr rfl)).1
  exact absurd parent (by decide)

end KaracaOS.SearchTree
