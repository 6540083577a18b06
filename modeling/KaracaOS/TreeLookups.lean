import KaracaOS.TreeLinks

namespace KaracaOS.SearchTree
open OrderedTree StepRuns

def Call.Inserts : Call α → Prop
  | .insert _ _ => True
  | .delete _ => False

def Call.NewValue (s : Store α) : Call α → Prop
  | .insert _ content => content.value ∉ s.inserted.map Prod.snd
  | .delete _ => True

instance [DecidableEq α] (s : Store α) (call : Call α) : Decidable (call.NewValue s) :=
  match call with
  | .insert _ _ => inferInstanceAs (Decidable (¬ _))
  | .delete _ => inferInstanceAs (Decidable True)

-- After inserts alone every node is in its tree, with the value it came with.
structure Built (compare : α → α → Int) (s : Store α) (t : BinaryTree Nat) : Prop extends Tidy s t where
  whole : ∀ x ∈ s.nodes, x ∈ labels t
  ordered : Ordered compare (valueOf s.heap) t
  kept : ∀ entry ∈ s.inserted, valueOf s.heap entry.1 = entry.2

variable {α : Type} {compare : α → α → Int} {heap next : Heap α} {t l r t' : BinaryTree Nat} {p q c d n x y z root : Nat} {side : Bool}
  {s : Store α} {v w : α}

theorem empty_built (empty : Empty s) : Built compare s .nil := by
  refine ⟨⟨empty_standing empty,fun _ member => absurd member List.not_mem_nil⟩,?_,trivial,?_⟩
  · rw [Store.nodes,empty.2]
    intro x member
    cases member
  · rw [empty.2]
    intro entry member
    cases member

theorem Built.insert (built : Built compare s t) (fresh : (Call.insert p content).Fresh s) :
    ∃ next t', serve compare s (.insert p content) = some next ∧ Built compare next t' ∧ next.inserted = (p,content.value)::s.inserted := by
  obtain ⟨next,t',ran,after,grown⟩ := @Tidy.insert α compare t p s content built.toTidy fresh
  refine ⟨next,t',ran,⟨after,?_,grown.ordered built.ordered,?_⟩,grown.inserted⟩
  · rw [Store.nodes,grown.inserted]
    intro x member
    refine grown.listed.symm.subset ?_
    rcases List.mem_cons.mp member with rfl | old
    · exact List.mem_cons_self
    · exact List.mem_cons_of_mem _ (built.whole x old)
  · rw [grown.inserted,grown.value]
    intro entry member
    rcases List.mem_cons.mp member with rfl | old
    · rw [valueOf,Function.update_self]
    · have other : entry.1 ≠ p := fun same => fresh.2.1 (by rw [← same]; exact List.mem_map_of_mem old)
      rw [valueOf,Function.update_of_ne other]
      exact built.kept entry old

theorem Built.serve (built : Built compare s t) (call : Call α) (inserts : call.Inserts) (fresh : call.Fresh s) :
    ∃ next t', serve compare s call = some next ∧ Built compare next t' := by
  cases call with
  | insert p content =>
    obtain ⟨next,t',ran,after,_⟩ := built.insert fresh
    exact ⟨next,t',ran,after⟩
  | delete value => cases inserts

theorem inserts_build (path : Reached Empty (serve compare) (fun s call => call.Inserts ∧ call.Fresh s) s) : ∃ t, Built compare s t := by
  refine path.invariant (fun s => ∃ t, Built compare s t) (fun first empty => ⟨.nil,empty_built empty⟩) ?_
  rintro first call next ⟨t,built⟩ ⟨inserts,fresh⟩ ran
  obtain ⟨other,t',found,after⟩ := built.serve call inserts fresh
  rw [ran] at found
  cases Option.some.inj found
  exact ⟨t',after⟩

theorem Built.entry (built : Built compare s t) (member : x ∈ labels t) : (x,valueOf s.heap x) ∈ s.inserted := by
  obtain ⟨entry,inside,same⟩ := List.mem_map.mp (built.known x member)
  have value := built.kept entry inside
  rw [same] at value
  rw [value,← same]
  exact inside

theorem Built.holder (built : Built compare s t) (member : v ∈ s.inserted.map Prod.snd) : ∃ x ∈ labels t, valueOf s.heap x = v := by
  obtain ⟨entry,inside,rfl⟩ := List.mem_map.mp member
  exact ⟨entry.1,built.whole _ (List.mem_map_of_mem inside),built.kept entry inside⟩

theorem inserts_make_set (preorder : TotalPreorder compare)
    (path : Reached Empty (serve compare) (fun s call => call.Inserts ∧ call.Fresh s) s) :
    (∀ call : Call α, call.Inserts → call.Fresh s → ∃ next, serve compare s call = some next) ∧
    (∀ v, ∃ node, binaryTreeFind compare s v = some node ∧ (node ≠ 0 ↔ ∃ w ∈ s.inserted.map Prod.snd, compare w v = 0) ∧
      (node ≠ 0 → (node,(s.heap node).value) ∈ s.inserted ∧ compare (s.heap node).value v = 0)) ∧
    ∀ x ∈ s.nodes, Reaches s.heap s.rootNode x := by
  obtain ⟨t,built⟩ := inserts_build path
  refine ⟨?_,?_,fun x member => built.rep.reaches_iff.mpr (built.whole x member)⟩
  · intro call inserts fresh
    obtain ⟨next,_,ran,_⟩ := built.serve call inserts fresh
    exact ⟨next,ran⟩
  · intro v
    refine ⟨_,built.toStanding.find v,?_⟩
    cases found : search compare (valueOf s.heap) v t with
    | none =>
      refine ⟨⟨fun some_ => absurd rfl some_,?_⟩,fun some_ => absurd rfl some_⟩
      rintro ⟨w,member,equal⟩
      obtain ⟨x,inside,rfl⟩ := built.holder member
      obtain ⟨q,other⟩ := built.ordered.search preorder inside equal
      rw [found] at other
      cases other
    | some node =>
      obtain ⟨member,equal⟩ := search_sound found
      have entry := built.entry member
      exact ⟨⟨fun _ => ⟨_,List.mem_map_of_mem entry,equal⟩,fun _ => built.rep.present node member⟩,fun _ => ⟨entry,equal⟩⟩

theorem three_inserts_found : ∃ s, follow (serve difference) emptyStore
      [.insert 1 (plainNode 5),.insert 2 (plainNode 5),.insert 3 (plainNode 8)] = some s ∧
    (∃ node, binaryTreeFind difference s 8 = some node ∧ (node ≠ 0 ↔ ∃ w ∈ s.inserted.map Prod.snd, difference w 8 = 0)) := by
  have fresh : Reached Empty (serve difference) (fun s call => call.Inserts ∧ call.Fresh s) emptyStore := .start ⟨rfl,rfl⟩
  have first := fresh.extend (.insert 1 (plainNode 5)) ⟨trivial,by decide⟩ rfl
  have second := first.extend (.insert 2 (plainNode 5)) ⟨trivial,by decide⟩ rfl
  have third := second.extend (.insert 3 (plainNode 8)) ⟨trivial,by decide⟩ rfl
  obtain ⟨node,found,exact_,_⟩ := (inserts_make_set difference_preorder third).2.1 8
  exact ⟨_,rfl,node,found,exact_⟩

theorem Tidy.place (tidy : Tidy s t) (one : x ∈ labels t) (two : y ∈ labels t) (same : (s.heap x).child side = (s.heap y).child sd)
    (some_ : (s.heap x).child side ≠ 0) : x = y ∧ side = sd := by
  obtain ⟨parent,isLeft,_⟩ := tidy.linked.hung one side some_
  obtain ⟨parent',isLeft',_⟩ := tidy.linked.hung two sd (by rw [← same]; exact some_)
  rw [← same] at parent' isLeft'
  exact ⟨parent.symm.trans parent',isLeft.symm.trans isLeft'⟩

theorem Rep.below_top (rep : Rep heap t p) (distinct : (labels t).Nodup) (member : x ∈ labels t) (some_ : (heap x).child side ≠ 0) :
    (heap x).child side ≠ p := by
  cases t with
  | nil => cases member
  | node q l r =>
    obtain ⟨rfl,_,left,right⟩ := rep
    obtain ⟨outLeft,outRight,_,_,_⟩ := nodup_node distinct
    intro same
    rcases List.mem_cons.mp member with rfl | deeper
    · cases side with
      | true => exact outLeft (by rw [← same]; exact left.top some_)
      | false => exact outRight (by rw [← same]; exact right.top some_)
    · rcases List.mem_append.mp deeper with inLeft | inRight
      · exact outLeft (by rw [← same]; exact left.child_mem inLeft side some_)
      · exact outRight (by rw [← same]; exact right.child_mem inRight side some_)

theorem Standing.hanger (standing : Standing s t) (member : n ∈ labels t) (other : n ≠ s.rootNode) :
    ∃ p ∈ labels t, ∃ side, (s.heap p).child side = n := by
  cases standing.rep.reaches_iff.mpr member with
  | root => exact absurd rfl other
  | @child p side above _ => exact ⟨p,standing.rep.reached above,side,rfl⟩

-- One pointer of the tree is changed, to z.
def Redirected (heap next : Heap α) (p : Nat) (side : Bool) (z : Nat) : Prop :=
  (next p).child side = z ∧ ∀ x s, ¬ (x = p ∧ s = side) → (next x).child s = (heap x).child s

theorem setChild_redirected (heap : Heap α) (p : Nat) (side : Bool) (z : Nat) : Redirected heap (setChild heap p side z) p side z := by
  refine ⟨by rw [setChild_self,if_pos rfl],?_⟩
  intro x s other
  by_cases here : x = p
  · subst here
    rw [setChild_self,if_neg (fun same => other ⟨rfl,same⟩)]
  · rw [setChild_other here]

theorem takeOver_redirected (heap : Heap α) (n c : Nat) : Redirected heap (takeOver heap n c) n false (heap c).right := by
  refine ⟨takeOver_child heap n c false,?_⟩
  intro x s other
  by_cases here : x = n
  · subst here
    cases s with
    | true => exact takeOver_child heap x c true
    | false => exact absurd ⟨rfl,rfl⟩ other
  · rw [takeOver_other here]

theorem Redirected.lost (redirected : Redirected s.heap next p side z) (tidy : Tidy s t) (member : p ∈ labels t)
    (some_ : (s.heap p).child side ≠ 0) (moved : z ≠ (s.heap p).child side) (inside : z ≠ 0 → z ∈ labels t)
    (path : Reaches next s.rootNode x) : x ∈ labels t ∧ x ≠ (s.heap p).child side := by
  induction path with
  | root present => exact ⟨tidy.rep.top present,(tidy.rep.below_top tidy.distinct member some_).symm⟩
  | @child x sd _ present ih =>
    by_cases here : x = p ∧ sd = side
    · obtain ⟨rfl,rfl⟩ := here
      rw [redirected.1] at present ⊢
      exact ⟨inside present,moved⟩
    · rw [redirected.2 x sd here] at present ⊢
      refine ⟨tidy.rep.child_mem ih.1 sd present,fun same => here ?_⟩
      exact tidy.place ih.1 member same present

theorem only_child {n : TreeNode α} (slim : ¬ n.Full) (some_ : n.child side ≠ 0) : n.child side = n.onlyChild := by
  unfold TreeNode.onlyChild
  cases side with
  | true => exact (if_neg some_).symm
  | false =>
    refine (if_pos ?_).symm
    by_contra left
    exact slim ⟨left,some_⟩

theorem Redirected.bypass (redirected : Redirected s.heap next p side (s.heap ((s.heap p).child side)).onlyChild) (tidy : Tidy s t)
    (member : p ∈ labels t) (some_ : (s.heap p).child side ≠ 0) (slim : ¬ (s.heap ((s.heap p).child side)).Full)
    (path : Reaches s.heap s.rootNode x) (other : x ≠ (s.heap p).child side) : Reaches next s.rootNode x := by
  have both : ∀ x, Reaches s.heap s.rootNode x → (x ≠ (s.heap p).child side → Reaches next s.rootNode x) ∧
      (x = (s.heap p).child side → Reaches next s.rootNode p) := by
    intro x path
    induction path with
    | root present => exact ⟨fun _ => .root present,fun same => absurd same.symm (tidy.rep.below_top tidy.distinct member some_)⟩
    | @child x sd path present ih =>
      by_cases out : x = (s.heap p).child side
      · have above := ih.2 out
        rw [out] at present ⊢
        refine ⟨fun _ => ?_,fun _ => above⟩
        have down := only_child slim present
        rw [down,← redirected.1] at present ⊢
        exact above.child side present
      · have here := ih.1 out
        by_cases spot : x = p ∧ sd = side
        · obtain ⟨rfl,rfl⟩ := spot
          exact ⟨fun other => absurd rfl other,fun _ => here⟩
        · refine ⟨fun _ => ?_,fun same => absurd (tidy.place (tidy.rep.reached path) member same present) spot⟩
          rw [← redirected.2 x sd spot] at present ⊢
          exact here.child sd present
  exact (both x path).1 other

theorem nodeFind_reaches (found : binaryTreeNodeFind compare fuel heap p v = some x) (present : x ≠ 0)
    (above : p ≠ 0 → Reaches heap root p) : Reaches heap root x ∧ compare (heap x).value v = 0 := by
  induction fuel generalizing p with
  | zero => cases found
  | succ fuel ih =>
    rw [binaryTreeNodeFind] at found
    split at found
    · exact absurd (Option.some.inj found).symm present
    · rename_i some_
      split at found
      · rename_i equal
        cases Option.some.inj found
        exact ⟨above some_,equal⟩
      · split at found
        · exact ih found (fun down => (above some_).child true down)
        · exact ih found (fun down => (above some_).child false down)

theorem nodeFind_kept (rep : Rep heap t p) (enough : depth t < fuel) (values : ∀ x ∈ labels t, valueOf next x = valueOf heap x)
    (same : ∀ x ∈ labels t, ∀ s, (heap x).child s ≠ 0 → (next x).child s = (heap x).child s)
    (found : search compare (valueOf heap) v t = some y) : binaryTreeNodeFind compare fuel next p v = some y := by
  induction t using descend compare (valueOf heap) v generalizing p fuel with
  | nil => cases found
  | found q l r equal =>
    obtain ⟨rfl,present,_,_⟩ := rep
    obtain ⟨fuel,rfl⟩ : ∃ m, fuel = m+1 := ⟨fuel-1,by omega⟩
    rw [search,if_pos equal] at found
    rw [← values p List.mem_cons_self] at equal
    rw [binaryTreeNodeFind,if_neg present,if_pos (show compare (next p).value v = 0 from equal)]
    exact found
  | onward q side sub rest toward ih =>
    obtain ⟨rfl,present,below,_⟩ := rep_fork.mp rep
    rw [depth_fork] at enough
    obtain ⟨fuel,rfl⟩ : ∃ m, fuel = m+1 := ⟨fuel-1,by omega⟩
    have top : p ∈ labels (fork p side sub rest) := mem_fork.mpr (.inl rfl)
    rw [search_fork toward] at found
    rw [← values p top] at toward
    have some_ : (heap p).child side ≠ 0 := by
      intro none_
      rw [below.empty none_] at found
      cases found
    rw [nodeFind_step present toward,same p top side some_]
    exact ih below (by omega) (fun x member => values x (sub_sublist.subset member)) (fun x member => same x (sub_sublist.subset member)) found

-- The same with values that are all different under a total order.
structure Distinct (compare : α → α → Int) (s : Store α) (t : BinaryTree Nat) : Prop extends Built compare s t where
  order : TotalOrder compare
  different : (s.inserted.map Prod.snd).Nodup

theorem distinct_inserts_build (order : TotalOrder compare)
    (path : Reached Empty (serve compare) (fun s call => call.Inserts ∧ call.Fresh s ∧ call.NewValue s) s) : ∃ t, Distinct compare s t := by
  refine path.invariant (fun s => ∃ t, Distinct compare s t) ?_ ?_
  · intro first empty
    exact ⟨.nil,empty_built empty,order,by rw [empty.2]; exact List.nodup_nil⟩
  · rintro first call next ⟨t,built⟩ ⟨inserts,fresh,new⟩ ran
    cases call with
    | delete value => cases inserts
    | insert p content =>
      obtain ⟨other,t',found,after,inserted⟩ := built.toBuilt.insert fresh
      rw [ran] at found
      cases Option.some.inj found
      exact ⟨t',after,order,by rw [inserted]; exact List.nodup_cons.mpr ⟨new,built.different⟩⟩

theorem Distinct.same (distinct : Distinct compare s t) (one : x ∈ labels t) (two : y ∈ labels t)
    (equal : valueOf s.heap x = valueOf s.heap y) : x = y :=
  congrArg Prod.fst (List.inj_on_of_nodup_map distinct.different (distinct.entry one) (distinct.entry two) equal)

theorem Distinct.search (distinct : Distinct compare s t) (member : n ∈ labels t) :
    search compare (valueOf s.heap) (valueOf s.heap n) t = some n := by
  obtain ⟨q,found⟩ := distinct.ordered.search distinct.order.toTotalPreorder member (distinct.order.toTotalPreorder.refl _)
  obtain ⟨inside,equal⟩ := search_sound found
  rw [found,distinct.same inside member (distinct.order.equal _ _ equal)]

theorem Rep.unique (one : Rep heap t p) (two : Rep heap t' p) : t = t' := by
  induction t generalizing p t' with
  | nil =>
    cases t' with
    | nil => rfl
    | node q l r => exact absurd (two.1.symm.trans one) two.2.1
  | node q l r ihl ihr =>
    cases t' with
    | nil => exact absurd (one.1.symm.trans two) one.2.1
    | node q' l' r' =>
      obtain ⟨rfl,_,left,right⟩ := one
      obtain ⟨rfl,_,left',right'⟩ := two
      rw [ihl left left',ihr right right']

theorem Rep.child_apart (rep : Rep heap t p) (distinct : (labels t).Nodup) (member : x ∈ labels t) (some_ : (heap x).child side ≠ 0) :
    (heap x).child side ≠ x := by
  induction t generalizing p with
  | nil => cases member
  | node q l r ihl ihr =>
    obtain ⟨_,_,distinctLeft,distinctRight,_⟩ := nodup_node distinct
    rcases List.mem_cons.mp member with rfl | deeper
    · have top : p = x := rep.1
      rw [top] at rep
      exact rep.below_top distinct member some_
    · rcases List.mem_append.mp deeper with inLeft | inRight
      · exact ihl rep.2.2.1 distinctLeft inLeft
      · exact ihr rep.2.2.2 distinctRight inRight

theorem Standing.only (standing : Standing s t) (member : n ∈ labels t) :
    (s.heap n).onlyChild ≠ n ∧ ((s.heap n).onlyChild ≠ 0 → (s.heap n).onlyChild ∈ labels t) := by
  obtain ⟨side,only⟩ := onlyChild_side (s.heap n)
  rw [← only]
  refine ⟨?_,standing.rep.child_mem member side⟩
  by_cases none_ : (s.heap n).child side = 0
  · rw [none_]
    exact (standing.rep.present n member).symm
  · exact standing.rep.child_apart standing.distinct member none_

theorem Distinct.trims (distinct : Distinct compare s t) (member : n ∈ labels t) (other : n ≠ s.rootNode)
    (walked : binaryTreeNodeDelete compare s.depthBound s.heap s.rootNode (valueOf s.heap n) = some next) :
    ∃ t', Trimmed compare s.heap next t t' ∧ Rep next t' s.rootNode := by
  have away : s.rootNode ≠ 0 → compare (s.heap s.rootNode).value (valueOf s.heap n) ≠ 0 := by
    intro present equal
    exact other (distinct.same member (distinct.rep.top present) (distinct.order.equal _ _ equal).symm)
  obtain ⟨last,t',done,trimmed,after⟩ := distinct.toStanding.delete_below distinct.order.toTotalPreorder distinct.linked
    (fun x none_ => absurd none_ List.not_mem_nil) away
  rw [walked] at done
  cases Option.some.inj done
  exact ⟨t',trimmed,after⟩

theorem Distinct.delete_full (distinct : Distinct compare s t) (member : n ∈ labels t) (full : (s.heap n).Full) :
    ∃ c ∈ labels t, c ≠ n ∧ LeftEnd s.heap (s.heap n).right c ∧
      binaryTreeDelete compare s (valueOf s.heap n) = some {s with heap := takeOver s.heap n c} ∧
      ∃ t', Trimmed compare s.heap (takeOver s.heap n c) t t' ∧ Rep (takeOver s.heap n c) t' s.rootNode := by
  obtain ⟨fuel,l,r,enough,rep,part,walked,ran⟩ := distinct.toStanding.delete (distinct.search member)
  obtain ⟨c,rest,found,loop,hangs⟩ := leftmostLoop_spec rep.2.2.2 full.2 enough
  have below : c ∈ labels r := (leftmost_sublist found).subset List.mem_cons_self
  have outside : n ∉ labels r := (nodup_node (part.nodup distinct.distinct)).2.1
  have taken : detach fuel s.heap n = some (takeOver s.heap n c) := by rw [detach_full full,loop,Option.map_some]
  rw [taken] at walked ran
  refine ⟨c,part.subset (List.mem_cons_of_mem _ (List.mem_append_right _ below)),fun same => outside (by rw [← same]; exact below),
    leftmostLoop_end loop,ran,?_⟩
  by_cases here : n = s.rootNode
  · have whole := distinct.rep
    rw [← here] at whole ⊢
    cases whole.unique rep
    exact ⟨_,takeOver_trimmed distinct.order.toTotalPreorder rep distinct.distinct found hangs⟩
  · exact distinct.trims member here walked

theorem Distinct.delete_slim (distinct : Distinct compare s t) (member : n ∈ labels t) (slim : ¬ (s.heap n).Full) (other : n ≠ s.rootNode) :
    ∃ p ∈ labels t, ∃ side, (s.heap p).child side = n ∧
      binaryTreeDelete compare s (valueOf s.heap n) = some {s with heap := setChild s.heap p side (s.heap n).onlyChild} ∧
      ∃ t', Trimmed compare s.heap (setChild s.heap p side (s.heap n).onlyChild) t t' ∧
        Rep (setChild s.heap p side (s.heap n).onlyChild) t' s.rootNode := by
  obtain ⟨fuel,l,r,enough,rep,part,walked,ran⟩ := distinct.toStanding.delete (distinct.search member)
  obtain ⟨p,above,side,rfl⟩ := distinct.toStanding.hanger member other
  obtain ⟨parent,isLeft,isRight⟩ := distinct.linked.hung above side rep.2.1
  have real : p ≠ 0 := distinct.rep.present p above
  have taken : detach fuel s.heap ((s.heap p).child side) = some (setChild s.heap p side (s.heap ((s.heap p).child side)).onlyChild) := by
    rw [detach_slim slim,relink_eq,parent,isLeft,isRight,if_neg real,if_pos (by cases side <;> simp)]
  rw [taken] at walked ran
  exact ⟨p,above,side,rfl,ran,distinct.trims member other walked⟩

-- A root with at most one child is not unlinked; its stale flags decide what is written.
theorem Distinct.delete_root (distinct : Distinct compare s t) (member : s.rootNode ∈ labels t) (slim : ¬ (s.heap s.rootNode).Full) :
    binaryTreeDelete compare s (valueOf s.heap s.rootNode) =
      (relink s.heap s.rootNode (s.heap s.rootNode).onlyChild).map fun heap => {s with heap := heap} := by
  obtain ⟨fuel,l,r,enough,rep,part,walked,ran⟩ := distinct.toStanding.delete (distinct.search member)
  rw [ran,detach_slim slim]

theorem Standing.trim (standing : Standing s t) (trimmed : Trimmed compare s.heap next t t') (rep : Rep next t' s.rootNode) :
    Standing {s with heap := next} t' :=
  ⟨rep,trimmed.part.nodup standing.distinct,fun x member => standing.known x (trimmed.part.subset member),standing.nonzero⟩

theorem Distinct.gone (distinct : Distinct compare s t) (trimmed : Trimmed compare s.heap next t t') (rep : Rep next t' s.rootNode)
    (none_ : ∀ x, Reaches next s.rootNode x → valueOf next x ≠ v) : binaryTreeFind compare {s with heap := next} v = some 0 := by
  rw [(distinct.toStanding.trim trimmed rep).find v]
  cases found : OrderedTree.search compare (valueOf next) v t' with
  | none => rfl
  | some x =>
    obtain ⟨member,equal⟩ := search_sound found
    exact absurd (distinct.order.equal _ _ equal) (none_ x (rep.reaches_iff.mpr member))

theorem Distinct.found (distinct : Distinct compare s t) (trimmed : Trimmed compare s.heap next t t') (rep : Rep next t' s.rootNode)
    (path : Reaches next s.rootNode z) :
    ∃ node, node ≠ 0 ∧ binaryTreeFind compare {s with heap := next} (valueOf next z) = some node ∧ valueOf next node = valueOf next z := by
  have preorder := distinct.order.toTotalPreorder
  obtain ⟨node,found⟩ := (trimmed.ordered distinct.ordered).search preorder (rep.reached path) (preorder.refl _)
  obtain ⟨member,equal⟩ := search_sound found
  refine ⟨node,rep.present node member,?_,distinct.order.equal _ _ equal⟩
  rw [(distinct.toStanding.trim trimmed rep).find]
  exact congrArg (fun r => some (Option.getD r 0)) found

theorem find_root (present : s.rootNode ≠ 0) (equal : compare (s.heap s.rootNode).value v = 0) :
    binaryTreeFind compare s v = some s.rootNode := by
  rw [binaryTreeFind,show s.depthBound = s.inserted.length+1+1 from rfl,binaryTreeNodeFind,if_neg present,if_pos equal]

theorem takeOver_value (heap : Heap α) (n c : Nat) : valueOf (takeOver heap n c) n = valueOf heap c := by
  rw [valueOf,takeOver,Function.update_self]
  rfl

theorem takeOver_value_other (other : x ≠ n) : valueOf (takeOver heap n c) x = valueOf heap x := by
  rw [valueOf,takeOver_other other]
  rfl

theorem relink_value (ran : relink heap n c = some next) (x : Nat) : valueOf next x = valueOf heap x := by
  rw [relink_eq] at ran
  split at ran
  · split at ran
    · cases ran
    · cases Option.some.inj ran
      exact setChild_value heap _ _ _ x
  · cases Option.some.inj ran
    rfl

theorem deleted_value_gone_iff (order : TotalOrder compare)
    (path : Reached Empty (serve compare) (fun s call => call.Inserts ∧ call.Fresh s ∧ call.NewValue s) s)
    (member : v ∈ s.inserted.map Prod.snd) :
    (∃ next, binaryTreeDelete compare s v = some next ∧ binaryTreeFind compare next v = some 0) ↔
      ((s.heap s.rootNode).value = v → (s.heap s.rootNode).left ≠ 0 ∧ (s.heap s.rootNode).right ≠ 0) := by
  obtain ⟨t,distinct⟩ := distinct_inserts_build order path
  obtain ⟨n,inside,rfl⟩ := distinct.holder member
  have present : s.rootNode ≠ 0 := by
    intro none_
    have rep := distinct.rep
    rw [none_] at rep
    cases t with
    | nil => cases inside
    | node q l r => exact rep.2.1 rep.1.symm
  have top : s.rootNode ∈ labels t := distinct.rep.top present
  by_cases full : (s.heap n).Full
  · obtain ⟨c,below,apart,_,ran,t',trimmed,rep⟩ := distinct.delete_full inside full
    refine iff_of_true ⟨_,ran,distinct.gone trimmed rep ?_⟩ ?_
    · intro x reached same
      have old : x ∈ labels t := trimmed.part.subset (rep.reached reached)
      by_cases here : x = n
      · rw [here,takeOver_value] at same
        exact apart (distinct.same below inside same)
      · rw [takeOver_value_other here] at same
        exact here (distinct.same old inside same)
    · intro same
      rw [distinct.same top inside same]
      exact full
  · by_cases here : n = s.rootNode
    · rw [here] at full ⊢
      refine iff_of_false ?_ (fun settled => full (settled rfl))
      rintro ⟨next,ran,found⟩
      rw [distinct.delete_root top full] at ran
      obtain ⟨heap,taken,rfl⟩ := Option.map_eq_some_iff.mp ran
      have again : binaryTreeFind compare {s with heap := heap} (valueOf s.heap s.rootNode) = some s.rootNode := by
        refine find_root present ?_
        rw [← relink_value taken s.rootNode]
        exact order.toTotalPreorder.refl _
      rw [again] at found
      exact present (Option.some.inj found)
    · obtain ⟨p,above,side,hangs,ran,t',trimmed,rep⟩ := distinct.delete_slim inside full here
      obtain ⟨apart,only⟩ := distinct.toStanding.only inside
      refine iff_of_true ⟨_,ran,distinct.gone trimmed rep ?_⟩ (fun same => absurd (distinct.same top inside same).symm here)
      intro x reached same
      have real : (s.heap p).child side ≠ 0 := by
        rw [hangs]
        exact distinct.rep.present n inside
      obtain ⟨old,other⟩ := (setChild_redirected s.heap p side (s.heap n).onlyChild).lost distinct.toTidy above real
        (by rw [hangs]; exact apart) only reached
      rw [hangs] at other
      exact other (distinct.same old inside ((setChild_value s.heap p side _ x).symm.trans same))

theorem difference_order : TotalOrder difference :=
  ⟨difference_preorder,fun a b same => by unfold difference at same; omega⟩

theorem leaf_deleted : ∃ s, follow (serve difference) emptyStore [.insert 1 (plainNode 5),.insert 2 (plainNode 3)] = some s ∧
    ∃ next, binaryTreeDelete difference s 3 = some next ∧ binaryTreeFind difference next 3 = some 0 := by
  have fresh : Reached Empty (serve difference) (fun s call => call.Inserts ∧ call.Fresh s ∧ call.NewValue s) emptyStore := .start ⟨rfl,rfl⟩
  have first := fresh.extend (.insert 1 (plainNode 5)) ⟨trivial,by decide,by decide⟩ rfl
  have second := first.extend (.insert 2 (plainNode 3)) ⟨trivial,by decide,by decide⟩ rfl
  exact ⟨_,rfl,(deleted_value_gone_iff difference_order second (by decide)).mpr (fun same => absurd same (by decide))⟩

-- The only node of a tree stays in it.
theorem root_not_deleted : ∃ s : Store Int,
    Reached Empty (serve difference) (fun s call => call.Inserts ∧ call.Fresh s ∧ call.NewValue s ∧ call.PlainRoot s) s ∧
    5 ∈ s.inserted.map Prod.snd ∧ ∃ next, binaryTreeDelete difference s 5 = some next ∧ binaryTreeFind difference next 5 = some 1 := by
  have fresh : Reached Empty (serve difference) (fun s call => call.Inserts ∧ call.Fresh s ∧ call.NewValue s ∧ call.PlainRoot s) emptyStore :=
    .start ⟨rfl,rfl⟩
  have first := fresh.extend (.insert 1 (plainNode 5))
    ⟨trivial,by decide,by decide,fun _ => ⟨rfl,rfl⟩⟩ rfl
  exact ⟨_,first,by decide,_,rfl,rfl⟩

-- After the delete every other value is still found.
def DeletesOnly (compare : α → α → Int) (s : Store α) (v : α) : Prop :=
  ∃ next, binaryTreeDelete compare s v = some next ∧
    ∀ w ∈ s.inserted.map Prod.snd, w ≠ v → ∃ node, node ≠ 0 ∧ binaryTreeFind compare next w = some node ∧ (next.heap node).value = w

-- The right child of a node with two children must itself be the leftmost node
-- on that side. A root with at most one child is left alone unless it came with
-- flags set: then its parent pointer is followed, to a node of the tree perhaps.
def Keeps (s : Store α) (n : Nat) : Prop :=
  ((s.heap n).Full → (s.heap (s.heap n).right).left = 0) ∧
  (¬ (s.heap n).Full → n = s.rootNode → (s.heap n).isLeft = true ∨ (s.heap n).isRight = true → (s.heap n).parent ≠ 0 ∧
    ((s.heap n).parent ∈ s.nodes → (s.heap (s.heap n).parent).child (s.heap n).isLeft = 0 ∨
      (s.heap (s.heap n).parent).child (s.heap n).isLeft = (s.heap n).onlyChild))

theorem LeftEnd.last (ends : LeftEnd heap p c) : (heap c).left = 0 := by
  induction ends with
  | here none_ => exact none_
  | down _ _ ih => exact ih

theorem Distinct.missed (distinct : Distinct compare s t) (none_ : ∀ x, Reaches next s.rootNode x → valueOf next x ≠ w)
    (found : ∃ node, node ≠ 0 ∧ binaryTreeFind compare {s with heap := next} w = some node ∧ (next node).value = w) : False := by
  obtain ⟨node,present,walked,_⟩ := found
  obtain ⟨reached,equal⟩ := nodeFind_reaches walked present .root
  exact none_ node reached (distinct.order.equal _ _ equal)

theorem Distinct.full_keeps (distinct : Distinct compare s t) (member : n ∈ labels t) (full : (s.heap n).Full) :
    DeletesOnly compare s (valueOf s.heap n) ↔ (s.heap (s.heap n).right).left = 0 := by
  obtain ⟨c,below,apart,ends,ran,t',trimmed,rep⟩ := distinct.delete_full member full
  have redirected := takeOver_redirected s.heap n c
  have child : (s.heap n).right ∈ labels t := distinct.rep.child_mem member false full.2
  have other : (s.heap n).child false ≠ n := distinct.rep.child_apart distinct.distinct member full.2
  constructor
  · rintro ⟨next,done,kept⟩
    rw [ran] at done
    cases Option.some.inj done
    by_contra left
    have inner : c ≠ (s.heap n).right := fun same => left (by rw [← same]; exact ends.last)
    have elsewhere : (s.heap c).child false ≠ (s.heap n).child false := by
      intro same
      have some_ : (s.heap c).child false ≠ 0 := fun none_ => full.2 (same.symm.trans none_)
      exact apart (distinct.toTidy.place below member same some_).1
    refine distinct.missed ?_ (kept (valueOf s.heap (s.heap n).right) (List.mem_map_of_mem (distinct.entry child))
      (fun same => other (distinct.same child member same)))
    intro x reached same
    obtain ⟨old,away⟩ := redirected.lost distinct.toTidy member full.2 elsewhere (distinct.rep.child_mem below false) reached
    by_cases here : x = n
    · rw [here,takeOver_value] at same
      exact inner (distinct.same below child same)
    · rw [takeOver_value_other here] at same
      exact away (distinct.same old child same)
  · intro left
    cases ends.unique (.here left)
    have only : (s.heap (s.heap n).right).onlyChild = (s.heap (s.heap n).right).right := if_pos left
    rw [← only] at redirected
    refine ⟨_,ran,?_⟩
    intro w inside different
    obtain ⟨x,old,rfl⟩ := distinct.holder inside
    have away : x ≠ n := fun same => different (by rw [same])
    by_cases moved : x = (s.heap n).right
    · have within : Reaches (takeOver s.heap n (s.heap n).right) s.rootNode n :=
        (distinct.rep.reaches_iff.mpr member).upto (fun y apart side => by rw [takeOver_other apart])
      have found := distinct.found trimmed rep within
      rw [takeOver_value] at found
      rw [moved]
      exact found
    · have within := redirected.bypass distinct.toTidy member full.2 (fun both => both.1 left) (distinct.rep.reaches_iff.mpr old) moved
      have found := distinct.found trimmed rep within
      rw [takeOver_value_other away] at found
      exact found

theorem Distinct.slim_keeps (distinct : Distinct compare s t) (member : n ∈ labels t) (slim : ¬ (s.heap n).Full) (other : n ≠ s.rootNode) :
    DeletesOnly compare s (valueOf s.heap n) := by
  obtain ⟨p,above,side,rfl,ran,t',trimmed,rep⟩ := distinct.delete_slim member slim other
  have redirected := setChild_redirected s.heap p side (s.heap ((s.heap p).child side)).onlyChild
  have some_ : (s.heap p).child side ≠ 0 := distinct.rep.present _ member
  refine ⟨_,ran,?_⟩
  intro w inside different
  obtain ⟨x,old,rfl⟩ := distinct.holder inside
  have away : x ≠ (s.heap p).child side := fun same => different (by rw [same])
  have within := redirected.bypass distinct.toTidy above some_ slim (distinct.rep.reaches_iff.mpr old) away
  have found := distinct.found trimmed rep within
  rw [show valueOf (setChild s.heap p side _) x = valueOf s.heap x from setChild_value s.heap p side _ x] at found
  exact found

theorem Distinct.undisturbed (distinct : Distinct compare s t) (values : ∀ x, valueOf next x = valueOf s.heap x)
    (same : ∀ x ∈ labels t, ∀ sd, (s.heap x).child sd ≠ 0 → (next x).child sd = (s.heap x).child sd) (inside : w ∈ s.inserted.map Prod.snd) :
    ∃ node, node ≠ 0 ∧ binaryTreeFind compare {s with heap := next} w = some node ∧ (next node).value = w := by
  have deep := distinct.toStanding.depth
  obtain ⟨x,old,rfl⟩ := distinct.holder inside
  refine ⟨x,distinct.rep.present x old,?_,values x⟩
  exact nodeFind_kept distinct.rep (show OrderedTree.depth t < s.inserted.length+2 by omega) (fun y _ => values y) same (distinct.search old)

theorem Distinct.root_keeps (distinct : Distinct compare s t) (member : s.rootNode ∈ labels t) (slim : ¬ (s.heap s.rootNode).Full) :
    DeletesOnly compare s (valueOf s.heap s.rootNode) ↔
      ((s.heap s.rootNode).isLeft = true ∨ (s.heap s.rootNode).isRight = true → (s.heap s.rootNode).parent ≠ 0 ∧
        ((s.heap s.rootNode).parent ∈ s.nodes → (s.heap (s.heap s.rootNode).parent).child (s.heap s.rootNode).isLeft = 0 ∨
          (s.heap (s.heap s.rootNode).parent).child (s.heap s.rootNode).isLeft = (s.heap s.rootNode).onlyChild)) := by
  have ran := distinct.delete_root member slim
  rw [relink_eq] at ran
  by_cases flags : (s.heap s.rootNode).isLeft = true ∨ (s.heap s.rootNode).isRight = true
  · rw [if_pos flags] at ran
    by_cases parent : (s.heap s.rootNode).parent = 0
    · rw [if_pos parent] at ran
      refine iff_of_false ?_ (fun settled => (settled flags).1 parent)
      rintro ⟨next,done,_⟩
      rw [ran] at done
      cases done
    · rw [if_neg parent] at ran
      generalize above : (s.heap s.rootNode).parent = p at *
      generalize facing : (s.heap s.rootNode).isLeft = side at *
      have redirected := setChild_redirected s.heap p side (s.heap s.rootNode).onlyChild
      have value : ∀ x, valueOf (setChild s.heap p side (s.heap s.rootNode).onlyChild) x = valueOf s.heap x :=
        fun x => setChild_value s.heap p side _ x
      by_cases harmless : p ∈ s.nodes → (s.heap p).child side = 0 ∨ (s.heap p).child side = (s.heap s.rootNode).onlyChild
      · refine iff_of_true ⟨_,ran,fun w inside _ => distinct.undisturbed value ?_ inside⟩ (fun _ => ⟨parent,harmless⟩)
        intro x old sd some_
        by_cases here : x = p ∧ sd = side
        · obtain ⟨rfl,rfl⟩ := here
          rw [redirected.1]
          exact ((harmless (distinct.known x old)).resolve_left some_).symm
        · exact redirected.2 x sd here
      · refine iff_of_false ?_ (fun settled => harmless (settled flags).2)
        rintro ⟨next,done,kept⟩
        rw [ran] at done
        cases Option.some.inj done
        obtain ⟨known,both⟩ := Classical.not_imp.mp harmless
        obtain ⟨some_,moved⟩ := not_or.mp both
        have inside : p ∈ labels t := distinct.whole p known
        have child : (s.heap p).child side ∈ labels t := distinct.rep.child_mem inside side some_
        have below : (s.heap p).child side ≠ s.rootNode := distinct.rep.below_top distinct.distinct inside some_
        refine distinct.missed ?_ (kept (valueOf s.heap ((s.heap p).child side)) (List.mem_map_of_mem (distinct.entry child))
          (fun same => below (distinct.same child member same)))
        intro x reached same
        obtain ⟨old,away⟩ := redirected.lost distinct.toTidy inside some_ (fun same => moved same.symm)
          (distinct.toStanding.only member).2 reached
        exact away (distinct.same old child ((value x).symm.trans same))
  · rw [if_neg flags] at ran
    exact iff_of_true ⟨_,ran,fun w inside _ => distinct.undisturbed (fun _ => rfl) (fun _ _ _ _ => rfl) inside⟩
      (fun set => absurd set flags)

theorem delete_keeps_others_iff (order : TotalOrder compare)
    (path : Reached Empty (serve compare) (fun s call => call.Inserts ∧ call.Fresh s ∧ call.NewValue s) s)
    (member : v ∈ s.inserted.map Prod.snd) : DeletesOnly compare s v ↔ ∀ n ∈ s.nodes, (s.heap n).value = v → Keeps s n := by
  obtain ⟨t,distinct⟩ := distinct_inserts_build order path
  obtain ⟨n,inside,rfl⟩ := distinct.holder member
  have here : (∀ m ∈ s.nodes, (s.heap m).value = valueOf s.heap n → Keeps s m) ↔ Keeps s n := by
    refine ⟨fun all => all n (distinct.known n inside) rfl,fun keeps m known same => ?_⟩
    rw [distinct.same (distinct.whole m known) inside same]
    exact keeps
  rw [here]
  by_cases full : (s.heap n).Full
  · rw [distinct.full_keeps inside full]
    exact ⟨fun left => ⟨fun _ => left,fun slim => absurd full slim⟩,fun keeps => keeps.1 full⟩
  · by_cases top : n = s.rootNode
    · subst top
      rw [distinct.root_keeps inside full]
      exact ⟨fun settled => ⟨fun both => absurd both full,fun _ _ => settled⟩,fun keeps => keeps.2 full rfl⟩
    · exact iff_of_true (distinct.slim_keeps inside full top)
        ⟨fun both => absurd both full,fun _ same => absurd same top⟩

theorem full_root_deleted_alone : ∃ s, follow (serve difference) emptyStore
      [.insert 1 (plainNode 5),.insert 2 (plainNode 3),.insert 3 (plainNode 8)] = some s ∧ DeletesOnly difference s 5 := by
  have fresh : Reached Empty (serve difference) (fun s call => call.Inserts ∧ call.Fresh s ∧ call.NewValue s) emptyStore := .start ⟨rfl,rfl⟩
  have first := fresh.extend (.insert 1 (plainNode 5)) ⟨trivial,by decide,by decide⟩ rfl
  have second := first.extend (.insert 2 (plainNode 3)) ⟨trivial,by decide,by decide⟩ rfl
  have third := second.extend (.insert 3 (plainNode 8)) ⟨trivial,by decide,by decide⟩ rfl
  refine ⟨_,rfl,(delete_keeps_others_iff difference_order third (by decide)).mpr ?_⟩
  intro n known same
  rcases (by simpa [Store.nodes,emptyStore] using known : n = 3 ∨ n = 2 ∨ n = 1) with rfl | rfl | rfl
  · exact absurd same (by decide)
  · exact absurd same (by decide)
  · exact ⟨fun _ => rfl,fun slim => absurd ⟨by decide,by decide⟩ slim⟩

-- The value of the right child goes with the node it was taken over from.
theorem right_child_lost : ∃ s : Store Int,
    Reached Empty (serve difference) (fun s call => call.Inserts ∧ call.Fresh s ∧ call.NewValue s ∧ call.PlainRoot s) s ∧
    5 ∈ s.inserted.map Prod.snd ∧ 2 ∈ s.inserted.map Prod.snd ∧
    ∃ next, binaryTreeDelete difference s 5 = some next ∧ binaryTreeFind difference next 2 = some 0 := by
  have fresh : Reached Empty (serve difference) (fun s call => call.Inserts ∧ call.Fresh s ∧ call.NewValue s ∧ call.PlainRoot s) emptyStore :=
    .start ⟨rfl,rfl⟩
  have first := fresh.extend (.insert 1 (plainNode 5))
    ⟨trivial,by decide,by decide,fun _ => ⟨rfl,rfl⟩⟩ rfl
  have second := first.extend (.insert 2 (plainNode 8))
    ⟨trivial,by decide,by decide,fun _ => ⟨rfl,rfl⟩⟩ rfl
  have third := second.extend (.insert 3 (plainNode 2))
    ⟨trivial,by decide,by decide,fun _ => ⟨rfl,rfl⟩⟩ rfl
  have last := third.extend (.insert 4 (plainNode 3))
    ⟨trivial,by decide,by decide,fun _ => ⟨rfl,rfl⟩⟩ rfl
  exact ⟨_,last,by decide,by decide,_,rfl,rfl⟩

end KaracaOS.SearchTree
