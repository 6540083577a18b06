import Mathlib

-- A power-of-two range halved again and again. Every node carries a label; a
-- leaf is a block that has not been halved.
inductive DyadicTree (α : Type*) where
  | leaf (label : α)
  | fork (label : α) (left right : DyadicTree α)

namespace DyadicTree
variable {α : Type*}

def label : DyadicTree α → α
  | .leaf a => a
  | .fork a _ _ => a

def labels : DyadicTree α → List α
  | .leaf a => [a]
  | .fork a l r => a :: (labels l ++ labels r)

def Fits (least : Nat) : DyadicTree α → Nat → Prop
  | .leaf _,k => least ≤ k
  | .fork _ l r,k => least < k ∧ Fits least l (k-1) ∧ Fits least r (k-1)

structure Block (α : Type*) where
  label : α
  start : Nat
  level : Nat

def Block.Meets (b c : Block α) : Prop := ∃ x, (b.start ≤ x ∧ x < b.start+2^b.level) ∧ c.start ≤ x ∧ x < c.start+2^c.level

def leaves : DyadicTree α → Nat → Nat → List (Block α)
  | .leaf a,v,k => [⟨a,v,k⟩]
  | .fork _ l r,v,k => leaves l v (k-1) ++ leaves r (v+2^(k-1)) (k-1)

-- The second tree halves blocks of the first further, but none with a frozen label.
inductive Grows (frozen : α → Prop) : DyadicTree α → DyadicTree α → Prop where
  | same : Grows frozen t t
  | split : ¬ frozen a → t.label = a → Grows frozen (.leaf a) t
  | both : Grows frozen l l' → Grows frozen r r' → Grows frozen (.fork a l r) (.fork a l' r')

variable {t t' : DyadicTree α} {least k v : Nat} {frozen : α → Prop}

@[simp] theorem label_mem (t : DyadicTree α) : t.label ∈ t.labels := by cases t <;> simp [label,labels]

theorem half (positive : least < k) : 2^(k-1)+2^(k-1) = 2^k := by
  obtain ⟨n,rfl⟩ : ∃ n, k = n+1 := ⟨k-1,by omega⟩
  rw [Nat.add_sub_cancel,Nat.pow_succ]
  omega

theorem leaf_label (member : b ∈ leaves t v k) : b.label ∈ t.labels := by
  induction t generalizing v k with
  | leaf a =>
    cases List.mem_singleton.mp member
    simp [labels]
  | fork a l r ihl ihr =>
    rcases List.mem_append.mp member with left | right
    · simp [labels,ihl left]
    · simp [labels,ihr right]

theorem leaf_inside (fits : Fits least t k) (member : b ∈ leaves t v k) :
    v ≤ b.start ∧ b.start+2^b.level ≤ v+2^k ∧ least ≤ b.level ∧ b.level ≤ k ∧ ∃ m, b.start = v+m*2^b.level := by
  induction t generalizing v k with
  | leaf a =>
    cases List.mem_singleton.mp member
    exact ⟨Nat.le_refl _,Nat.le_refl _,fits,Nat.le_refl _,0,by simp⟩
  | fork a l r ihl ihr =>
    obtain ⟨positive,fitl,fitr⟩ := fits
    have whole := half positive
    have nonempty := Nat.two_pow_pos (k-1)
    rcases List.mem_append.mp member with left | right
    · obtain ⟨low,high,small,level,m,equal⟩ := ihl fitl left
      exact ⟨low,by omega,small,by omega,m,equal⟩
    · obtain ⟨low,high,small,level,m,equal⟩ := ihr fitr right
      refine ⟨by omega,by omega,small,by omega,m+2^(k-1-b.level),?_⟩
      have scaled : 2^(k-1-b.level)*2^b.level = 2^(k-1) := by
        rw [← Nat.pow_add]
        congr 1
        omega
      rw [equal,Nat.add_mul,scaled]
      omega

theorem leaves_disjoint (fits : Fits least t k) : (leaves t v k).Pairwise (fun b c => ¬ b.Meets c) := by
  induction t generalizing v k with
  | leaf a => exact List.pairwise_singleton _ _
  | fork a l r ihl ihr =>
    obtain ⟨positive,fitl,fitr⟩ := fits
    refine List.pairwise_append.mpr ⟨ihl fitl,ihr fitr,?_⟩
    rintro b left c right ⟨x,⟨_,below⟩,above,_⟩
    have lefts := leaf_inside fitl left
    have rights := leaf_inside fitr right
    omega

theorem leaves_apart (fits : Fits least t k) (one : b ∈ leaves t v k) (two : c ∈ leaves t v k) (differ : b ≠ c) : ¬ b.Meets c := by
  have symmetric : Std.Symm (fun b c : Block α => ¬ b.Meets c) := ⟨fun _ _ apart ⟨x,here,there⟩ => apart ⟨x,there,here⟩⟩
  exact (leaves_disjoint fits).forall one two differ

theorem leaves_ordered (fits : Fits least t k) : (leaves t v k).Pairwise (fun b c => b.start < c.start) := by
  induction t generalizing v k with
  | leaf a => exact List.pairwise_singleton _ _
  | fork a l r ihl ihr =>
    obtain ⟨positive,fitl,fitr⟩ := fits
    refine List.pairwise_append.mpr ⟨ihl fitl,ihr fitr,?_⟩
    intro b left c right
    have lefts := leaf_inside fitl left
    have rights := leaf_inside fitr right
    have nonempty := Nat.two_pow_pos b.level
    omega

theorem leaves_cover (fits : Fits least t k) (low : v ≤ x) (high : x < v+2^k) :
    ∃ b ∈ leaves t v k, b.start ≤ x ∧ x < b.start+2^b.level := by
  induction t generalizing v k with
  | leaf a => exact ⟨⟨a,v,k⟩,List.mem_singleton.mpr rfl,low,high⟩
  | fork a l r ihl ihr =>
    obtain ⟨positive,fitl,fitr⟩ := fits
    have whole := half positive
    by_cases left : x < v+2^(k-1)
    · obtain ⟨b,member,inside⟩ := ihl fitl low left
      exact ⟨b,List.mem_append.mpr (.inl member),inside⟩
    · obtain ⟨b,member,inside⟩ := ihr fitr (show v+2^(k-1) ≤ x by omega) (by omega)
      exact ⟨b,List.mem_append.mpr (.inr member),inside⟩

theorem leaves_sum (fits : Fits least t k) : ((leaves t v k).map (fun b => 2^b.level)).sum = 2^k := by
  induction t generalizing v k with
  | leaf a => simp [leaves]
  | fork a l r ihl ihr =>
    obtain ⟨positive,fitl,fitr⟩ := fits
    rw [leaves,List.map_append,List.sum_append,ihl fitl,ihr fitr,half positive]

theorem labels_length (t : DyadicTree α) (v k : Nat) : t.labels.length+1 = 2*(leaves t v k).length := by
  induction t generalizing v k with
  | leaf a => rfl
  | fork a l r ihl ihr =>
    have lower := ihl v (k-1)
    have upper := ihr (v+2^(k-1)) (k-1)
    rw [labels,leaves,List.length_cons,List.length_append,List.length_append]
    omega

def Inner (holds : α → Prop) : DyadicTree α → Prop
  | .leaf _ => True
  | .fork a l r => holds a ∧ Inner holds l ∧ Inner holds r

theorem inner_of_leaves {holds : α → Prop} (distinct : t.labels.Nodup)
    (marked : ∀ a ∈ t.labels, ¬ holds a → ∃ b ∈ leaves t v k, b.label = a) : Inner holds t := by
  induction t generalizing v k with
  | leaf a => trivial
  | fork a l r ihl ihr =>
    obtain ⟨top,rest⟩ := List.nodup_cons.mp distinct
    obtain ⟨left,right,apart⟩ := List.nodup_append.mp rest
    refine ⟨?_,ihl left (v := v) (k := k-1) ?_,ihr right (v := v+2^(k-1)) (k := k-1) ?_⟩
    · by_contra fails
      obtain ⟨b,member,same⟩ := marked a (by simp [labels]) fails
      rw [← same] at top
      rcases List.mem_append.mp member with inl | inr
      · exact top (List.mem_append.mpr (.inl (leaf_label inl)))
      · exact top (List.mem_append.mpr (.inr (leaf_label inr)))
    · intro x member fails
      obtain ⟨b,leaf,same⟩ := marked x (by simp [labels,member]) fails
      rcases List.mem_append.mp leaf with inl | inr
      · exact ⟨b,inl,same⟩
      · exact absurd same.symm (apart x member b.label (leaf_label inr))
    · intro x member fails
      obtain ⟨b,leaf,same⟩ := marked x (by simp [labels,member]) fails
      rcases List.mem_append.mp leaf with inl | inr
      · exact absurd same (apart b.label (leaf_label inl) x member)
      · exact ⟨b,inr,same⟩

theorem Grows.label (grows : Grows frozen t t') : t'.label = t.label := by
  cases grows with
  | same => rfl
  | split _ equal => exact equal
  | both _ _ => rfl

theorem Grows.labels_subset (grows : Grows frozen t t') : t.labels ⊆ t'.labels := by
  induction grows with
  | same => exact List.Subset.refl _
  | split _ equal =>
    intro a member
    cases List.mem_singleton.mp member
    rw [← equal]
    exact label_mem _
  | both _ _ ihl ihr =>
    intro a member
    rcases List.mem_cons.mp member with rfl | below
    · exact List.mem_cons_self
    · rcases List.mem_append.mp below with left | right
      · exact List.mem_cons_of_mem _ (List.mem_append.mpr (.inl (ihl left)))
      · exact List.mem_cons_of_mem _ (List.mem_append.mpr (.inr (ihr right)))

theorem Grows.frozen_leaf (grows : Grows frozen t t') (fixed : frozen b.label) (member : b ∈ leaves t v k) :
    b ∈ leaves t' v k := by
  induction grows generalizing v k with
  | same => exact member
  | split free _ =>
    cases List.mem_singleton.mp member
    exact absurd fixed free
  | both _ _ ihl ihr =>
    rcases List.mem_append.mp member with left | right
    · exact List.mem_append.mpr (.inl (ihl left))
    · exact List.mem_append.mpr (.inr (ihr right))

theorem Grows.weaken {fewer : α → Prop} (narrower : ∀ a ∈ t.labels, fewer a → frozen a) (grows : Grows frozen t t') :
    Grows fewer t t' := by
  induction grows with
  | same => exact .same
  | split free equal => exact .split (fun fixed => free (narrower _ (by simp [labels]) fixed)) equal
  | both _ _ ihl ihr =>
    exact .both (ihl (fun a member => narrower a (by simp [labels,member])))
      (ihr (fun a member => narrower a (by simp [labels,member])))

theorem Grows.trans {later : α → Prop} (carried : ∀ a ∈ t.labels, frozen a → later a) (one : Grows frozen t t')
    (two : Grows later t' t'') : Grows frozen t t'' := by
  induction one generalizing t'' with
  | same => exact two.weaken carried
  | split free equal => exact .split free (two.label.trans equal)
  | both left right ihl ihr =>
    cases two with
    | same => exact .both left right
    | both left' right' =>
      exact .both (ihl (fun a member => carried a (by simp [labels,member])) left')
        (ihr (fun a member => carried a (by simp [labels,member])) right')

end DyadicTree
