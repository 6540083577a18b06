import KaracaOS.ByteMemory

namespace Numerals
open ByteMemory

def stretch (bytes : Bytes) (first count : Nat) : List Byte := (List.range count).map fun i => bytes (first+i)

-- Bytes stored one below the other, the first right under `top`.
def downward (bytes : Bytes) (top : Nat) : List Byte → Bytes
  | [] => bytes
  | b::rest => downward (store bytes (top-1) b) (top-1) rest

-- The digits of a number, lowest first, and its text; those of 0 are one zero.
def lowFirst (radix n : Nat) : List Nat := if n = 0 then [0] else Nat.digits radix n

-- A fixed number of digits, lowest first.
def lowDigits (radix : Nat) : Nat → Nat → List Nat
  | 0,_ => []
  | count+1,n => n % radix::lowDigits radix count (n/radix)

def numeral (show_ : Nat → Byte) (radix n : Nat) : List Byte := ((lowFirst radix n).map show_).reverse

variable {bytes left right : Bytes} {first top radix n : Nat} {text : List Byte} {show_ : Nat → Byte}

theorem stretch_length (bytes : Bytes) (first count : Nat) : (stretch bytes first count).length = count := by simp [stretch]

theorem stretch_congr (agree : Agree left right first count) : stretch left first count = stretch right first count := by
  refine List.map_congr_left ?_
  intro i member
  exact agree (first+i) (Nat.le_add_right _ _) (Nat.add_lt_add_left (List.mem_range.mp member) _)

theorem stretch_append (bytes : Bytes) (first count more : Nat) :
    stretch bytes first (count+more) = stretch bytes first count++stretch bytes (first+count) more := by
  simp [stretch,List.range_add,Function.comp_def,Nat.add_assoc]

theorem stretch_cons (bytes : Bytes) (first count : Nat) :
    stretch bytes first (count+1) = bytes first::stretch bytes (first+1) count := by
  rw [Nat.add_comm,stretch_append]
  simp [stretch]

theorem stretch_replicate (same : ∀ i, first ≤ i → i < first+count → bytes i = value) :
    stretch bytes first count = List.replicate count value := by
  induction count generalizing first with
  | zero => rfl
  | succ count ih =>
    rw [stretch_cons,same first (Nat.le_refl _) (by omega),ih (fun i low high => same i (by omega) (by omega)),List.replicate_succ]

theorem downward_outside (text : List Byte) (bytes : Bytes) (fits : text.length ≤ top) (out : i < top-text.length ∨ top ≤ i) :
    downward bytes top text i = bytes i := by
  induction text generalizing bytes top with
  | nil => rfl
  | cons b rest ih =>
    have long : rest.length+1 ≤ top := fits
    rw [List.length_cons] at out
    rw [downward,ih _ (by omega) (by omega)]
    exact store_other _ (by omega)

theorem stretch_downward (text : List Byte) (bytes : Bytes) (fits : text.length ≤ top) :
    stretch (downward bytes top text) (top-text.length) text.length = text.reverse := by
  induction text generalizing bytes top with
  | nil => rfl
  | cons b rest ih =>
    have long : rest.length+1 ≤ top := fits
    have place : top-(rest.length+1) = top-1-rest.length := by omega
    have last : top-1-rest.length+rest.length = top-1 := by omega
    rw [List.length_cons,List.reverse_cons,downward,stretch_append,place,ih _ (by omega),last]
    congr 1
    rw [stretch_cons,downward_outside rest _ (by omega) (Or.inr (Nat.le_refl _)),store_same]
    rfl

theorem stretch_numeral (show_ : Nat → Byte) (bytes : Bytes) (base radix n : Nat) :
    stretch (downward bytes (base+(lowFirst radix n).length) ((lowFirst radix n).map show_)) base (lowFirst radix n).length =
      numeral show_ radix n := by
  have written := @stretch_downward (base+(lowFirst radix n).length) ((lowFirst radix n).map show_) bytes (by simp)
  rw [List.length_map,Nat.add_sub_cancel] at written
  exact written

theorem numeral_below (show_ : Nat → Byte) (bytes : Bytes) (radix n : Nat) (below : i < base) :
    downward bytes (base+(lowFirst radix n).length) ((lowFirst radix n).map show_) i = bytes i := by
  refine downward_outside _ bytes (by simp) (.inl ?_)
  rw [List.length_map,Nat.add_sub_cancel]
  exact below

theorem digits_step (many : 1 < radix) (positive : n ≠ 0) : Nat.digits radix n = n % radix::Nat.digits radix (n/radix) :=
  Nat.digits_def' many (Nat.pos_of_ne_zero positive)

theorem lowFirst_length (many : 1 < radix) (positive : 0 < count) (small : n < radix^count) : (lowFirst radix n).length ≤ count := by
  unfold lowFirst
  split
  · exact positive
  · exact (Nat.digits_length_le_iff many n).mpr small

theorem lowFirst_small (many : 1 < radix) (member : d ∈ lowFirst radix n) : d < radix := by
  unfold lowFirst at member
  split at member
  · rw [List.mem_singleton.mp member]
    omega
  · exact Nat.digits_lt_base many member

theorem ofDigits_lowFirst (radix n : Nat) : Nat.ofDigits radix (lowFirst radix n) = n := by
  unfold lowFirst
  split
  · rename_i zero
    rw [zero]
    simp
  · exact Nat.ofDigits_digits radix n

theorem lowFirst_some (radix n : Nat) : lowFirst radix n ≠ [] := by
  unfold lowFirst
  split
  · exact List.cons_ne_nil _ _
  · rename_i positive
    exact fun empty => positive (Nat.digits_eq_nil_iff_eq_zero.mp empty)

theorem lowFirst_highest (radix : Nat) (positive : n ≠ 0) : ∃ d digits, (lowFirst radix n).reverse = d::digits ∧ d ≠ 0 := by
  have form : lowFirst radix n = Nat.digits radix n := if_neg positive
  have solid : Nat.digits radix n ≠ [] := by
    rw [← form]
    exact lowFirst_some radix n
  rw [form]
  cases shape : (Nat.digits radix n).reverse with
  | nil => exact absurd (List.reverse_eq_nil_iff.mp shape) solid
  | cons d digits =>
    refine ⟨d,digits,rfl,?_⟩
    have last : (Nat.digits radix n).getLast solid = d := by
      rw [← List.head_reverse (by rw [shape]; exact List.cons_ne_nil _ _)]
      simp [shape]
    rw [← last]
    exact Nat.getLast_digit_ne_zero radix positive

theorem numeral_length (show_ : Nat → Byte) (radix n : Nat) : (numeral show_ radix n).length = (lowFirst radix n).length := by
  simp [numeral]

theorem numeral_congr {other : Nat → Byte} (many : 1 < radix) (same : ∀ d < radix, show_ d = other d) :
    numeral show_ radix n = numeral other radix n := by
  unfold numeral
  rw [List.map_congr_left fun d member => same d (lowFirst_small many member)]

theorem numeral_injective (many : 1 < radix) (value : Byte → Nat) (read : ∀ d < radix, value (show_ d) = d)
    (same : numeral show_ radix n = numeral show_ radix m) : n = m := by
  have back : ∀ k, (lowFirst radix k).map (value ∘ show_) = lowFirst radix k := fun k =>
    (List.map_congr_left fun d member => read d (lowFirst_small many member)).trans (List.map_id _)
  have mapped : (lowFirst radix n).map show_ = (lowFirst radix m).map show_ := List.reverse_injective same
  have equal : lowFirst radix n = lowFirst radix m := by
    rw [← back n,← back m,← List.map_map,← List.map_map,mapped]
  rw [← ofDigits_lowFirst radix n,equal,ofDigits_lowFirst]

@[simp] theorem lowDigits_length (radix count n : Nat) : (lowDigits radix count n).length = count := by
  induction count generalizing n with
  | zero => rfl
  | succ count ih => rw [lowDigits,List.length_cons,ih]

theorem lowDigits_zero (radix count : Nat) : lowDigits radix count 0 = List.replicate count 0 := by
  induction count with
  | zero => rfl
  | succ count ih => rw [lowDigits,Nat.zero_mod,Nat.zero_div,ih,List.replicate_succ]

theorem lowDigits_digits (many : 1 < radix) (room : (Nat.digits radix n).length ≤ count) :
    lowDigits radix count n = Nat.digits radix n++List.replicate (count-(Nat.digits radix n).length) 0 := by
  induction count generalizing n with
  | zero =>
    rw [List.length_eq_zero_iff.mp (Nat.le_zero.mp room)]
    rfl
  | succ count ih =>
    by_cases zero : n = 0
    · subst zero
      rw [lowDigits_zero,Nat.digits_zero]
      rfl
    · rw [digits_step many zero,List.length_cons] at room ⊢
      rw [lowDigits,ih (by omega),List.cons_append,Nat.add_sub_add_right]

theorem lowDigits_lowFirst (many : 1 < radix) (n : Nat) : lowDigits radix (lowFirst radix n).length n = lowFirst radix n := by
  by_cases zero : n = 0
  · subst zero
    rfl
  · rw [show lowFirst radix n = Nat.digits radix n from if_neg zero,lowDigits_digits many (Nat.le_refl _),Nat.sub_self,List.replicate_zero,
      List.append_nil]

theorem ofDigits_lowDigits (many : 1 < radix) (room : (Nat.digits radix n).length ≤ count) :
    Nat.ofDigits radix (lowDigits radix count n) = n := by
  rw [lowDigits_digits many room,Nat.ofDigits_append_replicate_zero,Nat.ofDigits_digits]

theorem lowDigits_small (positive : 0 < radix) (member : d ∈ lowDigits radix count n) : d < radix := by
  induction count generalizing n with
  | zero => cases member
  | succ count ih =>
    rcases List.mem_cons.mp member with rfl | later
    · exact Nat.mod_lt n positive
    · exact ih later

end Numerals
