import KaracaOS.ByteMemory

namespace Bitmap
open ByteMemory

def bit (bytes : Bytes) (n : Nat) : Bool := (bytes (n/8)).getLsbD (n%8)
def setBit (bytes : Bytes) (n : Nat) : Bytes := store bytes (n/8) (bytes (n/8) ||| 1#8 <<< (n%8))
def clearBit (bytes : Bytes) (n : Nat) : Bytes := store bytes (n/8) (bytes (n/8) &&& ~~~(1#8 <<< (n%8)))

-- The usual search loop over the eight bits of one byte; 8 when all are set.
def firstClear (byte : Byte) : Nat := ((List.range 8).find? (fun i => !byte.getLsbD i)).getD 8

-- The usual search loop over bytes. Its end is none when `count` bytes are all full.
def scan (bytes : Bytes) : Nat → Nat → Option Nat
  | 0,_ => none
  | count+1,i => if bytes i = 0xFF#8 then scan bytes count (i+1) else some i

theorem mask_bit (n i : Nat) (bound : i < 8) : (1#8 <<< (n%8)).getLsbD i = decide (i = n%8) := by
  rw [BitVec.getLsbD_shiftLeft,BitVec.getLsbD_one]
  by_cases same : i = n%8
  · simp [same,show n%8 < 8 by omega]
  · by_cases less : i < n%8
    · simp [less,same]
    · simp [same,bound,less]
      omega

@[simp] theorem bit_setBit (bytes : Bytes) (n m : Nat) : bit (setBit bytes n) m = (decide (m = n) || bit bytes m) := by
  unfold bit setBit
  by_cases byte : m/8 = n/8
  · rw [byte,store_same,BitVec.getLsbD_or,mask_bit n (m%8) (by omega)]
    by_cases same : m = n
    · simp [same]
    · have differ : m%8 ≠ n%8 := by omega
      simp [same,differ]
  · have differ : m ≠ n := by
      intro equal
      exact byte (by rw [equal])
    rw [store_other _ byte]
    simp [differ]

@[simp] theorem bit_clearBit (bytes : Bytes) (n m : Nat) : bit (clearBit bytes n) m = (!decide (m = n) && bit bytes m) := by
  unfold bit clearBit
  by_cases byte : m/8 = n/8
  · have inside : m%8 < 8 := Nat.mod_lt _ (by decide)
    rw [byte,store_same,BitVec.getLsbD_and,BitVec.getLsbD_not,mask_bit n (m%8) inside]
    by_cases same : m = n
    · simp [same]
    · have differ : m%8 ≠ n%8 := by omega
      simp [same,differ,inside]
  · have differ : m ≠ n := by
      intro equal
      exact byte (by rw [equal])
    rw [store_other _ byte]
    simp [differ]

theorem bytes_ext (same : ∀ n, bit bytes n = bit bytes' n) : bytes = bytes' := by
  funext i
  apply BitVec.eq_of_getLsbD_eq
  intro b small
  have here := same (8*i+b)
  rwa [bit,bit,show (8*i+b)/8 = i by omega,show (8*i+b)%8 = b by omega] at here

theorem clearBit_setBit (clear : bit bytes n = false) : clearBit (setBit bytes n) n = bytes := by
  refine bytes_ext (fun m => ?_)
  rw [bit_clearBit,bit_setBit]
  by_cases same : m = n
  · simp [same,clear]
  · simp [same]

theorem full_bit (i : Nat) (bound : i < 8) : (0xFF#8).getLsbD i = true := by
  have all : ∀ j : Fin 8, (0xFF#8).getLsbD j = true := by decide
  exact all ⟨i,bound⟩

theorem full_of_bits (bytes : ∀ i < 8, byte.getLsbD i = true) : byte = 0xFF#8 := by
  apply BitVec.eq_of_getLsbD_eq
  intro i bound
  rw [bytes i bound,full_bit i bound]

theorem firstClear_clear (free : firstClear byte < 8) : byte.getLsbD (firstClear byte) = false := by
  unfold firstClear at free ⊢
  cases found : (List.range 8).find? (fun i => !byte.getLsbD i) with
  | none => simp [found] at free
  | some i =>
    have clear := List.find?_some found
    simpa using clear

theorem firstClear_lt (notFull : byte ≠ 0xFF#8) : firstClear byte < 8 := by
  unfold firstClear
  cases found : (List.range 8).find? (fun i => !byte.getLsbD i) with
  | none =>
    have bits : ∀ i < 8, byte.getLsbD i = true := by
      intro i bound
      have set := List.find?_eq_none.mp found i (List.mem_range.mpr bound)
      simpa using set
    exact absurd (full_of_bits bits) notFull
  | some i => exact List.mem_range.mp (List.mem_of_find?_eq_some found)

theorem firstClear_least (before : i < firstClear byte) : byte.getLsbD i = true := by
  unfold firstClear at before
  cases found : (List.range 8).find? (fun i => !byte.getLsbD i) with
  | none =>
    have bound : i < 8 := by simpa [found] using before
    have set := List.find?_eq_none.mp found i (List.mem_range.mpr bound)
    simpa using set
  | some j =>
    have less : i < j := by simpa [found] using before
    obtain ⟨_,front,back,parts,prior⟩ := List.find?_eq_some_iff_append.mp found
    have bound := List.mem_range.mp (List.mem_of_find?_eq_some found)
    have member : i ∈ front := by
      have inRange : i ∈ List.range 8 := List.mem_range.mpr (by omega)
      have sorted : (front ++ j::back).Pairwise (· < ·) := by
        rw [← parts]
        exact List.pairwise_lt_range
      rw [parts] at inRange
      rcases List.mem_append.mp inRange with here | there
      · exact here
      · rcases List.mem_cons.mp there with same | later
        · omega
        · have ordered := (List.pairwise_cons.mp (List.pairwise_append.mp sorted).2.1).1 i later
          omega
    simpa using prior i member

theorem scan_found (found : scan bytes count i = some j) :
    i ≤ j ∧ j < i+count ∧ bytes j ≠ 0xFF#8 ∧ ∀ t, i ≤ t → t < j → bytes t = 0xFF#8 := by
  induction count generalizing i with
  | zero => simp [scan] at found
  | succ count ih =>
    unfold scan at found
    split at found
    · rename_i full
      obtain ⟨low,high,free,before⟩ := ih found
      refine ⟨by omega,by omega,free,?_⟩
      intro t least less
      by_cases first : t = i
      · rw [first]
        exact full
      · exact before t (by omega) less
    · rename_i free
      cases Option.some.inj found
      exact ⟨Nat.le_refl _,by omega,free,fun t least less => by omega⟩

theorem scan_exhausted (none : scan bytes count i = none) : ∀ t, i ≤ t → t < i+count → bytes t = 0xFF#8 := by
  induction count generalizing i with
  | zero => intro t low high; omega
  | succ count ih =>
    unfold scan at none
    split at none
    · rename_i full
      intro t low high
      by_cases first : t = i
      · rw [first]
        exact full
      · exact ih none t (by omega) (by omega)
    · cases none

def clearSet (bytes : Bytes) (width : Nat) : Finset Nat :=
  (Finset.range width).filter (fun n => bit bytes n = false)

@[simp] theorem mem_clearSet : n ∈ clearSet bytes width ↔ n < width ∧ bit bytes n = false := by
  simp [clearSet]

theorem clearSet_sdiff {taken : Finset Nat}
    (marked : ∀ n < width, bit after n = (decide (n ∈ taken) || bit before n)) :
    clearSet after width = clearSet before width \ taken := by
  ext n
  simp only [mem_clearSet,Finset.mem_sdiff]
  constructor
  · rintro ⟨bound,clear⟩
    rw [marked n bound,Bool.or_eq_false_iff,decide_eq_false_iff_not] at clear
    exact ⟨⟨bound,clear.2⟩,clear.1⟩
  · rintro ⟨⟨bound,clear⟩,free⟩
    refine ⟨bound,?_⟩
    rw [marked n bound,clear]
    simp [free]

theorem clearSet_card {taken : Finset Nat} (free : taken ⊆ clearSet before width)
    (marked : ∀ n < width, bit after n = (decide (n ∈ taken) || bit before n)) :
    (clearSet after width).card + taken.card = (clearSet before width).card := by
  rw [clearSet_sdiff marked,Finset.card_sdiff_of_subset free]
  have bound := Finset.card_le_card free
  omega

theorem clear_marked {before after : Bytes} (inside : index < width)
    (marked : ∀ n < width, bit after n = (decide (n = index) || bit before n)) :
    (clearSet after width).card+(if bit before index then 0 else 1) = (clearSet before width).card := by
  cases set : bit before index with
  | true =>
    rw [if_pos rfl,Nat.add_zero]
    congr 1
    refine Finset.filter_congr ?_
    intro n member
    rw [marked n (Finset.mem_range.mp member)]
    by_cases here : n = index
    · simp [here,set]
    · simp [here]
  | false =>
    have free : ({index} : Finset Nat) ⊆ clearSet before width := Finset.singleton_subset_iff.mpr (mem_clearSet.mpr ⟨inside,set⟩)
    have card := clearSet_card free (fun n below => by rw [marked n below]; simp only [Finset.mem_singleton])
    rw [Finset.card_singleton] at card
    exact card

end Bitmap
