import KaracaOS.Footprints
import KaracaOS.Printers

namespace KaracaOS.Conversions
open ByteMemory Numerals Footprints Printers

-- The places that so many steps of i-- reach below i, a uint32_t.
def Swept (i count j : Nat) : Prop := j < word ∧ (i+word-1-j) % word < count

theorem minus_small (i count : Nat) : minus i count < word := Nat.mod_lt _ (by decide)

theorem swept_more (small : i < word) (room : first+second ≤ word) :
    Swept i first j ∨ Swept (minus i first) second j ↔ Swept i (first+second) j := by
  unfold Swept minus word at *
  omega

theorem swept_none (i j : Nat) : ¬ Swept i 0 j := fun reached => Nat.not_lt_zero _ reached.2

theorem writes_below (small : i < word) (base : Nat) (value : Byte) :
    Writes (fun memory => store memory (base+minus i 1) value) (fun place => base ≤ place ∧ Swept i 1 (place-base)) := by
  refine (writes_store _ value).congr ?_
  intro place
  unfold Swept minus word at *
  omega

theorem writes_unless (flag : Bool) (small : i < word) (base : Nat) (value : Byte) :
    Writes (fun memory => if flag then store memory (base+minus i 1) value else memory)
      (fun place => base ≤ place ∧ Swept i flag.toNat (place-base)) := by
  cases flag with
  | true => exact writes_below small base value
  | false => exact Writes.nothing.congr fun place => ⟨False.elim,fun inside => swept_none _ _ inside.2⟩

theorem minus_minus (first second i : Nat) (room : first+second ≤ word) : minus (minus i first) second = minus i (first+second) := by
  unfold minus word at *
  omega

theorem minus_zero (small : i < word) : minus i 0 = i := by
  unfold minus word at *
  omega

theorem digitLoop_place (radix : Nat) (hexBaseChar : Byte) (base : Nat) (small : i < word) (room : count ≤ word) (argTemp : Int) (memory : Bytes) :
    (digitLoop radix hexBaseChar base count argTemp i memory).2 = minus i count := by
  induction count generalizing i argTemp memory with
  | zero => exact (minus_zero small).symm
  | succ count ih => rw [digitLoop,ih (minus_small _ _) (by omega),minus_minus _ _ _ (by omega),Nat.add_comm]

theorem digitLoop_writes (radix : Nat) (hexBaseChar : Byte) (base : Nat) (small : i < word) (room : count ≤ word) (argTemp : Int) :
    Writes (fun memory => (digitLoop radix hexBaseChar base count argTemp i memory).1)
      (fun place => base ≤ place ∧ Swept i count (place-base)) := by
  induction count generalizing i argTemp with
  | zero => exact Writes.nothing.congr fun place => ⟨False.elim,fun inside => swept_none _ _ inside.2⟩
  | succ count ih =>
    have later := ih (minus_small i 1) (Nat.le_of_succ_le room) (argTemp.tdiv radix)
    refine ((writes_below small base _).andThen later).congr ?_
    intro place
    rw [← and_or_left,swept_more small (by omega),Nat.add_comm]

def signShown (arg : Int) (flags : BitVec 32) : Bool := forcedSign flags || minusSign arg flags

theorem extraChars_split (arg : Int) (flags : BitVec 32) (radix : Nat) :
    extraChars arg flags radix = (signShown arg flags).toNat+2*(hexMark flags radix).toNat := by
  unfold extraChars signShown
  cases forcedSign flags <;> cases minusSign arg flags <;> cases hexMark flags radix <;> rfl

theorem putSign_unless (arg : Int) (flags : BitVec 32) (base i : Nat) (memory : Bytes) : putSign arg flags base i memory =
    if signShown arg flags then store memory (base+minus i 1) (if arg < 0 then ch '-' else ch '+') else memory := by
  unfold putSign signShown
  cases forced : forcedSign flags with
  | true => rfl
  | false =>
    cases shown : minusSign arg flags with
    | false => rfl
    | true =>
      have negative : arg < 0 := by
        unfold minusSign at shown
        simp at shown
        exact shown.2
      rw [if_pos negative]
      rfl

-- Where the digits end, and how many of the places below are taken.
def endOf (arg : Int) (flags : BitVec 32) (fieldWidth precision radix : Nat) : Nat :=
  if has flags flagLeftJustify then charCountOf arg flags precision radix
  else if charCountOf arg flags precision radix < fieldWidth then fieldWidth else charCountOf arg flags precision radix

def digitPlaces (arg : Int) (flags : BitVec 32) (precision radix : Nat) : Nat :=
  minus (charCountOf arg flags precision radix) (extraChars arg flags radix)

def taken (arg : Int) (flags : BitVec 32) (precision radix : Nat) : Nat :=
  digitPlaces arg flags precision radix+(hexMark flags radix).toNat+(signShown arg flags).toNat

theorem writes_pad (base width charCount : Nat) (value : Byte) :
    Writes (fun memory => if width ≠ 0 ∧ charCount < width then fill memory base (base+width) value else memory)
      (fun place => base ≤ place ∧ charCount < width ∧ place-base < width) := by
  by_cases wider : charCount < width
  · simp only [if_pos (show width ≠ 0 ∧ charCount < width by omega)]
    exact (writes_fill base (base+width) value).congr fun place => by omega
  · simp only [if_neg (fun both : width ≠ 0 ∧ charCount < width => wider both.2)]
    exact Writes.nothing.congr fun place => ⟨False.elim,fun inside => wider inside.2.1⟩

theorem convert_steps (arg : Int) (flags : BitVec 32) (fieldWidth precision radix base : Nat)
    (small : endOf arg flags fieldWidth precision radix < word) (room : taken arg flags precision radix ≤ word) :
    ∃ padChar hexBaseChar argTemp signChar, ∀ memory,
      (convertAnyIntToStr arg flags fieldWidth precision radix base memory).1 =
        (fun memory => if signShown arg flags then store memory (base+minus (minus (endOf arg flags fieldWidth precision radix)
          (digitPlaces arg flags precision radix+(hexMark flags radix).toNat)) 1) signChar else memory)
        ((fun memory => if hexMark flags radix then store memory (base+minus (minus (endOf arg flags fieldWidth precision radix)
          (digitPlaces arg flags precision radix)) 1) (hexBaseChar+23) else memory)
        ((fun memory => (digitLoop radix hexBaseChar base (digitPlaces arg flags precision radix) argTemp
          (endOf arg flags fieldWidth precision radix) memory).1)
        ((fun memory => if fieldWidth ≠ 0 ∧ charCountOf arg flags precision radix < fieldWidth
          then fill memory base (base+fieldWidth) padChar else memory) memory))) := by
  refine ⟨if has flags flagPadWithZeroes then ch '0' else 0x20,if has flags flagUppercaseHex then ch 'A' else ch 'a',
    if arg < 0 then negate arg else arg,if arg < 0 then ch '-' else ch '+',?_⟩
  intro memory
  have place := @digitLoop_place (endOf arg flags fieldWidth precision radix) (digitPlaces arg flags precision radix) radix
    (if has flags flagUppercaseHex then ch 'A' else ch 'a') base small (by unfold taken at room; omega) (if arg < 0 then negate arg else arg)
  unfold convertAnyIntToStr
  dsimp only [endOf,digitPlaces] at place ⊢
  rw [putSign_unless]
  cases marked : hexMark flags radix with
  | true =>
    simp only [if_true,place]
    rw [minus_minus _ _ _ (by unfold taken digitPlaces at room; rw [marked] at room; simp only [Bool.toNat_true] at room ⊢; omega)]
    rfl
  | false =>
    rw [if_neg Bool.false_ne_true,if_neg Bool.false_ne_true,place,Bool.toNat_false,Nat.add_zero]

theorem convert_writes (arg : Int) (flags : BitVec 32) (fieldWidth precision radix base : Nat)
    (small : endOf arg flags fieldWidth precision radix < word) (room : taken arg flags precision radix ≤ word) :
    Writes (fun memory => (convertAnyIntToStr arg flags fieldWidth precision radix base memory).1) (fun place => base ≤ place ∧
      ((charCountOf arg flags precision radix < fieldWidth ∧ place-base < fieldWidth) ∨
        Swept (endOf arg flags fieldWidth precision radix) (taken arg flags precision radix) (place-base))) := by
  obtain ⟨padChar,hexBaseChar,argTemp,signChar,steps⟩ := convert_steps arg flags fieldWidth precision radix base small room
  rw [funext steps]
  have parts : taken arg flags precision radix =
    digitPlaces arg flags precision radix+(hexMark flags radix).toNat+(signShown arg flags).toNat := rfl
  have digits := @digitLoop_writes _ (digitPlaces arg flags precision radix) radix hexBaseChar base small (by omega) argTemp
  have marked := writes_unless (hexMark flags radix)
    (minus_small (endOf arg flags fieldWidth precision radix) (digitPlaces arg flags precision radix)) base (hexBaseChar+23)
  have signed := writes_unless (signShown arg flags) (minus_small (endOf arg flags fieldWidth precision radix)
    (digitPlaces arg flags precision radix+(hexMark flags radix).toNat)) base signChar
  refine ((((writes_pad base fieldWidth (charCountOf arg flags precision radix) padChar).andThen digits).andThen marked).andThen signed).congr ?_
  intro place
  rw [parts,← swept_more small (by omega),← swept_more small (by omega)]
  simp only [and_or_left,or_assoc]

-- The precision that counts: 1 where none is given.
def atLeast (precision : Nat) : Nat := if precision = 0 then 1 else precision

theorem atLeast_cases (precision : Nat) : precision = 0 ∧ atLeast precision = 1 ∨ 0 < precision ∧ atLeast precision = precision := by
  unfold atLeast
  split <;> omega

theorem negate_abs (low : -9223372036854775808 ≤ arg) (high : arg < 9223372036854775808) : (negate arg).natAbs = arg.natAbs := by
  by_cases least : arg = -9223372036854775808
  · subst least
    decide
  · rw [negate,Int.bmod_eq_of_le]
    · omega
    · omega
    · omega

theorem abs_fits (many : 1 < radix) (low : -9223372036854775808 ≤ arg) (high : arg < 9223372036854775808) : arg.natAbs < radix^64 := by
  calc arg.natAbs < 2^64 := by omega
    _ ≤ radix^64 := Nat.pow_le_pow_left many 64

theorem countedChars_eq (many : 1 < radix) (low : -9223372036854775808 ≤ arg) (high : arg < 9223372036854775808) (flags : BitVec 32) :
    countedChars arg flags radix = extraChars arg flags radix+(Nat.digits radix arg.natAbs).length := by
  have absolute : (if forcedSign flags then arg else if minusSign arg flags then negate arg else arg).natAbs = arg.natAbs := by
    split
    · rfl
    · split
      · exact negate_abs low high
      · rfl
  rw [countedChars,countLoop_digits many (by rw [absolute]; exact abs_fits many low high),absolute]

theorem charCountOf_eq (many : 1 < radix) (low : -9223372036854775808 ≤ arg) (high : arg < 9223372036854775808) (flags : BitVec 32)
    (precision : Nat) : charCountOf arg flags precision radix =
      if radix = 8 ∧ atLeast precision < extraChars arg flags radix+(Nat.digits radix arg.natAbs).length
      then extraChars arg flags radix+(Nat.digits radix arg.natAbs).length+1
      else if extraChars arg flags radix+(Nat.digits radix arg.natAbs).length < atLeast precision
      then (atLeast precision+extraChars arg flags radix) % word
      else extraChars arg flags radix+(Nat.digits radix arg.natAbs).length := by
  rw [charCountOf,countedChars_eq many low high,← show atLeast precision = if precision = 0 then 1 else precision from rfl]
  split
  · rw [if_neg (by omega)]
  · rfl

theorem digits_few (many : 1 < radix) (low : -9223372036854775808 ≤ arg) (high : arg < 9223372036854775808) :
    (Nat.digits radix arg.natAbs).length ≤ 64 := (Nat.digits_length_le_iff many _).mpr (abs_fits many low high)

-- What kaos_vsprintf passes: %d and %i without the unsigned flag in radix 10,
-- %o, %u, %x, %X and %p with it in radix 8 or 16.
structure Passed (arg : Int) (flags : BitVec 32) (fieldWidth precision radix : Nat) : Prop where
  low : -9223372036854775808 ≤ arg
  high : arg < 9223372036854775808
  wide : fieldWidth < word
  precise : precision < word
  kind : (radix = 10 ∧ has flags flagUnsigned = false) ∨ ((radix = 8 ∨ radix = 16) ∧ has flags flagUnsigned = true)

theorem Passed.many (passed : Passed arg flags fieldWidth precision radix) : 1 < radix := by
  have kind := passed.kind
  omega

theorem Passed.alone (passed : Passed arg flags fieldWidth precision radix) (marked : hexMark flags radix = true) :
    radix = 16 ∧ signShown arg flags = false := by
  have hex : radix = 16 := by
    unfold hexMark at marked
    simp at marked
    exact marked.2
  have unsigned : has flags flagUnsigned = true := by
    rcases passed.kind with ⟨ten,_⟩ | ⟨_,unsigned⟩
    · omega
    · exact unsigned
  refine ⟨hex,?_⟩
  rw [signShown,forcedSign,minusSign,unsigned]
  rfl

-- The bytes that the returned count covers are the ones written.
def Reported (arg : Int) (flags : BitVec 32) (fieldWidth precision radix outBuffer : Nat) : Prop :=
  ∃ count, (∀ memory, (convertAnyIntToStr arg flags fieldWidth precision radix outBuffer memory).2 = count) ∧
    Writes (fun memory => (convertAnyIntToStr arg flags fieldWidth precision radix outBuffer memory).1)
      (fun place => outBuffer ≤ place ∧ place-outBuffer < count)

-- The digits of a marked number and its two more places.
def markedLength (arg : Int) (precision : Nat) : Nat :=
  if (Nat.digits 16 arg.natAbs).length+2 < atLeast precision then atLeast precision+2 else (Nat.digits 16 arg.natAbs).length+2

-- With a mark, a field that is wider than the number (or the one count that
-- wraps to 0); without, no sign beside the greatest precision.
def Covered (arg : Int) (flags : BitVec 32) (fieldWidth precision radix : Nat) : Prop :=
  if hexMark flags radix then
    (precision+2 < word ∧ markedLength arg precision < fieldWidth) ∨
      (precision+2 = word ∧ fieldWidth+1 = word ∧ has flags flagLeftJustify = false)
  else precision+1 = word → signShown arg flags = false

theorem returned (arg : Int) (flags : BitVec 32) (fieldWidth precision radix base : Nat) (memory : Bytes) :
    (convertAnyIntToStr arg flags fieldWidth precision radix base memory).2 = max fieldWidth (charCountOf arg flags precision radix) := by
  unfold convertAnyIntToStr
  dsimp only
  split <;> omega

theorem reported_iff_swept (arg : Int) (flags : BitVec 32) (fieldWidth precision radix base : Nat)
    (small : endOf arg flags fieldWidth precision radix < word) (room : taken arg flags precision radix ≤ word) :
    Reported arg flags fieldWidth precision radix base ↔
      ∀ j, (charCountOf arg flags precision radix < fieldWidth ∧ j < fieldWidth) ∨
        Swept (endOf arg flags fieldWidth precision radix) (taken arg flags precision radix) j ↔
          j < max fieldWidth (charCountOf arg flags precision radix) := by
  have known := convert_writes arg flags fieldWidth precision radix base small room
  constructor
  · rintro ⟨count,same,writes⟩ j
    have place := known.exact writes (base+j)
    rw [← same (fun _ => 0),returned,Nat.add_sub_cancel_left] at place
    simpa using place
  · intro same
    refine ⟨_,returned arg flags fieldWidth precision radix base,known.congr ?_⟩
    intro place
    rw [same]

theorem swept_range (fits : count ≤ i) (small : i < word) : Swept i count j ↔ i-count ≤ j ∧ j < i := by
  unfold Swept word at *
  omega

theorem swept_whole (i j : Nat) : Swept i word j ↔ j < word := and_iff_left (Nat.mod_lt _ (by decide))

theorem swept_butOne (small : i < word) : Swept i (word-1) j ↔ j < word ∧ j ≠ i := by
  unfold Swept word at *
  omega

theorem Passed.extra (passed : Passed arg flags fieldWidth precision radix) : extraChars arg flags radix ≤ 2 := by
  rw [extraChars_split]
  cases marked : hexMark flags radix with
  | true =>
    rw [(passed.alone marked).2]
    decide
  | false => cases signShown arg flags <;> decide

theorem Passed.charCount (passed : Passed arg flags fieldWidth precision radix) (fits : precision+extraChars arg flags radix < word) :
    extraChars arg flags radix ≤ charCountOf arg flags precision radix ∧ charCountOf arg flags precision radix < word := by
  have few := digits_few passed.many passed.low passed.high
  have extra := passed.extra
  have least := atLeast_cases precision
  rw [charCountOf_eq passed.many passed.low passed.high]
  unfold word at *
  split
  · omega
  · split
    · omega
    · omega

theorem Passed.charCount_wraps (passed : Passed arg flags fieldWidth precision radix) (tight : word ≤ precision+extraChars arg flags radix) :
    charCountOf arg flags precision radix = precision+extraChars arg flags radix-word := by
  have few := digits_few passed.many passed.low passed.high
  have extra := passed.extra
  have precise := passed.precise
  have least := atLeast_cases precision
  rw [charCountOf_eq passed.many passed.low passed.high]
  unfold word at *
  rw [if_neg (by omega),if_pos (by omega)]
  omega

theorem endOf_max (arg : Int) (flags : BitVec 32) (fieldWidth precision radix : Nat) :
    endOf arg flags fieldWidth precision radix =
      if has flags flagLeftJustify then charCountOf arg flags precision radix else max fieldWidth (charCountOf arg flags precision radix) := by
  unfold endOf
  split
  · rfl
  · split <;> omega

theorem endOf_small (wide : fieldWidth < word) (small : charCountOf arg flags precision radix < word) :
    endOf arg flags fieldWidth precision radix < word := by
  rw [endOf_max]
  split
  · exact small
  · exact max_lt wide small

theorem reported_fits (passed : Passed arg flags fieldWidth precision radix) (fits : precision+extraChars arg flags radix < word) (base : Nat) :
    Reported arg flags fieldWidth precision radix base ↔
      (hexMark flags radix = true → charCountOf arg flags precision radix < fieldWidth) := by
  obtain ⟨covers,small⟩ := passed.charCount fits
  have inside := endOf_small passed.wide small
  have above : charCountOf arg flags precision radix ≤ endOf arg flags fieldWidth precision radix ∧
      (charCountOf arg flags precision radix < fieldWidth → endOf arg flags fieldWidth precision radix ≤ fieldWidth) ∧
      (fieldWidth ≤ charCountOf arg flags precision radix →
        endOf arg flags fieldWidth precision radix = charCountOf arg flags precision radix) := by
    rw [endOf_max]
    split <;> omega
  have split_ := extraChars_split arg flags radix
  have places : taken arg flags precision radix = charCountOf arg flags precision radix-(hexMark flags radix).toNat := by
    rw [taken,digitPlaces,minus]
    cases marked : hexMark flags radix with
    | true =>
      rw [marked,(passed.alone marked).2] at split_
      rw [(passed.alone marked).2]
      simp only [Bool.toNat_true,Bool.toNat_false] at *
      unfold word at *
      omega
    | false =>
      rw [marked] at split_
      simp only [Bool.toNat_false] at *
      unfold word at *
      omega
  rw [reported_iff_swept _ _ _ _ _ _ inside (by omega),places]
  cases marked : hexMark flags radix with
  | true =>
    rw [marked,(passed.alone marked).2] at split_
    simp only [Bool.toNat_true,Bool.toNat_false] at *
    constructor
    · intro same _
      by_contra narrow
      have first := (same 0).mpr (by omega)
      rw [swept_range (by omega) inside] at first
      omega
    · intro wider j
      have wider := wider trivial
      rw [swept_range (by omega) inside]
      omega
  | false =>
    simp only [Bool.toNat_false,Nat.sub_zero,Bool.false_eq_true,false_imp_iff,iff_true]
    intro j
    rw [swept_range above.1 inside]
    omega

theorem Passed.taken_tight (passed : Passed arg flags fieldWidth precision radix) (tight : word ≤ precision+extraChars arg flags radix) :
    taken arg flags precision radix = if hexMark flags radix = true ∧ precision+2 = word then word-1 else word := by
  have precise := passed.precise
  have split_ := extraChars_split arg flags radix
  rw [taken,digitPlaces,passed.charCount_wraps tight]
  cases marked : hexMark flags radix with
  | false =>
    have sign : signShown arg flags = true := by
      cases shown : signShown arg flags with
      | true => rfl
      | false =>
        rw [marked,shown] at split_
        simp only [Bool.toNat_false] at split_
        omega
    rw [marked,sign] at split_
    rw [split_,sign,if_neg (by simp)]
    simp only [Bool.toNat_false,Bool.toNat_true] at *
    unfold minus word at *
    omega
  | true =>
    rw [marked,(passed.alone marked).2] at split_
    rw [split_,(passed.alone marked).2]
    simp only [Bool.toNat_false,Bool.toNat_true,true_and] at *
    unfold minus word at *
    split <;> omega

theorem Passed.reported_over (passed : Passed arg flags fieldWidth precision radix) (tight : word ≤ precision+extraChars arg flags radix)
    (all : taken arg flags precision radix = word) (base : Nat) : ¬ Reported arg flags fieldWidth precision radix base := by
  have precise := passed.precise
  have extra := passed.extra
  have count := passed.charCount_wraps tight
  have few : charCountOf arg flags precision radix ≤ 1 := by omega
  have small := Nat.lt_of_le_of_lt few (show 1 < word by decide)
  have inside := endOf_small passed.wide small
  intro reported
  rw [reported_iff_swept _ _ _ _ _ _ inside (Nat.le_of_eq all),all] at reported
  have next := (reported (max fieldWidth (charCountOf arg flags precision radix))).mp (.inr ((swept_whole _ _).mpr (max_lt passed.wide small)))
  exact Nat.lt_irrefl _ next

theorem Passed.reported_butOne (passed : Passed arg flags fieldWidth precision radix) (marked : hexMark flags radix = true)
    (last : precision+2 = word) (base : Nat) :
    Reported arg flags fieldWidth precision radix base ↔ fieldWidth+1 = word ∧ has flags flagLeftJustify = false := by
  have wide := passed.wide
  have split_ := extraChars_split arg flags radix
  rw [marked,(passed.alone marked).2] at split_
  simp only [Bool.toNat_false,Bool.toNat_true] at split_
  have none : charCountOf arg flags precision radix = 0 := by
    rw [passed.charCount_wraps (by omega)]
    omega
  have inside := endOf_small wide (by rw [none]; decide)
  have places := passed.taken_tight (by omega)
  rw [if_pos ⟨marked,last⟩] at places
  rw [reported_iff_swept _ _ _ _ _ _ inside (by omega),places,none]
  simp only [swept_butOne inside]
  have ended := endOf_max arg flags fieldWidth precision radix
  rw [none,Nat.max_zero] at ended
  constructor
  · intro same
    have first := same fieldWidth
    have second := same (fieldWidth+1)
    have full : fieldWidth+1 = word := by omega
    refine ⟨full,?_⟩
    cases left : has flags flagLeftJustify with
    | false => rfl
    | true =>
      rw [ended,if_pos left] at first
      unfold word at *
      omega
  · rintro ⟨full,right⟩ j
    rw [ended,right,if_neg Bool.false_ne_true]
    omega

theorem reported_wraps (passed : Passed arg flags fieldWidth precision radix) (tight : word ≤ precision+extraChars arg flags radix) (base : Nat) :
    Reported arg flags fieldWidth precision radix base ↔
      hexMark flags radix = true ∧ precision+2 = word ∧ fieldWidth+1 = word ∧ has flags flagLeftJustify = false := by
  have places := passed.taken_tight tight
  by_cases last : hexMark flags radix = true ∧ precision+2 = word
  · rw [passed.reported_butOne last.1 last.2]
    simp [last]
  · rw [if_neg last] at places
    refine iff_of_false (passed.reported_over tight places base) ?_
    rintro ⟨marked,short,_⟩
    exact last ⟨marked,short⟩

theorem markedLength_eq (passed : Passed arg flags fieldWidth precision 16) (marked : hexMark flags 16 = true) (fits : precision+2 < word) :
    charCountOf arg flags precision 16 = markedLength arg precision := by
  have extra := extraChars_split arg flags 16
  rw [marked,(passed.alone marked).2,Bool.toNat_true,Bool.toNat_false] at extra
  have least := atLeast_cases precision
  rw [charCountOf_eq passed.many passed.low passed.high,if_neg (by omega),extra,markedLength,Nat.add_comm (0+2*1)]
  unfold word at *
  split
  · omega
  · omega

theorem reported_iff (passed : Passed arg flags fieldWidth precision radix) (base : Nat) :
    Reported arg flags fieldWidth precision radix base ↔ Covered arg flags fieldWidth precision radix := by
  have extra := extraChars_split arg flags radix
  have precise := passed.precise
  unfold Covered
  cases marked : hexMark flags radix with
  | true =>
    obtain ⟨rfl,sign⟩ := passed.alone marked
    rw [marked,sign,Bool.toNat_true,Bool.toNat_false] at extra
    rw [if_pos rfl]
    rcases Nat.lt_or_ge (precision+2) word with fits | tight
    · rw [reported_fits passed (by omega),marked,markedLength_eq passed marked fits]
      simp [fits,Nat.ne_of_lt fits]
    · rw [reported_wraps passed (by omega),marked]
      simp [Nat.not_lt.mpr tight]
  | false =>
    rw [marked,Bool.toNat_false] at extra
    rw [if_neg Bool.false_ne_true]
    cases sign : signShown arg flags with
    | false =>
      rw [sign,Bool.toNat_false] at extra
      rw [reported_fits passed (by omega),marked]
      simp
    | true =>
      rw [sign,Bool.toNat_true] at extra
      rcases Nat.lt_or_ge (precision+1) word with fits | tight
      · rw [reported_fits passed (by omega),marked]
        simp [Nat.ne_of_lt fits]
      · rw [reported_wraps passed (by omega),marked]
        simp
        omega

theorem reported_ten : Passed 0x1234 (flagAltForm ||| flagUnsigned) 10 0 16 ∧ Reported 0x1234 (flagAltForm ||| flagUnsigned) 10 0 16 0 := by
  have passed : Passed 0x1234 (flagAltForm ||| flagUnsigned) 10 0 16 :=
    ⟨by decide,by decide,by decide,by decide,.inr ⟨.inr rfl,by decide⟩⟩
  refine ⟨passed,(reported_iff passed 0).mpr ?_⟩
  rw [Covered,if_pos (by decide)]
  exact .inl ⟨by decide,by simp [markedLength,atLeast]⟩

-- "%#x" as the loader prints an address: the place of the leading zero is counted and left as it was.
theorem first_byte_unwritten : Passed 0x1234 (flagAltForm ||| flagUnsigned) 0 0 16 ∧
    ¬ Reported 0x1234 (flagAltForm ||| flagUnsigned) 0 0 16 0 ∧
    (kaosVsprintf (fun _ => 0xAA) [ch '%',ch '#',ch 'x'] [.word 0x1234]).map (fun out => (out.bufferPtr,stretch out.buffer 0 6)) =
      some (6,[0xAA,ch 'x',ch '1',ch '2',ch '3',ch '4']) := by
  have passed : Passed 0x1234 (flagAltForm ||| flagUnsigned) 0 0 16 :=
    ⟨by decide,by decide,by decide,by decide,.inr ⟨.inr rfl,by decide⟩⟩
  refine ⟨passed,?_,by decide⟩
  rw [reported_fits passed (by decide)]
  decide

-- A text in a field: where it is wider, the rest of it is padding on one side.
def justified (left : Bool) (padChar : Byte) (fieldWidth : Nat) (text : List Byte) : List Byte :=
  if left then text++List.replicate (fieldWidth-text.length) padChar else List.replicate (fieldWidth-text.length) padChar++text

theorem justified_length (left : Bool) (padChar : Byte) (fieldWidth : Nat) (text : List Byte) :
    (justified left padChar fieldWidth text).length = max fieldWidth text.length := by
  unfold justified
  split
  · rw [List.length_append,List.length_replicate]
    omega
  · rw [List.length_append,List.length_replicate]
    omega

def signText (arg : Int) (flags : BitVec 32) : List Byte := if signShown arg flags then [if arg < 0 then ch '-' else ch '+'] else []

theorem signText_length (arg : Int) (flags : BitVec 32) : (signText arg flags).length = (signShown arg flags).toNat := by
  unfold signText
  cases signShown arg flags <;> rfl

def hexBase (flags : BitVec 32) : Byte := if has flags flagUppercaseHex then ch 'A' else ch 'a'
def padOf (flags : BitVec 32) : Byte := if has flags flagPadWithZeroes then ch '0' else 0x20

def digitText (base : Byte) (radix count n : Nat) : List Byte := ((lowDigits radix count n).map (digitOf base)).reverse

theorem digitText_length (base : Byte) (radix count n : Nat) : (digitText base radix count n).length = count := by
  rw [digitText,List.length_reverse,List.length_map,lowDigits_length]

theorem digitLoop_lowDigits (hexBaseChar : Byte) (fits : count ≤ i) (small : i < word) (memory : Bytes) :
    digitLoop radix hexBaseChar base count (n : Nat) i memory =
      (downward memory (base+i) ((lowDigits radix count n).map (digitOf hexBaseChar)),i-count) := by
  induction count generalizing n i memory with
  | zero => rfl
  | succ count ih =>
    rw [digitLoop,minus_pred (by omega) small,tdiv_cast,tmod_cast,ih (by omega) (by omega),lowDigits,List.map_cons,downward,
      show base+i-1 = base+(i-1) by omega,Nat.sub_sub,Nat.add_comm 1 count]
    rfl

def bodyText (arg : Int) (flags : BitVec 32) (radix count : Nat) : List Byte :=
  signText arg flags++digitText (hexBase flags) radix count arg.natAbs

theorem bodyText_length (arg : Int) (flags : BitVec 32) (radix count : Nat) :
    (bodyText arg flags radix count).length = (signShown arg flags).toNat+count := by
  rw [bodyText,List.length_append,signText_length,digitText_length]

theorem body_stored (arg : Int) (flags : BitVec 32) (radix count base : Nat) (fits : (signShown arg flags).toNat+count ≤ top) (small : top < word)
    (memory : Bytes) : ∃ after, putSign arg flags base (top-count)
        (downward memory (base+top) ((lowDigits radix count arg.natAbs).map (digitOf (hexBase flags)))) = after ∧
      stretch after (base+(top-((signShown arg flags).toNat+count))) ((signShown arg flags).toNat+count) = bodyText arg flags radix count ∧
      ∀ i, i < base+(top-((signShown arg flags).toNat+count)) ∨ base+top ≤ i → after i = memory i := by
  have size : ((lowDigits radix count arg.natAbs).map (digitOf (hexBase flags))).length = count := by
    rw [List.length_map,lowDigits_length]
  have digits := @stretch_downward (base+top) ((lowDigits radix count arg.natAbs).map (digitOf (hexBase flags))) memory (by omega)
  have outside := fun i out => @downward_outside (base+top) i ((lowDigits radix count arg.natAbs).map (digitOf (hexBase flags))) memory (by omega) out
  rw [size] at digits outside
  refine ⟨_,rfl,?_⟩
  rw [putSign_unless,bodyText,signText]
  cases shown : signShown arg flags with
  | false =>
    rw [shown,Bool.toNat_false] at fits
    rw [if_neg Bool.false_ne_true,if_neg Bool.false_ne_true,Bool.toNat_false,Nat.zero_add,List.nil_append]
    refine ⟨?_,?_⟩
    · rw [← show base+top-count = base+(top-count) by omega]
      exact digits
    · intro i out
      exact outside i (by omega)
  | true =>
    rw [shown,Bool.toNat_true] at fits
    rw [if_pos rfl,if_pos rfl,Bool.toNat_true,minus_pred (by omega) (by omega),Nat.sub_sub,Nat.add_comm count 1]
    refine ⟨?_,?_⟩
    · have behind : Agree (store (downward memory (base+top) ((lowDigits radix count arg.natAbs).map (digitOf (hexBase flags))))
          (base+(top-(1+count))) (if arg < 0 then ch '-' else ch '+'))
          (downward memory (base+top) ((lowDigits radix count arg.natAbs).map (digitOf (hexBase flags))))
          (base+(top-(1+count))+1) count := fun i low _ => store_other _ (by omega)
      rw [Nat.add_comm 1 count,stretch_cons,Nat.add_comm count 1,store_same,stretch_congr behind,
        show base+(top-(1+count))+1 = base+top-count by omega,digits]
      rfl
    · intro i out
      rw [store_other _ (by omega)]
      exact outside i (by omega)

theorem pad_stretch (base width first count : Nat) (value : Byte) (memory after : Bytes) (inside : first+count ≤ width)
    (kept : ∀ i, base+first ≤ i → i < base+first+count → after i = fill memory base (base+width) value i) :
    stretch after (base+first) count = List.replicate count value := by
  refine stretch_replicate ?_
  intro i low high
  rw [kept i low high]
  exact fill_inside (by omega) (by omega)

theorem field_stretch (left : Bool) (base width charCount : Nat) (value : Byte) (memory padded after : Bytes) (text : List Byte)
    (size : text.length = charCount) (pad : charCount < width → padded = fill memory base (base+width) value)
    (stored : stretch after (base+((if left then charCount else max width charCount)-charCount)) charCount = text)
    (kept : ∀ i, i < base+((if left then charCount else max width charCount)-charCount) ∨
      base+(if left then charCount else max width charCount) ≤ i → after i = padded i) :
    stretch after base (max width charCount) = justified left value width text := by
  have room : max width charCount = charCount+(width-charCount) := by omega
  unfold justified
  cases left with
  | true =>
    rw [if_pos rfl,Nat.sub_self,Nat.add_zero] at stored
    rw [if_pos rfl,room,stretch_append,stored,size]
    congr 1
    rcases Nat.lt_or_ge charCount width with wider | narrow
    · refine pad_stretch base width charCount _ value memory after (by omega) ?_
      intro i low high
      rw [← pad wider]
      exact kept i (.inr low)
    · rw [Nat.sub_eq_zero_of_le narrow]
      rfl
  | false =>
    rw [if_neg Bool.false_ne_true,room,Nat.add_sub_cancel_left] at stored
    rw [if_neg Bool.false_ne_true,room,Nat.add_comm charCount,stretch_append,stored,size]
    congr 1
    rcases Nat.lt_or_ge charCount width with wider | narrow
    · refine pad_stretch base width 0 _ value memory after (by omega) ?_
      intro i low high
      rw [← pad wider]
      refine kept i (.inl ?_)
      rw [if_neg Bool.false_ne_true]
      omega
    · rw [Nat.sub_eq_zero_of_le narrow]
      rfl

theorem convert_text (passed : Passed arg flags fieldWidth precision radix) (fits : precision+extraChars arg flags radix < word)
    (plain : hexMark flags radix = false) (above : -9223372036854775808 < arg) (base : Nat) (memory : Bytes) :
    ∃ after, convertAnyIntToStr arg flags fieldWidth precision radix base memory = (after,max fieldWidth (charCountOf arg flags precision radix)) ∧
      stretch after base (max fieldWidth (charCountOf arg flags precision radix)) =
        justified (has flags flagLeftJustify) (padOf flags) fieldWidth
          (bodyText arg flags radix (charCountOf arg flags precision radix-(signShown arg flags).toNat)) ∧
      ∀ i < base, after i = memory i := by
  obtain ⟨covers,small⟩ := passed.charCount fits
  have inside := endOf_small passed.wide small
  have high := passed.high
  have extra := extraChars_split arg flags radix
  rw [plain,Bool.toNat_false,Nat.mul_zero,Nat.add_zero] at extra
  rw [extra] at covers
  have ended := endOf_max arg flags fieldWidth precision radix
  have atMost : charCountOf arg flags precision radix ≤ endOf arg flags fieldWidth precision radix := by
    rw [ended]
    split <;> omega
  have count : minus (charCountOf arg flags precision radix) (extraChars arg flags radix) =
      charCountOf arg flags precision radix-(signShown arg flags).toNat := by
    rw [extra]
    unfold minus word at *
    omega
  have whole : (signShown arg flags).toNat+(charCountOf arg flags precision radix-(signShown arg flags).toNat) =
    charCountOf arg flags precision radix := by omega
  let padded := if fieldWidth ≠ 0 ∧ charCountOf arg flags precision radix < fieldWidth
    then fill memory base (base+fieldWidth) (padOf flags) else memory
  obtain ⟨after,stored,text,kept⟩ := body_stored arg flags radix
    (charCountOf arg flags precision radix-(signShown arg flags).toNat) base (by omega) inside padded
  rw [whole] at text kept
  have ran : convertAnyIntToStr arg flags fieldWidth precision radix base memory = (after,max fieldWidth (charCountOf arg flags precision radix)) := by
    refine Prod.ext ?_ (returned _ _ _ _ _ _ _)
    have digits := @digitLoop_lowDigits _ _ radix base arg.natAbs (hexBase flags)
      (Nat.le_trans (Nat.sub_le (charCountOf arg flags precision radix) (signShown arg flags).toNat) atMost) inside padded
    rw [← stored]
    unfold convertAnyIntToStr
    dsimp only [endOf,hexBase,padded,padOf] at digits ⊢
    rw [plain,if_neg Bool.false_ne_true,count,magnitude (by omega),digits]
  refine ⟨after,ran,?_,?_⟩
  · rw [ended] at text kept
    refine field_stretch _ base fieldWidth _ (padOf flags) memory padded after _ (by rw [bodyText_length]; exact whole) ?_ text kept
    intro wider
    exact if_pos ⟨by omega,wider⟩
  · intro i below
    rw [kept i (.inl (by omega))]
    show (if fieldWidth ≠ 0 ∧ charCountOf arg flags precision radix < fieldWidth
      then fill memory base (base+fieldWidth) (padOf flags) else memory) i = memory i
    split
    · exact fill_outside (.inl below)
    · rfl

end KaracaOS.Conversions
