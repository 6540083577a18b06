import KaracaOS.PrintedNumbers

namespace KaracaOS.ReadBacks
open ByteMemory Numerals Printers Conversions Directives PrintedNumbers

def blank (c : Byte) : Bool := c == 0x20

-- A text without the spaces around it.
def trimmed (text : List Byte) : List Byte := (text.dropWhile blank).rdropWhile blank

def readValue (digits : List Byte) : Nat := digits.foldl (fun value c => 10*value+(c.toNat-48)) 0

-- An optional sign and digits, at least one and at least `least`, that denote
-- the number; the sign is there when it is asked for.
def Reads (text : List Byte) (n : Int) (least : Nat) (signed : Prop) : Prop :=
  ∃ sign digits, trimmed text = sign++digits ∧ (sign = [] ∨ sign = [ch '+'] ∨ sign = [ch '-']) ∧ (∀ c ∈ digits, isDigit c = true) ∧
    1 ≤ digits.length ∧ least ≤ digits.length ∧ (if sign = [ch '-'] then -(readValue digits : Int) else readValue digits) = n ∧
    (signed → sign ≠ [])

theorem isDigit_unlike (digit : isDigit c = true) : c ≠ 0x20 ∧ c ≠ ch '+' ∧ c ≠ ch '-' := by
  refine ⟨?_,?_,?_⟩
  · rintro rfl
    cases digit
  · rintro rfl
    cases digit
  · rintro rfl
    cases digit

theorem trimmed_solid (before after : Nat) (solid : ∀ c ∈ text, c ≠ 0x20) :
    trimmed (List.replicate before 0x20++(text++List.replicate after 0x20)) = text := by
  have spaces : ∀ count, ∀ c ∈ List.replicate count (0x20 : Byte), blank c = true := by
    intro count c member
    rw [List.eq_of_mem_replicate member]
    rfl
  have firm : ∀ c ∈ text, ¬ blank c = true := fun c member same => solid c member (eq_of_beq same)
  have front : ∀ more, (text++List.replicate more 0x20).dropWhile blank = if text = [] then [] else text++List.replicate more 0x20 := by
    intro more
    cases text with
    | nil => exact List.dropWhile_eq_nil_iff.mpr (spaces more)
    | cons c rest => exact List.dropWhile_cons_of_neg (firm c List.mem_cons_self)
  rw [trimmed,List.dropWhile_append_of_pos (spaces before),front]
  split
  · rename_i none
    rw [none]
    rfl
  · rw [List.rdropWhile,List.reverse_append,List.reverse_replicate,List.dropWhile_append_of_pos (spaces after)]
    have same : text.reverse.dropWhile blank = text.reverse := by
      rw [List.dropWhile_eq_self_iff]
      intro long
      exact firm _ (List.mem_reverse.mp (List.getElem_mem long))
    rw [same,List.reverse_reverse]

theorem trimmed_self (solid : ∀ c ∈ text, c ≠ 0x20) : trimmed text = text := by
  have same := trimmed_solid 0 0 solid
  simpa using same

theorem readValue_foldl (digits : List Byte) (value : Nat) :
    digits.foldl (fun value c => 10*value+(c.toNat-48)) value = value*10^digits.length+readValue digits := by
  induction digits generalizing value with
  | nil => simp [readValue]
  | cons c rest ih =>
    have head : readValue (c::rest) = (c.toNat-48)*10^rest.length+readValue rest := by
      rw [readValue,List.foldl_cons,Nat.mul_zero,Nat.zero_add,ih]
    rw [List.foldl_cons,ih,head,List.length_cons,Nat.pow_succ]
    ring

theorem readValue_append (first second : List Byte) : readValue (first++second) = readValue first*10^second.length+readValue second := by
  rw [readValue,List.foldl_append,readValue_foldl,← readValue]

theorem readValue_zeros (count : Nat) : readValue (List.replicate count (ch '0')) = 0 := by
  induction count with
  | zero => rfl
  | succ count ih =>
    rw [List.replicate_succ,← List.singleton_append,readValue_append,ih,show readValue [ch '0'] = 0 from rfl,Nat.zero_mul]

theorem readValue_digits (digits : List Nat) (small : ∀ d ∈ digits, d < 10) :
    readValue (digits.map (digitOf (ch 'a'))).reverse = Nat.ofDigits 10 digits := by
  induction digits with
  | nil => rfl
  | cons d digits ih =>
    obtain ⟨_,_,_,_,_,_,value⟩ := digit_chars d (small d List.mem_cons_self)
    rw [List.map_cons,List.reverse_cons,readValue_append,ih (fun e member => small e (List.mem_cons_of_mem _ member)),Nat.ofDigits_cons,
      List.length_singleton,readValue,List.foldl_cons,List.foldl_nil,value]
    ring

theorem digitText_digits (count n : Nat) : ∀ c ∈ digitText (ch 'a') 10 count n, isDigit c = true := by
  intro c member
  obtain ⟨d,inside,rfl⟩ := List.mem_map.mp (List.mem_reverse.mp member)
  exact (digit_chars d (lowDigits_small (by decide) inside)).1

theorem digitText_value (room : (Nat.digits 10 n).length ≤ count) : readValue (digitText (ch 'a') 10 count n) = n := by
  rw [digitText,readValue_digits _ (fun d member => lowDigits_small (by decide) member),ofDigits_lowDigits (by decide) room]

theorem reads_iff (shape : trimmed text = sign++digits) (known : sign = [] ∨ sign = [ch '+'] ∨ sign = [ch '-'])
    (all : ∀ c ∈ digits, isDigit c = true) : Reads text n least signed ↔ 1 ≤ digits.length ∧ least ≤ digits.length ∧
      (if sign = [ch '-'] then -(readValue digits : Int) else readValue digits) = n ∧ (signed → sign ≠ []) := by
  constructor
  · rintro ⟨sign',digits',shape',known',all',some_,long,value,shown⟩
    rw [shape] at shape'
    have same : sign = sign' ∧ digits = digits' := by
      have apart : ∀ {c : Byte} {left right : List Byte}, (c = ch '+' ∨ c = ch '-') → (∀ e ∈ right, isDigit e = true) → c::left ≠ right := by
        rintro c left right sign all rfl
        obtain ⟨_,plus,minus⟩ := isDigit_unlike (all c List.mem_cons_self)
        exact sign.elim plus minus
      rcases known with rfl | rfl | rfl
      · rcases known' with rfl | rfl | rfl
        · exact ⟨rfl,shape'⟩
        · exact absurd shape'.symm (apart (.inl rfl) all)
        · exact absurd shape'.symm (apart (.inr rfl) all)
      · rcases known' with rfl | rfl | rfl
        · exact absurd shape' (apart (.inl rfl) all')
        · exact ⟨rfl,(List.cons.inj shape').2⟩
        · cases (List.cons.inj shape').1
      · rcases known' with rfl | rfl | rfl
        · exact absurd shape' (apart (.inr rfl) all')
        · cases (List.cons.inj shape').1
        · exact ⟨rfl,(List.cons.inj shape').2⟩
    obtain ⟨rfl,rfl⟩ := same
    exact ⟨some_,long,value,shown⟩
  · rintro ⟨some_,long,value,shown⟩
    exact ⟨sign,digits,shape,known,all,some_,long,value,shown⟩

-- %d with '-', '+' and '0' in any order and number, any width and any precision.
structure Decimal (d : Directive) : Prop where
  legal : d.Legal
  conversion : d.specifier = .d
  flags : ∀ flag ∈ d.flags, flag = .leftJustify ∨ flag = .beginWithSign ∨ flag = .padWithZeroes

def signed (d : Directive) (n : Int) : Prop := .beginWithSign ∈ d.flags ∨ n < 0

instance (d : Directive) (n : Int) : Decidable (signed d n) := inferInstanceAs (Decidable (_ ∨ _))

def signPlaces (d : Directive) (n : Int) : Nat := if signed d n then 1 else 0

def digitCount (n : Int) : Nat := (Nat.digits 10 n.natAbs).length

-- The digits shown, and with the sign before them.
def shownDigits (d : Directive) (n : Int) : Nat :=
  if signPlaces d n+digitCount n < atLeast d.precision.value then atLeast d.precision.value else digitCount n

-- In a field padded with zeros: to the right of the number they count, before
-- its sign they are none of it. Else the sign must not stand in for a digit.
def Readable (d : Directive) (n : Int) : Prop :=
  if .padWithZeroes ∈ d.flags ∧ signPlaces d n+shownDigits d n < d.fieldWidth.value then
    if .leftJustify ∈ d.flags then n = 0 else ¬ signed d n
  else ¬ (signed d n ∧ digitCount n+1 = atLeast d.precision.value)

def signOf (d : Directive) (n : Int) : List Byte := if signed d n then [if n < 0 then ch '-' else ch '+'] else []

theorem signOf_length (d : Directive) (n : Int) : (signOf d n).length = signPlaces d n := by
  unfold signOf signPlaces
  split <;> rfl

theorem body_decimal {d : Directive} (decimal : Decimal d) (num : BitVec 32) :
    d.body num = signOf d num.toInt++digitText (ch 'a') 10 (shownDigits d num.toInt) num.toInt.natAbs := by
  have passed := directive_passed decimal.legal num
  have plain : Flag.altForm ∉ d.flags := fun member => by
    rcases decimal.flags _ member with same | same | same <;> cases same
  have radix : d.radix = 10 := by
    rw [Directive.radix,decimal.conversion]
  have sign := signShown_decimal decimal.conversion num
  have extra := extraChars_split num.toInt d.passedFlags d.radix
  have least := atLeast_cases d.precision.value
  have precise := decimal.legal.precision
  have places : signPlaces d num.toInt = (decide (signed d num.toInt)).toNat := by
    unfold signPlaces
    split
    · rename_i shown
      rw [decide_eq_true shown]
      rfl
    · rename_i hidden
      rw [decide_eq_false hidden]
      rfl
  have one : signPlaces d num.toInt ≤ 1 := by
    unfold signPlaces
    split <;> omega
  rw [sign,unmarked plain,Bool.toNat_false,Nat.mul_zero,Nat.add_zero] at extra
  have few := digits_few passed.many passed.low passed.high
  have count : charCountOf num.toInt d.passedFlags d.precision.value d.radix-(signShown num.toInt d.passedFlags).toNat =
      shownDigits d num.toInt := by
    rw [charCountOf_eq passed.many passed.low passed.high,extra,sign,
      show decide (Flag.beginWithSign ∈ d.flags ∨ num.toInt < 0) = decide (signed d num.toInt) from rfl,← places,radix,shownDigits,digitCount]
    unfold word
    rw [if_neg (by omega)]
    split
    · omega
    · omega
  have text : signText num.toInt d.passedFlags = signOf d num.toInt := by
    rw [signText,sign,show decide (Flag.beginWithSign ∈ d.flags ∨ num.toInt < 0) = decide (signed d num.toInt) from rfl,signOf]
    by_cases shown : signed d num.toInt
    · simp only [shown,decide_true,if_true]
    · simp only [shown,decide_false,if_false,Bool.false_eq_true]
  rw [Directive.body,bodyText,count,radix,hexBase_of,decimal.conversion,text]
  rfl

theorem room_shown (d : Directive) (n : Int) : (Nat.digits 10 n.natAbs).length ≤ shownDigits d n := by
  unfold shownDigits digitCount
  split
  · omega
  · exact Nat.le_refl _

theorem signOf_known (d : Directive) (n : Int) : signOf d n = [] ∨ signOf d n = [ch '+'] ∨ signOf d n = [ch '-'] := by
  unfold signOf
  split
  · split
    · exact .inr (.inr rfl)
    · exact .inr (.inl rfl)
  · exact .inl rfl

theorem signOf_some (d : Directive) (n : Int) : signOf d n ≠ [] ↔ signed d n := by
  unfold signOf
  split
  · rename_i shown
    simp [shown]
  · rename_i hidden
    simp [hidden]

theorem signOf_minus (d : Directive) (n : Int) : signOf d n = [ch '-'] ↔ n < 0 := by
  unfold signOf
  split
  · split
    · rename_i negative
      exact iff_of_true rfl negative
    · rename_i positive
      exact iff_of_false (by decide) positive
  · rename_i hidden
    exact iff_of_false (by decide) (fun negative => hidden (.inr negative))

theorem signOf_solid (d : Directive) (n : Int) : ∀ c ∈ signOf d n, c ≠ 0x20 := by
  intro c member
  rcases signOf_known d n with same | same | same
  · rw [same] at member
    cases member
  · rw [same] at member
    rw [List.mem_singleton.mp member]
    decide
  · rw [same] at member
    rw [List.mem_singleton.mp member]
    decide

def numberText (d : Directive) (n : Int) : List Byte := signOf d n++digitText (ch 'a') 10 (shownDigits d n) n.natAbs

theorem numberText_length (d : Directive) (n : Int) : (numberText d n).length = signPlaces d n+shownDigits d n := by
  rw [numberText,List.length_append,signOf_length,digitText_length]

theorem numberText_solid (d : Directive) (n : Int) : ∀ c ∈ numberText d n, c ≠ 0x20 := by
  intro c member
  rcases List.mem_append.mp member with sign | digit
  · exact signOf_solid d n c sign
  · exact (isDigit_unlike (digitText_digits _ _ c digit)).1

theorem reads_bare (d : Directive) (n : Int) (left : Bool) (padChar : Byte) (fieldWidth : Nat)
    (spaces : padChar = 0x20 ∨ fieldWidth ≤ signPlaces d n+shownDigits d n) :
    Reads (justified left padChar fieldWidth (numberText d n)) n d.precision.value (signed d n) ↔
      ¬ (signed d n ∧ digitCount n+1 = atLeast d.precision.value) := by
  have shape : trimmed (justified left padChar fieldWidth (numberText d n)) = numberText d n := by
    unfold justified
    rcases spaces with rfl | narrow
    · cases left with
      | true => exact trimmed_solid 0 _ (numberText_solid d n)
      | false =>
        have same := trimmed_solid (fieldWidth-(numberText d n).length) 0 (numberText_solid d n)
        rw [List.replicate_zero,List.append_nil] at same
        exact same
    · rw [numberText_length,Nat.sub_eq_zero_of_le narrow,List.replicate_zero,List.append_nil,List.nil_append,ite_self]
      exact trimmed_self (numberText_solid d n)
  have value : (if signOf d n = [ch '-'] then -(readValue (digitText (ch 'a') 10 (shownDigits d n) n.natAbs) : Int)
      else readValue (digitText (ch 'a') 10 (shownDigits d n) n.natAbs)) = n := by
    rw [digitText_value (room_shown d n)]
    by_cases negative : n < 0
    · rw [if_pos ((signOf_minus d n).mpr negative)]
      omega
    · rw [if_neg (fun minus => negative ((signOf_minus d n).mp minus))]
      omega
  have least := atLeast_cases d.precision.value
  rw [reads_iff shape (signOf_known d n) (digitText_digits _ _),digitText_length]
  simp only [value,signOf_some,imp_self,and_true]
  unfold shownDigits signPlaces
  by_cases shown : signed d n
  · rw [if_pos shown]
    split
    · simp only [shown,true_and]
      omega
    · simp only [shown,true_and]
      omega
  · rw [if_neg shown]
    split
    · simp only [shown,false_and,not_false_iff,iff_true]
      omega
    · simp only [shown,false_and,not_false_iff,iff_true]
      omega

theorem zeros_digits (count : Nat) : ∀ c ∈ List.replicate count (ch '0'), isDigit c = true := by
  intro c member
  rw [List.eq_of_mem_replicate member]
  rfl

theorem append_digits {first second : List Byte} (left : ∀ c ∈ first, isDigit c = true) (right : ∀ c ∈ second, isDigit c = true) :
    ∀ c ∈ first++second, isDigit c = true := fun c member => (List.mem_append.mp member).elim (left c) (right c)

theorem solid_append {first second : List Byte} (left : ∀ c ∈ first, c ≠ 0x20) (right : ∀ c ∈ second, isDigit c = true) : ∀ c ∈ first++second, c ≠ 0x20 :=
  fun c member => (List.mem_append.mp member).elim (left c) (fun inside => (isDigit_unlike (right c inside)).1)

theorem reads_zeros_behind (d : Directive) (n : Int) (fieldWidth : Nat) (wider : signPlaces d n+shownDigits d n < fieldWidth) :
    Reads (justified true (ch '0') fieldWidth (numberText d n)) n d.precision.value (signed d n) ↔ n = 0 := by
  obtain ⟨k,more,positive⟩ : ∃ k, fieldWidth-(signPlaces d n+shownDigits d n) = k ∧ 0 < k := ⟨_,rfl,Nat.sub_pos_of_lt wider⟩
  have shape : trimmed (justified true (ch '0') fieldWidth (numberText d n)) =
      signOf d n++(digitText (ch 'a') 10 (shownDigits d n) n.natAbs++List.replicate k (ch '0')) := by
    rw [justified,if_pos rfl,numberText_length,more,trimmed_self (solid_append (numberText_solid d n) (zeros_digits k)),numberText,List.append_assoc]
  have all := append_digits (digitText_digits (shownDigits d n) n.natAbs) (zeros_digits k)
  have value : readValue (digitText (ch 'a') 10 (shownDigits d n) n.natAbs++List.replicate k (ch '0')) = n.natAbs*10^k := by
    rw [readValue_append,readValue_zeros,digitText_value (room_shown d n),List.length_replicate,Nat.add_zero]
  have grows : n.natAbs*10 ≤ n.natAbs*10^k := Nat.mul_le_mul_left _ (Nat.le_self_pow (by omega) 10)
  rw [reads_iff shape (signOf_known d n) all,value,List.length_append,digitText_length,List.length_replicate]
  constructor
  · rintro ⟨_,_,same,_⟩
    split at same <;> omega
  · rintro rfl
    have least := atLeast_cases d.precision.value
    have one : signPlaces d 0 ≤ 1 := by
      unfold signPlaces
      split <;> omega
    refine ⟨by omega,?_,by simp,(signOf_some d 0).mpr⟩
    unfold shownDigits
    split <;> omega

theorem reads_zeros_before (d : Directive) (n : Int) (fieldWidth : Nat) (wider : signPlaces d n+shownDigits d n < fieldWidth) :
    Reads (justified false (ch '0') fieldWidth (numberText d n)) n d.precision.value (signed d n) ↔ ¬ signed d n := by
  obtain ⟨k,more⟩ : ∃ k, fieldWidth-(signPlaces d n+shownDigits d n) = k+1 := ⟨fieldWidth-(signPlaces d n+shownDigits d n)-1,by omega⟩
  have text : justified false (ch '0') fieldWidth (numberText d n) = List.replicate (k+1) (ch '0')++numberText d n := by
    rw [justified,if_neg Bool.false_ne_true,numberText_length,more]
  have solid : ∀ c ∈ List.replicate (k+1) (ch '0')++numberText d n, c ≠ 0x20 := fun c member =>
    (List.mem_append.mp member).elim (fun zero => (isDigit_unlike (zeros_digits _ c zero)).1) (numberText_solid d n c)
  rw [text]
  constructor
  · rintro ⟨sign,digits,shape,known,all,_⟩ shown
    rw [trimmed_self solid,List.replicate_succ,List.cons_append] at shape
    have none : sign = [] := by
      rcases known with rfl | rfl | rfl
      · rfl
      · cases (List.cons.inj shape).1
      · cases (List.cons.inj shape).1
    rw [none,List.nil_append] at shape
    obtain ⟨c,rest,first⟩ := List.exists_cons_of_ne_nil ((signOf_some d n).mpr shown)
    have inside : c ∈ digits := by
      rw [← shape,numberText,first]
      simp
    obtain ⟨_,plus,minus⟩ := isDigit_unlike (all c inside)
    rcases signOf_known d n with same | same | same
    · exact (signOf_some d n).mpr shown same
    · exact plus (List.cons.inj (first.symm.trans same)).1
    · exact minus (List.cons.inj (first.symm.trans same)).1
  · intro hidden
    have none : signOf d n = [] := if_neg hidden
    have positive : ¬ n < 0 := fun negative => hidden (.inr negative)
    have places : signPlaces d n = 0 := if_neg hidden
    have least := atLeast_cases d.precision.value
    have shape : trimmed (List.replicate (k+1) (ch '0')++numberText d n) =
        []++(List.replicate (k+1) (ch '0')++digitText (ch 'a') 10 (shownDigits d n) n.natAbs) := by
      rw [trimmed_self solid,numberText,none]
      rfl
    have all := append_digits (zeros_digits (k+1)) (digitText_digits (shownDigits d n) n.natAbs)
    rw [reads_iff shape (.inl rfl) all,readValue_append,readValue_zeros,digitText_value (room_shown d n),List.length_append,digitText_length,
      List.length_replicate]
    refine ⟨by omega,?_,?_,fun shown => absurd shown hidden⟩
    · unfold shownDigits
      rw [places]
      split <;> omega
    · rw [if_neg (by decide)]
      omega

theorem reads_back_iff {d : Directive} (decimal : Decimal d) (n : BitVec 32) :
    (∃ text, Prints d n text ∧ Reads text n.toInt d.precision.value (.beginWithSign ∈ d.flags ∨ n.toInt < 0)) ↔ Readable d n.toInt := by
  have plain : Flag.altForm ∉ d.flags := fun member => by
    rcases decimal.flags _ member with same | same | same <;> cases same
  have printed := directive_prints decimal.legal plain n
  have text : d.text n = justified (decide (.leftJustify ∈ d.flags)) (if .padWithZeroes ∈ d.flags then ch '0' else 0x20) d.fieldWidth.value
      (numberText d n.toInt) := by
    rw [Directive.text,body_decimal decimal]
    rfl
  have only : (∃ text, Prints d n text ∧ Reads text n.toInt d.precision.value (signed d n.toInt)) ↔
      Reads (d.text n) n.toInt d.precision.value (signed d n.toInt) := by
    constructor
    · rintro ⟨other,found,reads⟩
      rw [printed.unique found]
      exact reads
    · exact fun reads => ⟨_,printed,reads⟩
  show (∃ text, Prints d n text ∧ Reads text n.toInt d.precision.value (signed d n.toInt)) ↔ _
  rw [only,text]
  unfold Readable
  by_cases zeroes : Flag.padWithZeroes ∈ d.flags
  · rw [if_pos zeroes]
    rcases Nat.lt_or_ge (signPlaces d n.toInt+shownDigits d n.toInt) d.fieldWidth.value with wider | narrow
    · rw [if_pos ⟨zeroes,wider⟩]
      by_cases left : Flag.leftJustify ∈ d.flags
      · rw [if_pos left,decide_eq_true left]
        exact reads_zeros_behind d n.toInt _ wider
      · rw [if_neg left,decide_eq_false left]
        exact reads_zeros_before d n.toInt _ wider
    · rw [if_neg (fun both => absurd both.2 (Nat.not_lt.mpr narrow))]
      exact reads_bare d n.toInt _ _ _ (.inr narrow)
  · rw [if_neg zeroes,if_neg (fun both => zeroes both.1)]
    exact reads_bare d n.toInt _ _ _ (.inl rfl)

-- "%+8.4d" with 42.
def plusEightFour : Directive := ⟨[.beginWithSign],.digits 8,.digits 4,.d⟩

theorem reads_back_eight : Decimal plusEightFour ∧
    ∃ text, Prints plusEightFour 42 text ∧ Reads text (42 : BitVec 32).toInt 4 (.beginWithSign ∈ plusEightFour.flags ∨ (42 : BitVec 32).toInt < 0) := by
  have decimal : Decimal plusEightFour := ⟨⟨by decide,by decide,by decide⟩,rfl,by simp [plusEightFour]⟩
  refine ⟨decimal,(reads_back_iff decimal 42).mpr ?_⟩
  have value : (42 : BitVec 32).toInt = 42 := by decide
  have digits : digitCount 42 = 2 := by simp [digitCount]
  rw [value,Readable,if_neg (by simp [plusEightFour]),digits]
  decide

-- "%+05d" with 42.
def plusZeroFive : Directive := ⟨[.beginWithSign,.padWithZeroes],.digits 5,.absent,.d⟩

-- It prints 00+42.
theorem hidden_sign : Decimal plusZeroFive ∧
    (kaosVsprintf (fun _ => 0) plusZeroFive.format [.word 42]).map (fun out => stretch out.buffer 0 out.bufferPtr) =
      some [ch '0',ch '0',ch '+',ch '4',ch '2'] ∧
    ¬ ∃ text, Prints plusZeroFive 42 text ∧
      Reads text (42 : BitVec 32).toInt 0 (.beginWithSign ∈ plusZeroFive.flags ∨ (42 : BitVec 32).toInt < 0) := by
  have decimal : Decimal plusZeroFive := ⟨⟨by decide,by decide,by decide⟩,rfl,by simp [plusZeroFive]⟩
  have format : plusZeroFive.format = [ch '%',ch '+',ch '0',ch '5',ch 'd'] := by
    simp [plusZeroFive,Directive.format,Size.text,Size.dotted,Specifier.char,Flag.char,Directives.decimal,numeral,lowFirst]
    decide
  refine ⟨decimal,by rw [format]; decide,?_⟩
  rintro ⟨text,printed,reads⟩
  have known := directive_prints decimal.legal (by simp [plusZeroFive]) 42
  rw [Directive.text,body_decimal decimal] at known
  rw [printed.unique known] at reads
  have digits : digitCount 42 = 2 := by simp [digitCount]
  have value : (42 : BitVec 32).toInt = 42 := by decide
  refine (reads_zeros_before plusZeroFive (42 : BitVec 32).toInt 5 ?_).mp reads (.inl (by simp [plusZeroFive]))
  rw [value,shownDigits,digits]
  decide

end KaracaOS.ReadBacks
