import KaracaOS.Directives

namespace KaracaOS.PrintedNumbers
open ByteMemory Numerals Printers Conversions Directives

-- The decimal numeral, with a minus sign for a negative number.
def dec (n : Int) : List Byte := if n < 0 then ch '-'::decimal n.natAbs else decimal n.natAbs

def octal (n : Nat) : List Byte := numeral (digitOf (ch 'a')) 8 n

-- %d with a width, and '-' or not.
def inField (left : Bool) (fieldWidth : Size) : Directive := ⟨if left then [.leftJustify] else [],fieldWidth,.absent,.d⟩

def bare (specifier : Specifier) : Directive := ⟨[],.absent,.absent,specifier⟩

theorem digitText_numeral (many : 1 < radix) (base : Byte) (n : Nat) :
    digitText base radix (lowFirst radix n).length n = numeral (digitOf base) radix n := by
  rw [digitText,lowDigits_lowFirst many,numeral]

theorem lowFirst_count (radix n : Nat) : (lowFirst radix n).length = if n = 0 then 1 else (Nat.digits radix n).length := by
  unfold lowFirst
  split
  · rfl
  · rfl

theorem digits_count (radix n : Nat) : n = 0 ↔ (Nat.digits radix n).length = 0 := by
  rw [List.length_eq_zero_iff,Nat.digits_eq_nil_iff_eq_zero]

theorem bare_count (passed : Passed arg flags fieldWidth 0 radix) (other : radix ≠ 8) (plain : hexMark flags radix = false)
    (signed : signShown arg flags = true → arg ≠ 0) :
    charCountOf arg flags 0 radix-(signShown arg flags).toNat = (lowFirst radix arg.natAbs).length := by
  have extra := extraChars_split arg flags radix
  rw [plain,Bool.toNat_false,Nat.mul_zero,Nat.add_zero] at extra
  have zero := digits_count radix arg.natAbs
  rw [charCountOf_eq passed.many passed.low passed.high,extra,lowFirst_count,if_neg (fun both : radix = 8 ∧ _ => other both.1),
    show atLeast 0 = 1 from rfl]
  cases shown : signShown arg flags with
  | false =>
    rw [Bool.toNat_false]
    unfold word
    split <;> split <;> omega
  | true =>
    have solid := signed shown
    rw [Bool.toNat_true,if_neg (by omega),if_neg (by omega)]
    omega

theorem signShown_decimal {d : Directive} (signed : d.specifier = .d) (num : BitVec 32) :
    signShown num.toInt d.passedFlags = decide (.beginWithSign ∈ d.flags ∨ num.toInt < 0) := by
  have unsigned : has d.passedFlags flagUnsigned = false := by
    rw [(has_internal d).1,signed]
    rfl
  have plus : has d.passedFlags flagBeginWithSign = decide (.beginWithSign ∈ d.flags) := has_flag d .beginWithSign
  rw [signShown,forcedSign,minusSign,unsigned,plus]
  simp

theorem signShown_unsigned {d : Directive} (unsigned : d.specifier ≠ .d ∧ d.specifier ≠ .i) (num : BitVec 32) :
    signShown num.toInt d.passedFlags = false := by
  have marked : has d.passedFlags flagUnsigned = true := by
    rw [(has_internal d).1]
    exact decide_eq_true unsigned
  rw [signShown,forcedSign,minusSign,marked]
  rfl

theorem hexBase_of (d : Directive) : hexBase d.passedFlags = if d.specifier = .upperX then ch 'A' else ch 'a' := by
  rw [hexBase,(has_internal d).2]
  simp

theorem unmarked {d : Directive} (plain : .altForm ∉ d.flags) : hexMark d.passedFlags d.radix = false := by
  have alt : has d.passedFlags flagAltForm = decide (.altForm ∈ d.flags) := has_flag d .altForm
  rw [hexMark,alt,decide_eq_false plain,Bool.false_and]

theorem decimal_in_field (n : BitVec 32) (left : Bool) (fieldWidth : Size) (small : fieldWidth.value < 2147483648)
    (written : fieldWidth ≠ .digits 0) :
    Prints (inField left fieldWidth) n (justified left 0x20 fieldWidth.value (dec n.toInt)) ∧
      (justified left 0x20 fieldWidth.value (dec n.toInt)).length = max fieldWidth.value (dec n.toInt).length := by
  refine ⟨?_,justified_length _ _ _ _⟩
  have legal : (inField left fieldWidth).Legal := ⟨small,Nat.zero_lt_succ _,written⟩
  have flags : Flag.altForm ∉ (inField left fieldWidth).flags ∧ Flag.beginWithSign ∉ (inField left fieldWidth).flags ∧
      Flag.padWithZeroes ∉ (inField left fieldWidth).flags ∧ decide (Flag.leftJustify ∈ (inField left fieldWidth).flags) = left := by
    cases left <;> simp [inField]
  obtain ⟨plain,plus,zeroes,side⟩ := flags
  have printed := directive_prints legal plain n
  have sign : signShown n.toInt (inField left fieldWidth).passedFlags = decide (n.toInt < 0) := by
    rw [signShown_decimal rfl]
    simp [plus]
  have body : (inField left fieldWidth).body n = dec n.toInt := by
    have count := bare_count (directive_passed legal n) (show 10 ≠ 8 by decide) (unmarked plain) (by rw [sign]; simp; omega)
    rw [Directive.body,bodyText,show (inField left fieldWidth).precision.value = 0 from rfl,count,
      show (inField left fieldWidth).radix = 10 from rfl,digitText_numeral (show 1 < 10 by decide),hexBase_of,signText,sign,dec]
    by_cases negative : n.toInt < 0
    · simp only [decide_eq_true negative,if_true,if_pos negative]
      rfl
    · simp only [decide_eq_false negative,if_neg negative]
      rfl
  rw [Directive.text,side,if_neg zeroes,body] at printed
  exact printed

-- "%-6d" with -42.
theorem decimal_in_field_six : Prints (inField true (.digits 6)) (-42) (justified true 0x20 6 (dec (-42))) :=
  (decimal_in_field (-42) true (.digits 6) (by decide) (by decide)).1

theorem bare_legal (specifier : Specifier) : (bare specifier).Legal := ⟨Nat.zero_lt_succ _,Nat.zero_lt_succ _,Size.noConfusion⟩

theorem bare_text (specifier : Specifier) (num : BitVec 32) : (bare specifier).text num = (bare specifier).body num := by
  rw [Directive.text,justified,show (bare specifier).fieldWidth.value = 0 from rfl,Nat.zero_sub,List.replicate_zero,List.append_nil,
    List.nil_append,ite_self]

theorem bare_prints (specifier : Specifier) (num : BitVec 32) : Prints (bare specifier) num ((bare specifier).body num) := by
  rw [← bare_text]
  exact directive_prints (bare_legal specifier) (by simp [bare]) num

theorem bare_unsigned (specifier : Specifier) (unsigned : specifier ≠ .d ∧ specifier ≠ .i) (num : BitVec 32) :
    (bare specifier).body num = digitText (if specifier = .upperX then ch 'A' else ch 'a') (bare specifier).radix
      (charCountOf num.toInt (bare specifier).passedFlags 0 (bare specifier).radix) num.toInt.natAbs := by
  rw [Directive.body,bodyText,signText,signShown_unsigned unsigned,hexBase_of]
  rfl

-- %x, %X and %p print the magnitude of the argument as an int.
theorem hex_prints (specifier : Specifier) (hex : specifier = .x ∨ specifier = .upperX ∨ specifier = .p) (n : BitVec 32) :
    Prints (bare specifier) n (numeral (digitOf (if specifier = .upperX then ch 'A' else ch 'a')) 16 n.toInt.natAbs) := by
  have unsigned : specifier ≠ .d ∧ specifier ≠ .i := by rcases hex with rfl | rfl | rfl <;> decide
  have radix : (bare specifier).radix = 16 := by rcases hex with rfl | rfl | rfl <;> rfl
  have sign := @signShown_unsigned (bare specifier) unsigned n
  have count := bare_count (directive_passed (bare_legal specifier) n) (by rw [radix]; decide) (unmarked (by simp [bare]))
    (by rw [sign]; exact fun never => absurd never Bool.false_ne_true)
  rw [sign,Bool.toNat_false,Nat.sub_zero,radix] at count
  have printed := bare_prints specifier n
  rw [bare_unsigned specifier unsigned,radix,count,digitText_numeral (by decide)] at printed
  exact printed

def upperValue (c : Byte) : Nat := if c.toNat < 58 then c.toNat-48 else c.toNat-55

theorem upperValue_digit : ∀ d < 16, upperValue (digitOf (ch 'A') d) = d := by decide

theorem hex_equal (upper : Bool) (n m : Nat) : numeral (digitOf (if upper then ch 'A' else ch 'a')) 16 n =
    numeral (digitOf (if upper then ch 'A' else ch 'a')) 16 m ↔ n = m := by
  constructor
  · cases upper with
    | true => exact numeral_injective (by decide) upperValue upperValue_digit
    | false => exact numeral_injective (by decide) hexValue hexValue_digit
  · rintro rfl
    rfl

theorem hex_prints_iff (specifier : Specifier) (hex : specifier = .x ∨ specifier = .upperX ∨ specifier = .p) (n : BitVec 32) :
    Prints (bare specifier) n (numeral (digitOf (if specifier = .upperX then ch 'A' else ch 'a')) 16 n.toNat) ↔ n.toNat ≤ 0x80000000 := by
  have equal := hex_equal (decide (specifier = .upperX)) n.toInt.natAbs n.toNat
  simp only [decide_eq_true_eq] at equal
  rw [prints_iff (hex_prints specifier hex n),equal,eq_comm,natAbs_word_iff]

-- A kernel address, 0xC0100000 with "%x": 3ff00000.
theorem hex_high_half : (kaosVsprintf (fun _ => 0) (bare .x).format [.word 0xC0100000]).map (fun out => stretch out.buffer 0 out.bufferPtr) =
      some [ch '3',ch 'f',ch 'f',ch '0',ch '0',ch '0',ch '0',ch '0'] ∧
    ¬ Prints (bare .x) 0xC0100000 (numeral (digitOf (ch 'a')) 16 0xC0100000) := by
  refine ⟨by decide,?_⟩
  intro printed
  have same := (prints_iff (hex_prints .x (.inl rfl) 0xC0100000)).mp printed
  cases (hex_equal false _ _).mp same

theorem hex_low_half : Prints (bare .x) 0x7f (numeral (digitOf (ch 'a')) 16 0x7f) := (hex_prints_iff .x (.inl rfl) 0x7f).mpr (by decide)

-- %o and %u print octal digits, with a zero in front of more than one.
def octalText (n : Nat) : List Byte := if 8 ≤ n then ch '0'::octal n else octal n

theorem digits_two (many : 1 < radix) (n : Nat) : radix ≤ n ↔ 1 < (Nat.digits radix n).length := by
  have few := Nat.digits_length_le_iff many (k := 1) n
  rw [Nat.pow_one] at few
  omega

theorem octal_count (specifier : Specifier) (octal : specifier = .o ∨ specifier = .u) (n : BitVec 32) :
    charCountOf n.toInt (bare specifier).passedFlags 0 8 = if 8 ≤ n.toInt.natAbs then (lowFirst 8 n.toInt.natAbs).length+1
      else (lowFirst 8 n.toInt.natAbs).length := by
  have unsigned : specifier ≠ .d ∧ specifier ≠ .i := by rcases octal with rfl | rfl <;> decide
  have radix : (bare specifier).radix = 8 := by rcases octal with rfl | rfl <;> rfl
  have passed := directive_passed (bare_legal specifier) n
  have plain := @unmarked (bare specifier) (by simp [bare])
  have extra := extraChars_split n.toInt (bare specifier).passedFlags 8
  rw [radix] at plain
  rw [plain,@signShown_unsigned (bare specifier) unsigned] at extra
  have none : extraChars n.toInt (bare specifier).passedFlags 8 = 0 := extra
  have zero := digits_count 8 n.toInt.natAbs
  have two := digits_two (show 1 < 8 by decide) n.toInt.natAbs
  rw [charCountOf_eq (by decide) passed.low passed.high,none,lowFirst_count,show atLeast 0 = 1 from rfl]
  unfold word
  split
  · split <;> split <;> omega
  · split <;> split <;> split <;> omega

theorem digitText_more (base : Byte) (positive : n ≠ 0) (many : 1 < radix) :
    digitText base radix ((lowFirst radix n).length+1) n = digitOf base 0::numeral (digitOf base) radix n := by
  have form : lowFirst radix n = Nat.digits radix n := if_neg positive
  rw [digitText,numeral,form,lowDigits_digits many (Nat.le_add_right _ 1),Nat.add_sub_cancel_left,List.replicate_one,List.map_append,List.reverse_append]
  rfl

theorem octal_prints (specifier : Specifier) (octal : specifier = .o ∨ specifier = .u) (n : BitVec 32) :
    Prints (bare specifier) n (octalText n.toInt.natAbs) := by
  have unsigned : specifier ≠ .d ∧ specifier ≠ .i := by rcases octal with rfl | rfl <;> decide
  have radix : (bare specifier).radix = 8 := by rcases octal with rfl | rfl <;> rfl
  have lower : specifier ≠ .upperX := by rcases octal with rfl | rfl <;> decide
  have printed := bare_prints specifier n
  rw [bare_unsigned specifier unsigned,radix,octal_count specifier octal,if_neg lower] at printed
  rw [octalText]
  split
  · rename_i several
    rw [if_pos several,digitText_more _ (by omega) (by decide)] at printed
    exact printed
  · rename_i single
    rw [if_neg single,digitText_numeral (by decide)] at printed
    exact printed

theorem digit_nonzero : ∀ d < 10, d ≠ 0 → digitOf (ch 'a') d ≠ ch '0' := by decide

theorem numeral_leads (many : 1 < radix) (few : radix ≤ 10) (positive : n ≠ 0) (text : List Byte) :
    ch '0'::text ≠ numeral (digitOf (ch 'a')) radix n := by
  obtain ⟨d,digits,shape,leads⟩ := lowFirst_highest radix positive
  have small : d < radix := by
    refine lowFirst_small many (n := n) (List.mem_reverse.mp ?_)
    rw [shape]
    exact List.mem_cons_self
  intro same
  rw [numeral,← List.map_reverse,shape,List.map_cons] at same
  exact digit_nonzero d (by omega) leads (List.cons.inj same).1.symm

theorem octalText_iff (few : radix = 8 ∨ radix = 10) (n : BitVec 32) :
    octalText n.toInt.natAbs = numeral (digitOf (ch 'a')) radix n.toNat ↔ n.toNat ≤ 7 := by
  have many : 1 < radix := by omega
  have absolute := natAbs_word n
  constructor
  · intro same
    by_contra large
    unfold octalText at same
    split at same
    · exact numeral_leads many (by omega) (by omega) _ same
    · rename_i single
      -- One digit, for a number close to 2^32.
      have close : 10 ≤ n.toNat := by
        rw [absolute] at single
        split at single <;> omega
      have long := congrArg List.length same
      rw [octal,numeral_length,numeral_length,lowFirst_count,lowFirst_count] at long
      have one := digits_two (show 1 < 8 by decide) n.toInt.natAbs
      have two := digits_two many n.toNat
      split at long <;> split at long <;> omega
  · intro small
    have equal : n.toInt.natAbs = n.toNat := by
      rw [absolute,if_pos (by omega)]
    have single : ∀ m < 8, octalText m = numeral (digitOf (ch 'a')) 8 m ∧ octalText m = numeral (digitOf (ch 'a')) 10 m := by
      intro m below
      rw [octalText,if_neg (by omega)]
      refine ⟨rfl,?_⟩
      interval_cases m <;> simp [octal,numeral,lowFirst]
    rw [equal]
    rcases few with rfl | rfl
    · exact (single n.toNat (by omega)).1
    · exact (single n.toNat (by omega)).2

theorem unsigned_prints_iff (n : BitVec 32) : (Prints (bare .u) n (decimal n.toNat) ↔ n.toNat ≤ 7) ∧
    (Prints (bare .o) n (octal n.toNat) ↔ n.toNat ≤ 7) := by
  refine ⟨?_,?_⟩
  · rw [prints_iff (octal_prints .u (.inr rfl) n)]
    exact octalText_iff (.inr rfl) n
  · rw [prints_iff (octal_prints .o (.inl rfl) n)]
    exact octalText_iff (.inl rfl) n

-- 10 with "%u" and with "%o": 012.
theorem unsigned_ten : (kaosVsprintf (fun _ => 0) (bare .u).format [.word 10]).map (fun out => stretch out.buffer 0 out.bufferPtr) =
      some [ch '0',ch '1',ch '2'] ∧
    ¬ Prints (bare .u) 10 (decimal 10) ∧ ¬ Prints (bare .o) 10 (octal 10) := by
  refine ⟨by decide,?_,?_⟩
  · intro printed
    have same := (octalText_iff (.inr rfl) 10).mp ((prints_iff (octal_prints .u (.inr rfl) 10)).mp printed)
    exact absurd same (by decide)
  · intro printed
    have same := (octalText_iff (.inl rfl) 10).mp ((prints_iff (octal_prints .o (.inl rfl) 10)).mp printed)
    exact absurd same (by decide)

end KaracaOS.PrintedNumbers
