import KaracaOS.Conversions
import KaracaOS.StepRuns

namespace KaracaOS.Directives
open ByteMemory Numerals Printers Conversions

inductive Flag where
  | leftJustify | beginWithSign | padNoSign | altForm | padWithZeroes
  deriving DecidableEq

def Flag.char : Flag → Byte
  | .leftJustify => ch '-'
  | .beginWithSign => ch '+'
  | .padNoSign => 0x20
  | .altForm => ch '#'
  | .padWithZeroes => ch '0'

def Flag.bit : Flag → BitVec 32
  | .leftJustify => flagLeftJustify
  | .beginWithSign => flagBeginWithSign
  | .padNoSign => flagPadNoSign
  | .altForm => flagAltForm
  | .padWithZeroes => flagPadWithZeroes

-- A width or a precision: left out, written out, or '*' and an argument.
inductive Size where
  | absent
  | digits (n : Nat)
  | star (n : Nat)
  deriving DecidableEq

def Size.value : Size → Nat
  | .absent => 0
  | .digits n | .star n => n

def decimal (n : Nat) : List Byte := numeral (digitOf (ch 'a')) 10 n

def Size.text : Size → List Byte
  | .absent => []
  | .digits n => decimal n
  | .star _ => [ch '*']

def Size.args : Size → List Arg
  | .absent | .digits _ => []
  | .star n => [.word (BitVec.ofNat 32 n)]

inductive Specifier where
  | d | i | o | u | x | upperX | p
  deriving DecidableEq

def Specifier.char : Specifier → Byte
  | .d => ch 'd'
  | .i => ch 'i'
  | .o => ch 'o'
  | .u => ch 'u'
  | .x => ch 'x'
  | .upperX => ch 'X'
  | .p => ch 'p'

structure Directive where
  flags : List Flag
  fieldWidth : Size
  precision : Size
  specifier : Specifier
  deriving DecidableEq

-- A precision that is there has a dot before it.
def Size.dotted : Size → List Byte
  | .absent => []
  | size => ch '.'::size.text

def Directive.format (d : Directive) : List Byte :=
  ch '%'::(d.flags.map Flag.char++(d.fieldWidth.text++(d.precision.dotted++[d.specifier.char])))

def Directive.args (d : Directive) : List Arg := d.fieldWidth.args++d.precision.args

-- Sizes are values of an int that are not negative; a width is not written as
-- 0, which is a flag.
structure Directive.Legal (d : Directive) : Prop where
  width : d.fieldWidth.value < 2147483648
  precision : d.precision.value < 2147483648
  written : d.fieldWidth ≠ .digits 0

def orFlags (bits : BitVec 32) (flags : List Flag) : BitVec 32 := flags.foldl (fun bits flag => bits ||| flag.bit) bits

def Size.mark (bits : BitVec 32) : Size → BitVec 32
  | .absent => bits
  | _ => bits ||| flagPrecisionDefined

def Directive.bits (d : Directive) : BitVec 32 := d.precision.mark (orFlags 0 d.flags)

-- One round of a scan that has not come to its end.
def round (s : Scan) (_ : Unit) : Option Scan :=
  match s.formatPtr with
  | [] => none
  | _::ptr => ((widthStage (flagsStage {s with formatPtr := ptr})).bind precisionStage).map lengthStage

-- Rounds that end in front of the specifier.
inductive Walks : Nat → Scan → Scan → Prop where
  | done : Walks 0 s s
  | round : Directives.round s () = some middle → middle.state ≠ .specifier → Walks rounds middle t → Walks (rounds+1) s t

variable {out next : Out} {args : List Arg} {rest ptr : List Byte} {bits : BitVec 32} {fieldWidth precision fuel rounds : Nat}
  {state : FormatState} {s t : Scan}

theorem Walks.trans (one : Walks rounds s middle) (two : Walks more middle t) : Walks (rounds+more) s t := by
  induction one with
  | done => rwa [Nat.zero_add]
  | round ran early _ ih =>
    rw [Nat.add_right_comm]
    exact .round ran early (ih two)

theorem specifierStage_early (early : s.state ≠ .specifier) : specifierStage s out = some (.again s) := by
  unfold specifierStage
  simp [early]

theorem directiveLoop_round (fuel : Nat) (s : Scan) (out : Out) : directiveLoop (fuel+1) s out =
    (round s ()).bind fun t => (specifierStage t out).bind fun
      | .again t => directiveLoop fuel t out
      | .finished ptr left out => some (ptr,left,out) := by
  rw [directiveLoop,Directives.round]
  cases s.formatPtr with
  | nil => rfl
  | cons first ptr => rw [Option.bind_map]; rfl

theorem directiveLoop_walks (walk : Walks rounds s t) (fuel : Nat) (out : Out) : directiveLoop (fuel+rounds) s out = directiveLoop fuel t out := by
  induction walk with
  | done => rfl
  | round ran early _ ih =>
    rw [← Nat.add_assoc,directiveLoop_round,ran,Option.bind_some,specifierStage_early early,Option.bind_some]
    exact ih

theorem walks_one (cut : s.formatPtr = first::ptr) (ran : (widthStage (flagsStage {s with formatPtr := ptr})).bind precisionStage = some t)
    (early : t.state = .flags ∨ t.state = .fieldWidth ∨ t.state = .precision) : Walks 1 s t := by
  have sameLength : lengthStage t = t := by
    unfold lengthStage
    rcases early with same | same | same <;> simp [same]
  refine .round ?_ ?_ .done
  · rw [Directives.round,cut]
    dsimp only
    rw [ran,Option.map_some,sameLength]
  · rcases early with same | same | same <;> rw [same] <;> exact nofun

theorem flag_walk (flag : Flag) (first : Byte) (rest : List Byte) (args : List Arg) (bits : BitVec 32) :
    Walks 1 ⟨first::flag.char::rest,args,.flags,bits,0,0,.none⟩ ⟨flag.char::rest,args,.flags,bits ||| flag.bit,0,0,.none⟩ := by
  refine walks_one rfl ?_ (.inl rfl)
  cases flag <;> rfl

-- The character at formatPtr is the one read last.
theorem flags_walk (flags : List Flag) (first : Byte) (rest : List Byte) (args : List Arg) (bits : BitVec 32) : ∃ last,
    Walks flags.length ⟨first::(flags.map Flag.char++rest),args,.flags,bits,0,0,.none⟩ ⟨last::rest,args,.flags,orFlags bits flags,0,0,.none⟩ := by
  induction flags generalizing first bits with
  | nil => exact ⟨first,.done⟩
  | cons flag flags ih =>
    obtain ⟨last,walk⟩ := ih flag.char (bits ||| flag.bit)
    refine ⟨last,?_⟩
    rw [List.length_cons,Nat.add_comm]
    exact (flag_walk flag first _ args bits).trans walk

theorem digit_chars : ∀ d < 10, isDigit (digitOf (ch 'a') d) = true ∧ digitOf (ch 'a') d ≠ ch '-' ∧ digitOf (ch 'a') d ≠ ch '+' ∧
    digitOf (ch 'a') d ≠ 0x20 ∧ digitOf (ch 'a') d ≠ ch '#' ∧ (digitOf (ch 'a') d = ch '0' → d = 0) ∧
    (digitOf (ch 'a') d).toNat-48 = d := by decide

theorem flagsStage_other {s : Scan} (reading : s.state = .flags) (minus : s.char ≠ ch '-') (plus : s.char ≠ ch '+') (blank : s.char ≠ 0x20)
    (sharp : s.char ≠ ch '#') (zero : s.char ≠ ch '0') : flagsStage s = {s with state := .fieldWidth} := by
  rw [flagsStage,if_neg (fun other => other reading),if_neg minus,if_neg plus,if_neg blank,if_neg sharp,if_neg zero]

theorem widthDigit_walk (small : d < 10) (reading : state = .flags ∧ d ≠ 0 ∨ state = .fieldWidth) (first : Byte) (rest : List Byte)
    (args : List Arg) (bits : BitVec 32) (fieldWidth precision : Nat) :
    Walks 1 ⟨first::digitOf (ch 'a') d::rest,args,state,bits,fieldWidth,precision,.none⟩
      ⟨digitOf (ch 'a') d::rest,args,.fieldWidth,bits,(fieldWidth*10+d) % word,precision,.none⟩ := by
  obtain ⟨digit,minus,plus,blank,sharp,zero,value⟩ := digit_chars d small
  refine walks_one rfl ?_ (.inr (.inl rfl))
  have stage : flagsStage ⟨digitOf (ch 'a') d::rest,args,state,bits,fieldWidth,precision,.none⟩ =
      ⟨digitOf (ch 'a') d::rest,args,.fieldWidth,bits,fieldWidth,precision,.none⟩ := by
    rcases reading with ⟨rfl,positive⟩ | rfl
    · exact flagsStage_other rfl minus plus blank sharp (fun same => positive (zero same))
    · rfl
  show (widthStage (flagsStage ⟨digitOf (ch 'a') d::rest,args,state,bits,fieldWidth,precision,.none⟩)).bind precisionStage = _
  rw [stage]
  simp [widthStage,precisionStage,Scan.char,digit,appendDigit,value]

-- Horner's rule in a uint32_t, from the highest digit.
def horner (n : Nat) (digits : List Nat) : Nat := digits.foldl (fun n d => (n*10+d) % word) n

theorem widthDigits_walk (digits : List Nat) (small : ∀ d ∈ digits, d < 10) (first : Byte) (rest : List Byte) (args : List Arg)
    (bits : BitVec 32) (fieldWidth precision : Nat) : ∃ last,
    Walks digits.length ⟨first::(digits.map (digitOf (ch 'a'))++rest),args,.fieldWidth,bits,fieldWidth,precision,.none⟩
      ⟨last::rest,args,.fieldWidth,bits,horner fieldWidth digits,precision,.none⟩ := by
  induction digits generalizing first fieldWidth with
  | nil => exact ⟨first,.done⟩
  | cons d digits ih =>
    obtain ⟨last,walk⟩ := ih (fun d member => small d (List.mem_cons_of_mem _ member)) (digitOf (ch 'a') d) ((fieldWidth*10+d) % word)
    refine ⟨last,?_⟩
    rw [List.length_cons,Nat.add_comm]
    exact (widthDigit_walk (small d List.mem_cons_self) (.inr rfl) first _ args bits fieldWidth precision).trans walk

theorem widthNumber_walk (small : ∀ d ∈ first::others, d < 10) (leads : first ≠ 0) (before : Byte) (rest : List Byte) (args : List Arg)
    (bits : BitVec 32) : ∃ last,
    Walks (others.length+1) ⟨before::((first::others).map (digitOf (ch 'a'))++rest),args,.flags,bits,0,0,.none⟩
      ⟨last::rest,args,.fieldWidth,bits,horner 0 (first::others),0,.none⟩ := by
  obtain ⟨last,walk⟩ := widthDigits_walk others (fun d member => small d (List.mem_cons_of_mem _ member)) (digitOf (ch 'a') first) rest args bits
    ((0*10+first) % word) 0
  refine ⟨last,?_⟩
  rw [Nat.add_comm]
  exact (widthDigit_walk (small first List.mem_cons_self) (.inl ⟨rfl,leads⟩) before _ args bits 0 0).trans walk

theorem word_value (small : n < 2147483648) : (BitVec.ofNat 32 n).toNat = n := Nat.mod_eq_of_lt (by omega)

theorem widthStar_walk (reading : state = .flags ∨ state = .fieldWidth) (first : Byte) (rest : List Byte) (w : BitVec 32)
    (args : List Arg) (bits : BitVec 32) (fieldWidth precision : Nat) :
    Walks 1 ⟨first::ch '*'::rest,.word w::args,state,bits,fieldWidth,precision,.none⟩
      ⟨ch '*'::rest,args,.fieldWidth,bits,w.toNat,precision,.none⟩ := by
  refine walks_one rfl ?_ (.inr (.inl rfl))
  rcases reading with rfl | rfl <;> rfl

theorem horner_word (digits : List Nat) (n : Nat) :
    horner (n % word) digits.reverse = (n*10^digits.length+Nat.ofDigits 10 digits) % word := by
  induction digits generalizing n with
  | nil => simp [horner]
  | cons d digits ih =>
    have last : horner (n % word) (d::digits).reverse = (horner (n % word) digits.reverse*10+d) % word := by
      rw [horner,List.reverse_cons,List.foldl_append]
      rfl
    rw [last,ih,List.length_cons,Nat.ofDigits_cons]
    have step : (n*10^digits.length+Nat.ofDigits 10 digits)*10+d = n*10^(digits.length+1)+(d+10*Nat.ofDigits 10 digits) := by ring
    rw [← step]
    unfold word
    omega

theorem horner_decimal (n : Nat) : horner 0 (lowFirst 10 n).reverse = n % word := by
  have value := horner_word (lowFirst 10 n) 0
  rw [Nat.zero_mul,Nat.zero_add,ofDigits_lowFirst] at value
  exact value

theorem decimal_digits (n : Nat) : decimal n = (lowFirst 10 n).reverse.map (digitOf (ch 'a')) := by
  rw [decimal,numeral,List.map_reverse]

theorem decimal_small (member : d ∈ (lowFirst 10 n).reverse) : d < 10 := lowFirst_small (by decide) (List.mem_reverse.mp member)

-- The state behind the width: still among the flags when there was none.
theorem width_walk (size : Size) (small : size.value < 2147483648) (written : size ≠ .digits 0) (first : Byte) (rest : List Byte)
    (args : List Arg) (bits : BitVec 32) : ∃ state last, (state = .flags ∨ state = .fieldWidth) ∧
      Walks size.text.length ⟨first::(size.text++rest),size.args++args,.flags,bits,0,0,.none⟩
        ⟨last::rest,args,state,bits,size.value,0,.none⟩ := by
  cases size with
  | absent => exact ⟨.flags,first,.inl rfl,.done⟩
  | star n =>
    have walk := widthStar_walk (.inl rfl) first rest (BitVec.ofNat 32 n) args bits 0 0
    rw [@word_value n small] at walk
    exact ⟨.fieldWidth,_,.inr rfl,walk⟩
  | digits n =>
    obtain ⟨d,digits,shape,leads⟩ := @lowFirst_highest n 10 (by
      rintro rfl
      exact written rfl)
    have few : ∀ e ∈ d::digits, e < 10 := by
      rw [← shape]
      exact fun e member => decimal_small member
    have below : n < 2147483648 := small
    have value := horner_decimal n
    rw [shape,Nat.mod_eq_of_lt (show n < word by unfold word; omega)] at value
    obtain ⟨last,walk⟩ := widthNumber_walk few leads first rest args bits
    refine ⟨.fieldWidth,last,.inr rfl,?_⟩
    show Walks (decimal n).length ⟨first::(decimal n++rest),args,.flags,bits,0,0,.none⟩ _
    rw [decimal_digits,shape,List.length_map,List.length_cons]
    rw [value] at walk
    exact walk

theorem precisionDigit_walk (small : d < 10) (first : Byte) (rest : List Byte) (args : List Arg) (bits : BitVec 32) (fieldWidth precision : Nat) :
    Walks 1 ⟨first::digitOf (ch 'a') d::rest,args,.precision,bits,fieldWidth,precision,.none⟩
      ⟨digitOf (ch 'a') d::rest,args,.precision,bits ||| flagPrecisionDefined,fieldWidth,(precision*10+d) % word,.none⟩ := by
  obtain ⟨digit,_,_,_,_,_,value⟩ := digit_chars d small
  refine walks_one rfl ?_ (.inr (.inr rfl))
  simp [flagsStage,widthStage,precisionStage,Scan.char,digit,appendDigit,value]

theorem precisionDigits_walk (digits : List Nat) (small : ∀ d ∈ digits, d < 10) (first : Byte) (rest : List Byte) (args : List Arg)
    (bits : BitVec 32) (fieldWidth precision : Nat) : ∃ last,
    Walks digits.length ⟨first::(digits.map (digitOf (ch 'a'))++rest),args,.precision,bits ||| flagPrecisionDefined,fieldWidth,precision,.none⟩
      ⟨last::rest,args,.precision,bits ||| flagPrecisionDefined,fieldWidth,horner precision digits,.none⟩ := by
  induction digits generalizing first precision with
  | nil => exact ⟨first,.done⟩
  | cons d digits ih =>
    have step := precisionDigit_walk (small d List.mem_cons_self) first (digits.map (digitOf (ch 'a'))++rest) args
      (bits ||| flagPrecisionDefined) fieldWidth precision
    rw [BitVec.or_assoc,BitVec.or_self] at step
    obtain ⟨last,walk⟩ := ih (fun d member => small d (List.mem_cons_of_mem _ member)) (digitOf (ch 'a') d) ((precision*10+d) % word)
    refine ⟨last,?_⟩
    rw [List.length_cons,Nat.add_comm]
    exact step.trans walk

theorem dot_stage (reading : state = .flags ∨ state = .fieldWidth) (rest : List Byte) (args : List Arg) (bits : BitVec 32) (fieldWidth : Nat) :
    widthStage (flagsStage ⟨ch '.'::rest,args,state,bits,fieldWidth,0,.none⟩) = some ⟨rest,args,.precision,bits,fieldWidth,0,.none⟩ := by
  rcases reading with rfl | rfl <;> rfl

theorem dotDigit_walk (small : d < 10) (reading : state = .flags ∨ state = .fieldWidth) (first : Byte) (rest : List Byte)
    (args : List Arg) (bits : BitVec 32) (fieldWidth : Nat) :
    Walks 1 ⟨first::ch '.'::digitOf (ch 'a') d::rest,args,state,bits,fieldWidth,0,.none⟩
      ⟨digitOf (ch 'a') d::rest,args,.precision,bits ||| flagPrecisionDefined,fieldWidth,d % word,.none⟩ := by
  obtain ⟨digit,_,_,_,_,_,value⟩ := digit_chars d small
  refine walks_one rfl ?_ (.inr (.inr rfl))
  rw [dot_stage reading]
  simp [precisionStage,Scan.char,digit,appendDigit,value]

theorem dotStar_walk (reading : state = .flags ∨ state = .fieldWidth) (first : Byte) (rest : List Byte) (w : BitVec 32)
    (args : List Arg) (bits : BitVec 32) (fieldWidth : Nat) :
    Walks 1 ⟨first::ch '.'::ch '*'::rest,.word w::args,state,bits,fieldWidth,0,.none⟩
      ⟨ch '*'::rest,args,.precision,bits ||| flagPrecisionDefined,fieldWidth,w.toNat,.none⟩ := by
  refine walks_one rfl ?_ (.inr (.inr rfl))
  rw [dot_stage reading]
  rfl

theorem precisionNumber_walk (small : ∀ d ∈ first::others, d < 10) (reading : state = .flags ∨ state = .fieldWidth) (before : Byte)
    (rest : List Byte) (args : List Arg) (bits : BitVec 32) (fieldWidth : Nat) : ∃ last,
    Walks (others.length+1) ⟨before::ch '.'::((first::others).map (digitOf (ch 'a'))++rest),args,state,bits,fieldWidth,0,.none⟩
      ⟨last::rest,args,.precision,bits ||| flagPrecisionDefined,fieldWidth,horner 0 (first::others),.none⟩ := by
  have step := dotDigit_walk (small first List.mem_cons_self) reading before (others.map (digitOf (ch 'a'))++rest) args bits fieldWidth
  obtain ⟨last,walk⟩ := precisionDigits_walk others (fun d member => small d (List.mem_cons_of_mem _ member)) (digitOf (ch 'a') first) rest args
    bits fieldWidth (first % word)
  refine ⟨last,?_⟩
  rw [horner,List.foldl_cons,Nat.zero_mul,Nat.zero_add,← horner,Nat.add_comm]
  exact step.trans walk

theorem precision_walk (size : Size) (small : size.value < 2147483648) (reading : state = .flags ∨ state = .fieldWidth) (first : Byte)
    (rest : List Byte) (args : List Arg) (bits : BitVec 32) (fieldWidth : Nat) :
    ∃ state' last rounds, (state' = .flags ∨ state' = .fieldWidth ∨ state' = .precision) ∧ rounds ≤ size.dotted.length ∧
      Walks rounds ⟨first::(size.dotted++rest),size.args++args,state,bits,fieldWidth,0,.none⟩
        ⟨last::rest,args,state',size.mark bits,fieldWidth,size.value,.none⟩ := by
  cases size with
  | absent =>
    refine ⟨state,first,0,?_,Nat.zero_le _,.done⟩
    rcases reading with known | known
    · exact .inl known
    · exact .inr (.inl known)
  | star n =>
    have walk := dotStar_walk reading first rest (BitVec.ofNat 32 n) args bits fieldWidth
    rw [@word_value n small] at walk
    exact ⟨.precision,_,1,.inr (.inr rfl),Nat.le_add_left _ _,walk⟩
  | digits n =>
    have value := horner_decimal n
    have few : ∀ e ∈ (lowFirst 10 n).reverse, e < 10 := fun e member => decimal_small member
    have below : n < 2147483648 := small
    have text : (Size.digits n).dotted = ch '.'::(lowFirst 10 n).reverse.map (digitOf (ch 'a')) := congrArg (ch '.'::·) (decimal_digits n)
    rw [text]
    rw [Nat.mod_eq_of_lt (show n < word by unfold word; omega)] at value
    cases shape : (lowFirst 10 n).reverse with
    | nil =>
      have some_ := lowFirst_some 10 n
      rw [List.reverse_eq_nil_iff.mp shape] at some_
      exact absurd rfl some_
    | cons d digits =>
      rw [shape] at value few
      obtain ⟨last,walk⟩ := precisionNumber_walk few reading first rest args bits fieldWidth
      rw [value] at walk
      exact ⟨.precision,last,digits.length+1,.inr (.inr rfl),by simp,walk⟩

theorem directiveLoop_last (stepped : round s () = some t) (ran : specifierStage t out = some (.finished ptr left next)) (fuel : Nat) :
    directiveLoop (fuel+1) s out = some (ptr,left,next) := by
  rw [directiveLoop_round,stepped,Option.bind_some,ran]
  rfl

theorem specifier_round (specifier : Specifier) (reading : state = .flags ∨ state = .fieldWidth ∨ state = .precision) (first : Byte)
    (rest : List Byte) (args : List Arg) (bits : BitVec 32) (fieldWidth precision : Nat) :
    round ⟨first::specifier.char::rest,args,state,bits,fieldWidth,precision,.none⟩ () =
      some ⟨specifier.char::rest,args,.specifier,bits,fieldWidth,precision,.none⟩ := by
  rcases reading with rfl | rfl | rfl <;> cases specifier <;> rfl

def Directive.radix (d : Directive) : Nat :=
  match d.specifier with
  | .d | .i => 10
  | .o | .u => 8
  | .x | .upperX | .p => 16

def Directive.passedFlags (d : Directive) : BitVec 32 :=
  match d.specifier with
  | .d | .i => d.bits
  | .o | .u => d.bits ||| flagUnsigned
  | .x | .p => d.bits ||| flagUnsigned ||| 0
  | .upperX => d.bits ||| flagUnsigned ||| flagUppercaseHex

def Directive.converted (d : Directive) (num : BitVec 32) (out : Out) : Out :=
  let (buffer,printed) :=
    convertAnyIntToStr num.toInt d.passedFlags d.fieldWidth.value d.precision.value d.radix out.bufferPtr out.buffer
  {out with buffer := buffer,bufferPtr := out.bufferPtr+printed}

theorem specifier_converts (d : Directive) (num : BitVec 32) (rest : List Byte) (args : List Arg) (out : Out) :
    specifierStage ⟨d.specifier.char::rest,.word num::args,.specifier,d.bits,d.fieldWidth.value,d.precision.value,.none⟩ out =
      some (.finished rest args (d.converted num out)) := by
  obtain ⟨flags,fieldWidth,precision,specifier⟩ := d
  cases specifier <;> rfl

theorem directive_converts {d : Directive} (legal : d.Legal) (num : BitVec 32) (rest : List Byte) (args : List Arg) (out : Out) (fuel : Nat) :
    formatLoop (fuel+1) (d.format++rest) (d.args++.word num::args) out = formatLoop fuel rest args (d.converted num out) := by
  obtain ⟨first,flagged⟩ := flags_walk d.flags (ch '%') (d.fieldWidth.text++(d.precision.dotted++(d.specifier.char::rest)))
    (d.fieldWidth.args++(d.precision.args++.word num::args)) 0
  obtain ⟨state,second,reading,width⟩ := width_walk d.fieldWidth legal.width legal.written first (d.precision.dotted++(d.specifier.char::rest))
    (d.precision.args++.word num::args) (orFlags 0 d.flags)
  obtain ⟨_,third,rounds,ended,few,precision⟩ := precision_walk d.precision legal.precision reading second (d.specifier.char::rest)
    (.word num::args) (orFlags 0 d.flags) d.fieldWidth.value
  have walk := (flagged.trans width).trans precision
  have form : d.format++rest = ch '%'::(d.flags.map Flag.char++(d.fieldWidth.text++(d.precision.dotted++(d.specifier.char::rest)))) := by
    simp [Directive.format]
  have given : d.args++.word num::args = d.fieldWidth.args++(d.precision.args++.word num::args) := List.append_assoc _ _ _
  have long : (d.flags.map Flag.char++(d.fieldWidth.text++(d.precision.dotted++(d.specifier.char::rest)))).length+1 =
      d.precision.dotted.length-rounds+rest.length+1+1+(d.flags.length+d.fieldWidth.text.length+rounds) := by
    simp
    omega
  rw [form,given,formatLoop]
  dsimp only
  rw [if_pos rfl,long,directiveLoop_walks walk,show d.precision.mark (orFlags 0 d.flags) = d.bits from rfl,
    directiveLoop_last (specifier_round d.specifier ended third rest (.word num::args) _ _ _) (specifier_converts d num rest args out)]
  rfl

-- What a directive makes of its argument: within a format, the text is
-- appended; alone, it is all that kaos_vsprintf writes before the NUL.
structure Prints (d : Directive) (num : BitVec 32) (text : List Byte) : Prop where
  within : ∀ rest args out fuel, ∃ next,
    formatLoop (fuel+1) (d.format++rest) (d.args++.word num::args) out = formatLoop fuel rest args next ∧ Wrote out next text
  alone : ∀ str, ∃ out, kaosVsprintf str d.format (d.args++[.word num]) = some out ∧ out.bufferPtr = text.length ∧
    stretch out.buffer 0 text.length = text ∧ out.buffer text.length = 0

theorem prints_of {d : Directive} (legal : d.Legal) (num : BitVec 32) (text : List Byte)
    (wrote : ∀ out, Wrote out (d.converted num out) text) : Prints d num text := by
  refine ⟨fun rest args out fuel => ⟨_,directive_converts legal num rest args out fuel,wrote out⟩,?_⟩
  intro str
  have wrote := wrote ⟨str,0,[]⟩
  have ran : formatLoop (d.format.length+1) d.format (d.args++[.word num]) ⟨str,0,[]⟩ = some (d.converted num ⟨str,0,[]⟩) := by
    have converts := directive_converts legal num [] [] ⟨str,0,[]⟩ d.format.length
    rw [List.append_nil] at converts
    rw [converts]
    rfl
  have place : (d.converted num ⟨str,0,[]⟩).bufferPtr = text.length := wrote.place.trans (Nat.zero_add _)
  let last := d.converted num ⟨str,0,[]⟩
  refine ⟨{last with buffer := store last.buffer last.bufferPtr 0},by rw [kaosVsprintf,ran]; rfl,place,?_,?_⟩
  · have unchanged : Agree (store last.buffer last.bufferPtr 0) last.buffer 0 text.length :=
      fun i _ high => store_other _ (by rw [place]; omega)
    rw [stretch_congr unchanged]
    exact wrote.text
  · rw [← place]
    exact store_same _ _ _

theorem Prints.unique (one : Prints d num first) (two : Prints d num second) : first = second := by
  obtain ⟨out,ran,place,text,_⟩ := one.alone (fun _ => 0)
  obtain ⟨out',ran',place',text',_⟩ := two.alone (fun _ => 0)
  rw [ran] at ran'
  cases Option.some.inj ran'
  rw [← text,← text',← place,← place']

theorem prints_iff (known : Prints d num actual) : Prints d num text ↔ actual = text := by
  constructor
  · exact known.unique
  · rintro rfl
    exact known

theorem has_or (left right flag : BitVec 32) : has (left ||| right) flag = (has left flag || has right flag) := by
  have split_ : (left ||| right) &&& flag = (left &&& flag) ||| (right &&& flag) := by
    ext i
    simp only [BitVec.getElem_and,BitVec.getElem_or,Bool.and_or_distrib_right]
  rw [has,split_,has,has]
  by_cases one : left &&& flag = 0
  · simp [one]
  · have both : (left &&& flag) ||| (right &&& flag) ≠ 0 := fun none => one (BitVec.or_eq_zero_iff.mp none).1
    rw [bne_iff_ne.mpr both,bne_iff_ne.mpr one,Bool.true_or]

theorem has_bit (one two : Flag) : has one.bit two.bit = decide (one = two) := by
  cases one <;> cases two <;> decide

theorem bit_internal (flag : Flag) : has flag.bit flagUnsigned = false ∧ has flag.bit flagUppercaseHex = false := by
  cases flag <;> decide

theorem has_orFlags (flags : List Flag) (bits : BitVec 32) (flag : Flag) :
    has (orFlags bits flags) flag.bit = (has bits flag.bit || decide (flag ∈ flags)) := by
  induction flags generalizing bits with
  | nil => simp [orFlags]
  | cons head flags ih =>
    show has (orFlags (bits ||| head.bit) flags) flag.bit = _
    rw [ih,has_or,has_bit,Bool.or_assoc]
    simp [eq_comm]

theorem orFlags_internal (flags : List Flag) (bits : BitVec 32) :
    has (orFlags bits flags) flagUnsigned = has bits flagUnsigned ∧ has (orFlags bits flags) flagUppercaseHex = has bits flagUppercaseHex := by
  induction flags generalizing bits with
  | nil => exact ⟨rfl,rfl⟩
  | cons head flags ih =>
    obtain ⟨unsigned,upper⟩ := ih (bits ||| head.bit)
    show has (orFlags (bits ||| head.bit) flags) flagUnsigned = _ ∧ has (orFlags (bits ||| head.bit) flags) flagUppercaseHex = _
    rw [unsigned,upper,has_or,has_or,(bit_internal head).1,(bit_internal head).2,Bool.or_false,Bool.or_false]
    exact ⟨rfl,rfl⟩

theorem has_flag (d : Directive) (flag : Flag) : has d.passedFlags flag.bit = decide (flag ∈ d.flags) := by
  have marks : has flagUnsigned flag.bit = false ∧ has flagUppercaseHex flag.bit = false ∧ has flagPrecisionDefined flag.bit = false ∧
      has 0 flag.bit = false := by cases flag <;> decide
  obtain ⟨unsigned,upper,precise,none⟩ := marks
  have bits : has d.bits flag.bit = decide (flag ∈ d.flags) := by
    have read := has_orFlags d.flags 0 flag
    rw [none,Bool.false_or] at read
    unfold Directive.bits Size.mark
    split
    · exact read
    · rw [has_or,read,precise,Bool.or_false]
  unfold Directive.passedFlags
  split <;> simp only [has_or,bits,unsigned,upper,none,Bool.or_false]

theorem has_internal (d : Directive) : has d.passedFlags flagUnsigned = decide (d.specifier ≠ .d ∧ d.specifier ≠ .i) ∧
    has d.passedFlags flagUppercaseHex = decide (d.specifier = .upperX) := by
  have marks : has flagUnsigned flagUnsigned = true ∧ has flagUnsigned flagUppercaseHex = false ∧ has flagUppercaseHex flagUnsigned = false ∧
      has flagUppercaseHex flagUppercaseHex = true ∧ has 0 flagUnsigned = false ∧ has 0 flagUppercaseHex = false ∧
      has flagPrecisionDefined flagUnsigned = false ∧ has flagPrecisionDefined flagUppercaseHex = false := by decide
  obtain ⟨oneOne,oneTwo,twoOne,twoTwo,noneOne,noneTwo,preciseOne,preciseTwo⟩ := marks
  obtain ⟨unsigned,upper⟩ := orFlags_internal d.flags 0
  have bits : has d.bits flagUnsigned = false ∧ has d.bits flagUppercaseHex = false := by
    unfold Directive.bits Size.mark
    split
    · exact ⟨unsigned.trans noneOne,upper.trans noneTwo⟩
    · rw [has_or,has_or,unsigned,upper,noneOne,noneTwo,preciseOne,preciseTwo]
      exact ⟨rfl,rfl⟩
  obtain ⟨flags,fieldWidth,precision,specifier⟩ := d
  unfold Directive.passedFlags
  cases specifier <;> simp [has_or,bits,oneOne,oneTwo,twoOne,twoTwo]

theorem directive_passed {d : Directive} (legal : d.Legal) (num : BitVec 32) :
    Passed num.toInt d.passedFlags d.fieldWidth.value d.precision.value d.radix := by
  have low := num.le_toInt
  have high := num.toInt_lt
  have width := legal.width
  have precision := legal.precision
  refine ⟨by omega,by omega,by unfold word; omega,by unfold word; omega,?_⟩
  rw [(has_internal d).1]
  obtain ⟨flags,fieldWidth,precision,specifier⟩ := d
  cases specifier <;> simp [Directive.radix]

-- The digits that the count leaves for, with the sign and in their field.
def Directive.body (d : Directive) (num : BitVec 32) : List Byte :=
  bodyText num.toInt d.passedFlags d.radix
    (charCountOf num.toInt d.passedFlags d.precision.value d.radix-(signShown num.toInt d.passedFlags).toNat)

def Directive.text (d : Directive) (num : BitVec 32) : List Byte :=
  justified (decide (.leftJustify ∈ d.flags)) (if .padWithZeroes ∈ d.flags then ch '0' else 0x20) d.fieldWidth.value (d.body num)

theorem directive_prints {d : Directive} (legal : d.Legal) (plain : .altForm ∉ d.flags) (num : BitVec 32) : Prints d num (d.text num) := by
  have passed := directive_passed legal num
  have low := num.le_toInt
  have precision := legal.precision
  have left : has d.passedFlags flagLeftJustify = decide (.leftJustify ∈ d.flags) := has_flag d .leftJustify
  have zeroes : has d.passedFlags flagPadWithZeroes = decide (.padWithZeroes ∈ d.flags) := has_flag d .padWithZeroes
  have unmarked : hexMark d.passedFlags d.radix = false := by
    have alt : has d.passedFlags flagAltForm = decide (.altForm ∈ d.flags) := has_flag d .altForm
    rw [hexMark,alt,decide_eq_false plain,Bool.false_and]
  have extra := passed.extra
  have fits : d.precision.value+extraChars num.toInt d.passedFlags d.radix < word := by
    unfold word
    omega
  obtain ⟨covers,_⟩ := passed.charCount fits
  have pad : padOf d.passedFlags = if .padWithZeroes ∈ d.flags then ch '0' else 0x20 := by
    rw [padOf,zeroes]
    simp
  have size : (d.text num).length = max d.fieldWidth.value (charCountOf num.toInt d.passedFlags d.precision.value d.radix) := by
    rw [extraChars_split] at covers
    rw [Directive.text,justified_length,Directive.body,bodyText_length]
    omega
  refine prints_of legal num _ ?_
  intro out
  obtain ⟨after,ran,text,before⟩ := convert_text passed fits unmarked (by omega) out.bufferPtr out.buffer
  rw [left,pad,← size] at text
  rw [← size] at ran
  rw [Directive.converted,ran]
  exact ⟨rfl,text,before⟩

def fresh (s : Scan) : Prop := ∃ ptr args, s = ⟨ptr,args,.flags,0,0,0,.none⟩

structure Sound (s : Scan) : Prop where
  wide : s.fieldWidth < word
  precise : s.precision < word
  signed : has s.flags flagUnsigned = false

theorem appendDigit_small (n : Nat) (c : Byte) : appendDigit n c < word := Nat.mod_lt _ (by decide)

theorem flagsStage_sound (sound : Sound s) : Sound (flagsStage s) := by
  obtain ⟨wide,precise,signed⟩ := sound
  have marked : ∀ flag : Flag, has (s.flags ||| flag.bit) flagUnsigned = false := by
    intro flag
    rw [has_or,signed,(bit_internal flag).1]
    rfl
  unfold flagsStage
  split
  · exact ⟨wide,precise,signed⟩
  · split
    · exact ⟨wide,precise,marked .leftJustify⟩
    · split
      · exact ⟨wide,precise,marked .beginWithSign⟩
      · split
        · exact ⟨wide,precise,marked .padNoSign⟩
        · split
          · exact ⟨wide,precise,marked .altForm⟩
          · split
            · exact ⟨wide,precise,marked .padWithZeroes⟩
            · exact ⟨wide,precise,signed⟩

theorem widthStage_sound (sound : Sound s) (ran : widthStage s = some t) : Sound t := by
  obtain ⟨wide,precise,signed⟩ := sound
  unfold widthStage at ran
  split at ran
  · cases Option.some.inj ran
    exact ⟨wide,precise,signed⟩
  · split at ran
    · cases Option.some.inj ran
      exact ⟨appendDigit_small _ _,precise,signed⟩
    · split at ran
      · obtain ⟨fetched,_,rfl⟩ := Option.map_eq_some_iff.mp ran
        exact ⟨fetched.1.isLt,precise,signed⟩
      · split at ran
        · cases Option.some.inj ran
          exact ⟨wide,precise,signed⟩
        · cases Option.some.inj ran
          exact ⟨wide,precise,signed⟩

theorem precisionStage_sound (sound : Sound s) (ran : precisionStage s = some t) : Sound t := by
  obtain ⟨wide,precise,signed⟩ := sound
  have marked : has (s.flags ||| flagPrecisionDefined) flagUnsigned = false := by
    rw [has_or,signed]
    decide
  unfold precisionStage at ran
  split at ran
  · cases Option.some.inj ran
    exact ⟨wide,precise,signed⟩
  · split at ran
    · cases Option.some.inj ran
      exact ⟨wide,appendDigit_small _ _,marked⟩
    · split at ran
      · obtain ⟨fetched,_,rfl⟩ := Option.map_eq_some_iff.mp ran
        exact ⟨wide,fetched.1.isLt,marked⟩
      · cases Option.some.inj ran
        exact ⟨wide,precise,signed⟩

theorem lengthStage_sound (sound : Sound s) : Sound (lengthStage s) := by
  unfold lengthStage
  dsimp only
  split
  · exact sound
  · exact ⟨sound.wide,sound.precise,sound.signed⟩

theorem reached_sound (path : StepRuns.Reached fresh round StepRuns.any s) : Sound s := by
  refine path.invariant Sound ?_ ?_
  · rintro _ ⟨ptr,args,rfl⟩
    have zero : 0 < word ∧ has 0 flagUnsigned = false := by decide
    exact ⟨zero.1,zero.1,zero.2⟩
  · intro s _ next sound _ taken
    unfold round at taken
    split at taken
    · cases taken
    · rename_i ptr _
      obtain ⟨t,ran,rfl⟩ := Option.map_eq_some_iff.mp taken
      obtain ⟨middle,width,precision⟩ := Option.bind_eq_some_iff.mp ran
      have stepped : Sound {s with formatPtr := ptr} := ⟨sound.wide,sound.precise,sound.signed⟩
      exact lengthStage_sound (precisionStage_sound (widthStage_sound (flagsStage_sound stepped) width) precision)

theorem vaInteger_range (fetched : vaInteger length args = some (arg,left)) : -9223372036854775808 ≤ arg ∧ arg < 9223372036854775808 := by
  have long : (vaLongLong args).map (fun fetch => (fetch.1.toInt,fetch.2)) = some (arg,left) → -9223372036854775808 ≤ arg ∧ arg < 9223372036854775808 := by
    intro fetched
    obtain ⟨fetch,_,same⟩ := Option.map_eq_some_iff.mp fetched
    cases same
    exact ⟨fetch.1.le_toInt,fetch.1.toInt_lt⟩
  have signed : (vaInt args).map (fun fetch => (fetch.1.toInt,fetch.2)) = some (arg,left) → -9223372036854775808 ≤ arg ∧ arg < 9223372036854775808 := by
    intro fetched
    obtain ⟨fetch,_,same⟩ := Option.map_eq_some_iff.mp fetched
    cases same
    have low := fetch.1.le_toInt
    have high := fetch.1.toInt_lt
    omega
  cases length with
  | longDouble => exact long fetched
  | intmaxT => exact long fetched
  | longLong => exact long fetched
  | sizeT =>
    obtain ⟨⟨w,_⟩,_,same⟩ := Option.map_eq_some_iff.mp fetched
    cases same
    have small := w.isLt
    omega
  | ptrdiffT => exact signed fetched
  | long => exact signed fetched
  | char => exact signed fetched
  | short => exact signed fetched
  | none => exact signed fetched

-- Whatever the format, the conversions of kaos_vsprintf are passed what
-- `Passed` describes.
theorem conversions_passed (path : StepRuns.Reached fresh round StepRuns.any s) (fetched : vaInteger s.length s.args = some (arg,left)) :
    Passed arg s.flags s.fieldWidth s.precision 10 ∧ Passed arg (s.flags ||| flagUnsigned) s.fieldWidth s.precision 8 ∧
      ∀ upper : Bool, Passed arg (s.flags ||| flagUnsigned ||| (if upper then flagUppercaseHex else 0)) s.fieldWidth s.precision 16 := by
  obtain ⟨wide,precise,signed⟩ := reached_sound path
  obtain ⟨low,high⟩ := vaInteger_range fetched
  have marked : has (s.flags ||| flagUnsigned) flagUnsigned = true := by
    rw [has_or,signed]
    decide
  refine ⟨⟨low,high,wide,precise,.inl ⟨rfl,signed⟩⟩,⟨low,high,wide,precise,.inr ⟨.inl rfl,marked⟩⟩,?_⟩
  intro upper
  refine ⟨low,high,wide,precise,.inr ⟨.inr rfl,?_⟩⟩
  rw [has_or,marked,Bool.true_or]

end KaracaOS.Directives
