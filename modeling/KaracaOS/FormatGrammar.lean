import KaracaOS.FormatRuns

namespace KaracaOS.FormatGrammar
open ByteMemory Numerals Printers Directives FormatRuns

-- A width or a precision as it is written: digits, or '*' with the int it takes.
inductive Amount where
  | digits (first : Fin 10) (others : List (Fin 10))
  | star (w : BitVec 32)
  deriving DecidableEq

def Amount.text : Amount → List Byte
  | .digits first others => (first::others).map fun d => BitVec.ofNat 8 (48+d.val)
  | .star _ => [ch '*']

def Amount.args : Amount → List Arg
  | .digits _ _ => []
  | .star w => [.word w]

def Amount.value : Amount → Nat
  | .digits first others => Nat.ofDigits 10 ((first::others).map Fin.val).reverse
  | .star w => w.toNat

-- A directive between its percent sign and its length modifier.
structure Front where
  flags : List Flag
  fieldWidth : Option Amount
  precision : Option Amount
  deriving DecidableEq

def Front.text (f : Front) : List Byte :=
  f.flags.map Flag.char++((f.fieldWidth.map Amount.text).getD []++(f.precision.map fun amount => ch '.'::amount.text).getD [])

def Front.args (f : Front) : List Arg := (f.fieldWidth.map Amount.args).getD []++(f.precision.map Amount.args).getD []
def Front.width (f : Front) : Nat := (f.fieldWidth.map Amount.value).getD 0
def Front.precise (f : Front) : Nat := (f.precision.map Amount.value).getD 0
def Front.bits (f : Front) : BitVec 32 := if f.precision = none then orFlags 0 f.flags else orFlags 0 f.flags ||| flagPrecisionDefined

-- Numbers written out are values of an int, and a width is not written with a
-- 0 in front, which is a flag.
structure Front.Legal (f : Front) : Prop where
  width : ∀ first others, f.fieldWidth = some (.digits first others) → first ≠ 0 ∧ (Amount.digits first others).value < 2147483648
  precision : ∀ first others, f.precision = some (.digits first others) → (Amount.digits first others).value < 2147483648

inductive Modifier where
  | hh | h | l | j | z | t | upperL
  deriving DecidableEq

def Modifier.text : Modifier → List Byte
  | .hh => [ch 'h',ch 'h']
  | .h => [ch 'h']
  | .l => [ch 'l']
  | .j => [ch 'j']
  | .z => [ch 'z']
  | .t => [ch 't']
  | .upperL => [ch 'L']

def Modifier.length : Modifier → Length
  | .hh => .char
  | .h => .short
  | .l => .long
  | .j => .intmaxT
  | .z => .sizeT
  | .t => .ptrdiffT
  | .upperL => .longDouble

inductive Conversion where
  | d | i | o | u | x | upperX | p | c | s | n
  deriving DecidableEq

def Conversion.char : Conversion → Byte
  | .d => ch 'd'
  | .i => ch 'i'
  | .o => ch 'o'
  | .u => ch 'u'
  | .x => ch 'x'
  | .upperX => ch 'X'
  | .p => ch 'p'
  | .c => ch 'c'
  | .s => ch 's'
  | .n => ch 'n'

structure Written where
  front : Front
  modifier : Option Modifier
  conversion : Conversion
  deriving DecidableEq

def Written.length (w : Written) : Length := (w.modifier.map Modifier.length).getD .none

def Written.format (w : Written) : List Byte :=
  ch '%'::(w.front.text++((w.modifier.map Modifier.text).getD []++[w.conversion.char]))

-- The conversions with what was written; rest is what stands behind the directive.
def Written.number (w : Written) (flags : BitVec 32) (radix : Nat) (rest : List Byte) (args : List Arg) (out : Out) :
    Option (List Byte × List Arg × Out) :=
  (vaInteger w.length args).map fun (arg,left) =>
    let (buffer,printed) := convertAnyIntToStr arg flags w.front.width w.front.precise radix out.bufferPtr out.buffer
    (rest,left,{out with buffer := buffer,bufferPtr := out.bufferPtr+printed})

def Written.perform (w : Written) (rest : List Byte) (args : List Arg) (out : Out) : Option (List Byte × List Arg × Out) :=
  match w.conversion with
  | .d | .i => w.number w.front.bits 10 rest args out
  | .o | .u => w.number (w.front.bits ||| flagUnsigned) 8 rest args out
  | .x | .p => w.number (w.front.bits ||| flagUnsigned) 16 rest args out
  | .upperX => w.number (w.front.bits ||| flagUnsigned ||| flagUppercaseHex) 16 rest args out
  | .c => (vaInt args).map fun (word,left) => (rest,left,out.put (word.setWidth 8))
  | .s => (vaString args).map fun (text,left) => (rest,left,copyText w.front.bits w.front.precise text 0 out)
  | .n =>
    match args with
    | .counter::left => some (rest,left,{out with counts := out.counts++[out.bufferPtr]})
    | _ => none

variable {out next : Out} {args left : List Arg} {rest ptr : List Byte} {bits : BitVec 32} {fieldWidth precision fuel rounds : Nat}
  {state : FormatState} {s t : Scan}

theorem digit_written : ∀ d : Fin 10, BitVec.ofNat 8 (48+d.val) = digitOf (ch 'a') d.val := by decide

theorem digits_written (digits : List (Fin 10)) : (digits.map fun d => BitVec.ofNat 8 (48+d.val)) = (digits.map Fin.val).map (digitOf (ch 'a')) := by
  rw [List.map_map]
  exact List.map_congr_left fun d _ => digit_written d

theorem horner_value (first : Fin 10) (others : List (Fin 10)) (small : (Amount.digits first others).value < 2147483648) :
    horner 0 (first.val::others.map Fin.val) = (Amount.digits first others).value := by
  have value := horner_word ((first::others).map Fin.val).reverse 0
  rw [List.reverse_reverse,Nat.zero_mul,Nat.zero_add] at value
  exact value.trans (Nat.mod_eq_of_lt (Nat.lt_trans small (by decide)))

theorem digits_small (first : Fin 10) (others : List (Fin 10)) : ∀ d ∈ first.val::others.map Fin.val, d < 10 := by
  intro d member
  obtain ⟨e,_,rfl⟩ := List.mem_map.mp (show d ∈ (first::others).map Fin.val from member)
  exact e.isLt

theorem width_written {fieldWidth : Option Amount}
    (legal : ∀ first others, fieldWidth = some (.digits first others) → first ≠ 0 ∧ (Amount.digits first others).value < 2147483648)
    (before : Byte) (rest : List Byte) (args : List Arg) (bits : BitVec 32) : ∃ state last, (state = .flags ∨ state = .fieldWidth) ∧
      Walks ((fieldWidth.map Amount.text).getD []).length
        ⟨before::((fieldWidth.map Amount.text).getD []++rest),(fieldWidth.map Amount.args).getD []++args,.flags,bits,0,0,.none⟩
        ⟨last::rest,args,state,bits,(fieldWidth.map Amount.value).getD 0,0,.none⟩ := by
  cases fieldWidth with
  | none => exact ⟨.flags,before,.inl rfl,.done⟩
  | some amount =>
    cases amount with
    | star w => exact ⟨.fieldWidth,_,.inr rfl,widthStar_walk (.inl rfl) before rest w args bits 0 0⟩
    | digits first others =>
      obtain ⟨leads,small⟩ := legal first others rfl
      obtain ⟨last,walk⟩ := widthNumber_walk (digits_small first others) (fun zero => leads (Fin.ext zero)) before rest args bits
      refine ⟨.fieldWidth,last,.inr rfl,?_⟩
      rw [horner_value first others small] at walk
      show Walks ((first::others).map _).length ⟨before::(((first::others).map fun d => BitVec.ofNat 8 (48+d.val))++rest),args,_,bits,0,0,_⟩ _
      rw [digits_written,List.length_map]
      exact walk

theorem precision_written {precision : Option Amount}
    (legal : ∀ first others, precision = some (.digits first others) → (Amount.digits first others).value < 2147483648)
    (reading : state = .flags ∨ state = .fieldWidth) (before : Byte) (rest : List Byte) (args : List Arg) (bits : BitVec 32) (fieldWidth : Nat) :
    ∃ state' last rounds, (state' = .flags ∨ state' = .fieldWidth ∨ state' = .precision) ∧
      rounds ≤ ((precision.map fun amount => ch '.'::amount.text).getD []).length ∧
      Walks rounds ⟨before::((precision.map fun amount => ch '.'::amount.text).getD []++rest),(precision.map Amount.args).getD []++args,state,bits,
          fieldWidth,0,.none⟩
        ⟨last::rest,args,state',if precision = none then bits else bits ||| flagPrecisionDefined,fieldWidth,
          (precision.map Amount.value).getD 0,.none⟩ := by
  cases precision with
  | none =>
    refine ⟨state,before,0,?_,Nat.zero_le _,.done⟩
    rcases reading with known | known
    · exact .inl known
    · exact .inr (.inl known)
  | some amount =>
    cases amount with
    | star w => exact ⟨.precision,_,1,.inr (.inr rfl),Nat.le_add_left _ _,dotStar_walk reading before rest w args bits fieldWidth⟩
    | digits first others =>
      have small := legal first others rfl
      obtain ⟨last,walk⟩ := precisionNumber_walk (digits_small first others) reading before rest args bits fieldWidth
      rw [horner_value first others small] at walk
      refine ⟨.precision,last,others.length+1,.inr (.inr rfl),?_,?_⟩
      · simp [Amount.text]
      · show Walks _ ⟨before::ch '.'::(((first::others).map fun d => BitVec.ofNat 8 (48+d.val))++rest),args,_,bits,fieldWidth,0,_⟩ _
        rw [digits_written]
        rw [List.length_map] at walk
        exact walk

theorem front_written {f : Front} (legal : f.Legal) (before : Byte) (rest : List Byte) (args : List Arg) :
    ∃ state last rounds, (state = .flags ∨ state = .fieldWidth ∨ state = .precision) ∧ rounds ≤ f.text.length ∧
      Walks rounds ⟨before::(f.text++rest),f.args++args,.flags,0,0,0,.none⟩ ⟨last::rest,args,state,f.bits,f.width,f.precise,.none⟩ := by
  obtain ⟨first,flagged⟩ := flags_walk f.flags before ((f.fieldWidth.map Amount.text).getD []++
    ((f.precision.map fun amount => ch '.'::amount.text).getD []++rest)) (f.args++args) 0
  obtain ⟨reading,second,known,width⟩ := width_written legal.width first ((f.precision.map fun amount => ch '.'::amount.text).getD []++rest)
    ((f.precision.map Amount.args).getD []++args) (orFlags 0 f.flags)
  obtain ⟨state,last,rounds,ended,few,precision⟩ := precision_written legal.precision known second rest args (orFlags 0 f.flags) f.width
  refine ⟨state,last,f.flags.length+((f.fieldWidth.map Amount.text).getD []).length+rounds,ended,?_,?_⟩
  · unfold Front.text
    rw [List.length_append,List.length_append,List.length_map]
    omega
  · have walk := (flagged.trans (by unfold Front.args; rw [List.append_assoc]; exact width)).trans precision
    unfold Front.text
    rw [List.append_assoc,List.append_assoc]
    exact walk

theorem conversion_round (modifier : Option Modifier) (conversion : Conversion)
    (reading : state = .flags ∨ state = .fieldWidth ∨ state = .precision) (before : Byte) (rest : List Byte) (args : List Arg) (bits : BitVec 32)
    (fieldWidth precision : Nat) :
    round ⟨before::((modifier.map Modifier.text).getD []++conversion.char::rest),args,state,bits,fieldWidth,precision,.none⟩ () =
      some ⟨conversion.char::rest,args,.specifier,bits,fieldWidth,precision,(modifier.map Modifier.length).getD .none⟩ := by
  cases modifier with
  | none => rcases reading with rfl | rfl | rfl <;> cases conversion <;> rfl
  | some modifier => rcases reading with rfl | rfl | rfl <;> cases modifier <;> cases conversion <;> rfl

theorem specifier_performs (w : Written) (rest : List Byte) (args : List Arg) (out : Out) :
    specifierStage ⟨w.conversion.char::rest,args,.specifier,w.front.bits,w.front.width,w.front.precise,w.length⟩ out =
      (w.perform rest args out).map fun (ptr,left,next) => .finished ptr left next := by
  obtain ⟨front,modifier,conversion⟩ := w
  have lower : front.bits ||| flagUnsigned ||| 0 = front.bits ||| flagUnsigned := BitVec.or_zero
  have hexed : ∀ c, (printInteger ⟨c::rest,args,.specifier,front.bits,front.width,front.precise,(modifier.map Modifier.length).getD .none⟩
      (front.bits ||| flagUnsigned ||| 0) 16 out).map (fun (ptr,left,next) => Round.finished ptr left next) =
      (Written.number ⟨front,modifier,conversion⟩ (front.bits ||| flagUnsigned) 16 rest args out).map
        fun (ptr,left,next) => .finished ptr left next := by
    intro c
    rw [lower]
    rfl
  cases conversion with
  | d => rfl
  | i => rfl
  | o => rfl
  | u => rfl
  | x => exact hexed _
  | upperX => rfl
  | p => exact hexed _
  | c =>
    show (vaInt args).map _ = ((vaInt args).map _).map _
    rw [Option.map_map]
    rfl
  | s =>
    show (vaString args).map _ = ((vaString args).map _).map _
    rw [Option.map_map]
    rfl
  | n =>
    cases args with
    | nil => rfl
    | cons arg left => cases arg <;> rfl

theorem written_rounds {w : Written} (legal : w.front.Legal) (rest : List Byte) (args : List Arg) : ∃ middle rounds,
    rounds < w.format.length ∧ Walks rounds ⟨w.format++rest,w.front.args++args,.flags,0,0,0,.none⟩ middle ∧
      round middle () = some ⟨w.conversion.char::rest,args,.specifier,w.front.bits,w.front.width,w.front.precise,w.length⟩ := by
  obtain ⟨state,last,rounds,ended,few,walk⟩ := front_written legal (ch '%') ((w.modifier.map Modifier.text).getD []++w.conversion.char::rest) args
  refine ⟨_,rounds,?_,?_,conversion_round w.modifier w.conversion ended last rest args _ _ _⟩
  · unfold Written.format
    rw [List.length_cons,List.length_append]
    omega
  · have form : w.format++rest = ch '%'::(w.front.text++((w.modifier.map Modifier.text).getD []++w.conversion.char::rest)) := by
      unfold Written.format
      simp
    rw [form]
    exact walk

theorem directiveLoop_written {w : Written} (legal : w.front.Legal) (rest : List Byte) (args : List Arg) (out : Out)
    (enough : (w.format++rest).length ≤ fuel) :
    directiveLoop fuel ⟨w.format++rest,w.front.args++args,.flags,0,0,0,.none⟩ out = w.perform rest args out := by
  obtain ⟨middle,rounds,few,walk,stepped⟩ := written_rounds legal rest args
  rw [List.length_append] at enough
  rw [show fuel = fuel-rounds-1+1+rounds by omega,directiveLoop_walks walk,directiveLoop_round,stepped,Option.bind_some,specifier_performs]
  cases w.perform rest args out <;> rfl

theorem walks_follow (walk : Walks rounds s middle) (stepped : round middle () = some t) :
    StepRuns.follow round s (List.replicate (rounds+1) ()) = some t := by
  induction walk with
  | done => exact congrArg (·.bind some) stepped
  | round ran _ _ ih =>
    rw [List.replicate_succ,StepRuns.follow,List.foldlM_cons,ran]
    exact ih stepped

theorem orFlags_precise (flags : List Flag) (bits : BitVec 32) : has (orFlags bits flags) flagPrecisionDefined = has bits flagPrecisionDefined := by
  induction flags generalizing bits with
  | nil => rfl
  | cons flag flags ih =>
    have apart : has flag.bit flagPrecisionDefined = false := by cases flag <;> decide
    show has (orFlags (bits ||| flag.bit) flags) flagPrecisionDefined = _
    rw [ih,has_or,apart,Bool.or_false]

theorem front_bits (f : Front) : (∀ flag : Flag, has f.bits flag.bit = decide (flag ∈ f.flags)) ∧
    has f.bits flagPrecisionDefined = f.precision.isSome := by
  have own : has flagPrecisionDefined flagPrecisionDefined = true ∧ has 0 flagPrecisionDefined = false := by decide
  have written : ∀ flag : Flag, has (orFlags 0 f.flags) flag.bit = decide (flag ∈ f.flags) := by
    intro flag
    have none : has 0 flag.bit = false := by cases flag <;> decide
    rw [has_orFlags,none,Bool.false_or]
  have unmarked : has (orFlags 0 f.flags) flagPrecisionDefined = false := (orFlags_precise f.flags 0).trans own.2
  unfold Front.bits
  cases f.precision with
  | none => exact ⟨written,unmarked⟩
  | some amount =>
    rw [if_neg nofun]
    refine ⟨?_,by rw [has_or,unmarked,own.1]; rfl⟩
    intro flag
    have apart : has flagPrecisionDefined flag.bit = false := by cases flag <;> decide
    rw [has_or,written,apart,Bool.or_false]

theorem directive_as_written (w : Written) (legal : w.front.Legal) (rest : List Byte) (args : List Arg) :
    (∃ rounds, StepRuns.follow round ⟨w.format++rest,w.front.args++args,.flags,0,0,0,.none⟩ (List.replicate rounds ()) =
      some ⟨w.conversion.char::rest,args,.specifier,w.front.bits,w.front.width,w.front.precise,w.length⟩) ∧
    (∀ flag : Flag, has w.front.bits flag.bit = decide (flag ∈ w.front.flags)) ∧
    ∀ out fuel, (w.format++rest).length ≤ fuel →
      directiveLoop fuel ⟨w.format++rest,w.front.args++args,.flags,0,0,0,.none⟩ out = w.perform rest args out := by
  obtain ⟨middle,rounds,_,walk,stepped⟩ := written_rounds legal rest args
  exact ⟨⟨rounds+1,walks_follow walk stepped⟩,(front_bits w.front).1,fun out _ enough => directiveLoop_written legal rest args out enough⟩

-- "%-08.*lx" with the precision -1 taken from the arguments.
def padded : Written := ⟨⟨[.leftJustify,.padWithZeroes],some (.digits 8 []),some (.star (-1))⟩,some .l,.x⟩

theorem padded_as_written : padded.format = [ch '%',ch '-',ch '0',ch '8',ch '.',ch '*',ch 'l',ch 'x'] ∧ padded.front.Legal ∧
    ∀ rest args out, directiveLoop (padded.format++rest).length ⟨padded.format++rest,.word (-1)::args,.flags,0,0,0,.none⟩ out =
      padded.perform rest args out := by
  have legal : padded.front.Legal := by
    constructor
    · rintro first others same
      cases same
      decide
    · rintro first others same
      cases same
  exact ⟨by decide,legal,fun rest args out => (directive_as_written padded legal rest args).2.2 out _ (Nat.le_refl _)⟩

end KaracaOS.FormatGrammar
