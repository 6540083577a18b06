import KaracaOS.Numerals
import KaracaOS.SysDefs

namespace KaracaOS.Printers
open ByteMemory Numerals

def ch (c : Char) : Byte := BitVec.ofNat 8 c.toNat

-- What va_arg takes from the stack: a 32-bit word, a pointer to a string (its
-- characters before the NUL) or a pointer to an int.
inductive Arg where
  | word (value : BitVec 32)
  | string (text : List Byte)
  | counter
  deriving DecidableEq

def vaInt : List Arg → Option (BitVec 32 × List Arg)
  | .word w::rest => some (w,rest)
  | _ => none

def vaLongLong : List Arg → Option (BitVec 64 × List Arg)
  | .word low::.word high::rest => some (high++low,rest)
  | _ => none

def vaString : List Arg → Option (List Byte × List Arg)
  | .string text::rest => some (text,rest)
  | _ => none

def flagLeftJustify : BitVec 32 := 0x1
def flagBeginWithSign : BitVec 32 := 0x2
def flagPadNoSign : BitVec 32 := 0x4
def flagAltForm : BitVec 32 := 0x8
def flagPadWithZeroes : BitVec 32 := 0x10
def flagUnsigned : BitVec 32 := 0x20
def flagUppercaseHex : BitVec 32 := 0x40
def flagPrecisionDefined : BitVec 32 := 0x80

def has (flags flag : BitVec 32) : Bool := flags &&& flag != 0

-- (~arg)+1 as a long long.
def negate (arg : Int) : Int := (-arg).bmod 18446744073709551616

-- uint32_t subtraction.
def minus (a b : Nat) : Nat := (a+word-b) % word

-- while (arg_temp != 0); a long long has at most 64 digits in any radix.
def countLoop (radix : Nat) : Nat → Int → Nat → Nat
  | 0,_,charCount => charCount
  | fuel+1,argTemp,charCount =>
    if argTemp = 0 then charCount else countLoop radix fuel (argTemp.tdiv radix) (charCount+1)

def digitChar (hexBaseChar : Byte) (digit : Int) : Byte :=
  if 0 ≤ digit ∧ digit ≤ 9 then BitVec.ofInt 8 (digit+48) else BitVec.ofInt 8 (hexBaseChar.toNat+digit-10)

def digitLoop (radix : Nat) (hexBaseChar : Byte) (outBuffer : Nat) : Nat → Int → Nat → Bytes → Bytes × Nat
  | 0,_,i,memory => (memory,i)
  | count+1,argTemp,i,memory =>
    digitLoop radix hexBaseChar outBuffer count (argTemp.tdiv radix) (minus i 1)
      (store memory (outBuffer+minus i 1) (digitChar hexBaseChar (argTemp.tmod radix)))

-- The sign that is always shown, and the one of a negative number.
def forcedSign (flags : BitVec 32) : Bool := !has flags flagUnsigned && has flags flagBeginWithSign
def minusSign (arg : Int) (flags : BitVec 32) : Bool := !has flags flagUnsigned && arg < 0
def hexMark (flags : BitVec 32) (radix : Nat) : Bool := has flags flagAltForm && radix == 16

def extraChars (arg : Int) (flags : BitVec 32) (radix : Nat) : Nat :=
  (if forcedSign flags then 1 else if minusSign arg flags then 1 else 0)+(if hexMark flags radix then 2 else 0)

def countedChars (arg : Int) (flags : BitVec 32) (radix : Nat) : Nat :=
  countLoop radix 64 (if forcedSign flags then arg else if minusSign arg flags then negate arg else arg) (extraChars arg flags radix)

-- precision and fieldWidth are only compared with unsigned values and with 0,
-- so they stand for the uint32_t they are converted to.
def charCountOf (arg : Int) (flags : BitVec 32) (precision radix : Nat) : Nat :=
  let precision := if precision = 0 then 1 else precision
  let charCount := if radix = 8 ∧ precision < countedChars arg flags radix then countedChars arg flags radix+1
    else countedChars arg flags radix
  if charCount < precision then (precision+extraChars arg flags radix) % word else charCount

def putSign (arg : Int) (flags : BitVec 32) (outBuffer i : Nat) (memory : Bytes) : Bytes :=
  if forcedSign flags then store memory (outBuffer+minus i 1) (if arg < 0 then ch '-' else ch '+')
  else if minusSign arg flags then store memory (outBuffer+minus i 1) (ch '-')
  else memory

def convertAnyIntToStr (arg : Int) (flags : BitVec 32) (fieldWidth precision radix outBuffer : Nat) (memory : Bytes) : Bytes × Nat :=
  let charCount := charCountOf arg flags precision radix
  let padChar := if has flags flagPadWithZeroes then ch '0' else 0x20
  let memory := if fieldWidth ≠ 0 ∧ charCount < fieldWidth then fill memory outBuffer (outBuffer+fieldWidth) padChar else memory
  let argTemp := if arg < 0 then negate arg else arg
  let i := if has flags flagLeftJustify then charCount else if charCount < fieldWidth then fieldWidth else charCount
  let hexBaseChar := if has flags flagUppercaseHex then ch 'A' else ch 'a'
  let digits := digitLoop radix hexBaseChar outBuffer (minus charCount (extraChars arg flags radix)) argTemp i memory
  let marked := if hexMark flags radix then (store digits.1 (outBuffer+minus digits.2 1) (hexBaseChar+23),minus digits.2 1) else digits
  (putSign arg flags outBuffer marked.2 marked.1,if charCount < fieldWidth then fieldWidth else charCount)

inductive FormatState where
  | flags | fieldWidth | precision | length | specifier
  deriving DecidableEq

inductive Length where
  | none | char | short | long | longLong | intmaxT | sizeT | ptrdiffT | longDouble
  deriving DecidableEq

-- The buffer, the next free place in it and what %n stored.
structure Out where
  buffer : Bytes
  bufferPtr : Nat
  counts : List Nat

def Out.put (out : Out) (c : Byte) : Out := ⟨store out.buffer out.bufferPtr c,out.bufferPtr+1,out.counts⟩

-- A directive being read. A pointer into the format is what is left of it; at
-- the NUL nothing is left.
structure Scan where
  formatPtr : List Byte
  args : List Arg
  state : FormatState
  flags : BitVec 32
  fieldWidth : Nat
  precision : Nat
  length : Length

def Scan.char (s : Scan) : Byte := s.formatPtr.headD 0

def isDigit (c : Byte) : Bool := 0x30 ≤ c && c ≤ 0x39

def appendDigit (n : Nat) (c : Byte) : Nat := (n*10+(c.toNat-48)) % word

def flagsStage (s : Scan) : Scan :=
  if s.state ≠ .flags then s
  else if s.char = ch '-' then {s with flags := s.flags ||| flagLeftJustify}
  else if s.char = ch '+' then {s with flags := s.flags ||| flagBeginWithSign}
  else if s.char = 0x20 then {s with flags := s.flags ||| flagPadNoSign}
  else if s.char = ch '#' then {s with flags := s.flags ||| flagAltForm}
  else if s.char = ch '0' then {s with flags := s.flags ||| flagPadWithZeroes}
  else {s with state := .fieldWidth}

def widthStage (s : Scan) : Option Scan :=
  if s.state ≠ .fieldWidth then some s
  else if isDigit s.char then some {s with fieldWidth := appendDigit s.fieldWidth s.char}
  else if s.char = ch '*' then (vaInt s.args).map fun (w,rest) => {s with fieldWidth := w.toNat,args := rest}
  else if s.char = ch '.' then some {s with state := .precision,formatPtr := s.formatPtr.tail}
  else some {s with state := .length}

def precisionStage (s : Scan) : Option Scan :=
  if s.state ≠ .precision then some s
  else if isDigit s.char then
    some {s with precision := appendDigit s.precision s.char,flags := s.flags ||| flagPrecisionDefined}
  else if s.char = ch '*' then
    (vaInt s.args).map fun (w,rest) => {s with precision := w.toNat,args := rest,flags := s.flags ||| flagPrecisionDefined}
  else some {s with state := .length}

-- "ll" is never seen: the branch of a single l comes first.
def lengthStage (s : Scan) : Scan :=
  let second := s.formatPtr.tail.headD 0
  let (length,used) :=
    if s.char = ch 'h' ∧ second = ch 'h' then (Length.char,2)
    else if s.char = ch 'h' then (.short,1)
    else if s.char = ch 'l' then (.long,1)
    else if s.char = ch 'l' ∧ second = ch 'l' then (.longLong,2)
    else if s.char = ch 'j' then (.intmaxT,1)
    else if s.char = ch 'z' then (.sizeT,1)
    else if s.char = ch 't' then (.ptrdiffT,1)
    else if s.char = ch 'L' then (.longDouble,1)
    else (s.length,0)
  if s.state ≠ .length then s
  else {s with length := length,formatPtr := s.formatPtr.drop used,state := .specifier}

def vaInteger (length : Length) (args : List Arg) : Option (Int × List Arg) :=
  match length with
  | .longDouble | .intmaxT | .longLong => (vaLongLong args).map fun (w,rest) => (w.toInt,rest)
  | .sizeT => (vaInt args).map fun (w,rest) => ((w.toNat : Int),rest)
  | .ptrdiffT | .long | .char | .short | .none => (vaInt args).map fun (w,rest) => (w.toInt,rest)

def printInteger (s : Scan) (flags : BitVec 32) (radix : Nat) (out : Out) : Option (List Byte × List Arg × Out) :=
  (vaInteger s.length s.args).map fun (arg,rest) =>
    let (buffer,printed) := convertAnyIntToStr arg flags s.fieldWidth s.precision radix out.bufferPtr out.buffer
    (s.formatPtr.tail,rest,{out with buffer := buffer,bufferPtr := out.bufferPtr+printed})

-- while (*arg != '\0') of %s.
def copyText (flags : BitVec 32) (precision : Nat) : List Byte → Nat → Out → Out
  | [],_,out => out
  | c::rest,printed,out =>
    if has flags flagPrecisionDefined && precision ≤ printed then out
    else copyText flags precision rest (printed+1) (out.put c)

inductive Round where
  | again (s : Scan)
  | finished (formatPtr : List Byte) (args : List Arg) (out : Out)

def specifierStage (s : Scan) (out : Out) : Option Round :=
  let finish := fun (done : Option (List Byte × List Arg × Out)) => done.map fun (ptr,rest,out) => Round.finished ptr rest out
  if s.state ≠ .specifier then some (.again s)
  else if s.char = ch 'd' ∨ s.char = ch 'i' then finish (printInteger s s.flags 10 out)
  else if s.char = ch 'o' ∨ s.char = ch 'u' then finish (printInteger s (s.flags ||| flagUnsigned) 8 out)
  else if s.char = ch 'x' ∨ s.char = ch 'X' ∨ s.char = ch 'p' then
    finish (printInteger s (s.flags ||| flagUnsigned ||| (if s.char = ch 'X' then flagUppercaseHex else 0)) 16 out)
  else if s.char = ch 'c' then
    (vaInt s.args).map fun (w,rest) => .finished s.formatPtr.tail rest (out.put (w.setWidth 8))
  else if s.char = ch 's' then
    (vaString s.args).map fun (text,rest) => .finished s.formatPtr.tail rest (copyText s.flags s.precision text 0 out)
  else if s.char = ch '%' then
    some (.finished s.formatPtr s.args (out.put (ch '%')))
  else if s.char = ch 'n' then
    match s.args with
    | .counter::rest => some (.finished s.formatPtr.tail rest {out with counts := out.counts++[out.bufferPtr]})
    | _ => none
  else some (.again s)

-- while (!formatFinished); none is a read behind the NUL or an argument that is not there.
def directiveLoop : Nat → Scan → Out → Option (List Byte × List Arg × Out)
  | 0,_,_ => none
  | fuel+1,s,out =>
    match s.formatPtr with
    | [] => none
    | _::ptr =>
      ((widthStage (flagsStage {s with formatPtr := ptr})).bind precisionStage).bind fun s =>
        (specifierStage (lengthStage s) out).bind fun
          | .again s => directiveLoop fuel s out
          | .finished ptr rest out => some (ptr,rest,out)

def formatLoop : Nat → List Byte → List Arg → Out → Option Out
  | 0,_,_,_ => none
  | fuel+1,formatPtr,args,out =>
    match formatPtr with
    | [] => some out
    | c::ptr =>
      if c = ch '%' then
        (directiveLoop (ptr.length+1) ⟨c::ptr,args,.flags,0,0,0,.none⟩ out).bind fun (ptr,rest,out) => formatLoop fuel ptr rest out
      else formatLoop fuel ptr args (out.put c)

-- str is the buffer's place 0; the count returned is bufferPtr.
def kaosVsprintf (str : Bytes) (format : List Byte) (args : List Arg) : Option Out :=
  (formatLoop (format.length+1) format args ⟨str,0,[]⟩).map fun out => {out with buffer := store out.buffer out.bufferPtr 0}

-- What reached the terminal so far, and the characters counted.
structure Sent where
  chars : List Byte
  numCh : Nat

def Sent.putch (s : Sent) (c : Byte) : Sent := {s with chars := s.chars++[c]}

-- while(*str != 0 && length-- != 0)
def ttyPuts (str : Bytes) : Nat → Nat → Sent → Sent
  | 0,_,s => s
  | length+1,i,s => if str i = 0 then s else ttyPuts str length (i+1) (s.putch (str i))

-- while (n > 0) of %d and %x on numAsStr; an int has at most 32 digits in any radix.
def prebootDigits (radix : Nat) (digitAs : Int → Byte) : Nat → Int → Bytes → Nat → Nat → Bytes × Nat × Nat
  | 0,_,numAsStr,ptr,digitCount => (numAsStr,ptr,digitCount)
  | fuel+1,n,numAsStr,ptr,digitCount =>
    if 0 < n then prebootDigits radix digitAs fuel (n.tdiv radix) (store numAsStr ptr (digitAs (n.tmod radix))) (ptr-1) (digitCount+1)
    else (numAsStr,ptr,digitCount)

-- numAsStr with the digits, the place in front of them and their number.
def prebootText (radix : Nat) (digitAs : Int → Byte) (num n : Int) : Bytes × Nat × Nat :=
  match prebootDigits radix digitAs 32 n (fun _ => 0) 13 0 with
  | (numAsStr,ptr,digitCount) =>
    if num = 0 then (store numAsStr ptr (ch '0'),ptr-1,digitCount+1) else (numAsStr,ptr,digitCount)

def prebootNumber (radix : Nat) (digitAs : Int → Byte) (num n : Int) (s : Sent) : Sent :=
  match prebootText radix digitAs num n with
  | (numAsStr,ptr,digitCount) =>
    if num < 0 then
      let s := ttyPuts numAsStr digitCount (ptr+1) (s.putch (ch '-'))
      {s with numCh := s.numCh+(digitCount+1)}
    else
      let s := ttyPuts numAsStr digitCount (ptr+1) s
      {s with numCh := s.numCh+digitCount}

def decimalDigit (digit : Int) : Byte := BitVec.ofInt 8 (digit+48)
def hexDigit (digit : Int) : Byte := if digit < 10 then BitVec.ofInt 8 (digit+48) else BitVec.ofInt 8 (digit-10+97)

-- -num is an int again.
def prebootDecimal (num : BitVec 32) (s : Sent) : Sent :=
  prebootNumber 10 decimalDigit num.toInt (if num.toInt < 0 then (-num).toInt else num.toInt) s

def prebootHex (num : BitVec 32) (s : Sent) : Sent := prebootNumber 16 hexDigit num.toNat num.toNat s

def prebootDirective (c : Byte) (args : List Arg) (s : Sent) : Option (List Arg × Sent) :=
  if c = ch '%' then some (args,{s.putch (ch '%') with numCh := s.numCh+1})
  else if c = ch 'd' then (vaInt args).map fun (num,rest) => (rest,prebootDecimal num s)
  else if c = ch 'x' then (vaInt args).map fun (num,rest) => (rest,prebootHex num s)
  else if c = ch 's' then (vaString args).map fun (str,rest) => (rest,ttyPuts (fun i => str.getD i 0) str.length 0 s)
  else if c = ch 'c' then (vaInt args).map fun (w,rest) => (rest,s.putch (w.setWidth 8))
  else some (args,s)

def prebootLoop : List Byte → List Arg → Sent → Option Sent
  | [],_,s => some s
  | c::format,args,s =>
    if c = ch '%' then
      match format with
      | [] => some s
      | k::format => (prebootDirective k args s).bind fun (rest,s) => prebootLoop format rest s
    else prebootLoop format args {s.putch c with numCh := s.numCh+1}

def kaosPrebootPrintf (format : List Byte) (args : List Arg) : Option Sent := prebootLoop format args ⟨[],0⟩

-- A format made of plain characters and the directives %d, %x, %c and %s, each with its argument.
inductive Item where
  | plain (c : Byte)
  | decimal (num : BitVec 32)
  | hex (num : BitVec 32)
  | character (w : BitVec 32)
  | string (text : List Byte)
  deriving DecidableEq

def Item.Legal : Item → Prop
  | .plain c => c ≠ ch '%' ∧ c ≠ 0
  | .character w => w.setWidth 8 ≠ (0 : Byte)
  | .string text => ∀ c ∈ text, c ≠ 0
  | .decimal _ | .hex _ => True

def Item.format : Item → List Byte
  | .plain c => [c]
  | .decimal _ => [ch '%',ch 'd']
  | .hex _ => [ch '%',ch 'x']
  | .character _ => [ch '%',ch 'c']
  | .string _ => [ch '%',ch 's']

def Item.args : Item → List Arg
  | .plain _ => []
  | .decimal num | .hex num => [.word num]
  | .character w => [.word w]
  | .string text => [.string text]

-- Both printers return; one sends to the terminal what the other leaves in its
-- buffer before the NUL, and the counts are equal.
def PrintersAgree (str : Bytes) (items : List Item) : Prop :=
  ∃ sent out, kaosPrebootPrintf (items.flatMap Item.format) (items.flatMap Item.args) = some sent ∧
    kaosVsprintf str (items.flatMap Item.format) (items.flatMap Item.args) = some out ∧
    sent.chars = stretch out.buffer 0 out.bufferPtr ∧ out.buffer out.bufferPtr = 0 ∧ sent.numCh = out.bufferPtr

def intMin : BitVec 32 := 0x80000000

def Item.Fine : Item → Prop
  | .plain _ => True
  | .decimal num => num ≠ intMin
  | .hex num => num.toNat ≤ 0x80000000
  | .character _ => False
  | .string text => text = []

def digitOf (hexBaseChar : Byte) (d : Nat) : Byte := digitChar hexBaseChar d

variable {out next : Out} {str memory : Bytes} {args : List Arg} {rest : List Byte} {radix base n : Nat}

theorem countLoop_digits (many : 1 < radix) (small : a.natAbs < radix^fuel) (charCount : Nat) :
    countLoop radix fuel a charCount = charCount+(Nat.digits radix a.natAbs).length := by
  induction fuel generalizing a charCount with
  | zero =>
    have zero : a.natAbs = 0 := by simpa using small
    rw [zero,Nat.digits_zero]
    rfl
  | succ fuel ih =>
    rw [countLoop]
    split
    · rename_i zero
      rw [zero,Int.natAbs_zero,Nat.digits_zero]
      rfl
    · rename_i positive
      have shorter : (a.tdiv radix).natAbs = a.natAbs/radix := Int.natAbs_tdiv a radix
      have fewer : a.natAbs/radix < radix^fuel := Nat.div_lt_of_lt_mul (by rw [← Nat.pow_succ']; exact small)
      rw [ih (by rw [shorter]; exact fewer),shorter,digits_step many (Int.natAbs_ne_zero.mpr positive),List.length_cons]
      omega

theorem minus_pred (positive : 0 < i) (small : i < word) : minus i 1 = i-1 := by
  unfold minus word at *
  omega

theorem tdiv_cast (n radix : Nat) : (n : Int).tdiv radix = (n/radix : Nat) := rfl
theorem tmod_cast (n radix : Nat) : (n : Int).tmod radix = (n%radix : Nat) := rfl

theorem digitLoop_digits (many : 1 < radix) (hexBaseChar : Byte) (length : (Nat.digits radix n).length = count) (fits : count ≤ i)
    (small : i < word) (memory : Bytes) : digitLoop radix hexBaseChar base count n i memory =
      (downward memory (base+i) ((Nat.digits radix n).map (digitOf hexBaseChar)),i-count) := by
  induction count generalizing n i memory with
  | zero =>
    rw [List.length_eq_zero_iff.mp length]
    rfl
  | succ count ih =>
    have positive : n ≠ 0 := by
      rintro rfl
      rw [Nat.digits_zero] at length
      cases length
    rw [digits_step many positive,List.length_cons] at length
    rw [digitLoop,minus_pred (by omega) small,tdiv_cast,tmod_cast,ih (Nat.succ.inj length) (by omega) (by omega),digits_step many positive,
      List.map_cons,downward,show base+i-1 = base+(i-1) by omega,Nat.sub_sub,Nat.add_comm 1 count]
    rfl

theorem digitLoop_lowFirst (many : 1 < radix) (hexBaseChar : Byte) (fits : (lowFirst radix n).length ≤ i) (small : i < word) (memory : Bytes) :
    digitLoop radix hexBaseChar base (lowFirst radix n).length n i memory =
      (downward memory (base+i) ((lowFirst radix n).map (digitOf hexBaseChar)),i-(lowFirst radix n).length) := by
  by_cases zero : n = 0
  · subst zero
    have fits : 1 ≤ i := fits
    rw [show lowFirst radix 0 = [0] from rfl,List.length_singleton,digitLoop,digitLoop,minus_pred (by omega) small,List.map_singleton,
      downward,downward,show base+i-1 = base+(i-1) by omega]
    rfl
  · rw [show lowFirst radix n = Nat.digits radix n from if_neg zero] at fits ⊢
    exact digitLoop_digits many hexBaseChar rfl fits small memory

def plainFlags (signed : Bool) : BitVec 32 := if signed then 0 else flagUnsigned

theorem has_plainFlags (signed : Bool) : has (plainFlags signed) flagPadWithZeroes = false ∧
    has (plainFlags signed) flagLeftJustify = false ∧ has (plainFlags signed) flagUppercaseHex = false ∧
    has (plainFlags signed) flagPrecisionDefined = false := by
  cases signed <;> decide

theorem forcedSign_plain (signed : Bool) : forcedSign (plainFlags signed) = false := by cases signed <;> rfl
theorem hexMark_plain (signed : Bool) (radix : Nat) : hexMark (plainFlags signed) radix = false := by cases signed <;> rfl
theorem minusSign_plain (signed : Bool) (arg : Int) : minusSign arg (plainFlags signed) = (signed && arg < 0) := by cases signed <;> rfl

theorem negate_negative (negative : arg < 0) (small : arg.natAbs < 9223372036854775808) : negate arg = (arg.natAbs : Int) := by
  rw [negate,Int.bmod_eq_of_le]
  · omega
  · omega
  · omega

theorem magnitude (small : arg.natAbs < 9223372036854775808) : (if arg < 0 then negate arg else arg) = (arg.natAbs : Int) := by
  split
  · rename_i negative
    exact negate_negative negative small
  · omega

def signedText (signed : Bool) (radix : Nat) (arg : Int) : List Byte :=
  (if signed && arg < 0 then [ch '-'] else [])++numeral (digitOf (ch 'a')) radix arg.natAbs

theorem extraChars_plain (signed : Bool) (arg : Int) (radix : Nat) :
    extraChars arg (plainFlags signed) radix = if signed && arg < 0 then 1 else 0 := by
  rw [extraChars,forcedSign_plain,hexMark_plain,minusSign_plain]
  simp

theorem signedText_length (signed : Bool) (radix : Nat) (arg : Int) :
    (signedText signed radix arg).length = extraChars arg (plainFlags signed) radix+(lowFirst radix arg.natAbs).length := by
  rw [extraChars_plain,signedText,List.length_append,numeral_length]
  split <;> rfl

theorem lowFirst_bits (many : 1 < radix) (small : n < 9223372036854775808) : (lowFirst radix n).length ≤ 64 := by
  refine lowFirst_length many (by decide) ?_
  calc n < 2^64 := by omega
    _ ≤ radix^64 := Nat.pow_le_pow_left many 64

theorem countedChars_plain (many : 1 < radix) (signed : Bool) (small : arg.natAbs < 9223372036854775808) :
    countedChars arg (plainFlags signed) radix = extraChars arg (plainFlags signed) radix+(Nat.digits radix arg.natAbs).length := by
  have fits : arg.natAbs < radix^64 := by
    calc arg.natAbs < 2^64 := by omega
      _ ≤ radix^64 := Nat.pow_le_pow_left many 64
  have absolute : (if signed && arg < 0 then negate arg else arg).natAbs = arg.natAbs := by
    split
    · rename_i negative
      rw [negate_negative (by simp_all) small]
      rfl
    · rfl
  rw [countedChars,forcedSign_plain,minusSign_plain,if_neg Bool.false_ne_true,countLoop_digits many (by rw [absolute]; exact fits),absolute]

theorem charCountOf_plain (many : 1 < radix) (other : radix ≠ 8) (signed : Bool) (small : arg.natAbs < 9223372036854775808) :
    charCountOf arg (plainFlags signed) 0 radix = (signedText signed radix arg).length := by
  rw [charCountOf,signedText_length,if_pos rfl,if_neg (fun both : radix = 8 ∧ _ => other both.1),countedChars_plain many signed small]
  by_cases zero : arg.natAbs = 0
  · have none : extraChars arg (plainFlags signed) radix = 0 := by
      rw [extraChars_plain,Int.natAbs_eq_zero.mp zero]
      simp
    rw [none,zero,Nat.digits_zero]
    rfl
  · have some_ : (Nat.digits radix arg.natAbs).length ≠ 0 := fun empty =>
      zero (Nat.digits_eq_nil_iff_eq_zero.mp (List.length_eq_zero_iff.mp empty))
    rw [if_neg (by omega),show lowFirst radix arg.natAbs = Nat.digits radix arg.natAbs from if_neg zero]

theorem convert_spec (many : 1 < radix) (other : radix ≠ 8) (signed : Bool) (small : arg.natAbs < 9223372036854775808) (memory : Bytes) :
    ∃ after, convertAnyIntToStr arg (plainFlags signed) 0 0 radix base memory = (after,(signedText signed radix arg).length) ∧
      stretch after base (signedText signed radix arg).length = signedText signed radix arg ∧ ∀ i < base, after i = memory i := by
  obtain ⟨noZeroes,noLeft,noUpper,_⟩ := has_plainFlags signed
  have bits := lowFirst_bits many small
  have size := signedText_length signed radix arg
  have extra := extraChars_plain signed arg radix
  have count : minus (signedText signed radix arg).length (extraChars arg (plainFlags signed) radix) = (lowFirst radix arg.natAbs).length := by
    rw [size]
    unfold minus word
    omega
  have room : (signedText signed radix arg).length < word := by
    rw [size,extra]
    unfold word
    split <;> omega
  have ran : convertAnyIntToStr arg (plainFlags signed) 0 0 radix base memory =
      (putSign arg (plainFlags signed) base ((signedText signed radix arg).length-(lowFirst radix arg.natAbs).length)
        (downward memory (base+(signedText signed radix arg).length) ((lowFirst radix arg.natAbs).map (digitOf (ch 'a')))),
        (signedText signed radix arg).length) := by
    rw [convertAnyIntToStr,charCountOf_plain many other signed small,noZeroes,noLeft,noUpper,hexMark_plain,magnitude small,
      if_neg Bool.false_ne_true,if_neg Bool.false_ne_true,if_neg Bool.false_ne_true,if_neg (Nat.not_lt_zero _),
      if_neg (fun both => both.1 rfl),count,digitLoop_lowFirst many (ch 'a') (by omega) room]
  rw [ran]
  refine ⟨_,rfl,?_⟩
  rw [putSign,forcedSign_plain,minusSign_plain,if_neg Bool.false_ne_true]
  by_cases negative : (signed && arg < 0) = true
  · rw [if_pos negative] at extra
    have text : signedText signed radix arg = ch '-'::numeral (digitOf (ch 'a')) radix arg.natAbs := by
      rw [signedText,if_pos negative]
      rfl
    have top : (signedText signed radix arg).length = 1+(lowFirst radix arg.natAbs).length := by omega
    have first : minus ((signedText signed radix arg).length-(lowFirst radix arg.natAbs).length) 1 = 0 := by
      rw [minus_pred (by omega) (by omega)]
      omega
    have behind : ∀ bytes : Bytes, Agree (store bytes base (ch '-')) bytes (base+1) (lowFirst radix arg.natAbs).length :=
      fun bytes i low _ => store_other _ (by omega)
    rw [if_pos negative,first,Nat.add_zero,top,← Nat.add_assoc]
    refine ⟨?_,?_⟩
    · rw [Nat.add_comm 1,stretch_cons,store_same,stretch_congr (behind _),stretch_numeral,text]
    · intro i below
      rw [store_other _ (Nat.ne_of_lt below)]
      exact numeral_below _ memory radix _ (Nat.lt_succ_of_lt below)
  · rw [if_neg negative] at extra
    have text : signedText signed radix arg = numeral (digitOf (ch 'a')) radix arg.natAbs := by
      rw [signedText,if_neg negative]
      rfl
    have top : (signedText signed radix arg).length = (lowFirst radix arg.natAbs).length := by omega
    rw [if_neg negative,top]
    refine ⟨?_,fun i below => numeral_below _ memory radix _ below⟩
    rw [stretch_numeral,text]

structure Wrote (out next : Out) (text : List Byte) : Prop where
  place : next.bufferPtr = out.bufferPtr+text.length
  text : stretch next.buffer out.bufferPtr text.length = text
  before : ∀ i < out.bufferPtr, next.buffer i = out.buffer i

theorem Wrote.nothing (out : Out) : Wrote out out [] := ⟨rfl,rfl,fun _ _ => rfl⟩

theorem Wrote.trans {last : Out} (one : Wrote out next first) (two : Wrote next last second) : Wrote out last (first++second) := by
  have kept : Agree last.buffer next.buffer out.bufferPtr first.length := by
    intro i _ high
    exact two.before i (by rw [one.place]; exact high)
  refine ⟨?_,?_,?_⟩
  · rw [two.place,one.place,List.length_append,Nat.add_assoc]
  · rw [List.length_append,stretch_append,stretch_congr kept,one.text,← one.place,two.text]
  · intro i below
    rw [two.before i (by rw [one.place]; omega),one.before i below]

theorem wrote_char (out : Out) (c : Byte) : Wrote out (out.put c) [c] := by
  refine ⟨rfl,?_,fun i below => store_other _ (Nat.ne_of_lt below)⟩
  rw [List.length_singleton,stretch_cons]
  exact congrArg (·::[]) (store_same out.buffer out.bufferPtr c)

theorem copyText_wrote (unbounded : has flags flagPrecisionDefined = false) (text : List Byte) (precision printed : Nat) (out : Out) :
    Wrote out (copyText flags precision text printed out) text := by
  induction text generalizing printed out with
  | nil => exact .nothing out
  | cons c rest ih =>
    rw [copyText,unbounded,Bool.false_and,if_neg Bool.false_ne_true]
    exact (wrote_char out c).trans (ih _ _)

theorem printInteger_wrote (many : 1 < radix) (other : radix ≠ 8) (signed : Bool) (num : BitVec 32) (ptr : List Byte) (args : List Arg) (out : Out)
    (state : FormatState) (flags : BitVec 32) : ∃ next, printInteger ⟨ptr,.word num::args,state,flags,0,0,.none⟩ (plainFlags signed) radix out =
      some (ptr.tail,args,next) ∧ Wrote out next (signedText signed radix num.toInt) := by
  have small : num.toInt.natAbs < 9223372036854775808 := by
    have low := num.le_toInt
    have high := num.toInt_lt
    omega
  obtain ⟨after,ran,text,before⟩ := @convert_spec radix out.bufferPtr num.toInt many other signed small out.buffer
  refine ⟨{out with buffer := after,bufferPtr := out.bufferPtr+(signedText signed radix num.toInt).length},?_,rfl,text,before⟩
  rw [printInteger]
  simp only [vaInteger,vaInt,Option.map_some,ran]

def Item.written : Item → List Byte
  | .plain c => [c]
  | .decimal num => signedText true 10 num.toInt
  | .hex num => signedText false 16 num.toInt
  | .character w => [w.setWidth 8]
  | .string text => text

theorem directive_scanned (known : k = ch 'd' ∨ k = ch 'x' ∨ k = ch 'c' ∨ k = ch 's') (rest : List Byte) (args : List Arg) (out : Out) (fuel : Nat)
    (ran : specifierStage ⟨k::rest,args,.specifier,0,0,0,.none⟩ out = some (.finished rest args' next)) :
    directiveLoop (fuel+1) ⟨ch '%'::k::rest,args,.flags,0,0,0,.none⟩ out = some (rest,args',next) := by
  have scanned : ((widthStage (flagsStage ⟨k::rest,args,.flags,0,0,0,.none⟩)).bind precisionStage).map lengthStage =
      some ⟨k::rest,args,.specifier,0,0,0,.none⟩ := by
    rcases known with rfl | rfl | rfl | rfl <;> rfl
  obtain ⟨s,found,same⟩ := Option.map_eq_some_iff.mp scanned
  rw [directiveLoop]
  dsimp only
  rw [found,Option.bind_some,same,ran]
  rfl

theorem specifier_item (item : Item) (directive : item.format = [ch '%',k]) (rest : List Byte) (args : List Arg) (out : Out) :
    ∃ next, specifierStage ⟨k::rest,item.args++args,.specifier,0,0,0,.none⟩ out = some (.finished rest args next) ∧
      Wrote out next item.written := by
  cases item with
  | plain c => cases directive
  | decimal num =>
    cases directive
    obtain ⟨next,ran,wrote⟩ := printInteger_wrote (show 1 < 10 by decide) (by decide) true num (ch 'd'::rest) args out .specifier 0
    have stage : specifierStage ⟨ch 'd'::rest,.word num::args,.specifier,0,0,0,.none⟩ out =
        (printInteger ⟨ch 'd'::rest,.word num::args,.specifier,0,0,0,.none⟩ (plainFlags true) 10 out).map
          fun (ptr,rest,out) => .finished ptr rest out := rfl
    exact ⟨next,by rw [Item.args,List.singleton_append,stage,ran]; rfl,wrote⟩
  | hex num =>
    cases directive
    obtain ⟨next,ran,wrote⟩ := printInteger_wrote (show 1 < 16 by decide) (by decide) false num (ch 'x'::rest) args out .specifier 0
    have flags : (0 : BitVec 32) ||| flagUnsigned ||| (if ch 'x' = ch 'X' then flagUppercaseHex else 0) = plainFlags false := by decide
    have stage : specifierStage ⟨ch 'x'::rest,.word num::args,.specifier,0,0,0,.none⟩ out =
        (printInteger ⟨ch 'x'::rest,.word num::args,.specifier,0,0,0,.none⟩
          (0 ||| flagUnsigned ||| (if ch 'x' = ch 'X' then flagUppercaseHex else 0)) 16 out).map
          fun (ptr,rest,out) => .finished ptr rest out := rfl
    exact ⟨next,by rw [Item.args,List.singleton_append,stage,flags,ran]; rfl,wrote⟩
  | character w =>
    cases directive
    exact ⟨_,rfl,wrote_char out _⟩
  | string text =>
    cases directive
    exact ⟨_,rfl,copyText_wrote (show has 0 flagPrecisionDefined = false by decide) text 0 0 out⟩

theorem formatLoop_item (item : Item) (legal : item.Legal) (rest : List Byte) (args : List Arg) (out : Out) (fuel : Nat) :
    ∃ next, formatLoop (fuel+1) (item.format++rest) (item.args++args) out = formatLoop fuel rest args next ∧ Wrote out next item.written := by
  have directive : ∀ k, item.format = [ch '%',k] → (k = ch 'd' ∨ k = ch 'x' ∨ k = ch 'c' ∨ k = ch 's') →
      ∃ next, formatLoop (fuel+1) (item.format++rest) (item.args++args) out = formatLoop fuel rest args next ∧ Wrote out next item.written := by
    intro k form known
    obtain ⟨next,ran,wrote⟩ := specifier_item item form rest args out
    refine ⟨next,?_,wrote⟩
    rw [form,List.cons_append,List.singleton_append,formatLoop]
    dsimp only
    rw [if_pos rfl,directive_scanned known rest _ out _ ran]
    rfl
  cases item with
  | plain c =>
    refine ⟨out.put c,?_,wrote_char out c⟩
    rw [Item.format,Item.args,List.singleton_append,List.nil_append,formatLoop]
    dsimp only
    rw [if_neg legal.1]
  | decimal num => exact directive _ rfl (.inl rfl)
  | hex num => exact directive _ rfl (.inr (.inl rfl))
  | character w => exact directive _ rfl (.inr (.inr (.inl rfl)))
  | string text => exact directive _ rfl (.inr (.inr (.inr rfl)))

theorem formatLoop_items (items : List Item) (legal : ∀ item ∈ items, item.Legal) (out : Out) (enough : items.length < fuel) :
    ∃ next, formatLoop fuel (items.flatMap Item.format) (items.flatMap Item.args) out = some next ∧
      Wrote out next (items.flatMap Item.written) := by
  induction items generalizing out fuel with
  | nil =>
    obtain ⟨fuel,rfl⟩ : ∃ m, fuel = m+1 := ⟨fuel-1,by omega⟩
    exact ⟨out,rfl,.nothing out⟩
  | cons item rest ih =>
    rw [List.length_cons] at enough
    obtain ⟨fuel,rfl⟩ : ∃ m, fuel = m+1 := ⟨fuel-1,by omega⟩
    obtain ⟨middle,first,wrote⟩ := formatLoop_item item (legal item List.mem_cons_self) (rest.flatMap Item.format) (rest.flatMap Item.args) out fuel
    obtain ⟨next,later,more⟩ := ih (fun item member => legal item (List.mem_cons_of_mem _ member)) middle (show rest.length < fuel by omega)
    exact ⟨next,first.trans later,wrote.trans more⟩

theorem format_length (items : List Item) : items.length ≤ (items.flatMap Item.format).length := by
  induction items with
  | nil => exact Nat.le_refl _
  | cons item rest ih =>
    have some_ : 1 ≤ item.format.length := by cases item <;> simp [Item.format]
    rw [List.flatMap_cons,List.length_append,List.length_cons]
    omega

theorem vsprintf_items (items : List Item) (legal : ∀ item ∈ items, item.Legal) (str : Bytes) :
    ∃ out, kaosVsprintf str (items.flatMap Item.format) (items.flatMap Item.args) = some out ∧
      out.bufferPtr = (items.flatMap Item.written).length ∧ stretch out.buffer 0 out.bufferPtr = items.flatMap Item.written ∧
      out.buffer out.bufferPtr = 0 := by
  obtain ⟨last,ran,wrote⟩ := formatLoop_items items legal ⟨str,0,[]⟩ (Nat.lt_succ_of_le (format_length items))
  have place : last.bufferPtr = (items.flatMap Item.written).length := wrote.place.trans (Nat.zero_add _)
  refine ⟨{last with buffer := store last.buffer last.bufferPtr 0},?_,place,?_,store_same _ _ _⟩
  · rw [kaosVsprintf,ran]
    rfl
  · have unchanged : Agree (store last.buffer last.bufferPtr 0) last.buffer 0 last.bufferPtr := fun i _ high => store_other _ (by omega)
    rw [stretch_congr unchanged,place]
    exact wrote.text

theorem prebootDigits_digits (many : 1 < radix) (digitAs : Int → Byte) (short : (Nat.digits radix n).length ≤ fuel)
    (fits : (Nat.digits radix n).length ≤ ptr) (numAsStr : Bytes) (digitCount : Nat) :
    prebootDigits radix digitAs fuel n numAsStr ptr digitCount =
      (downward numAsStr (ptr+1) ((Nat.digits radix n).map fun d : Nat => digitAs d),ptr-(Nat.digits radix n).length,
        digitCount+(Nat.digits radix n).length) := by
  induction fuel generalizing n ptr numAsStr digitCount with
  | zero =>
    rw [List.length_eq_zero_iff.mp (Nat.le_zero.mp short)]
    rfl
  | succ fuel ih =>
    rw [prebootDigits]
    by_cases zero : n = 0
    · subst zero
      rw [Nat.digits_zero,if_neg (show ¬ (0 : Int) < (0 : Nat) by decide)]
      rfl
    · rw [digits_step many zero,List.length_cons] at short fits
      rw [if_pos (Int.natCast_pos.mpr (Nat.pos_of_ne_zero zero)),tdiv_cast,tmod_cast,ih (by omega) (by omega),digits_step many zero,
        List.map_cons,downward,List.length_cons,Nat.add_sub_cancel,Nat.sub_add_cancel (by omega)]
      simp only [Prod.mk.injEq,true_and]
      omega

theorem ttyPuts_stretch (str : Bytes) (length i : Nat) (s : Sent) (solid : ∀ c ∈ stretch str i length, c ≠ 0) :
    ttyPuts str length i s = ⟨s.chars++stretch str i length,s.numCh⟩ := by
  induction length generalizing i s with
  | zero =>
    rw [show stretch str i 0 = [] from rfl,List.append_nil]
    rfl
  | succ length ih =>
    rw [stretch_cons] at solid ⊢
    rw [ttyPuts,if_neg (solid _ List.mem_cons_self),ih _ _ (fun c member => solid c (List.mem_cons_of_mem _ member)),Sent.putch]
    simp

theorem prebootText_numeral (many : 1 < radix) (digitAs : Int → Byte) (num : Int) (zero : num = 0 ↔ n = 0) (first : digitAs 0 = ch '0')
    (fits : (lowFirst radix n).length ≤ 13) : prebootText radix digitAs num n =
      (downward (fun _ => 0) 14 ((lowFirst radix n).map fun d : Nat => digitAs d),13-(lowFirst radix n).length,(lowFirst radix n).length) := by
  unfold prebootText
  by_cases none : n = 0
  · subst none
    rw [prebootDigits,if_neg (show ¬ (0 : Int) < (0 : Nat) by decide)]
    dsimp only
    rw [if_pos (zero.mpr rfl),← first]
    rfl
  · rw [show lowFirst radix n = Nat.digits radix n from if_neg none] at fits ⊢
    rw [prebootDigits_digits many digitAs (by omega) fits]
    dsimp only
    rw [if_neg (fun same => none (zero.mp same)),Nat.zero_add]

theorem prebootNumber_sent (many : 1 < radix) (digitAs : Int → Byte) (num : Int) (zero : num = 0 ↔ n = 0) (first : digitAs 0 = ch '0')
    (solid : ∀ d < radix, digitAs (d : Nat) ≠ 0) (fits : (lowFirst radix n).length ≤ 13) (s : Sent) :
    prebootNumber radix digitAs num n s =
      ⟨s.chars++((if num < 0 then [ch '-'] else [])++numeral (fun d : Nat => digitAs d) radix n),
        s.numCh+((if num < 0 then [ch '-'] else [])++numeral (fun d : Nat => digitAs d) radix n).length⟩ := by
  have text : stretch (downward (fun _ => 0) 14 ((lowFirst radix n).map fun d : Nat => digitAs d)) (13-(lowFirst radix n).length+1)
      (lowFirst radix n).length = numeral (fun d : Nat => digitAs d) radix n := by
    have written := @stretch_downward 14 ((lowFirst radix n).map fun d : Nat => digitAs d) (fun _ => 0) (by rw [List.length_map]; omega)
    rw [List.length_map] at written
    rw [show 13-(lowFirst radix n).length+1 = 14-(lowFirst radix n).length by omega]
    exact written
  have visible : ∀ c ∈ numeral (fun d : Nat => digitAs d) radix n, c ≠ 0 := by
    intro c member
    obtain ⟨d,inside,rfl⟩ := List.mem_map.mp (List.mem_reverse.mp member)
    exact solid d (lowFirst_small many inside)
  unfold prebootNumber
  rw [prebootText_numeral many digitAs num zero first fits]
  dsimp only
  rw [ttyPuts_stretch _ _ _ _ (by rw [text]; exact visible),ttyPuts_stretch _ _ _ _ (by rw [text]; exact visible),text]
  split
  · rw [Sent.putch,List.singleton_append,List.length_cons,numeral_length,List.append_assoc]
    rfl
  · rw [List.nil_append,numeral_length]

theorem digit_texts : (∀ d < 10, decimalDigit (d : Nat) = digitOf (ch 'a') d) ∧ (∀ d < 16, hexDigit (d : Nat) = digitOf (ch 'a') d) ∧
    ∀ d < 16, digitOf (ch 'a') d ≠ 0 := by decide

def Item.sent : Item → List Byte
  | .decimal num => if num = intMin then [ch '-'] else signedText true 10 num.toInt
  | .hex num => numeral (digitOf (ch 'a')) 16 num.toNat
  | item => item.written

-- Characters and strings are sent and not counted.
def Item.counted : Item → Nat
  | .character _ | .string _ => 0
  | item => item.sent.length

theorem magnitude_word (other : num ≠ intMin) : (if num.toInt < 0 then (-num).toInt else num.toInt) = (num.toInt.natAbs : Int) := by
  have low := num.le_toInt
  have high := num.toInt_lt
  have above : num.toInt ≠ -2147483648 := fun same => other (BitVec.toInt_inj.mp (same.trans (by decide)))
  split
  · rw [BitVec.toInt_neg,Int.bmod_eq_of_le]
    · omega
    · omega
    · omega
  · omega

theorem prebootDecimal_sent (num : BitVec 32) (s : Sent) :
    prebootDecimal num s = ⟨s.chars++(Item.decimal num).sent,s.numCh+(Item.decimal num).counted⟩ := by
  by_cases least : num = intMin
  · subst least
    rfl
  · have small : num.toInt.natAbs < 10^13 := by
      have low := num.le_toInt
      have high := num.toInt_lt
      omega
    have fits : (lowFirst 10 num.toInt.natAbs).length ≤ 13 := lowFirst_length (by decide) (by decide) small
    have text : (Item.decimal num).sent = signedText true 10 num.toInt := if_neg least
    have counted : (Item.decimal num).counted = (Item.decimal num).sent.length := rfl
    obtain ⟨same,_,solid⟩ := digit_texts
    rw [prebootDecimal,magnitude_word least,prebootNumber_sent (by decide) decimalDigit num.toInt (by omega) (by decide)
      (fun d few => by rw [same d few]; exact solid d (by omega)) fits,numeral_congr (by decide) same,counted,text,signedText,Bool.true_and]
    simp

theorem prebootHex_sent (num : BitVec 32) (s : Sent) :
    prebootHex num s = ⟨s.chars++(Item.hex num).sent,s.numCh+(Item.hex num).counted⟩ := by
  have fits : (lowFirst 16 num.toNat).length ≤ 13 := lowFirst_length (by decide) (by decide) (by have small := num.isLt; omega)
  obtain ⟨_,same,solid⟩ := digit_texts
  rw [prebootHex,prebootNumber_sent (by decide) hexDigit num.toNat (by omega) (by decide) (fun d small => by rw [same d small]; exact solid d small) fits,
    if_neg (by omega),List.nil_append,numeral_congr (by decide) same]
  rfl

theorem ttyPuts_text (text : List Byte) (solid : ∀ c ∈ text, c ≠ 0) (s : Sent) :
    ttyPuts (fun i => text.getD i 0) text.length 0 s = ⟨s.chars++text,s.numCh⟩ := by
  have whole : stretch (fun i => text.getD i 0) 0 text.length = text := by
    refine List.ext_getElem (stretch_length _ _ _) ?_
    intro i low high
    simp [stretch,List.getElem?_eq_getElem high]
  rw [ttyPuts_stretch _ _ _ _ (by rw [whole]; exact solid),whole]

theorem prebootLoop_item (item : Item) (legal : item.Legal) (rest : List Byte) (args : List Arg) (s : Sent) :
    prebootLoop (item.format++rest) (item.args++args) s = prebootLoop rest args ⟨s.chars++item.sent,s.numCh+item.counted⟩ := by
  cases item with
  | plain c =>
    rw [Item.format,List.singleton_append,prebootLoop.eq_def]
    dsimp only
    rw [if_neg legal.1]
    rfl
  | decimal num =>
    rw [← prebootDecimal_sent]
    rfl
  | hex num =>
    rw [← prebootHex_sent]
    rfl
  | character w => rfl
  | string text =>
    have sent : ttyPuts (fun i => text.getD i 0) text.length 0 s = ⟨s.chars++text,s.numCh⟩ := ttyPuts_text text legal s
    show prebootLoop rest args (ttyPuts (fun i => text.getD i 0) text.length 0 s) = _
    rw [sent]
    rfl

theorem prebootLoop_items (items : List Item) (legal : ∀ item ∈ items, item.Legal) (s : Sent) :
    prebootLoop (items.flatMap Item.format) (items.flatMap Item.args) s =
      some ⟨s.chars++items.flatMap Item.sent,s.numCh+(items.map Item.counted).sum⟩ := by
  induction items generalizing s with
  | nil =>
    rw [List.flatMap_nil,prebootLoop,List.flatMap_nil,List.append_nil]
    rfl
  | cons item rest ih =>
    rw [List.flatMap_cons,List.flatMap_cons,prebootLoop_item item (legal item List.mem_cons_self),
      ih (fun item member => legal item (List.mem_cons_of_mem _ member)),List.flatMap_cons,List.map_cons,List.sum_cons,List.append_assoc,
      Nat.add_assoc]

theorem printersAgree_iff (items : List Item) (legal : ∀ item ∈ items, item.Legal) (str : Bytes) :
    PrintersAgree str items ↔ items.flatMap Item.sent = items.flatMap Item.written ∧
      (items.map Item.counted).sum = (items.flatMap Item.written).length := by
  obtain ⟨out,ran,place,text,ended⟩ := vsprintf_items items legal str
  have printed : kaosPrebootPrintf (items.flatMap Item.format) (items.flatMap Item.args) =
      some ⟨items.flatMap Item.sent,(items.map Item.counted).sum⟩ := by
    rw [kaosPrebootPrintf,prebootLoop_items items legal,List.nil_append,Nat.zero_add]
  constructor
  · rintro ⟨sent,other,one,two,same,_,counts⟩
    rw [printed] at one
    rw [ran] at two
    cases Option.some.inj one
    cases Option.some.inj two
    exact ⟨same.trans text,counts.trans place⟩
  · rintro ⟨same,counts⟩
    exact ⟨_,_,printed,ran,same.trans text.symm,ended,counts.trans place.symm⟩

def hexValue (c : Byte) : Nat := if c.toNat < 58 then c.toNat-48 else c.toNat-87

theorem hexValue_digit : ∀ d < 16, hexValue (digitOf (ch 'a') d) = d := by decide

theorem natAbs_word (num : BitVec 32) : num.toInt.natAbs = if num.toNat ≤ 0x80000000 then num.toNat else 0x100000000-num.toNat := by
  have cases_ : num.toInt = if 2*num.toNat < 2^32 then (num.toNat : Int) else num.toNat-(2^32 : Nat) := BitVec.toInt_eq_toNat_cond num
  have small := num.isLt
  rw [cases_]
  split <;> split <;> omega

theorem natAbs_word_iff (num : BitVec 32) : num.toNat = num.toInt.natAbs ↔ num.toNat ≤ 0x80000000 := by
  have small := num.isLt
  rw [natAbs_word]
  split <;> omega

theorem hex_fine_iff (num : BitVec 32) : (Item.hex num).sent = (Item.hex num).written ↔ num.toNat ≤ 0x80000000 := by
  show numeral (digitOf (ch 'a')) 16 num.toNat = []++numeral (digitOf (ch 'a')) 16 num.toInt.natAbs ↔ _
  rw [List.nil_append,← natAbs_word_iff]
  constructor
  · exact numeral_injective (by decide) hexValue hexValue_digit
  · intro equal
    rw [← equal]

theorem decimal_fine_iff (num : BitVec 32) : (Item.decimal num).sent = (Item.decimal num).written ↔ num ≠ intMin := by
  constructor
  · rintro same rfl
    have longer : ch '-'::numeral (digitOf (ch 'a')) 10 2147483648 = [ch '-'] := same.symm
    have none : (lowFirst 10 2147483648).length = 0 := by
      rw [← numeral_length (digitOf (ch 'a')),(List.cons.inj longer).2]
      rfl
    have value := ofDigits_lowFirst 10 2147483648
    rw [List.length_eq_zero_iff.mp none] at value
    cases value
  · intro other
    exact if_neg other

theorem item_fine_iff (item : Item) : (item.sent = item.written ∧ item.counted = item.written.length) ↔ item.Fine := by
  have both : item.counted = item.sent.length → (item.sent = item.written ∧ item.counted = item.written.length ↔ item.sent = item.written) := by
    intro counted
    rw [counted]
    exact and_iff_left_of_imp fun same => by rw [same]
  cases item with
  | plain c => exact ⟨fun _ => trivial,fun _ => ⟨rfl,rfl⟩⟩
  | decimal num => exact (both rfl).trans (decimal_fine_iff num)
  | hex num => exact (both rfl).trans (hex_fine_iff num)
  | character w =>
    refine ⟨?_,False.elim⟩
    rintro ⟨_,wrong⟩
    cases wrong
  | string text =>
    refine ⟨fun same => List.length_eq_zero_iff.mp same.2.symm,?_⟩
    rintro rfl
    exact ⟨rfl,rfl⟩

theorem printers_agree_iff (items : List Item) (legal : ∀ item ∈ items, item.Legal) (str : Bytes) :
    (∀ part, part <+: items → PrintersAgree str part) ↔ ∀ item ∈ items, item.Fine := by
  have known : ∀ part, part <+: items → (PrintersAgree str part ↔ part.flatMap Item.sent = part.flatMap Item.written ∧
      (part.map Item.counted).sum = (part.flatMap Item.written).length) := fun part initial =>
    printersAgree_iff part (fun item member => legal item (initial.subset member)) str
  constructor
  · intro agree item member
    obtain ⟨before,after,split⟩ := List.append_of_mem member
    have shorter : before <+: items := ⟨item::after,split.symm⟩
    have longer : before++[item] <+: items := ⟨after,by rw [split,List.append_assoc]; rfl⟩
    obtain ⟨text,count⟩ := (known before shorter).mp (agree before shorter)
    obtain ⟨texts,counts⟩ := (known _ longer).mp (agree _ longer)
    rw [List.flatMap_append,List.flatMap_append,text] at texts
    rw [List.map_append,List.sum_append,count,List.flatMap_append,List.length_append] at counts
    have sent := List.append_cancel_left texts
    have counted := Nat.add_left_cancel counts
    simp only [List.flatMap_singleton,List.map_singleton,List.sum_singleton] at sent counted
    exact (item_fine_iff item).mp ⟨sent,counted⟩
  · intro fine part initial
    have same : ∀ item ∈ part, item.sent = item.written ∧ item.counted = item.written.length := fun item member =>
      (item_fine_iff item).mpr (fine item (initial.subset member))
    refine (known part initial).mpr ⟨List.flatMap_congr (fun item member => (same item member).1),?_⟩
    rw [List.length_flatMap,List.map_congr_left (fun item member => (same item member).2)]

-- "n=%d 0x%x%s" with -42, 255 and the empty string.
def greeting : List Item := [.plain (ch 'n'),.plain (ch '='),.decimal (-42),.plain 0x20,.plain (ch '0'),.plain (ch 'x'),.hex 255,.string []]

theorem printers_agree_greeting : (∀ item ∈ greeting, item.Legal) ∧ PrintersAgree (fun _ => 0) greeting := by
  have legal : ∀ item ∈ greeting, item.Legal := by
    simp [greeting,Item.Legal,ch]
  refine ⟨legal,(printers_agree_iff greeting legal (fun _ => 0)).mpr ?_ greeting (List.prefix_refl _)⟩
  simp [greeting,Item.Fine,intMin]

-- "%c" sends its character and counts none.
theorem character_uncounted : (∀ item ∈ [Item.character 0x41], item.Legal) ∧
    kaosPrebootPrintf [ch '%',ch 'c'] [.word 0x41] = some ⟨[0x41],0⟩ ∧
    (kaosVsprintf (fun _ => 0) [ch '%',ch 'c'] [.word 0x41]).map Out.bufferPtr = some 1 ∧
    ¬ PrintersAgree (fun _ => 0) [.character 0x41] := by
  have legal : ∀ item ∈ [Item.character 0x41], item.Legal := by
    simp [Item.Legal]
  refine ⟨legal,rfl,rfl,?_⟩
  intro agree
  cases ((printersAgree_iff _ legal _).mp agree).2

end KaracaOS.Printers
