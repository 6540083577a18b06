import KaracaOS.FormatGrammar

namespace KaracaOS.FormatLengths
open ByteMemory Numerals Printers Directives FormatRuns FormatGrammar

inductive Integral where
  | d | i | o | u | x | upperX
  deriving DecidableEq

def Integral.conversion : Integral → Conversion
  | .d => .d
  | .i => .i
  | .o => .o
  | .u => .u
  | .x => .x
  | .upperX => .upperX

def Integral.signed : Integral → Bool
  | .d | .i => true
  | .o | .u | .x | .upperX => false

-- A length modifier with the argument passed for it: what is shorter than an
-- int is passed as one, a long long takes two words, the low one first.
inductive Sized where
  | none (w : BitVec 32)
  | hh (w : BitVec 32)
  | h (w : BitVec 32)
  | l (w : BitVec 32)
  | ll (w : BitVec 64)
  deriving DecidableEq

def Sized.text : Sized → List Byte
  | .none _ => []
  | .hh _ => [ch 'h',ch 'h']
  | .h _ => [ch 'h']
  | .l _ => [ch 'l']
  | .ll _ => [ch 'l',ch 'l']

def Sized.words : Sized → List (BitVec 32)
  | .none w | .hh w | .h w | .l w => [w]
  | .ll w => [w.setWidth 32,(w >>> 32).setWidth 32]

def valueOf (signed : Bool) (w : BitVec n) : Int := if signed then w.toInt else w.toNat

-- The argument as a value of the modifier's type.
def Sized.reduced (signed : Bool) : Sized → Int
  | .none w | .l w => valueOf signed w
  | .hh w => valueOf signed (w.setWidth 8)
  | .h w => valueOf signed (w.setWidth 16)
  | .ll w => valueOf signed w

inductive Piece where
  | text (c : Byte)
  | number (front : Front) (size : Sized) (conversion : Integral)
  deriving DecidableEq

def Piece.Legal : Piece → Prop
  | .text c => c ≠ ch '%' ∧ c ≠ 0
  | .number front _ _ => front.Legal

def Piece.format : Piece → List Byte
  | .text c => [c]
  | .number front size conversion => ch '%'::(front.text++(size.text++[conversion.conversion.char]))

def Amount.words : Option Amount → List (BitVec 32)
  | some (.star w) => [w]
  | _ => []

def Front.words (f : Front) : List (BitVec 32) := Amount.words f.fieldWidth++Amount.words f.precision

def Piece.words : Piece → List (BitVec 32)
  | .text _ => []
  | .number front size _ => Front.words front++size.words

def Piece.values : Piece → List Int
  | .text _ => []
  | .number _ size conversion => [size.reduced conversion.signed]

-- Every directive converts its own argument, and the words behind the
-- arguments are left.
def Selects (str : Bytes) (pieces : List Piece) (more : List Arg) : Prop :=
  ∃ done, vsprintfRun str (pieces.flatMap Piece.format) ((pieces.flatMap Piece.words).map Arg.word++more) = .ok done ∧
    done.converted = pieces.flatMap Piece.values ∧ done.args = more

-- An argument that is a value of its type already, and not a long long. The
-- word is fetched as an int, so that an unsigned one has its highest bit clear.
def Sized.Fine (signed : Bool) : Sized → Prop
  | .none w | .l w => signed = true ∨ w.toNat < 2147483648
  | .hh w => if signed then -128 ≤ w.toInt ∧ w.toInt < 128 else w.toNat < 256
  | .h w => if signed then -32768 ≤ w.toInt ∧ w.toInt < 32768 else w.toNat < 65536
  | .ll _ => False

def Piece.Fine : Piece → Prop
  | .text _ => True
  | .number _ size conversion => size.Fine conversion.signed

variable {out next : Out} {args left more : List Arg} {rest ptr : List Byte} {fuel rounds : Nat} {state : FormatState} {s t middle : Scan} {numbers : List Int}
  {pieces : List Piece}

theorem directiveRun_walks (walk : Walks rounds s t) (fuel : Nat) (out : Out) : directiveRun (fuel+rounds) s out = directiveRun fuel t out := by
  induction walk with
  | done => rfl
  | round ran early _ ih =>
    rw [← Nat.add_assoc,directiveRun_step ran,specifierStage_early early]
    exact ih

-- The word a directive fetches, whatever its length modifier.
def Sized.modifier : Sized → Option Modifier
  | .none _ => .none
  | .hh _ => some .hh
  | .h _ => some .h
  | .l _ | .ll _ => some .l

theorem specifier_number (conversion : Integral) (size : Sized) (w : BitVec 32) (left : List Arg) (rest : List Byte) (bits : BitVec 32)
    (fieldWidth precision : Nat) (out : Out) : ∃ next,
    specifierStage ⟨conversion.conversion.char::rest,.word w::left,.specifier,bits,fieldWidth,precision,
      (size.modifier.map Modifier.length).getD .none⟩ out = some (.finished rest left next) ∧
    numbersOf ⟨conversion.conversion.char::rest,.word w::left,.specifier,bits,fieldWidth,precision,
      (size.modifier.map Modifier.length).getD .none⟩ = [w.toInt] := by
  cases conversion <;> cases size <;> exact ⟨_,rfl,rfl⟩

theorem words_args (f : Front) : f.args = (Front.words f).map Arg.word := by
  obtain ⟨flags,fieldWidth,precision⟩ := f
  unfold Front.args Front.words Amount.words
  rw [List.map_append]
  congr 1
  · cases fieldWidth with
    | none => rfl
    | some amount => cases amount <;> rfl
  · cases precision with
    | none => rfl
    | some amount => cases amount <;> rfl

-- The second l of a long long is stepped over in front of the specifier.
theorem modifier_rounds (size : Sized) (conversion : Integral) (reading : state = .flags ∨ state = .fieldWidth ∨ state = .precision) (before : Byte)
    (rest : List Byte) (args : List Arg) (bits : BitVec 32) (fieldWidth precision fuel : Nat) (out : Out) :
    directiveRun (fuel+2) ⟨before::(size.text++conversion.conversion.char::rest),args,state,bits,fieldWidth,precision,.none⟩ out =
      match specifierStage ⟨conversion.conversion.char::rest,args,.specifier,bits,fieldWidth,precision,
        (size.modifier.map Modifier.length).getD .none⟩ out with
      | none => .error .argument
      | some (.again t) => directiveRun (if size.text = [ch 'l',ch 'l'] then fuel else fuel+1) t out
      | some (.finished ptr left next) => .ok (ptr,numbersOf ⟨conversion.conversion.char::rest,args,.specifier,bits,fieldWidth,precision,
        (size.modifier.map Modifier.length).getD .none⟩,left,next) := by
  have single : ∀ modifier : Option Modifier, round ⟨before::((modifier.map Modifier.text).getD []++conversion.conversion.char::rest),args,state,bits,fieldWidth,
      precision,.none⟩ () = some ⟨conversion.conversion.char::rest,args,.specifier,bits,fieldWidth,precision,
      (modifier.map Modifier.length).getD .none⟩ := fun modifier =>
    conversion_round modifier conversion.conversion reading before rest args bits fieldWidth precision
  cases size with
  | none w => exact directiveRun_step (single none) (fuel+1) out
  | hh w => exact directiveRun_step (single (some .hh)) (fuel+1) out
  | h w => exact directiveRun_step (single (some .h)) (fuel+1) out
  | l w => exact directiveRun_step (single (some .l)) (fuel+1) out
  | ll w =>
    have first : round ⟨before::ch 'l'::ch 'l'::conversion.conversion.char::rest,args,state,bits,fieldWidth,precision,.none⟩ () =
        some ⟨ch 'l'::conversion.conversion.char::rest,args,.specifier,bits,fieldWidth,precision,.long⟩ := by
      rcases reading with rfl | rfl | rfl <;> rfl
    have second : round ⟨ch 'l'::conversion.conversion.char::rest,args,.specifier,bits,fieldWidth,precision,.long⟩ () =
        some ⟨conversion.conversion.char::rest,args,.specifier,bits,fieldWidth,precision,.long⟩ := rfl
    show directiveRun (fuel+2) ⟨before::ch 'l'::ch 'l'::conversion.conversion.char::rest,args,state,bits,fieldWidth,precision,.none⟩ out = _
    rw [directiveRun_step first,specifierStage_open rfl]
    exact directiveRun_step second fuel out

theorem directiveRun_number {front : Front} (legal : front.Legal) (size : Sized) (conversion : Integral) (w : BitVec 32) (left : List Arg)
    (rest : List Byte) (out : Out) (enough : ((Piece.number front size conversion).format++rest).length ≤ fuel) : ∃ next,
    directiveRun fuel ⟨(Piece.number front size conversion).format++rest,(Front.words front).map Arg.word++.word w::left,.flags,0,0,0,.none⟩ out =
      .ok (rest,[w.toInt],left,next) := by
  obtain ⟨state,last,rounds,ended,few,walk⟩ := front_written legal (ch '%') (size.text++conversion.conversion.char::rest) (.word w::left)
  obtain ⟨next,stage,numbers⟩ := specifier_number conversion size w left rest front.bits front.width front.precise out
  have form : (Piece.number front size conversion).format++rest = ch '%'::(front.text++(size.text++conversion.conversion.char::rest)) := by
    unfold Piece.format
    simp
  rw [form] at enough ⊢
  rw [List.length_cons,List.length_append,List.length_append,List.length_cons] at enough
  refine ⟨next,?_⟩
  rw [← words_args,show fuel = fuel-rounds-2+2+rounds by omega,directiveRun_walks walk,modifier_rounds size conversion ended,stage]
  dsimp only
  rw [numbers]

-- What a piece takes from the stack whatever was passed for it.
def Piece.taken : Piece → Nat
  | .text _ => 0
  | .number front _ _ => (Front.words front).length+1

def Piece.converts : Piece → List Int
  | .text _ => []
  | .number _ size _ => [(size.words.headD 0).toInt]

theorem piece_run {piece : Piece} (legal : piece.Legal) (out : Out) (numbers : List Int) (left : List Arg) (rest : List Byte) (fuel : Nat) :
    ∃ next, formatRun (fuel+1) (piece.format++rest) ⟨out,(piece.words.take piece.taken).map Arg.word++left,numbers⟩ =
      formatRun fuel rest ⟨next,left,numbers++piece.converts⟩ := by
  cases piece with
  | text c =>
    refine ⟨out.put c,?_⟩
    rw [Piece.format,List.singleton_append,formatRun.eq_def]
    dsimp only
    rw [if_neg legal.1,Piece.converts,List.append_nil]
    rfl
  | number front size conversion =>
    have legal : front.Legal := legal
    obtain ⟨next,ran⟩ := directiveRun_number legal size conversion (size.words.headD 0) left rest out (Nat.le_refl _)
    have given : ((Piece.number front size conversion).words.take (Piece.number front size conversion).taken).map Arg.word++left =
        (Front.words front).map Arg.word++.word (size.words.headD 0)::left := by
      unfold Piece.words Piece.taken
      rw [List.take_append]
      cases size <;> simp [Sized.words]
    refine ⟨next,?_⟩
    rw [given]
    have shape : (Piece.number front size conversion).format++rest =
        ch '%'::(front.text++(size.text++[conversion.conversion.char])++rest) := rfl
    rw [shape] at ran ⊢
    rw [formatRun.eq_def]
    dsimp only
    rw [if_pos rfl]
    rw [List.length_cons] at ran
    rw [ran]
    rfl

theorem pieces_run (legal : ∀ piece ∈ pieces, piece.Legal) (whole : ∀ piece ∈ pieces, piece.words.length = piece.taken)
    (enough : pieces.length < fuel) (out : Out) (numbers : List Int) (more : List Arg) : ∃ next,
    formatRun fuel (pieces.flatMap Piece.format) ⟨out,(pieces.flatMap Piece.words).map Arg.word++more,numbers⟩ =
      .ok ⟨next,more,numbers++pieces.flatMap Piece.converts⟩ := by
  induction pieces generalizing fuel out numbers with
  | nil =>
    obtain ⟨fuel,rfl⟩ := Nat.exists_eq_succ_of_ne_zero (Nat.ne_of_gt enough)
    exact ⟨out,by rw [show ([] : List Piece).flatMap Piece.converts = [] from rfl,List.append_nil]; rfl⟩
  | cons piece pieces ih =>
    rw [List.length_cons] at enough
    obtain ⟨fuel,rfl⟩ := Nat.exists_eq_succ_of_ne_zero (show fuel ≠ 0 by omega)
    have fewer : pieces.length < fuel := by omega
    have all : piece.words.take piece.taken = piece.words := by
      rw [← whole piece List.mem_cons_self]
      exact List.take_length
    obtain ⟨middle,first⟩ := piece_run (legal piece List.mem_cons_self) out numbers ((pieces.flatMap Piece.words).map Arg.word++more)
      (pieces.flatMap Piece.format) fuel
    obtain ⟨next,later⟩ := ih (fun piece member => legal piece (List.mem_cons_of_mem _ member))
      (fun piece member => whole piece (List.mem_cons_of_mem _ member)) fewer middle (numbers++piece.converts)
    refine ⟨next,?_⟩
    rw [List.flatMap_cons,List.flatMap_cons,List.flatMap_cons,List.map_append,List.append_assoc,← List.append_assoc numbers,← later,← first,all]

theorem amount_refed (amount : Option Amount) {stars : List (BitVec 32)} (same : stars.length = (Amount.words amount).length) :
    ∃ other, other.map Amount.text = amount.map Amount.text ∧ Amount.words other = stars ∧
      ∀ first others, other = some (.digits first others) → amount = some (.digits first others) := by
  cases amount with
  | none => exact ⟨none,rfl,(List.length_eq_zero_iff.mp same).symm,nofun⟩
  | some amount =>
    cases amount with
    | digits first others => exact ⟨_,rfl,(List.length_eq_zero_iff.mp same).symm,fun _ _ known => known⟩
    | star w =>
      obtain ⟨v,rfl⟩ := List.length_eq_one_iff.mp same
      exact ⟨some (.star v),rfl,rfl,nofun⟩

theorem front_refed {f : Front} (legal : f.Legal) {stars : List (BitVec 32)} (same : stars.length = (Front.words f).length) :
    ∃ other : Front, other.Legal ∧ other.text = f.text ∧ Front.words other = stars := by
  obtain ⟨flags,fieldWidth,precision⟩ := f
  have same : stars.length = (Amount.words fieldWidth++Amount.words precision).length := same
  rw [List.length_append] at same
  have before : (stars.take (Amount.words fieldWidth).length).length = (Amount.words fieldWidth).length := by
    rw [List.length_take]
    omega
  have behind : (stars.drop (Amount.words fieldWidth).length).length = (Amount.words precision).length := by
    rw [List.length_drop]
    omega
  obtain ⟨width,widthText,widthWords,widthDigits⟩ := amount_refed fieldWidth before
  obtain ⟨precise,preciseText,preciseWords,preciseDigits⟩ := amount_refed precision behind
  have dotted : (precise.map fun amount => ch '.'::amount.text) = precision.map fun amount => ch '.'::amount.text := by
    have mapped := congrArg (Option.map (ch '.'::·)) preciseText
    rw [Option.map_map,Option.map_map] at mapped
    exact mapped
  refine ⟨⟨flags,width,precise⟩,⟨?_,?_⟩,?_,?_⟩
  · exact fun first others known => legal.width first others (widthDigits first others known)
  · exact fun first others known => legal.precision first others (preciseDigits first others known)
  · unfold Front.text
    dsimp only
    rw [widthText,dotted]
  · unfold Front.words
    rw [widthWords,preciseWords]
    exact List.take_append_drop _ _

def Sized.fetching (w : BitVec 32) : Sized → Sized
  | .none _ => .none w
  | .hh _ => .hh w
  | .h _ => .h w
  | .l _ => .l w
  | .ll _ => .ll (w.setWidth 64)

theorem fetching_words (size : Sized) (w : BitVec 32) : (size.fetching w).text = size.text ∧ (size.fetching w).words.take 1 = [w] := by
  cases size with
  | ll v =>
    refine ⟨rfl,?_⟩
    show [(w.setWidth 64).setWidth 32] = [w]
    rw [BitVec.setWidth_setWidth_of_le w (by decide),BitVec.setWidth_eq]
  | _ => exact ⟨rfl,rfl⟩

theorem piece_refed {piece : Piece} (legal : piece.Legal) {given : List (BitVec 32)} (same : given.length = piece.taken) :
    ∃ other : Piece, other.Legal ∧ other.format = piece.format ∧ other.words.take other.taken = given := by
  cases piece with
  | text c => exact ⟨.text c,legal,rfl,(List.length_eq_zero_iff.mp same).symm⟩
  | number front size conversion =>
    have same : given.length = (Front.words front).length+1 := same
    rcases List.eq_nil_or_concat' given with rfl | ⟨stars,w,rfl⟩
    · cases same
    · rw [List.length_append] at same
      obtain ⟨other,allowed,text,words⟩ := front_refed legal (Nat.succ.inj same)
      obtain ⟨sameText,first⟩ := fetching_words size w
      refine ⟨.number other (size.fetching w) conversion,allowed,?_,?_⟩
      · rw [Piece.format,Piece.format,text,sameText]
      · rw [Piece.words,Piece.taken,words,List.take_length_add_append,first]

theorem words_taken (legal : ∀ piece ∈ pieces, piece.Legal) {words : List (BitVec 32)} (there : (pieces.map Piece.taken).sum ≤ words.length)
    (enough : pieces.length < fuel) (out : Out) (numbers : List Int) (more : List Arg) : ∃ done,
    formatRun fuel (pieces.flatMap Piece.format) ⟨out,words.map Arg.word++more,numbers⟩ = .ok done ∧
      done.args = (words.drop (pieces.map Piece.taken).sum).map Arg.word++more := by
  induction pieces generalizing fuel out numbers words with
  | nil =>
    obtain ⟨fuel,rfl⟩ := Nat.exists_eq_succ_of_ne_zero (Nat.ne_of_gt enough)
    exact ⟨_,rfl,rfl⟩
  | cons piece pieces ih =>
    rw [List.length_cons] at enough
    rw [List.map_cons,List.sum_cons] at there
    obtain ⟨fuel,rfl⟩ := Nat.exists_eq_succ_of_ne_zero (show fuel ≠ 0 by omega)
    have fewer : pieces.length < fuel := by omega
    have long : (words.take piece.taken).length = piece.taken := by
      rw [List.length_take]
      omega
    obtain ⟨other,allowed,sameFormat,given⟩ := piece_refed (legal piece List.mem_cons_self) long
    obtain ⟨middle,first⟩ := piece_run allowed out numbers ((words.drop piece.taken).map Arg.word++more) (pieces.flatMap Piece.format) fuel
    have remain : (pieces.map Piece.taken).sum ≤ (words.drop piece.taken).length := by
      rw [List.length_drop]
      omega
    obtain ⟨done,later,left⟩ := ih (fun piece member => legal piece (List.mem_cons_of_mem _ member)) remain fewer middle
      (numbers++other.converts)
    refine ⟨done,?_,?_⟩
    · rw [List.flatMap_cons,← sameFormat,← later,← first,given,← List.append_assoc,← List.map_append,List.take_append_drop]
    · rw [left,List.drop_drop,List.map_cons,List.sum_cons]

theorem signed_fits (w : BitVec 32) (bits : Nat) (few : bits = 7 ∨ bits = 15) :
    w.toInt = (w.setWidth (bits+1)).toInt ↔ -(2^bits : Int) ≤ w.toInt ∧ w.toInt < 2^bits := by
  have cases_ : w.toInt = if 2*w.toNat < 2^32 then (w.toNat : Int) else w.toNat-(2^32 : Nat) := BitVec.toInt_eq_toNat_cond w
  have small := w.isLt
  rw [BitVec.toInt_setWidth,Int.bmod_def,cases_]
  rcases few with rfl | rfl <;> split <;> split <;> omega

theorem unsigned_fits (w : BitVec 32) (bits : Nat) (few : bits = 8 ∨ bits = 16) :
    w.toInt = ((w.setWidth bits).toNat : Int) ↔ w.toNat < 2^bits := by
  have cases_ : w.toInt = if 2*w.toNat < 2^32 then (w.toNat : Int) else w.toNat-(2^32 : Nat) := BitVec.toInt_eq_toNat_cond w
  have small := w.isLt
  rw [cases_,BitVec.toNat_setWidth]
  rcases few with rfl | rfl <;> split <;> omega

theorem plain_fits (w : BitVec 32) : w.toInt = (w.toNat : Int) ↔ w.toNat < 2147483648 := by
  have cases_ : w.toInt = if 2*w.toNat < 2^32 then (w.toNat : Int) else w.toNat-(2^32 : Nat) := BitVec.toInt_eq_toNat_cond w
  rw [cases_]
  split <;> omega

theorem sized_fine (signed : Bool) (size : Sized) :
    size.Fine signed ↔ size.words.length = 1 ∧ (size.words.headD 0).toInt = size.reduced signed := by
  cases size with
  | none w =>
    cases signed with
    | true => exact ⟨fun _ => ⟨rfl,rfl⟩,fun _ => .inl rfl⟩
    | false => exact ⟨fun fine => ⟨rfl,(plain_fits w).mpr (fine.resolve_left nofun)⟩,fun same => .inr ((plain_fits w).mp same.2)⟩
  | hh w =>
    cases signed with
    | true => exact (signed_fits w 7 (.inl rfl)).symm.trans (and_iff_right rfl).symm
    | false => exact (unsigned_fits w 8 (.inl rfl)).symm.trans (and_iff_right rfl).symm
  | h w =>
    cases signed with
    | true => exact (signed_fits w 15 (.inr rfl)).symm.trans (and_iff_right rfl).symm
    | false => exact (unsigned_fits w 16 (.inr rfl)).symm.trans (and_iff_right rfl).symm
  | l w =>
    cases signed with
    | true => exact ⟨fun _ => ⟨rfl,rfl⟩,fun _ => .inl rfl⟩
    | false => exact ⟨fun fine => ⟨rfl,(plain_fits w).mpr (fine.resolve_left nofun)⟩,fun same => .inr ((plain_fits w).mp same.2)⟩
  | ll w => exact ⟨nofun,fun same => by cases same.1⟩

theorem piece_fine (piece : Piece) : piece.Fine ↔ piece.words.length = piece.taken ∧ piece.converts = piece.values := by
  cases piece with
  | text c => exact ⟨fun _ => ⟨rfl,rfl⟩,fun _ => trivial⟩
  | number front size conversion =>
    have length : (Piece.number front size conversion).words.length = (Front.words front).length+size.words.length := List.length_append
    refine (sized_fine conversion.signed size).trans (and_congr ?_ ?_)
    · rw [length]
      exact (Nat.add_left_cancel_iff (n := (Front.words front).length)).symm
    · exact ⟨fun same => congrArg (fun n => [n]) same,fun same => (List.cons.inj same).1⟩

theorem taken_le (piece : Piece) : piece.taken ≤ piece.words.length := by
  cases piece with
  | text c => exact Nat.le_refl _
  | number front size conversion =>
    rw [Piece.words,Piece.taken,List.length_append]
    cases size <;> simp [Sized.words]

theorem pieces_length (pieces : List Piece) : pieces.length ≤ (pieces.flatMap Piece.format).length := by
  induction pieces with
  | nil => exact Nat.le_refl _
  | cons piece pieces ih =>
    have some_ : 1 ≤ piece.format.length := by cases piece <;> exact Nat.le_add_left _ _
    rw [List.flatMap_cons,List.length_append,List.length_cons]
    omega

theorem taken_sum (pieces : List Piece) : (pieces.map Piece.taken).sum ≤ (pieces.flatMap Piece.words).length := by
  rw [List.length_flatMap]
  exact List.sum_le_sum fun piece _ => taken_le piece

theorem whole_of_sum (all : (pieces.flatMap Piece.words).length ≤ (pieces.map Piece.taken).sum) :
    ∀ piece ∈ pieces, piece.words.length = piece.taken := by
  induction pieces with
  | nil => exact fun _ member => by cases member
  | cons piece pieces ih =>
    rw [List.flatMap_cons,List.length_append,List.map_cons,List.sum_cons] at all
    have first := taken_le piece
    have others := taken_sum pieces
    intro other member
    rcases List.mem_cons.mp member with rfl | later
    · omega
    · exact ih (by omega) other later

theorem values_of_flat (same : pieces.flatMap Piece.converts = pieces.flatMap Piece.values) : ∀ piece ∈ pieces, piece.converts = piece.values := by
  induction pieces with
  | nil => exact fun _ member => by cases member
  | cons piece pieces ih =>
    have long : piece.converts.length = piece.values.length := by cases piece <;> rfl
    obtain ⟨first,others⟩ := List.append_inj same long
    intro other member
    rcases List.mem_cons.mp member with rfl | later
    · exact first
    · exact ih others other later

theorem lengths_select_iff (pieces : List Piece) (legal : ∀ piece ∈ pieces, piece.Legal) (str : Bytes) (more : List Arg) :
    Selects str pieces more ↔ ∀ piece ∈ pieces, piece.Fine := by
  have enough := Nat.lt_succ_of_le (pieces_length pieces)
  have aligned : (∀ piece ∈ pieces, piece.words.length = piece.taken) → ∃ done,
      vsprintfRun str (pieces.flatMap Piece.format) ((pieces.flatMap Piece.words).map Arg.word++more) = .ok done ∧
        done.converted = pieces.flatMap Piece.converts ∧ done.args = more := by
    intro whole
    obtain ⟨next,ran⟩ := pieces_run legal whole enough ⟨str,0,[]⟩ [] more
    rw [vsprintfRun,ran]
    exact ⟨_,rfl,rfl,rfl⟩
  constructor
  · rintro ⟨done,ran,values,left⟩
    have whole : ∀ piece ∈ pieces, piece.words.length = piece.taken := by
      obtain ⟨last,taken,args⟩ := words_taken legal (taken_sum pieces) enough ⟨str,0,[]⟩ [] more
      rw [vsprintfRun,taken] at ran
      cases ran
      have none := List.append_left_eq_self.mp (args.symm.trans left)
      rw [List.map_eq_nil_iff,List.drop_eq_nil_iff] at none
      exact whole_of_sum none
    obtain ⟨same,ran',converted,_⟩ := aligned whole
    rw [ran] at ran'
    cases ran'
    exact fun piece member => (piece_fine piece).mpr ⟨whole piece member,values_of_flat (converted.symm.trans values) piece member⟩
  · intro fine
    obtain ⟨done,ran,converted,left⟩ := aligned fun piece member => ((piece_fine piece).mp (fine piece member)).1
    refine ⟨done,ran,converted.trans ?_,left⟩
    exact List.flatMap_congr fun piece member => ((piece_fine piece).mp (fine piece member)).2

-- "%hd,%lx" with -5 and 7; "%lld" leaves the high word for the next directive.
def shortAndLong : List Piece := [.number ⟨[],none,none⟩ (.h (-5)) .d,.text (ch ','),.number ⟨[],none,none⟩ (.l 7) .x]

theorem bare_legal : Front.Legal ⟨[],none,none⟩ := ⟨nofun,nofun⟩

theorem short_and_long_selected : (∀ piece ∈ shortAndLong, piece.Legal) ∧ Selects (fun _ => 0) shortAndLong [] := by
  have legal : ∀ piece ∈ shortAndLong, piece.Legal := by
    intro piece member
    simp only [shortAndLong,List.mem_cons,List.not_mem_nil,or_false] at member
    rcases member with rfl | rfl | rfl
    · exact bare_legal
    · exact ⟨by decide,by decide⟩
    · exact bare_legal
  refine ⟨legal,(lengths_select_iff shortAndLong legal (fun _ => 0) []).mpr ?_⟩
  intro piece member
  simp only [shortAndLong,List.mem_cons,List.not_mem_nil,or_false] at member
  rcases member with rfl | rfl | rfl
  · exact ⟨by decide,by decide⟩
  · trivial
  · exact .inr (by decide)

theorem long_long_splits : Piece.Legal (.number ⟨[],none,none⟩ (.ll 4294967298) .d) ∧
    Piece.format (.number ⟨[],none,none⟩ (.ll 4294967298) .d) = [ch '%',ch 'l',ch 'l',ch 'd'] ∧
    (∃ done, vsprintfRun (fun _ => 0) [ch '%',ch 'l',ch 'l',ch 'd'] [.word 2,.word 1] = .ok done ∧ done.converted = [2] ∧ done.args = [.word 1]) ∧
    ¬ Selects (fun _ => 0) [.number ⟨[],none,none⟩ (.ll 4294967298) .d] [] := by
  have ran : ∃ done, vsprintfRun (fun _ => 0) [ch '%',ch 'l',ch 'l',ch 'd'] [.word 2,.word 1] = .ok done ∧ done.converted = [2] ∧
      done.args = [.word 1] := ⟨_,rfl,rfl,rfl⟩
  refine ⟨bare_legal,rfl,ran,?_⟩
  rintro ⟨done,found,_,left⟩
  obtain ⟨other,ran,_,args⟩ := ran
  have same : (Except.ok done : Except Fault Done) = .ok other := found.symm.trans ran
  cases same
  rw [left] at args
  cases args

end KaracaOS.FormatLengths
