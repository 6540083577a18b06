import KaracaOS.Directives

namespace KaracaOS.FormatRuns
open ByteMemory Numerals Printers Directives

-- Why `formatLoop` has no result: a character behind the NUL was read, va_arg
-- found no argument of the type it asks for, or the rounds given ran out.
inductive Fault where
  | pastEnd | argument | unfinished
  deriving DecidableEq

-- The numbers that a specifier hands to convert_any_int_to_str.
def numbersOf (s : Scan) : List Int :=
  if s.char ∈ [ch 'd',ch 'i',ch 'o',ch 'u',ch 'x',ch 'X',ch 'p'] then (vaInteger s.length s.args).toList.map Prod.fst else []

-- The two loops of kaos_vsprintf once more, with the reason of a failure, the
-- numbers converted and the arguments that were not taken.
def directiveRun : Nat → Scan → Out → Except Fault (List Byte × List Int × List Arg × Out)
  | 0,s,_ => .error (if s.formatPtr = [] then .pastEnd else .unfinished)
  | fuel+1,s,out =>
    if s.formatPtr = [] then .error .pastEnd
    else
      match round s () with
      | none => .error .argument
      | some t =>
        match specifierStage t out with
        | none => .error .argument
        | some (.again t) => directiveRun fuel t out
        | some (.finished ptr rest out) => .ok (ptr,numbersOf t,rest,out)

structure Done where
  out : Out
  args : List Arg
  converted : List Int

def formatRun : Nat → List Byte → Done → Except Fault Done
  | 0,_,_ => .error .unfinished
  | fuel+1,formatPtr,d =>
    match formatPtr with
    | [] => .ok d
    | c::ptr =>
      if c = ch '%' then
        match directiveRun (ptr.length+1) ⟨c::ptr,d.args,.flags,0,0,0,.none⟩ d.out with
        | .error fault => .error fault
        | .ok (ptr,numbers,rest,out) => formatRun fuel ptr ⟨out,rest,d.converted++numbers⟩
      else formatRun fuel ptr {d with out := d.out.put c}

def vsprintfRun (str : Bytes) (format : List Byte) (args : List Arg) : Except Fault Done :=
  match formatRun (format.length+1) format ⟨⟨str,0,[]⟩,args,[]⟩ with
  | .error fault => .error fault
  | .ok d => .ok {d with out := {d.out with buffer := store d.out.buffer d.out.bufferPtr 0}}

variable {out next : Out} {args left : List Arg} {ptr rest format : List Byte} {s t : Scan} {fuel : Nat} {numbers : List Int} {d : Done}

theorem directiveRun_step (stepped : round s () = some t) (fuel : Nat) (out : Out) : directiveRun (fuel+1) s out =
    match specifierStage t out with
    | none => .error .argument
    | some (.again t) => directiveRun fuel t out
    | some (.finished ptr rest out) => .ok (ptr,numbersOf t,rest,out) := by
  have some_ : s.formatPtr ≠ [] := by
    intro none
    unfold Directives.round at stepped
    rw [none] at stepped
    cases stepped
  rw [directiveRun,if_neg some_,stepped]

theorem directiveRun_loop (fuel : Nat) (s : Scan) (out : Out) :
    (directiveRun fuel s out).toOption.map (fun (ptr,_,rest,out) => (ptr,rest,out)) = directiveLoop fuel s out := by
  induction fuel generalizing s out with
  | zero => rfl
  | succ fuel ih =>
    rw [directiveRun,directiveLoop]
    cases cut : s.formatPtr with
    | nil => rfl
    | cons c ptr =>
      rw [if_neg (List.cons_ne_nil _ _),Directives.round,cut]
      dsimp only
      cases ran : (widthStage (flagsStage {s with formatPtr := ptr})).bind precisionStage with
      | none => rfl
      | some middle =>
        rw [Option.map_some,Option.bind_some]
        dsimp only
        cases stage : specifierStage (lengthStage middle) out with
        | none => rfl
        | some answer =>
          cases answer with
          | again t => exact ih t out
          | finished ptr rest out => rfl

theorem formatRun_loop (fuel : Nat) (format : List Byte) (d : Done) :
    (formatRun fuel format d).toOption.map Done.out = formatLoop fuel format d.args d.out := by
  induction fuel generalizing format d with
  | zero => rfl
  | succ fuel ih =>
    cases format with
    | nil => rfl
    | cons c ptr =>
      rw [formatRun.eq_def,formatLoop]
      dsimp only
      split
      · rw [← directiveRun_loop]
        cases directiveRun (ptr.length+1) ⟨c::ptr,d.args,.flags,0,0,0,.none⟩ d.out with
        | error fault => rfl
        | ok answer => exact ih answer.1 ⟨answer.2.2.2,answer.2.2.1,d.converted++answer.2.1⟩
      · exact ih ptr {d with out := d.out.put c}

theorem vsprintfRun_exact (str : Bytes) (format : List Byte) (args : List Arg) :
    (vsprintfRun str format args).toOption.map Done.out = kaosVsprintf str format args := by
  rw [kaosVsprintf,← formatRun_loop _ _ ⟨⟨str,0,[]⟩,args,[]⟩,vsprintfRun]
  cases formatRun (format.length+1) format ⟨⟨str,0,[]⟩,args,[]⟩ with
  | error fault => rfl
  | ok d => rfl

-- The letters that convert, and with the percent sign all that end a directive.
def converts (c : Byte) : Bool := c ∈ [ch 'd',ch 'i',ch 'o',ch 'u',ch 'x',ch 'X',ch 'p',ch 'c',ch 's',ch 'n']
def ends (c : Byte) : Bool := converts c || c == ch '%'

theorem ends_cases (ended : ends c = true) : c = ch 'd' ∨ c = ch 'i' ∨ c = ch 'o' ∨ c = ch 'u' ∨ c = ch 'x' ∨ c = ch 'X' ∨ c = ch 'p' ∨
    c = ch 'c' ∨ c = ch 's' ∨ c = ch 'n' ∨ c = ch '%' := by
  simpa [ends,converts,or_assoc] using ended

theorem digit_open (digit : isDigit c = true) : ends c = false := by
  rw [← Bool.not_eq_true]
  intro ended
  rcases ends_cases ended with rfl | rfl | rfl | rfl | rfl | rfl | rfl | rfl | rfl | rfl | rfl <;> cases digit

theorem char_cons (same : s.char = c) (some_ : c ≠ 0) : s.formatPtr = c::s.formatPtr.tail := by
  unfold Scan.char at same
  cases cut : s.formatPtr with
  | nil =>
    rw [cut] at same
    exact absurd same.symm some_
  | cons b ptr =>
    rw [cut] at same
    rw [show b = c from same,List.tail_cons]

theorem char_ended (ended : ends s.char = true) : s.formatPtr = s.char::s.formatPtr.tail := by
  refine char_cons rfl ?_
  rintro zero
  rw [zero] at ended
  cases ended

def Skips (s t : Scan) : Prop := ∃ skipped, s.formatPtr = skipped++t.formatPtr ∧ ∀ b ∈ skipped, ends b = false

theorem Skips.none (same : t.formatPtr = s.formatPtr) : Skips s t := ⟨[],by rw [same]; rfl,fun _ member => by cases member⟩

theorem Skips.trans {middle : Scan} (one : Skips s middle) (two : Skips middle t) : Skips s t := by
  obtain ⟨first,cut,open_⟩ := one
  obtain ⟨second,cut',open'⟩ := two
  refine ⟨first++second,by rw [cut,cut',List.append_assoc],?_⟩
  intro b member
  rcases List.mem_append.mp member with old | new
  · exact open_ b old
  · exact open' b new

theorem flagsStage_skips (s : Scan) : Skips s (flagsStage s) ∧ ((flagsStage s).state = .flags → ends (flagsStage s).char = false) := by
  unfold flagsStage
  split
  · exact ⟨.none rfl,fun same => absurd same ‹_›⟩
  · repeat' split
    all_goals refine ⟨.none rfl,?_⟩
    all_goals intro same
    all_goals simp_all [Scan.char]
    all_goals rfl

theorem widthStage_skips (ran : widthStage s = some t) : Skips s t ∧ (t.state = .flags → t = s) ∧ (t.state = .fieldWidth → ends t.char = false) := by
  unfold widthStage at ran
  split at ran
  · rename_i other
    cases Option.some.inj ran
    exact ⟨.none rfl,fun _ => rfl,fun same => absurd same other⟩
  · rename_i reading
    rw [not_not] at reading
    split at ran
    · rename_i digit
      cases Option.some.inj ran
      exact ⟨.none rfl,fun same => by simp [reading] at same,fun _ => digit_open digit⟩
    · split at ran
      · rename_i star
        obtain ⟨_,_,rfl⟩ := Option.map_eq_some_iff.mp ran
        refine ⟨.none rfl,fun same => by simp [reading] at same,fun _ => ?_⟩
        show ends s.char = false
        rw [star]
        rfl
      · split at ran
        · rename_i dot
          cases Option.some.inj ran
          refine ⟨⟨[ch '.'],char_cons dot (by decide),?_⟩,nofun,nofun⟩
          intro b member
          rw [List.mem_singleton.mp member]
          rfl
        · cases Option.some.inj ran
          exact ⟨.none rfl,nofun,nofun⟩

theorem precisionStage_skips (ran : precisionStage s = some t) : Skips s t ∧ (t.state ≠ .precision → t.state ≠ .length → t = s) ∧
    (t.state = .precision → ends t.char = false) := by
  unfold precisionStage at ran
  split at ran
  · rename_i other
    cases Option.some.inj ran
    exact ⟨.none rfl,fun _ _ => rfl,fun same => absurd same other⟩
  · rename_i reading
    rw [not_not] at reading
    split at ran
    · rename_i digit
      cases Option.some.inj ran
      exact ⟨.none rfl,fun other => absurd reading other,fun _ => digit_open digit⟩
    · split at ran
      · rename_i star
        obtain ⟨_,_,rfl⟩ := Option.map_eq_some_iff.mp ran
        refine ⟨.none rfl,fun other => absurd reading other,fun _ => ?_⟩
        show ends s.char = false
        rw [star]
        rfl
      · cases Option.some.inj ran
        exact ⟨.none rfl,fun _ other => absurd rfl other,nofun⟩

theorem lengthStage_skips (s : Scan) : Skips s (lengthStage s) ∧ (lengthStage s).state ≠ .length ∧
    ((lengthStage s).state ≠ .specifier → lengthStage s = s) := by
  have one : ∀ c length, ends c = false → c ≠ 0 → s.char = c →
      Skips s {s with length := length,formatPtr := s.formatPtr.drop 1,state := .specifier} := by
    intro c length open_ some_ same
    refine ⟨[c],?_,fun b member => by rw [List.mem_singleton.mp member]; exact open_⟩
    rw [List.drop_one]
    exact char_cons same some_
  have two : s.char = ch 'h' ∧ s.formatPtr.tail.headD 0 = ch 'h' →
      Skips s {s with length := .char,formatPtr := s.formatPtr.drop 2,state := .specifier} := by
    rintro ⟨first,second⟩
    refine ⟨[ch 'h',ch 'h'],?_,?_⟩
    · have tail : s.formatPtr.tail = ch 'h'::s.formatPtr.tail.tail :=
        char_cons (s := {s with formatPtr := s.formatPtr.tail}) second (by decide)
      calc s.formatPtr = ch 'h'::s.formatPtr.tail := char_cons first (by decide)
        _ = ch 'h'::ch 'h'::s.formatPtr.tail.tail := congrArg (ch 'h'::·) tail
        _ = [ch 'h',ch 'h']++s.formatPtr.drop 2 := by rw [← List.drop_one,← List.drop_one,List.drop_drop]; rfl
    · intro b member
      simp only [List.mem_cons,List.not_mem_nil,or_false,or_self] at member
      rw [member]
      rfl
  unfold lengthStage
  dsimp only
  by_cases reading : s.state = .length
  · rw [if_neg (not_not.mpr reading)]
    refine ⟨?_,nofun,fun other => absurd rfl other⟩
    repeat' split
    · exact two ‹_›
    · exact one _ _ rfl (by decide) ‹s.char = ch 'h'›
    · exact one _ _ rfl (by decide) ‹s.char = ch 'l'›
    · exact absurd (And.left ‹_›) ‹_›
    · exact one _ _ rfl (by decide) ‹s.char = ch 'j'›
    · exact one _ _ rfl (by decide) ‹s.char = ch 'z'›
    · exact one _ _ rfl (by decide) ‹s.char = ch 't'›
    · exact one _ _ rfl (by decide) ‹s.char = ch 'L'›
    · exact .none rfl
  · rw [if_pos reading]
    exact ⟨.none rfl,reading,fun _ => rfl⟩

theorem round_skips (cut : s.formatPtr = c::ptr) (ran : round s () = some t) : Skips {s with formatPtr := ptr} t ∧
    (t.state = .specifier ∨ ends t.char = false) := by
  rw [Directives.round,cut] at ran
  obtain ⟨precise,found,rfl⟩ := Option.map_eq_some_iff.mp ran
  obtain ⟨wide,width,precision⟩ := Option.bind_eq_some_iff.mp found
  obtain ⟨first,inFlags⟩ := flagsStage_skips {s with formatPtr := ptr}
  obtain ⟨second,flagsSame,inWidth⟩ := widthStage_skips width
  obtain ⟨third,same,inPrecision⟩ := precisionStage_skips precision
  obtain ⟨fourth,left,ended⟩ := lengthStage_skips precise
  refine ⟨((first.trans second).trans third).trans fourth,?_⟩
  by_cases reading : (lengthStage precise).state = .specifier
  · exact .inl reading
  · refine .inr ?_
    have kept := ended reading
    rw [kept] at left reading ⊢
    cases known : precise.state with
    | flags =>
      have early : precise = wide := same (by simp [known]) (by simp [known])
      rw [early] at known ⊢
      have earlier := flagsSame known
      rw [earlier] at known ⊢
      exact inFlags known
    | fieldWidth =>
      have early : precise = wide := same (by simp [known]) (by simp [known])
      rw [early] at known ⊢
      exact inWidth known
    | precision => exact inPrecision known
    | length => exact absurd known left
    | specifier => exact absurd known reading

-- What is left of a format behind a directive that ends at c: the percent sign
-- is left where it is.
def behind (c : Byte) (rest : List Byte) : List Byte := if c = ch '%' then c::rest else rest

theorem behind_length (c : Byte) (rest : List Byte) : (behind c rest).length ≤ rest.length+1 := by
  unfold behind
  split
  · exact Nat.le_refl _
  · exact Nat.le_succ _

-- What the letters that end a directive come to.
inductive Action where
  | number (flags : BitVec 32) (radix : Nat)
  | character | text | counter | percent

def Action.result (s : Scan) (rest : List Byte) (out : Out) : Action → Option Round
  | .number flags radix => (printInteger s flags radix out).map fun (_,left,out) => .finished rest left out
  | .character => (vaInt s.args).map fun (w,left) => .finished rest left (out.put (w.setWidth 8))
  | .text => (vaString s.args).map fun (string,left) => .finished rest left (copyText s.flags s.precision string 0 out)
  | .counter =>
    match s.args with
    | .counter::left => some (.finished rest left {out with counts := out.counts++[out.bufferPtr]})
    | _ => none
  | .percent => some (.finished rest s.args (out.put (ch '%')))

theorem specifierStage_action (reading : s.state = .specifier) (cut : s.formatPtr = c::rest) (ended : ends c = true) (out : Out) :
    ∃ action : Action, (action = .percent → c = ch '%') ∧
      ∀ args, specifierStage {s with args := args} out = action.result {s with args := args} (behind c rest) out := by
  obtain ⟨formatPtr,args,state,flags,fieldWidth,precision,length⟩ := s
  cases reading
  cases cut
  have number : ∀ c passed radix args, (printInteger ⟨c::rest,args,.specifier,flags,fieldWidth,precision,length⟩ passed radix out).map
      (fun (ptr,left,out) => Round.finished ptr left out) =
      (Action.number passed radix).result ⟨c::rest,args,.specifier,flags,fieldWidth,precision,length⟩ rest out := by
    intro c passed radix args
    simp only [Action.result,printInteger,Option.map_map]
    rfl
  rcases ends_cases ended with rfl | rfl | rfl | rfl | rfl | rfl | rfl | rfl | rfl | rfl | rfl
  · exact ⟨.number flags 10,by rintro ⟨⟩,number _ flags 10⟩
  · exact ⟨.number flags 10,by rintro ⟨⟩,number _ flags 10⟩
  · exact ⟨.number (flags ||| flagUnsigned) 8,by rintro ⟨⟩,number _ (flags ||| flagUnsigned) 8⟩
  · exact ⟨.number (flags ||| flagUnsigned) 8,by rintro ⟨⟩,number _ (flags ||| flagUnsigned) 8⟩
  · exact ⟨.number (flags ||| flagUnsigned ||| 0) 16,by rintro ⟨⟩,number _ (flags ||| flagUnsigned ||| 0) 16⟩
  · exact ⟨.number (flags ||| flagUnsigned ||| flagUppercaseHex) 16,by rintro ⟨⟩,number _ (flags ||| flagUnsigned ||| flagUppercaseHex) 16⟩
  · exact ⟨.number (flags ||| flagUnsigned ||| 0) 16,by rintro ⟨⟩,number _ (flags ||| flagUnsigned ||| 0) 16⟩
  · exact ⟨.character,by rintro ⟨⟩,fun _ => rfl⟩
  · exact ⟨.text,by rintro ⟨⟩,fun _ => rfl⟩
  · exact ⟨.counter,by rintro ⟨⟩,fun _ => rfl⟩
  · exact ⟨.percent,fun _ => rfl,fun _ => rfl⟩

theorem specifierStage_ends (reading : s.state = .specifier) (cut : s.formatPtr = c::rest) (ended : ends c = true) (out : Out) :
    specifierStage s out = none ∨ ∃ left next, specifierStage s out = some (.finished (behind c rest) left next) := by
  obtain ⟨action,_,same⟩ := specifierStage_action reading cut ended out
  rw [show specifierStage s out = _ from same s.args]
  have mapped : ∀ {α : Type} (fetched : Option α) (f : α → List Arg × Out),
      (fetched.map fun x => Round.finished (behind c rest) (f x).1 (f x).2) = none ∨
        ∃ left next, (fetched.map fun x => Round.finished (behind c rest) (f x).1 (f x).2) = some (.finished (behind c rest) left next) := by
    intro α fetched f
    cases fetched with
    | none => exact .inl rfl
    | some x => exact .inr ⟨_,_,rfl⟩
  cases action with
  | number flags radix => exact mapped (printInteger s flags radix out) fun taken => (taken.2.1,taken.2.2)
  | character => exact mapped (vaInt s.args) fun taken => (taken.2,out.put (taken.1.setWidth 8))
  | text => exact mapped (vaString s.args) fun taken => (taken.2,copyText s.flags s.precision taken.1 0 out)
  | counter =>
    dsimp only [Action.result]
    split
    · exact .inr ⟨_,_,rfl⟩
    · exact .inl rfl
  | percent => exact .inr ⟨_,_,rfl⟩

theorem specifierStage_open (open_ : ends s.char = false) : specifierStage s out = some (.again s) := by
  unfold specifierStage
  simp_all [ends,converts]

-- A stage that goes on has changed nothing, and one that does not has read a
-- letter that ends the directive.
theorem specifierStage_cases (s : Scan) (out : Out) : specifierStage s out = some (.again s) ∨ s.state = .specifier ∧ ends s.char = true := by
  by_cases reading : s.state = .specifier
  · cases ended : ends s.char with
    | false => exact .inl (specifierStage_open ended)
    | true => exact .inr ⟨reading,rfl⟩
  · exact .inl (if_pos reading)

theorem specifierStage_again (ran : specifierStage s out = some (.again t)) : t = s := by
  rcases specifierStage_cases s out with again | ⟨reading,ended⟩
  · rw [again] at ran
    cases ran
    rfl
  · rcases specifierStage_ends reading (char_ended ended) ended out with fault | ⟨left,next,found⟩
    · rw [fault] at ran
      cases ran
    · rw [found] at ran
      cases ran

theorem directiveRun_nil (cut : s.formatPtr = []) : directiveRun fuel s out = .error .pastEnd := by
  cases fuel <;> rw [directiveRun,if_pos cut]

-- Where a directive ends: what is behind its percent sign is stepped over up to
-- the first character that ends one, or up to the NUL and past it.
structure DirectiveEnds (ptr : List Byte) (answer : Except Fault (List Byte × List Int × List Arg × Out)) : Prop where
  known : answer = .error .argument ∨ answer = .error .pastEnd ∧ (∀ b ∈ ptr, ends b = false) ∨
    ∃ skipped c rest numbers left next, ptr = skipped++c::rest ∧ (∀ b ∈ skipped, ends b = false) ∧ ends c = true ∧
      answer = .ok (behind c rest,numbers,left,next)

theorem DirectiveEnds.further {answer : Except Fault (List Byte × List Int × List Arg × Out)} (later : DirectiveEnds rest answer)
    (open_ : ∀ b ∈ skipped, ends b = false) : DirectiveEnds (skipped++rest) answer := by
  obtain fault | ⟨past,none⟩ | ⟨more,c,behind_,numbers,left,next,split_,none,ended,found⟩ := later.known
  · exact ⟨.inl fault⟩
  · refine ⟨.inr (.inl ⟨past,?_⟩)⟩
    intro b member
    rcases List.mem_append.mp member with old | new
    · exact open_ b old
    · exact none b new
  · refine ⟨.inr (.inr ⟨skipped++more,c,behind_,numbers,left,next,?_,?_,ended,found⟩)⟩
    · rw [split_,List.append_assoc]
    · intro b member
      rcases List.mem_append.mp member with old | new
      · exact open_ b old
      · exact none b new

theorem directiveRun_ends (cut : s.formatPtr = c::ptr) (enough : ptr.length < fuel) : DirectiveEnds ptr (directiveRun fuel s out) := by
  induction fuel generalizing s c ptr out with
  | zero => cases enough
  | succ fuel ih =>
    cases ran : round s () with
    | none =>
      rw [directiveRun,if_neg (by rw [cut]; exact List.cons_ne_nil _ _),ran]
      exact ⟨.inl rfl⟩
    | some t =>
      rw [directiveRun_step ran]
      obtain ⟨⟨skipped,split_,open_⟩,stopped⟩ := round_skips cut ran
      have split_ : ptr = skipped++t.formatPtr := split_
      rw [split_] at enough ⊢
      refine DirectiveEnds.further ?_ open_
      cases ended : ends t.char with
      | true =>
        have reading : t.state = .specifier := stopped.resolve_right (by rw [ended]; exact Bool.noConfusion)
        have left := char_ended ended
        rcases specifierStage_ends reading left ended out with fault | ⟨args,next,found⟩
        · rw [fault]
          exact ⟨.inl rfl⟩
        · rw [found,left]
          exact ⟨.inr (.inr ⟨[],t.char,t.formatPtr.tail,_,args,next,rfl,(fun _ member => by cases member),ended,rfl⟩)⟩
      | false =>
        rw [specifierStage_open ended]
        dsimp only
        cases left : t.formatPtr with
        | nil =>
          rw [directiveRun_nil left]
          exact ⟨.inr (.inl ⟨rfl,fun _ member => by cases member⟩)⟩
        | cons b ptr =>
          have here : t.char = b := by rw [Scan.char,left]; rfl
          rw [left,List.length_append,List.length_cons] at enough
          have later : DirectiveEnds ptr (directiveRun fuel t out) := ih left (by omega)
          show DirectiveEnds ([b]++ptr) _
          refine later.further ?_
          intro a member
          rw [List.mem_singleton.mp member,← here]
          exact ended

-- Behind every percent sign of the format stands a letter that converts.
def Closed (format : List Byte) : Prop := ∀ rest, ch '%'::rest <:+ format → ∃ c ∈ rest, converts c = true

theorem closed_plain (other : c ≠ ch '%') : Closed (c::format) ↔ Closed format := by
  unfold Closed
  constructor
  · intro closed rest tail
    exact closed rest (tail.trans (List.suffix_cons c format))
  · intro closed rest tail
    rcases List.suffix_cons_iff.mp tail with same | later
    · exact absurd (List.cons.inj same).1.symm other
    · exact closed rest later

theorem closed_percent : Closed (ch '%'::format) ↔ (∃ c ∈ format, converts c = true) ∧ Closed format := by
  unfold Closed
  constructor
  · intro closed
    exact ⟨closed format (List.suffix_refl _),fun rest tail => closed rest (tail.trans (List.suffix_cons _ format))⟩
  · rintro ⟨first,closed⟩ rest tail
    rcases List.suffix_cons_iff.mp tail with same | later
    · rw [(List.cons.inj same).2]
      exact first
    · exact closed rest later

theorem open_plain (open_ : ends c = false) : converts c = false ∧ c ≠ ch '%' := by
  simpa [ends] using open_

theorem closed_skip (open_ : ∀ b ∈ skipped, ends b = false) : Closed (skipped++format) ↔ Closed format := by
  induction skipped with
  | nil => rfl
  | cons b skipped ih =>
    rw [List.cons_append,closed_plain (open_plain (open_ b List.mem_cons_self)).2,
      ih (fun b member => open_ b (List.mem_cons_of_mem _ member))]

theorem closed_behind (ended : ends c = true) (open_ : ∀ b ∈ skipped, ends b = false) :
    Closed (ch '%'::(skipped++c::rest)) ↔ Closed (behind c rest) := by
  rw [closed_percent,closed_skip open_]
  by_cases percent : c = ch '%'
  · rw [behind,if_pos percent,percent,closed_percent]
    constructor
    · exact fun both => both.2
    · rintro ⟨⟨b,member,letter⟩,closed⟩
      exact ⟨⟨b,List.mem_append_right _ (List.mem_cons_of_mem _ member),letter⟩,⟨b,member,letter⟩,closed⟩
  · rw [behind,if_neg percent,closed_plain percent]
    have letter : converts c = true := by
      rw [ends,Bool.or_eq_true] at ended
      exact ended.resolve_right (fun same => percent (eq_of_beq same))
    exact and_iff_right ⟨c,List.mem_append_right _ List.mem_cons_self,letter⟩

theorem formatRun_ends (enough : format.length < fuel) (d : Done) : formatRun fuel format d = .error .argument ∨
    formatRun fuel format d = .error .pastEnd ∧ ¬ Closed format ∨ (∃ last, formatRun fuel format d = .ok last) ∧ Closed format := by
  induction fuel generalizing format d with
  | zero => cases enough
  | succ fuel ih =>
    cases format with
    | nil => exact .inr (.inr ⟨⟨d,rfl⟩,fun rest tail => by cases List.suffix_nil.mp tail⟩)
    | cons c ptr =>
      rw [List.length_cons] at enough
      rw [formatRun.eq_def]
      dsimp only
      by_cases percent : c = ch '%'
      · rw [if_pos percent,percent]
        have run : DirectiveEnds ptr (directiveRun (ptr.length+1) ⟨ch '%'::ptr,d.args,.flags,0,0,0,.none⟩ d.out) :=
          directiveRun_ends rfl (Nat.lt_succ_self _)
        obtain fault | ⟨past,none⟩ | ⟨skipped,c,rest,numbers,left,next,split_,open_,ended,found⟩ := run.known
        · rw [fault]
          exact .inl rfl
        · rw [past]
          refine .inr (.inl ⟨rfl,?_⟩)
          rw [closed_percent]
          rintro ⟨⟨b,member,letter⟩,_⟩
          rw [(open_plain (none b member)).1] at letter
          cases letter
        · rw [found,split_,closed_behind ended open_]
          have short := behind_length c rest
          rw [split_,List.length_append,List.length_cons] at enough
          exact ih (by omega) _
      · rw [if_neg percent,closed_plain percent]
        exact ih (by omega) _

-- kaos_vsprintf comes back, and has read nothing behind the NUL of its format.
def StaysInside (str : Bytes) (format : List Byte) (args : List Arg) : Prop := ∃ done, vsprintfRun str format args = .ok done

theorem vsprintf_stays_inside_iff (str : Bytes) (format : List Byte) (args : List Arg)
    (expected : vsprintfRun str format args ≠ .error .argument) :
    (StaysInside str format args ↔ Closed format) ∧ (¬ StaysInside str format args → vsprintfRun str format args = .error .pastEnd) := by
  unfold StaysInside vsprintfRun at *
  rcases formatRun_ends (Nat.lt_succ_self format.length) ⟨⟨str,0,[]⟩,args,[]⟩ with fault | ⟨past,open_⟩ | ⟨⟨last,found⟩,closed⟩
  · rw [fault] at expected
    exact absurd rfl expected
  · rw [past]
    exact ⟨⟨nofun,fun closed => absurd closed open_⟩,fun _ => rfl⟩
  · rw [found]
    exact ⟨⟨fun _ => closed,fun _ => ⟨_,rfl⟩⟩,fun none => absurd ⟨_,rfl⟩ none⟩

theorem stays_inside_decimal : Closed [ch '%',ch 'd'] ∧ StaysInside (fun _ => 0) [ch '%',ch 'd'] [.word 5] := by
  have ran : StaysInside (fun _ => 0) [ch '%',ch 'd'] [.word 5] := ⟨_,rfl⟩
  have expected : vsprintfRun (fun _ => 0) [ch '%',ch 'd'] [.word 5] ≠ .error .argument := by
    obtain ⟨done,found⟩ := ran
    rw [found]
    exact nofun
  exact ⟨(vsprintf_stays_inside_iff (fun _ => 0) [ch '%',ch 'd'] [.word 5] expected).1.mp ran,ran⟩

theorem unknown_letter_runs_on : vsprintfRun (fun _ => 0) [ch '%',ch 'y'] [] ≠ .error .argument ∧
    vsprintfRun (fun _ => 0) [ch '%',ch 'y'] [] = .error .pastEnd ∧ ¬ StaysInside (fun _ => 0) [ch '%',ch 'y'] [] := by
  have ran : vsprintfRun (fun _ => 0) [ch '%',ch 'y'] [] = .error .pastEnd := rfl
  refine ⟨by rw [ran]; exact nofun,ran,?_⟩
  rintro ⟨done,found⟩
  rw [ran] at found
  cases found

theorem flagsStage_args (s : Scan) (args : List Arg) : flagsStage {s with args := args} = {flagsStage s with args := args} := by
  unfold flagsStage Scan.char
  dsimp only
  repeat' split
  all_goals rfl

theorem widthStage_served (s : Scan) : ∃ (words : List Arg) (t : Scan), ∀ left, widthStage {s with args := words++left} = some {t with args := left} := by
  by_cases reading : s.state ≠ .fieldWidth
  · exact ⟨[],s,fun left => if_pos reading⟩
  · by_cases digit : isDigit s.char = true
    · refine ⟨[],{s with fieldWidth := appendDigit s.fieldWidth s.char},fun left => ?_⟩
      exact (if_neg reading).trans (if_pos digit)
    · by_cases star : s.char = ch '*'
      · refine ⟨[.word 0],{s with fieldWidth := 0},fun left => ?_⟩
        exact (if_neg reading).trans ((if_neg digit).trans (if_pos star))
      · by_cases dot : s.char = ch '.'
        · refine ⟨[],{s with state := .precision,formatPtr := s.formatPtr.tail},fun left => ?_⟩
          exact (if_neg reading).trans ((if_neg digit).trans ((if_neg star).trans (if_pos dot)))
        · refine ⟨[],{s with state := .length},fun left => ?_⟩
          exact (if_neg reading).trans ((if_neg digit).trans ((if_neg star).trans (if_neg dot)))

theorem precisionStage_served (s : Scan) : ∃ (words : List Arg) (t : Scan), ∀ left,
    precisionStage {s with args := words++left} = some {t with args := left} := by
  by_cases reading : s.state ≠ .precision
  · exact ⟨[],s,fun left => if_pos reading⟩
  · by_cases digit : isDigit s.char = true
    · refine ⟨[],{s with precision := appendDigit s.precision s.char,flags := s.flags ||| flagPrecisionDefined},fun left => ?_⟩
      exact (if_neg reading).trans (if_pos digit)
    · by_cases star : s.char = ch '*'
      · refine ⟨[.word 0],{s with precision := 0,flags := s.flags ||| flagPrecisionDefined},fun left => ?_⟩
        exact (if_neg reading).trans ((if_neg digit).trans (if_pos star))
      · refine ⟨[],{s with state := .length},fun left => ?_⟩
        exact (if_neg reading).trans ((if_neg digit).trans (if_neg star))

theorem lengthStage_args (s : Scan) (args : List Arg) : lengthStage {s with args := args} = {lengthStage s with args := args} := by
  unfold lengthStage Scan.char
  dsimp only
  split <;> rfl

theorem round_served (cut : s.formatPtr = c::ptr) : ∃ (words : List Arg) (t : Scan), ∀ left,
    round {s with args := words++left} () = some {t with args := left} := by
  obtain ⟨first,wide,width⟩ := widthStage_served (flagsStage {s with formatPtr := ptr})
  obtain ⟨second,precise,precision⟩ := precisionStage_served wide
  refine ⟨first++second,lengthStage precise,?_⟩
  intro left
  rw [Directives.round]
  dsimp only
  rw [cut]
  dsimp only
  rw [flagsStage_args {s with formatPtr := ptr},List.append_assoc,width,Option.bind_some,precision,Option.map_some,lengthStage_args]

theorem vaInteger_served (length : Length) : ∃ (words : List Arg) (arg : Int), ∀ left, vaInteger length (words++left) = some (arg,left) := by
  cases length with
  | longDouble => exact ⟨[.word 0,.word 0],0,fun _ => rfl⟩
  | intmaxT => exact ⟨[.word 0,.word 0],0,fun _ => rfl⟩
  | longLong => exact ⟨[.word 0,.word 0],0,fun _ => rfl⟩
  | sizeT => exact ⟨[.word 0],0,fun _ => rfl⟩
  | ptrdiffT => exact ⟨[.word 0],0,fun _ => rfl⟩
  | long => exact ⟨[.word 0],0,fun _ => rfl⟩
  | char => exact ⟨[.word 0],0,fun _ => rfl⟩
  | short => exact ⟨[.word 0],0,fun _ => rfl⟩
  | none => exact ⟨[.word 0],0,fun _ => rfl⟩

theorem specifierStage_served (reading : s.state = .specifier) (cut : s.formatPtr = c::rest) (ended : ends c = true) (out : Out) :
    ∃ (words : List Arg) (next : Out), ∀ left, specifierStage {s with args := words++left} out = some (.finished (behind c rest) left next) := by
  obtain ⟨action,_,same⟩ := specifierStage_action reading cut ended out
  suffices served : ∃ (words : List Arg) (next : Out), ∀ left,
      action.result {s with args := words++left} (behind c rest) out = some (.finished (behind c rest) left next) by
    obtain ⟨words,next,found⟩ := served
    exact ⟨words,next,fun left => (same _).trans (found left)⟩
  cases action with
  | number flags radix =>
    obtain ⟨words,arg,taken⟩ := vaInteger_served s.length
    let printed := convertAnyIntToStr arg flags s.fieldWidth s.precision radix out.bufferPtr out.buffer
    refine ⟨words,{out with buffer := printed.1,bufferPtr := out.bufferPtr+printed.2},fun left => ?_⟩
    simp only [Action.result,printInteger,taken]
    rfl
  | character => exact ⟨[.word 0],_,fun _ => rfl⟩
  | text => exact ⟨[.string []],_,fun _ => rfl⟩
  | counter => exact ⟨[.counter],_,fun _ => rfl⟩
  | percent => exact ⟨[],_,fun _ => rfl⟩

theorem directiveRun_served (cut : s.formatPtr = c::ptr) (enough : ptr.length < fuel) (out : Out) (choose : List Byte → Out → List Arg) :
    ∃ args : List Arg, directiveRun fuel {s with args := args} out = .error .pastEnd ∨
      ∃ ptr numbers next, directiveRun fuel {s with args := args} out = .ok (ptr,numbers,choose ptr next,next) := by
  induction fuel generalizing s c ptr with
  | zero => cases enough
  | succ fuel ih =>
    obtain ⟨words,t,stepped⟩ := round_served cut
    have first := stepped []
    obtain ⟨⟨skipped,split_,open_⟩,stopped⟩ := round_skips (s := {s with args := words++[]}) cut first
    have split_ : ptr = skipped++t.formatPtr := split_
    have unfolded := fun args => directiveRun_step (stepped args) fuel out
    cases ended : ends t.char with
    | true =>
      have reading : t.state = .specifier := stopped.resolve_right (fun other => by
        have other : ends t.char = false := other
        rw [ended] at other
        cases other)
      have left := char_ended ended
      obtain ⟨given,next,found⟩ := specifierStage_served reading left ended out
      let left := choose (behind t.char t.formatPtr.tail) next
      refine ⟨words++(given++left),.inr ⟨behind t.char t.formatPtr.tail,numbersOf {t with args := given++left},next,?_⟩⟩
      rw [unfolded,found]
    | false =>
      have again : ∀ args, specifierStage {t with args := args} out = some (.again {t with args := args}) := fun args =>
        specifierStage_open ended
      cases left : t.formatPtr with
      | nil =>
        refine ⟨words++[],.inl ?_⟩
        rw [unfolded,again]
        exact directiveRun_nil left
      | cons b ptr =>
        rw [split_,left,List.length_append,List.length_cons] at enough
        obtain ⟨args,later⟩ := ih left (by omega)
        refine ⟨words++args,?_⟩
        rw [unfolded,again]
        exact later

theorem formatRun_served (enough : format.length < fuel) (out : Out) :
    ∃ args, ∀ numbers, formatRun fuel format ⟨out,args,numbers⟩ ≠ .error .argument := by
  induction fuel generalizing format out with
  | zero => cases enough
  | succ fuel ih =>
    cases format with
    | nil => exact ⟨[],fun _ => nofun⟩
    | cons c ptr =>
      rw [List.length_cons] at enough
      by_cases percent : c = ch '%'
      · have later : ∀ ptr next, ∃ args, ptr.length < fuel → ∀ numbers, formatRun fuel ptr ⟨next,args,numbers⟩ ≠ .error .argument := by
          intro ptr next
          by_cases shorter : ptr.length < fuel
          · obtain ⟨args,served⟩ := ih shorter next
            exact ⟨args,fun _ => served⟩
          · exact ⟨[],fun other => absurd other shorter⟩
        choose given served using later
        have scan : (⟨ch '%'::ptr,[],.flags,0,0,0,.none⟩ : Scan).formatPtr = ch '%'::ptr := rfl
        obtain ⟨args,ran⟩ := directiveRun_served scan (Nat.lt_succ_self _) out given
        refine ⟨args,fun numbers => ?_⟩
        rw [formatRun.eq_def]
        dsimp only
        rw [if_pos percent,percent]
        rcases ran with past | ⟨rest,converted,next,found⟩
        · rw [past]
          exact nofun
        · have run : DirectiveEnds ptr (directiveRun (ptr.length+1) ⟨ch '%'::ptr,args,.flags,0,0,0,.none⟩ out) :=
            directiveRun_ends rfl (Nat.lt_succ_self _)
          rw [found] at run ⊢
          refine served rest next ?_ _
          obtain fault | ⟨past,_⟩ | ⟨skipped,c,tail,_,_,_,split_,_,_,same⟩ := run.known
          · cases fault
          · cases past
          · have same : rest = behind c tail := congrArg Prod.fst (Except.ok.inj same)
            have short := behind_length c tail
            rw [split_,List.length_append,List.length_cons] at enough
            rw [same]
            omega
      · have fewer : ptr.length < fuel := by omega
        obtain ⟨args,served⟩ := ih fewer (out.put c)
        refine ⟨args,fun numbers => ?_⟩
        rw [formatRun.eq_def]
        dsimp only
        rw [if_neg percent]
        exact served numbers

theorem format_served (str : Bytes) (format : List Byte) : ∃ args, vsprintfRun str format args ≠ .error .argument := by
  obtain ⟨args,served⟩ := formatRun_served (Nat.lt_succ_self format.length) ⟨str,0,[]⟩
  refine ⟨args,?_⟩
  unfold vsprintfRun
  split
  · rename_i fault failed
    intro same
    cases same
    exact served [] failed
  · exact nofun

-- Text with every percent sign written twice.
def doubled (s : List Byte) : List Byte := s.flatMap fun c => if c = ch '%' then [ch '%',ch '%'] else [c]

-- No argument is there to be taken.
def PrintsItself (str : Bytes) (s : List Byte) : Prop :=
  ∃ out, kaosVsprintf str (doubled s) [] = some out ∧ out.bufferPtr = s.length ∧ stretch out.buffer 0 s.length = s ∧ out.buffer s.length = 0

theorem vaInteger_nil (length : Length) : vaInteger length [] = none := by cases length <;> rfl

theorem widthStage_bare (bare : s.args = []) (ran : widthStage s = some t) : t.args = [] := by
  unfold widthStage at ran
  rw [bare] at ran
  repeat' split at ran
  all_goals cases ran
  all_goals first | exact bare | rfl

theorem precisionStage_bare (bare : s.args = []) (ran : precisionStage s = some t) : t.args = [] := by
  unfold precisionStage at ran
  rw [bare] at ran
  repeat' split at ran
  all_goals cases ran
  all_goals first | exact bare | rfl

theorem round_bare (bare : s.args = []) (ran : round s () = some t) : t.args = [] := by
  unfold Directives.round at ran
  split at ran
  · cases ran
  · obtain ⟨precise,found,rfl⟩ := Option.map_eq_some_iff.mp ran
    obtain ⟨wide,width,precision⟩ := Option.bind_eq_some_iff.mp found
    rename_i ptr _
    have first : (flagsStage {s with formatPtr := ptr}).args = [] := by
      have read := flagsStage_args {s with formatPtr := ptr} s.args
      rw [show flagsStage {s with formatPtr := ptr} = _ from read]
      exact bare
    have third := precisionStage_bare (widthStage_bare first width) precision
    rw [show lengthStage precise = _ from lengthStage_args precise precise.args]
    exact third

theorem specifierStage_bare (bare : s.args = []) (ran : specifierStage s out = some (.finished ptr left next)) :
    left = [] ∧ ch '%' ∈ ptr := by
  rcases specifierStage_cases s out with again | ⟨reading,ended⟩
  · rw [again] at ran
    cases ran
  · obtain ⟨action,percent,same⟩ := specifierStage_action reading (char_ended ended) ended out
    rw [show specifierStage s out = _ from same s.args] at ran
    cases action with
    | number flags radix =>
      simp only [Action.result,printInteger,bare,vaInteger_nil] at ran
      cases ran
    | character =>
      simp only [Action.result,bare,vaInt] at ran
      cases ran
    | text =>
      simp only [Action.result,bare,vaString] at ran
      cases ran
    | counter =>
      simp only [Action.result,bare] at ran
      cases ran
    | percent =>
      cases ran
      rw [percent rfl]
      exact ⟨bare,List.mem_cons_self⟩

theorem directiveRun_bare (bare : s.args = []) (ran : directiveRun fuel s out = .ok (ptr,numbers,left,next)) : left = [] ∧ ch '%' ∈ ptr := by
  induction fuel generalizing s with
  | zero => cases ran
  | succ fuel ih =>
    rw [directiveRun] at ran
    split at ran
    · cases ran
    · split at ran
      · cases ran
      · rename_i t stepped
        have still := round_bare bare stepped
        split at ran
        · cases ran
        · rename_i later again
          rw [specifierStage_again again] at ran
          exact ih still ran
        · rename_i found
          cases ran
          exact specifierStage_bare still found

theorem formatRun_bare (bare : d.args = []) (percent : ch '%' ∈ format) : formatRun fuel format d ≠ .ok last := by
  induction fuel generalizing format d with
  | zero => exact nofun
  | succ fuel ih =>
    cases format with
    | nil => cases percent
    | cons c ptr =>
      rw [formatRun.eq_def]
      dsimp only
      split
      · split
        · exact nofun
        · rename_i found
          obtain ⟨none,again⟩ := directiveRun_bare (s := ⟨c::ptr,d.args,.flags,0,0,0,.none⟩) bare found
          exact ih none again
      · rename_i other
        exact ih bare ((List.mem_cons.mp percent).resolve_left (fun same => other same.symm))

theorem percent_doubled {s : List Byte} (percent : ch '%' ∈ s) : ch '%' ∈ doubled s :=
  List.mem_flatMap.mpr ⟨_,percent,by rw [if_pos rfl]; exact List.mem_cons_self⟩

theorem doubled_plain {s : List Byte} (plain : ch '%' ∉ s) : doubled s = (s.map Item.plain).flatMap Item.format := by
  induction s with
  | nil => rfl
  | cons c s ih =>
    rw [List.mem_cons,not_or] at plain
    rw [doubled,List.flatMap_cons,if_neg (fun same => plain.1 same.symm)]
    exact congrArg (c::·) (ih plain.2)

theorem plain_items (s : List Byte) : (s.map Item.plain).flatMap Item.args = [] ∧ (s.map Item.plain).flatMap Item.written = s := by
  induction s with
  | nil => exact ⟨rfl,rfl⟩
  | cons c s ih => exact ⟨ih.1,congrArg (c::·) ih.2⟩

theorem escaped_prints_iff (s : List Byte) (text : 0 ∉ s) (str : Bytes) : PrintsItself str s ↔ ch '%' ∉ s := by
  constructor
  · rintro ⟨out,ran,_⟩ percent
    rw [← vsprintfRun_exact,vsprintfRun] at ran
    split at ran
    · cases ran
    · rename_i last found
      exact formatRun_bare rfl (percent_doubled percent) found
  · intro plain
    have legal : ∀ item ∈ s.map Item.plain, item.Legal := by
      intro item member
      obtain ⟨c,inside,rfl⟩ := List.mem_map.mp member
      exact ⟨fun same => plain (by rw [← same]; exact inside),fun same => text (by rw [← same]; exact inside)⟩
    obtain ⟨out,ran,place,written,ended⟩ := vsprintf_items _ legal str
    obtain ⟨none,all⟩ := plain_items s
    rw [all] at place written
    rw [none,← doubled_plain plain] at ran
    rw [place] at written ended
    exact ⟨out,ran,place,written,ended⟩

-- "ok" goes through; in "5%" the doubled sign starts a directive of its own.
theorem escaped_prints_ok : 0 ∉ [ch 'o',ch 'k'] ∧ PrintsItself (fun _ => 0) [ch 'o',ch 'k'] :=
  ⟨by decide,(escaped_prints_iff [ch 'o',ch 'k'] (by decide) (fun _ => 0)).mpr (by decide)⟩

theorem escaped_percent_runs_on : 0 ∉ [ch '5',ch '%'] ∧ doubled [ch '5',ch '%'] = [ch '5',ch '%',ch '%'] ∧
    vsprintfRun (fun _ => 0) (doubled [ch '5',ch '%']) [] = .error .pastEnd ∧ ¬ PrintsItself (fun _ => 0) [ch '5',ch '%'] := by
  refine ⟨by decide,by decide,rfl,?_⟩
  rintro ⟨out,ran,_⟩
  cases ran

end KaracaOS.FormatRuns
