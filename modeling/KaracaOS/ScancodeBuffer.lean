import KaracaOS.Scancodes

namespace KaracaOS.ScancodeBuffer
open ByteMemory Scancodes

-- The locals of scancode_resolve_getKeyCode_set1 whenever the test of its while
-- loop is due, and how many bytes have come from port 0x60.
structure Scan where
  i : Nat
  j : Nat
  release : Bool
  signalLength : Nat
  codeArr : Bytes
  taken : Nat

-- A call is followed up to its first access behind the ten bytes of codeArr.
inductive Call where
  | scanning (s : Scan)
  | returned (keyCode : Byte)
  | outside (index : Nat)

-- One test of the while loop with what hangs on it: the body, or the next row.
def Scan.next (port : Nat → Byte) (s : Scan) : Call :=
  match scancodeSet1[s.i]? with
  | none => .returned keycodeNone
  | some row =>
    if 10 ≤ s.j then .outside s.j
    else if column row s.j = s.codeArr s.j ∨ column row s.j ||| 0x80 = s.codeArr s.j then
      let release := if s.codeArr s.j = column row s.j ||| 0x80 then true else s.release
      if column row (s.j+1) = 0 then .returned (if release then column row (s.j+2) ||| 0x80 else column row (s.j+2))
      else if 10 ≤ s.signalLength then .outside s.signalLength
      else .scanning ⟨s.i,s.j+1,release,s.signalLength+1,store s.codeArr s.signalLength (port s.taken),s.taken+1⟩
    else .scanning ⟨s.i+1,0,false,s.signalLength,s.codeArr,s.taken⟩

def Call.step (port : Nat → Byte) : Call → Call
  | .scanning s => s.next port
  | ended => ended

def begun (port : Nat → Byte) : Call := .scanning ⟨0,0,false,1,store (fun _ => 0) 0 (port 0),1⟩

def run (port : Nat → Byte) (steps : Nat) : Call := (Call.step port)^[steps] (begun port)

-- The call comes back, and no access goes behind codeArr before.
def StaysInside (port : Nat → Byte) : Prop :=
  (∃ steps keyCode, run port steps = .returned keyCode) ∧ ∀ steps index, run port steps ≠ .outside index

-- The first nine keys of the table that have the prefix byte.
def earlyKeys : List Key := [.rightAlt,.rightCtrl,.insert,.delete,.home,.end_,.pageUp,.pageDown,.left]

-- What the port has delivered so far.
def delivered (port : Nat → Byte) (n : Nat) : List Byte := (List.range n).map port

-- The bytes of a row before its zero.
def codeLength (row : List Byte) : Nat := row.findIdx (· == 0)

def Begins (row : List Byte) (first : Byte) : Prop := column row 0 = first ∨ column row 0 ||| 0x80 = first

instance : Decidable (Begins row first) := inferInstanceAs (Decidable (_ ∨ _))

-- How many bytes a row takes from the port at most.
def takes (first : Byte) (row : List Byte) : Nat := if Begins row first then codeLength row-1 else 0

def Goes (port : Nat → Byte) (before after : Call) : Prop := ∃ steps, (Call.step port)^[steps] before = after

-- The call when a row's test is due and `codes` are in codeArr.
def scanAt (i j : Nat) (release : Bool) (codes : List Byte) : Call :=
  .scanning ⟨i,j,release,codes.length,fun k => codes.getD k 0,codes.length⟩

-- Where the result of one row, and of all rows, leaves the call.
def afterRow (i : Nat) : Option (Option Byte × List Byte) → Call
  | none => .outside 10
  | some (some keyCode,_) => .returned keyCode
  | some (none,codes) => scanAt (i+1) 0 false codes

def afterRows : Option (Byte × List Byte) → Call
  | none => .outside 10
  | some (keyCode,_) => .returned keyCode

variable {port : Nat → Byte} {row codes : List Byte} {rows rest : List (List Byte)} {i j n fuel : Nat} {release : Bool}

theorem Goes.refl (c : Call) : Goes port c c := ⟨0,rfl⟩
theorem Goes.first (later : Goes port (c.step port) after) : Goes port c after := by
  obtain ⟨steps,reached⟩ := later
  exact ⟨steps+1,reached⟩
theorem Goes.trans (one : Goes port before middle) (two : Goes port middle after) : Goes port before after := by
  obtain ⟨m,rfl⟩ := one
  obtain ⟨n,rfl⟩ := two
  exact ⟨n+m,Function.iterate_add_apply _ _ _ _⟩

theorem array_append (codes : List Byte) (b : Byte) : store (fun k => codes.getD k 0) codes.length b = fun k => (codes++[b]).getD k 0 := by
  funext k
  by_cases last : k = codes.length
  · subst last
    simp
  · rw [store_other _ last]
    by_cases inside : k < codes.length
    · rw [List.getD_append _ _ _ _ inside]
    · rw [List.getD_eq_default _ _ (by omega),List.getD_eq_default _ _ (by rw [List.length_append,List.length_singleton]; omega)]

theorem matchRow_fits (fits : codes.length ≤ 10) (ran : matchRow port row fuel j release codes = some (answer,after)) : after.length ≤ 10 := by
  induction fuel generalizing j release codes with
  | zero => cases ran
  | succ fuel ih =>
    rw [matchRow] at ran
    split at ran
    · cases ran
    · dsimp only at ran
      split at ran
      · split at ran
        · cases Option.some.inj ran
          exact fits
        · split at ran
          · exact ih (by rw [List.length_append,List.length_singleton]; omega) ran
          · cases ran
      · cases Option.some.inj ran
        exact fits

-- The machine does what the row's function says; no fuel is missing, since the
-- test at the tenth byte comes first.
theorem row_goes (here : scancodeSet1[i]? = some row) (fits : codes.length ≤ 10) (low : j ≤ 10) (enough : fuel+j = 11) :
    Goes port (scanAt i j release codes) (afterRow i (matchRow port row fuel j release codes)) := by
  induction fuel generalizing j release codes with
  | zero => omega
  | succ fuel ih =>
    refine Goes.first ?_
    rw [matchRow]
    simp only [scanAt,Call.step,Scan.next,here]
    by_cases behind : 10 ≤ j
    · rw [if_pos behind,if_pos behind,show j = 10 by omega]
      exact .refl _
    · rw [if_neg behind,if_neg behind]
      by_cases hit : column row j = codes.getD j 0 ∨ column row j ||| 0x80 = codes.getD j 0
      · rw [if_pos hit,if_pos hit]
        by_cases last : column row (j+1) = 0
        · rw [if_pos last,if_pos last]
          exact .refl _
        · rw [if_neg last,if_neg last]
          by_cases room : codes.length < 10
          · rw [if_neg (Nat.not_le.mpr room),if_pos room,array_append]
            have longer : (codes++[port codes.length]).length = codes.length+1 := by rw [List.length_append,List.length_singleton]
            have later := @ih (codes++[port codes.length]) (j+1) (if codes.getD j 0 = column row j ||| 0x80 then true else release)
              (by omega) (by omega) (by omega)
            rw [scanAt,longer] at later
            exact later
          · rw [if_pos (Nat.not_lt.mp room),if_neg room,show codes.length = 10 by omega]
            exact .refl _
      · rw [if_neg hit,if_neg hit]
        exact .refl _

theorem rows_goes (here : scancodeSet1.drop i = rows) (fits : codes.length ≤ 10) :
    Goes port (scanAt i 0 false codes) (afterRows (matchRows port rows codes)) := by
  induction rows generalizing i codes with
  | nil =>
    have past : scancodeSet1[i]? = none := by
      rw [List.getElem?_eq_none_iff]
      exact List.drop_eq_nil_iff.mp here
    refine Goes.first ?_
    simp only [scanAt,Call.step,Scan.next,past]
    exact .refl _
  | cons row rows ih =>
    have first : scancodeSet1[i]? = some row := by
      rw [← List.head?_drop,here]
      rfl
    have others : scancodeSet1.drop (i+1) = rows := by
      rw [← List.tail_drop,here]
      rfl
    have goes := @row_goes port row codes i 0 11 false first fits (Nat.zero_le 10) rfl
    rw [matchRows]
    split
    · rename_i missing
      rwa [missing] at goes
    · rename_i matched
      rwa [matched] at goes
    · rename_i missed
      rw [missed] at goes
      exact goes.trans (ih others (matchRow_fits fits missed))

theorem run_ends (port : Nat → Byte) : ∃ steps, run port steps = afterRows (scancodeResolveGetKeyCodeSet1 port) := by
  have first : begun port = scanAt 0 0 false [port 0] := by
    unfold begun scanAt
    congr 2
    exact array_append [] (port 0)
  have goes := @rows_goes port [port 0] scancodeSet1 0 rfl (Nat.succ_le_succ (Nat.zero_le 9))
  rwa [← first] at goes

theorem run_settled (ended : (run port m).step port = run port m) (later : m ≤ n) : run port n = run port m := by
  induction n, later using Nat.le_induction with
  | base => rfl
  | succ n _ ih => rw [run,Function.iterate_succ_apply',← run,ih,ended]

theorem inside_iff_answered (port : Nat → Byte) : StaysInside port ↔ (scancodeResolveGetKeyCodeSet1 port).isSome := by
  obtain ⟨last,ends⟩ := run_ends port
  cases answer : scancodeResolveGetKeyCodeSet1 port with
  | none =>
    rw [answer] at ends
    simpa using fun inside : StaysInside port => inside.2 last 10 ends
  | some result =>
    rw [answer] at ends
    refine iff_of_true ⟨⟨last,result.1,ends⟩,?_⟩ rfl
    intro steps index outside
    rcases Nat.le_total steps last with earlier | later
    · have settled := run_settled (show (run port steps).step port = run port steps by rw [outside]; rfl) earlier
      rw [ends,outside] at settled
      cases settled
    · have settled := run_settled (show (run port last).step port = run port last by rw [ends]; rfl) later
      rw [ends,outside] at settled
      cases settled

@[simp] theorem delivered_length (port : Nat → Byte) (n : Nat) : (delivered port n).length = n := by simp [delivered]

theorem delivered_next (port : Nat → Byte) (n : Nat) : delivered port n++[port n] = delivered port (n+1) := by
  rw [delivered,delivered,List.range_succ,List.map_append]
  rfl

theorem delivered_get (inside : k < n) : (delivered port n).getD k 0 = port k := by
  rw [List.getD_eq_getElem _ _ (by rw [delivered_length]; exact inside)]
  simp [delivered]

theorem column_end (row : List Byte) : column row (codeLength row) = 0 := by
  rcases Nat.lt_or_ge (codeLength row) row.length with inside | past
  · rw [column,List.getD_eq_getElem _ _ inside]
    exact eq_of_beq (@List.findIdx_getElem _ (· == (0 : Byte)) row inside)
  · exact List.getD_eq_default _ _ past

theorem row_within (part : j < codeLength row) (short : codeLength row ≤ 10) (enough : codeLength row ≤ fuel+j)
    (room : n+(codeLength row-1-j) ≤ 10) :
    ∃ answer m, matchRow port row fuel j release (delivered port n) = some (answer,delivered port m) ∧ n ≤ m ∧ m ≤ n+(codeLength row-1-j) := by
  induction fuel generalizing j n release with
  | zero => omega
  | succ fuel ih =>
    rw [matchRow,if_neg (by omega)]
    dsimp only
    split
    · split
      · exact ⟨_,n,rfl,Nat.le_refl n,Nat.le_add_right _ _⟩
      · rename_i inner
        have further : j+1 < codeLength row := by
          rcases Nat.lt_or_eq_of_le (Nat.succ_le_of_lt part) with less | equal
          · exact less
          · rw [← Nat.succ_eq_add_one,equal] at inner
            exact absurd (column_end row) inner
        rw [delivered_length,if_pos (by omega),delivered_next]
        obtain ⟨answer,m,ran,low,high⟩ := ih (n := n+1) (j := j+1) further (by omega) (by omega)
        exact ⟨answer,m,ran,by omega,by omega⟩
    · exact ⟨_,n,rfl,Nat.le_refl n,Nat.le_add_right _ _⟩

theorem row_passed (some_ : 1 ≤ n) (other : ¬ Begins row (port 0)) :
    matchRow port row 11 0 false (delivered port n) = some (none,delivered port n) := by
  refine row_missed ?_
  rw [delivered_get some_]
  exact other

theorem row_takes (shaped : 1 ≤ codeLength row ∧ codeLength row ≤ 10) (some_ : 1 ≤ n) (room : n+takes (port 0) row ≤ 10) :
    ∃ answer m, matchRow port row 11 0 false (delivered port n) = some (answer,delivered port m) ∧ n ≤ m ∧ m ≤ n+takes (port 0) row := by
  unfold takes at room ⊢
  split at room
  · rename_i begins
    rw [if_pos begins]
    exact row_within shaped.1 shaped.2 (by omega) room
  · rename_i other
    exact ⟨none,n,row_passed some_ other,Nat.le_refl n,Nat.le_add_right _ _⟩

theorem rows_within (shaped : ∀ row ∈ rows, 1 ≤ codeLength row ∧ codeLength row ≤ 10) (some_ : 1 ≤ n)
    (room : n+(rows.map (takes (port 0))).sum ≤ 10) : (matchRows port (rows++rest) (delivered port n)).isSome ∨
    ∃ m, n ≤ m ∧ m ≤ n+(rows.map (takes (port 0))).sum ∧
      matchRows port (rows++rest) (delivered port n) = matchRows port rest (delivered port m) := by
  induction rows generalizing n with
  | nil => exact .inr ⟨n,Nat.le_refl n,Nat.le_add_right _ _,rfl⟩
  | cons row rows ih =>
    obtain ⟨first,others⟩ := List.forall_mem_cons.mp shaped
    rw [List.map_cons,List.sum_cons] at room ⊢
    obtain ⟨answer,m,ran,low,high⟩ := @row_takes port row n first some_ (by omega)
    rw [List.cons_append,matchRows,ran]
    cases answer with
    | some keyCode => exact .inl rfl
    | none =>
      rcases ih others (show 1 ≤ m by omega) (by omega) with answered | ⟨k,more,less,same⟩
      · exact .inl answered
      · exact .inr ⟨k,by omega,by omega,same⟩

theorem table_shaped : ∀ row ∈ scancodeSet1, 1 ≤ codeLength row ∧ codeLength row ≤ 10 := by decide

theorem take_shaped (k : Nat) : ∀ row ∈ scancodeSet1.take k, 1 ≤ codeLength row ∧ codeLength row ≤ 10 :=
  fun row member => table_shaped row (List.mem_of_mem_take member)

theorem takes_other (other : first ≠ 0xE0) (row : List Byte) : takes first row ≤ if column row 0 = 0xE0 then 0 else codeLength row-1 := by
  unfold takes
  by_cases prefixed : column row 0 = 0xE0
  · rw [if_pos prefixed,if_neg]
    rintro (same | same)
    · exact other (same.symm.trans prefixed)
    · rw [prefixed] at same
      exact other same.symm
  · rw [if_neg prefixed]
    split
    · exact Nat.le_refl _
    · exact Nat.zero_le _

theorem other_answered (other : port 0 ≠ 0xE0) : (scancodeResolveGetKeyCodeSet1 port).isSome := by
  have few : (scancodeSet1.map (takes (port 0))).sum ≤ (scancodeSet1.map fun row => if column row 0 = 0xE0 then 0 else codeLength row-1).sum :=
    List.sum_le_sum fun row _ => takes_other other row
  have five : (scancodeSet1.map fun row => if column row 0 = 0xE0 then 0 else codeLength row-1).sum = 5 := by decide
  have answers := @rows_within port scancodeSet1 [] 1 table_shaped (Nat.le_refl 1) (by omega)
  rw [List.append_nil] at answers
  rcases answers with answered | ⟨m,_,_,same⟩
  · exact answered
  · rw [scancodeResolveGetKeyCodeSet1,show [port 0] = delivered port 1 from rfl,same]
    rfl

-- A row with the prefix byte takes one byte, the second one or another, and then
-- looks at the second.
theorem prefixed_row (first : port 0 = 0xE0) (prefixed : column row 0 = 0xE0) (longer : column row 1 ≠ 0) (some_ : 1 ≤ n) :
    matchRow port row 11 0 false (delivered port n) =
      if n < 10 then
        if column row 1 = port 1 ∨ column row 1 ||| 0x80 = port 1 then matchRow port row 10 1 true (delivered port (n+1))
        else some (none,delivered port (n+1))
      else none := by
  rw [matchRow,if_neg (by decide)]
  dsimp only
  rw [delivered_get some_,first,prefixed,if_pos (.inl rfl),if_neg longer,delivered_length,delivered_next,
    if_pos (show (0xE0 : Byte) = 0xE0 ||| 0x80 from rfl)]
  by_cases room : n < 10
  · rw [if_pos room,if_pos room]
    split
    · rfl
    · rename_i miss
      rw [matchRow,if_neg (by decide)]
      dsimp only
      rw [delivered_get (by omega)]
      exact if_neg miss
  · rw [if_neg room,if_neg room]

theorem hit_row_answers (first : port 0 = 0xE0) (prefixed : column row 0 = 0xE0) (longer : column row 1 ≠ 0) (two : column row 2 = 0)
    (hit : column row 1 = port 1 ∨ column row 1 ||| 0x80 = port 1) (some_ : 1 ≤ n) (room : n < 10) :
    (matchRows port (row::rest) (delivered port n)).isSome := by
  rw [matchRows,prefixed_row first prefixed longer some_,if_pos room,if_pos hit,matchRow,if_neg (by decide)]
  dsimp only
  rw [delivered_get (by omega),if_pos hit,if_pos two]
  rfl

theorem rows_pass (first : port 0 = 0xE0) (some_ : 1 ≤ n)
    (each : ∀ row ∈ rows, if column row 0 = 0xE0 then column row 1 ≠ 0 ∧ column row 1 ≠ port 1 ∧ column row 1 ||| 0x80 ≠ port 1
      else ¬ Begins row 0xE0) (room : n+rows.countP (column · 0 = 0xE0) ≤ 10) :
    matchRows port (rows++rest) (delivered port n) = matchRows port rest (delivered port (n+rows.countP (column · 0 = 0xE0))) := by
  induction rows generalizing n with
  | nil => rfl
  | cons row rows ih =>
    obtain ⟨head,tail⟩ := List.forall_mem_cons.mp each
    rw [List.cons_append,matchRows]
    by_cases prefixed : column row 0 = 0xE0
    · rw [if_pos prefixed] at head
      obtain ⟨longer,make,break_⟩ := head
      rw [List.countP_cons_of_pos (by simpa using prefixed)] at room ⊢
      rw [prefixed_row first prefixed longer some_,if_pos (by omega),if_neg (by rintro (same | same); exacts [make same,break_ same])]
      have later := @ih (n+1) (Nat.succ_pos n) tail (by omega)
      rwa [Nat.add_assoc,Nat.add_comm 1] at later
    · rw [if_neg prefixed] at head
      rw [List.countP_cons_of_neg (by simpa using prefixed)] at room ⊢
      rw [row_passed some_ (by rw [first]; exact head)]
      exact ih some_ tail room

theorem early_rows : ∀ key ∈ earlyKeys, ∃ row ∈ scancodeSet1.take 65, key.scanCode = [0xE0,column row 1] ∧
    column row 0 = 0xE0 ∧ column row 1 ≠ 0 ∧ column row 2 = 0 ∧ takes 0xE0 row = 1 := by
  decide

theorem rows_early : ∀ row ∈ scancodeSet1.take 65, if column row 0 = 0xE0 then column row 1 ≠ 0 ∧
    ∃ key ∈ earlyKeys, key.scanCode = [0xE0,column row 1] else ¬ Begins row 0xE0 := by
  decide

theorem coded_bytes {key : Key} (coded : key.scanCode = [0xE0,code]) (release : Bool) :
    key.bytes release = [0xE0,if release then code ||| 0x80 else code] := by
  cases release with
  | false => exact coded
  | true => simp [Key.bytes,coded]

theorem early_answered {key : Key} (early : key ∈ earlyKeys) (pressed : [port 0,port 1] = key.bytes release) :
    (scancodeResolveGetKeyCodeSet1 port).isSome := by
  obtain ⟨row,member,coded,prefixed,longer,two,one⟩ := early_rows key early
  rw [coded_bytes coded] at pressed
  obtain ⟨first,second⟩ := List.cons.inj pressed
  have hit : column row 1 = port 1 ∨ column row 1 ||| 0x80 = port 1 := by
    rw [(List.cons.inj second).1]
    cases release with
    | false => exact .inl rfl
    | true => exact .inr rfl
  obtain ⟨before,behind,parts⟩ := List.append_of_mem member
  have table : scancodeSet1 = before++(row::(behind++scancodeSet1.drop 65)) := by
    rw [← List.cons_append,← List.append_assoc,← parts,List.take_append_drop]
  -- The nine rows take nine bytes together, so one is left for the row itself.
  have nine : ((scancodeSet1.take 65).map (takes 0xE0)).sum = 9 := by decide
  rw [parts,List.map_append,List.map_cons,List.sum_append,List.sum_cons,one] at nine
  have shaped : ∀ other ∈ before, 1 ≤ codeLength other ∧ codeLength other ≤ 10 := fun other inside =>
    take_shaped 65 other (by rw [parts]; exact List.mem_append_left _ inside)
  have through := @rows_within port before (row::(behind++scancodeSet1.drop 65)) 1 shaped (Nat.le_refl 1) (by rw [first]; omega)
  rw [scancodeResolveGetKeyCodeSet1,show [port 0] = delivered port 1 from rfl,table]
  rcases through with answered | ⟨m,low,high,same⟩
  · exact answered
  · rw [same]
    rw [first] at high
    exact hit_row_answers first prefixed longer two hit low (by omega)

theorem other_overflows (first : port 0 = 0xE0) (other : ∀ key ∈ earlyKeys, ∀ release, [port 0,port 1] ≠ key.bytes release) :
    scancodeResolveGetKeyCodeSet1 port = none := by
  have table : scancodeSet1 = scancodeSet1.take 65++[0xE0,0x48,0x00,Key.code .up]::scancodeSet1.drop 66 := by rfl
  have nine : (scancodeSet1.take 65).countP (column · 0 = 0xE0) = 9 := by decide
  have each : ∀ row ∈ scancodeSet1.take 65, if column row 0 = 0xE0 then column row 1 ≠ 0 ∧ column row 1 ≠ port 1 ∧
      column row 1 ||| 0x80 ≠ port 1 else ¬ Begins row 0xE0 := by
    intro row member
    have early := rows_early row member
    split at early
    · rename_i prefixed
      obtain ⟨longer,key,listed,coded⟩ := early
      rw [if_pos prefixed]
      refine ⟨longer,?_,?_⟩
      · intro make
        refine other key listed false ?_
        rw [coded_bytes coded,first,← make]
        rfl
      · intro break_
        refine other key listed true ?_
        rw [coded_bytes coded,first,← break_]
        rfl
    · rename_i short
      rwa [if_neg short]
  have passes := @rows_pass port (scancodeSet1.take 65) ([0xE0,0x48,0x00,Key.code .up]::scancodeSet1.drop 66) 1 first (Nat.le_refl 1) each
    (by rw [nine])
  rw [scancodeResolveGetKeyCodeSet1,show [port 0] = delivered port 1 from rfl,table,passes,nine,matchRows,
    prefixed_row first rfl (by decide) (by omega),if_neg (by omega)]

-- Every call ends, and those that leave the array do it at its tenth row with the
-- prefix byte.
theorem scan_inside_iff (port : Nat → Byte) :
    StaysInside port ↔ port 0 ≠ 0xE0 ∨ ∃ key ∈ earlyKeys, ∃ release, [port 0,port 1] = key.bytes release := by
  rw [inside_iff_answered]
  constructor
  · intro answered
    by_contra neither
    push Not at neither
    rw [other_overflows neither.1 neither.2] at answered
    cases answered
  · rintro (other | ⟨key,early,release,pressed⟩)
    · exact other_answered other
    · exact early_answered early pressed

def upPressed : Nat → Byte := fun i => [0xE0,0x48].getD i 0

-- The up arrow: its own row is the one whose byte no longer fits.
theorem up_arrow_overflows : [upPressed 0,upPressed 1] = Key.up.bytes false ∧ (∃ steps, run upPressed steps = .outside 10) ∧
    ¬ StaysInside upPressed := by
  have overflows : scancodeResolveGetKeyCodeSet1 upPressed = none := by decide
  obtain ⟨steps,ends⟩ := run_ends upPressed
  rw [overflows] at ends
  exact ⟨rfl,⟨steps,ends⟩,fun inside => inside.2 steps 10 ends⟩

end KaracaOS.ScancodeBuffer
