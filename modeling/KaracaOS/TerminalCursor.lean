import KaracaOS.Terminal

namespace KaracaOS.TerminalCursor
open ByteMemory StepRuns Terminal

structure OnScreen (v : Vga) : Prop where
  width : v.handle.width = 80
  height : v.handle.height = 25
  cursorx : 0 ≤ v.handle.cursorx ∧ v.handle.cursorx < 80
  cursory : 0 ≤ v.handle.cursory ∧ v.handle.cursory < 25

def Started (v : Vga) : Prop := ∃ before : Vga, before.ttyInitialized = false ∧ v = ttyInit before

-- The low byte of a cell is its character.
def Filled (v : Vga) (row col : Int) : Prop := v.buffer (row*80+col).toNat &&& 0xFF ≠ 0
instance (v : Vga) (row col : Int) : Decidable (Filled v row col) := inferInstanceAs (Decidable (_ ≠ _))

-- A backspace at a line start needs text in the row above, its last column
-- apart, or at the end of the row above that.
def TextAbove (v : Vga) : Prop :=
  (∃ col : Fin 79, Filled v (v.handle.cursory-1) (col.val : Int)) ∨ 2 ≤ v.handle.cursory ∧ Filled v (v.handle.cursory-2) 79

def Safe (v : Vga) (ch : Byte) : Prop :=
  ch ≠ backspaceChar ∨ 0 < v.handle.cursorx ∨ 0 < v.handle.cursory ∧ TextAbove v

variable {v next : Vga} {h : TtyHandle} {buffer : Nat → Cell} {ch : Byte} {fuel : Nat} {low found cursorx : Int}

theorem ttyInit_on_screen (start : Started v) : OnScreen v := by
  obtain ⟨before,fresh,rfl⟩ := start
  have shows := ttyInit_shows before fresh
  have row : (ttyInit before).handle.cursory+(0 : Nat) = (0 : Nat) := shows.cursory
  have col : (ttyInit before).handle.cursorx = (0 : Nat) := shows.cursorx
  exact ⟨shows.width,shows.height,by omega,by omega⟩

theorem advance_on_screen (width : v.handle.width = 80) (height : v.handle.height = 25)
    (cursorx : -1 ≤ v.handle.cursorx) (cursory : 0 ≤ v.handle.cursory ∧ v.handle.cursory < 25) :
    ∃ next, advance v = some next ∧ OnScreen next := by
  have left : (0 : Int) ≤ 0 ∧ (0 : Int) < 80 := by decide
  have bottom : (0 : Int) ≤ (25 : Nat)-1 ∧ ((25 : Nat)-1 : Int) < 25 := by decide
  unfold advance
  dsimp only
  rw [width,height]
  by_cases inRow : v.handle.cursorx+1 < (80 : Nat)
  · have columns : 0 ≤ v.handle.cursorx+1 ∧ v.handle.cursorx+1 < 80 := by omega
    rw [if_pos inRow]
    exact ⟨_,rfl,rfl,rfl,columns,cursory⟩
  · rw [if_neg inRow]
    by_cases inWindow : v.handle.cursory+1 < (25 : Nat)
    · have rows : 0 ≤ v.handle.cursory+1 ∧ v.handle.cursory+1 < 25 := by omega
      rw [if_pos inWindow]
      exact ⟨_,rfl,rfl,rfl,left,rows⟩
    · rw [if_neg inWindow,ttyScroll_eq width height]
      exact ⟨_,rfl,rfl,rfl,left,bottom⟩

theorem place_inside (shown : OnScreen v) : v.handle.inside (v.handle.cursory*v.handle.width+v.handle.cursorx) := by
  obtain ⟨width,height,cursorx,cursory⟩ := shown
  unfold TtyHandle.inside
  rw [width,height]
  omega

theorem other_on_screen (shown : OnScreen v) (other : ch ≠ backspaceChar) : ∃ next, ttyPutch v ch = some next ∧ OnScreen next := by
  have inside := place_inside shown
  obtain ⟨width,height,cursorx,cursory⟩ := shown
  unfold ttyPutch
  dsimp only
  split
  · refine advance_on_screen width height ?_ cursory
    show (-1 : Int) ≤ v.handle.width-1
    omega
  · split
    · exact advance_on_screen width height (show (-1 : Int) ≤ 0 by decide) cursory
    · split
      · refine advance_on_screen width height ?_ cursory
        have few := Int.tmod_lt_of_pos v.handle.cursorx (show (0 : Int) < 8 by decide)
        show -1 ≤ v.handle.cursorx+(8-v.handle.cursorx.tmod 8)-1
        omega
      · rw [storeCell,if_pos inside,Option.bind_some]
        exact advance_on_screen width height (by dsimp only; omega) cursory

theorem skipBlanks_found (inside : ∀ x, low ≤ x → x ≤ cursorx → h.inside (h.cursory*h.width+x)) (below : low ≤ cursorx)
    (filled : buffer (h.cursory*h.width+low).toNat &&& 0xFF ≠ 0) (enough : cursorx-low < (fuel : Nat)) :
    ∃ found, skipBlanks h buffer fuel cursorx = some found ∧ low ≤ found := by
  induction fuel generalizing cursorx with
  | zero => omega
  | succ fuel ih =>
    rw [skipBlanks,loadCell,if_pos (inside cursorx below (Int.le_refl _))]
    dsimp only
    split
    · rename_i blank
      have further : low ≠ cursorx := by
        rintro rfl
        exact filled blank
      exact ih (fun x least most => inside x least (by omega)) (by omega) (by omega)
    · exact ⟨cursorx,rfl,below⟩

theorem skipBlanks_sound (ran : skipBlanks h buffer fuel cursorx = some found) :
    found ≤ cursorx ∧ h.inside (h.cursory*h.width+found) ∧ buffer (h.cursory*h.width+found).toNat &&& 0xFF ≠ 0 := by
  induction fuel generalizing cursorx with
  | zero => cases ran
  | succ fuel ih =>
    rw [skipBlanks,loadCell] at ran
    by_cases inside : h.inside (h.cursory*h.width+cursorx)
    · rw [if_pos inside] at ran
      dsimp only at ran
      split at ran
      · obtain ⟨below,there,filled⟩ := ih ran
        exact ⟨by omega,there,filled⟩
      · rename_i filled
        cases ran
        exact ⟨Int.le_refl _,inside,filled⟩
    · rw [if_neg inside] at ran
      cases ran

-- The cell before the start of row y loses its character; the search begins
-- there, at the last column of the row above.
def blankedBefore (v : Vga) : Nat → Cell :=
  Function.update v.buffer (v.handle.cursory*80-1).toNat (v.buffer (v.handle.cursory*80-1).toNat &&& 0xFF00)

def rowAbove (v : Vga) : TtyHandle := {v.handle with cursorx := 79,cursory := v.handle.cursory-1}

theorem backspace_lineStart (shown : OnScreen v) (start : v.handle.cursorx = 0) (lower : 0 < v.handle.cursory) :
    backspace v = (skipBlanks (rowAbove v) (blankedBefore v) 2001 79).map fun cursorx =>
      {v with handle := {rowAbove v with cursorx := cursorx+1},buffer := blankedBefore v} := by
  obtain ⟨width,height,_,cursory⟩ := shown
  have place : v.handle.cursory*v.handle.width+v.handle.cursorx-1 = v.handle.cursory*80-1 := by
    rw [width,start]
    push_cast
    ring
  have inside : v.handle.inside (v.handle.cursory*80-1) := by
    unfold TtyHandle.inside
    rw [width,height]
    omega
  have column : (if v.handle.cursory-1 < 0 then 0 else v.handle.cursory-1) = v.handle.cursory-1 := if_neg (by omega)
  have end_ : (v.handle.width : Int)-1 = 79 := by
    rw [width]
    rfl
  have rounds : v.handle.width*v.handle.height+1 = 2001 := by rw [width,height]
  unfold backspace
  dsimp only
  rw [place,loadCell,if_pos inside]
  dsimp only
  rw [if_pos (by omega),column,end_,rounds]
  rfl

theorem blankedBefore_filled (lower : 0 < v.handle.cursory) (there : 0 ≤ (v.handle.cursory-1)*80+x) :
    blankedBefore v ((v.handle.cursory-1)*80+x).toNat &&& 0xFF ≠ 0 ↔ x ≠ 79 ∧ Filled v (v.handle.cursory-1) x := by
  unfold blankedBefore Filled
  rw [Function.update_apply]
  by_cases last : x = 79
  · have same : ((v.handle.cursory-1)*80+x).toNat = (v.handle.cursory*80-1).toNat := by omega
    have blank : (v.buffer (v.handle.cursory*80-1).toNat &&& 0xFF00) &&& 0xFF = 0 := by
      rw [BitVec.and_assoc,show (0xFF00 : Cell) &&& 0xFF = 0#16 from rfl]
      exact BitVec.and_zero
    rw [if_pos same,blank]
    exact ⟨fun other => absurd rfl other,fun both => absurd last both.1⟩
  · have apart : ((v.handle.cursory-1)*80+x).toNat ≠ (v.handle.cursory*80-1).toNat := by omega
    rw [if_neg apart]
    exact (and_iff_right last).symm

theorem rowAbove_place (shown : OnScreen v) (x : Int) : (rowAbove v).cursory*(rowAbove v).width+x = (v.handle.cursory-1)*80+x := by
  show (v.handle.cursory-1)*v.handle.width+x = _
  rw [shown.width]
  rfl

theorem rowAbove_inside (shown : OnScreen v) (place : Int) : (rowAbove v).inside place ↔ 0 ≤ place ∧ place < 2000 := by
  show 0 ≤ _ ∧ _ < ((v.handle.width : Int))*v.handle.height ↔ _
  rw [shown.width,shown.height]
  rfl

-- Seen from a row, the last cell of the row above has the column -1.
theorem filled_before (v : Vga) (row : Int) : Filled v row (-1) ↔ Filled v (row-1) 79 := by
  unfold Filled
  rw [show (row-1)*80+79 = row*80+-1 by ring]

theorem lineStart_needs_text (shown : OnScreen v) (start : v.handle.cursorx = 0) (lower : 0 < v.handle.cursory)
    (returns : ∃ next, backspace v = some next ∧ OnScreen next) : TextAbove v := by
  rw [backspace_lineStart shown start lower] at returns
  obtain ⟨next,ran,shows⟩ := returns
  obtain ⟨found,searched,rfl⟩ := Option.map_eq_some_iff.mp ran
  have columns : 0 ≤ found+1 ∧ found+1 < 80 := shows.cursorx
  obtain ⟨_,there,filled⟩ := skipBlanks_sound searched
  rw [rowAbove_place shown] at there filled
  have there := (rowAbove_inside shown _).mp there
  obtain ⟨_,filled⟩ := (blankedBefore_filled lower there.1).mp filled
  by_cases row : 0 ≤ found
  · refine .inl ⟨⟨found.toNat,by omega⟩,?_⟩
    show Filled v (v.handle.cursory-1) ((found.toNat : Nat) : Int)
    rw [Int.toNat_of_nonneg row]
    exact filled
  · have before : found = -1 := by omega
    subst before
    exact .inr ⟨by omega,by rw [show v.handle.cursory-2 = v.handle.cursory-1-1 by ring]; exact (filled_before v _).mp filled⟩

theorem lineStart_with_text (shown : OnScreen v) (start : v.handle.cursorx = 0) (lower : 0 < v.handle.cursory) (text : TextAbove v) :
    ∃ next, backspace v = some next ∧ OnScreen next := by
  have cursory := shown.cursory
  have first : ∃ low, -1 ≤ low ∧ low < 79 ∧ 0 ≤ (v.handle.cursory-1)*80+low ∧ Filled v (v.handle.cursory-1) low := by
    rcases text with ⟨col,filled⟩ | ⟨two,filled⟩
    · exact ⟨col.val,by omega,by omega,by omega,filled⟩
    · rw [show v.handle.cursory-2 = v.handle.cursory-1-1 by ring] at filled
      exact ⟨-1,by omega,by omega,by omega,(filled_before v _).mpr filled⟩
  obtain ⟨low,least,short,there,filled⟩ := first
  have ends : ∃ found, skipBlanks (rowAbove v) (blankedBefore v) 2001 79 = some found ∧ low ≤ found := by
    refine skipBlanks_found ?_ (by omega) ?_ (by omega)
    · intro x above below
      rw [rowAbove_place shown]
      exact (rowAbove_inside shown _).mpr (by omega)
    · rw [rowAbove_place shown]
      exact (blankedBefore_filled lower there).mpr ⟨by omega,filled⟩
  obtain ⟨found,ran,above⟩ := ends
  obtain ⟨below,here,marked⟩ := skipBlanks_sound ran
  rw [rowAbove_place shown] at here marked
  obtain ⟨other,_⟩ := (blankedBefore_filled lower ((rowAbove_inside shown _).mp here).1).mp marked
  have columns : 0 ≤ found+1 ∧ found+1 < 80 := by omega
  have rows : 0 ≤ v.handle.cursory-1 ∧ v.handle.cursory-1 < 25 := by omega
  rw [backspace_lineStart shown start lower,ran]
  exact ⟨_,rfl,shown.width,shown.height,columns,rows⟩

theorem lineStart_on_screen_iff (shown : OnScreen v) (start : v.handle.cursorx = 0) (lower : 0 < v.handle.cursory) :
    (∃ next, backspace v = some next ∧ OnScreen next) ↔ TextAbove v :=
  ⟨lineStart_needs_text shown start lower,lineStart_with_text shown start lower⟩

theorem inRow_on_screen (shown : OnScreen v) (inRow : 0 < v.handle.cursorx) : ∃ next, backspace v = some next ∧ OnScreen next := by
  obtain ⟨width,height,cursorx,cursory⟩ := shown
  have inside : v.handle.inside (v.handle.cursory*v.handle.width+v.handle.cursorx-1) := by
    unfold TtyHandle.inside
    rw [width,height]
    omega
  have columns : 0 ≤ v.handle.cursorx-1 ∧ v.handle.cursorx-1 < 80 := by omega
  unfold backspace
  dsimp only
  rw [loadCell,if_pos inside]
  dsimp only
  rw [if_neg (by omega)]
  exact ⟨_,rfl,width,height,columns,cursory⟩

theorem origin_outside (first : v.handle.cursorx = 0) (top : v.handle.cursory = 0) : backspace v = none := by
  have outside : ¬ v.handle.inside (v.handle.cursory*v.handle.width+v.handle.cursorx-1) := by
    unfold TtyHandle.inside
    rw [first,top]
    omega
  unfold backspace
  dsimp only
  rw [loadCell,if_neg outside]

theorem putch_on_screen_iff (shown : OnScreen v) (ch : Byte) : (∃ next, ttyPutch v ch = some next ∧ OnScreen next) ↔ Safe v ch := by
  by_cases other : ch = backspaceChar
  · have put : ttyPutch v ch = backspace v := by
      rw [other]
      rfl
    rw [put]
    unfold Safe
    obtain ⟨⟨low,_⟩,⟨top,_⟩⟩ := And.intro shown.cursorx shown.cursory
    by_cases inRow : 0 < v.handle.cursorx
    · exact ⟨fun _ => .inr (.inl inRow),fun _ => inRow_on_screen shown inRow⟩
    · have start : v.handle.cursorx = 0 := by omega
      by_cases lower : 0 < v.handle.cursory
      · rw [lineStart_on_screen_iff shown start lower]
        constructor
        · exact fun text => .inr (.inr ⟨lower,text⟩)
        · rintro (plain | right | ⟨_,text⟩)
          · exact absurd other plain
          · exact absurd right inRow
          · exact text
      · rw [origin_outside start (by omega)]
        constructor
        · rintro ⟨_,none,_⟩
          cases none
        · rintro (plain | right | ⟨down,_⟩)
          · exact absurd other plain
          · exact absurd right inRow
          · exact absurd down lower
  · exact ⟨fun _ => .inl other,fun _ => other_on_screen shown other⟩

theorem safe_on_screen (path : Reached Started ttyPutch Safe v) : OnScreen v := by
  refine path.invariant OnScreen (fun v => ttyInit_on_screen) ?_
  intro v ch next shown safe ran
  obtain ⟨other,went,after⟩ := (putch_on_screen_iff shown ch).mpr safe
  rw [ran] at went
  cases went
  exact after

-- Runs of tty_putch from tty_init whose calls all meet the condition.
theorem cursor_on_screen_while_safe (v : Vga) (path : Reached Started ttyPutch Safe v) :
    OnScreen v ∧ ∀ ch, (∃ next, ttyPutch v ch = some next ∧ OnScreen next) ↔ Safe v ch :=
  ⟨safe_on_screen path,putch_on_screen_iff (safe_on_screen path)⟩

-- A letter, and it is taken back.
theorem letter_taken_back : ∃ v, Reached Started ttyPutch Safe v ∧ 0 < v.handle.cursorx ∧
    ∃ next, ttyPutch v backspaceChar = some next ∧ OnScreen next := by
  have start : Started (ttyInit offVga) := ⟨offVga,rfl,rfl⟩
  obtain ⟨v,ran,column⟩ : ∃ v, ttyPutch (ttyInit offVga) 0x48 = some v ∧ v.handle.cursorx = 1 := ⟨_,rfl,rfl⟩
  have path : Reached Started ttyPutch Safe v := .step (.start start) (.inl (by decide)) ran
  have right : 0 < v.handle.cursorx := by rw [column]; decide
  exact ⟨v,path,right,((cursor_on_screen_while_safe v path).2 backspaceChar).mpr (.inr (.inl right))⟩

-- A backspace on the blank screen reads the place before the buffer.
theorem first_backspace_outside : Started (ttyInit offVga) ∧ ttyPutch (ttyInit offVga) backspaceChar = none ∧
    ¬ ∃ next, ttyPutch (ttyInit offVga) backspaceChar = some next ∧ OnScreen next := by
  have outside : ttyPutch (ttyInit offVga) backspaceChar = none := rfl
  refine ⟨⟨offVga,rfl,rfl⟩,outside,?_⟩
  rintro ⟨next,ran,_⟩
  rw [outside] at ran
  cases ran

end KaracaOS.TerminalCursor
