import KaracaOS.StepRuns
import KaracaOS.ByteMemory

namespace KaracaOS.Terminal
open ByteMemory StepRuns

abbrev Cell := BitVec 16

-- tty_handle_t without its function pointer, and the text memory it leads to.
structure TtyHandle where
  width : Nat
  height : Nat
  cursorx : Int
  cursory : Int
  color : Byte

structure Vga where
  ttyInitialized : Bool
  handle : TtyHandle
  buffer : Nat → Cell

-- Cells outside width*height are not the terminal's (none).
def TtyHandle.inside (h : TtyHandle) (index : Int) : Prop := 0 ≤ index ∧ index < h.width*h.height
instance (h : TtyHandle) (index : Int) : Decidable (h.inside index) := inferInstanceAs (Decidable (_ ∧ _))

def loadCell (h : TtyHandle) (buffer : Nat → Cell) (index : Int) : Option Cell :=
  if h.inside index then some (buffer index.toNat) else none

def storeCell (h : TtyHandle) (buffer : Nat → Cell) (index : Int) (cell : Cell) : Option (Nat → Cell) :=
  if h.inside index then some (Function.update buffer index.toNat cell) else none

def archTtyInit (v : Vga) : Vga :=
  if v.ttyInitialized then v else {v with ttyInitialized := true,handle := ⟨80,25,0,0,0⟩}

def ttyInit (v : Vga) : Vga :=
  let v := archTtyInit v
  {v with buffer := fun i => if i < v.handle.width*v.handle.height then 0 else v.buffer i}

def ttySetcolors (v : Vga) (foreground background : Byte) : Vga :=
  {v with handle := {v.handle with color := (background <<< 4) ||| (foreground &&& 0x0F)}}

-- ch is a signed char.
def coloredChar (ch color : Byte) : Cell := ch.signExtend 16 ||| (color.zeroExtend 16 <<< 8)

def copyCell (h : TtyHandle) (y : Nat) (buffer : Nat → Cell) (x : Nat) : Option (Nat → Cell) :=
  (loadCell h buffer (y*h.width+x)).bind (storeCell h buffer ((y-1)*h.width+x))

def ttyScroll (h : TtyHandle) (buffer : Nat → Cell) : Option (Nat → Cell) :=
  (repeated (fun buffer y => repeated (copyCell h y) h.width 0 buffer) (h.height-1) 1 buffer).bind
    (repeated (fun buffer x => storeCell h buffer ((h.height-1)*h.width+x) 0) h.width 0)

-- What follows the branches on ch.
def advance (v : Vga) : Option Vga :=
  let h := v.handle
  if h.cursorx+1 < h.width then some {v with handle := {h with cursorx := h.cursorx+1}}
  else if h.cursory+1 < h.height then some {v with handle := {h with cursorx := 0,cursory := h.cursory+1}}
  else (ttyScroll h v.buffer).map fun buffer => {v with handle := {h with cursorx := 0,cursory := h.height-1},buffer := buffer}

-- The inner while loop of the backspace branch; the index falls with every round.
def skipBlanks (h : TtyHandle) (buffer : Nat → Cell) : Nat → Int → Option Int
  | 0,_ => none
  | fuel+1,cursorx =>
    match loadCell h buffer (h.cursory*h.width+cursorx) with
    | none => none
    | some cell => if cell &&& 0xFF = 0 then skipBlanks h buffer fuel (cursorx-1) else some cursorx

def backspace (v : Vga) : Option Vga :=
  let h := v.handle
  let index := h.cursory*h.width+h.cursorx-1
  match loadCell h v.buffer index with
  | none => none
  | some cell =>
    let buffer := Function.update v.buffer index.toNat (cell &&& 0xFF00)
    if h.cursorx-1 < 0 then
      let h := {h with cursorx := h.width-1,cursory := if h.cursory-1 < 0 then 0 else h.cursory-1}
      (skipBlanks h buffer (h.width*h.height+1) h.cursorx).map fun cursorx =>
        {v with handle := {h with cursorx := cursorx+1},buffer := buffer}
    else some {v with handle := {h with cursorx := h.cursorx-1},buffer := buffer}

def newline : Byte := 0x0A
def carriageReturn : Byte := 0x0D
def backspaceChar : Byte := 0x08
def tab : Byte := 0x09

def moved (v : Vga) (cursorx : Int) : Vga := {v with handle := {v.handle with cursorx := cursorx}}

def ttyPutch (v : Vga) (ch : Byte) : Option Vga :=
  let h := v.handle
  if ch = newline then advance (moved v (h.width-1))
  else if ch = carriageReturn then advance (moved v 0)
  else if ch = backspaceChar then backspace v
  else if ch = tab then advance (moved v (h.cursorx+(8-h.cursorx.tmod 8)-1))
  else
    (storeCell h v.buffer (h.cursory*h.width+h.cursorx) (coloredChar ch h.color)).bind fun buffer =>
      advance {v with buffer := buffer}

inductive Command where
  | putch (ch : Byte)
  | setcolors (foreground background : Byte)
  deriving DecidableEq

def perform (v : Vga) : Command → Option Vga
  | .putch ch => ttyPutch v ch
  | .setcolors foreground background => some (ttySetcolors v foreground background)

-- Characters below 0x80 other than backspace.
def Command.Legal : Command → Prop
  | .putch ch => ch.toNat < 0x80 ∧ ch ≠ backspaceChar
  | .setcolors _ _ => True

-- The reference terminal: eighty columns, as many rows as it takes, blank to begin with.
structure Screen where
  cells : Nat → Nat → Cell
  row : Nat
  col : Nat
  color : Byte

def blankScreen : Screen := ⟨fun _ _ => 0,0,0,0⟩

-- To a column, or to the start of the next row behind the last one.
def Screen.goto (s : Screen) (col : Nat) : Screen :=
  if col < 80 then {s with col := col} else {s with row := s.row+1,col := 0}

def Screen.print (s : Screen) (cell : Cell) : Screen :=
  {s with cells := fun row col => if row = s.row ∧ col = s.col then cell else s.cells row col}

def Screen.apply (s : Screen) : Command → Screen
  | .setcolors foreground background => {s with color := (background <<< 4) ||| (foreground &&& 0x0F)}
  | .putch ch =>
    if ch = newline then {s with row := s.row+1,col := 0}
    else if ch = carriageReturn then {s with col := 0}
    else if ch = tab then s.goto (s.col/8*8+8)
    else (s.print (ch.zeroExtend 16 ||| (s.color.zeroExtend 16 <<< 8))).goto (s.col+1)

-- Rows that have scrolled out of the window of 25.
def Screen.scrolled (s : Screen) : Nat := s.row-24

structure Window (v : Vga) (s : Screen) : Prop where
  width : v.handle.width = 80
  height : v.handle.height = 25
  text : ∀ y < 25, ∀ x < 80, v.buffer (y*80+x) = s.cells (s.scrolled+y) x
  cursory : v.handle.cursory+s.scrolled = s.row
  color : v.handle.color = s.color

structure Shows (v : Vga) (s : Screen) : Prop extends Window v s where
  cursorx : v.handle.cursorx = s.col

-- After every initial part of a sequence the window shows the screen, and no
-- cell outside is touched on the way.
def Follows : Vga → Screen → List Command → Prop
  | v,s,[] => Shows v s
  | v,s,c::rest => Shows v s ∧ ∃ next, perform v c = some next ∧ Follows next (s.apply c) rest

variable {v : Vga} {s : Screen}

-- The first n cells hold what was one row further down.
def Shifted (old : Nat → Cell) (n : Nat) (buffer : Nat → Cell) : Prop :=
  ∀ i, buffer i = if i < n then old (i+80) else old i

theorem copyCell_shifts (width : h.width = 80) (height : h.height = 25) (low : 1 ≤ y) (high : y < 25) (column : x < 80)
    (shifted : Shifted old ((y-1)*80+x) buffer) : ∃ next, copyCell h y buffer x = some next ∧ Shifted old ((y-1)*80+(x+1)) next := by
  have source : h.inside (y*h.width+x) := by
    unfold TtyHandle.inside
    rw [width,height]
    omega
  have target : h.inside ((y-1)*h.width+x) := by
    unfold TtyHandle.inside
    rw [width,height]
    omega
  have from_ : ((y : Int)*h.width+x).toNat = y*80+x := by
    rw [width]
    omega
  have to_ : (((y : Int)-1)*h.width+x).toNat = (y-1)*80+x := by
    rw [width]
    omega
  refine ⟨Function.update buffer ((y-1)*80+x) (old (y*80+x)),?_,?_⟩
  · rw [copyCell,loadCell,if_pos source,Option.bind_some,storeCell,if_pos target,from_,to_,shifted (y*80+x),if_neg (by omega)]
  · intro i
    rw [Function.update_apply]
    split
    · rename_i here
      rw [here,if_pos (by omega)]
      congr 1
      omega
    · rename_i other
      rw [shifted i]
      split
      · rw [if_pos (by omega)]
      · rw [if_neg (by omega)]

theorem copyRow_shifts (width : h.width = 80) (height : h.height = 25) (low : 1 ≤ y) (high : y < 25)
    (shifted : Shifted old ((y-1)*80) buffer) :
    ∃ next, repeated (copyCell h y) h.width 0 buffer = some next ∧ Shifted old (y*80) next := by
  rw [width]
  have loop : ∃ next, repeated (copyCell h y) 80 0 buffer = some next ∧ Shifted old ((y-1)*80+(0+80)) next :=
    repeated_total (fun x buffer => Shifted old ((y-1)*80+x) buffer) shifted
      (fun x buffer _ column shifted => copyCell_shifts width height low high (by omega) shifted)
  rwa [show (y-1)*80+(0+80) = y*80 by omega] at loop

theorem copyRows_shift (width : h.width = 80) (height : h.height = 25) (buffer : Nat → Cell) :
    ∃ next, repeated (fun buffer y => repeated (copyCell h y) h.width 0 buffer) (h.height-1) 1 buffer = some next ∧
      Shifted buffer 1920 next := by
  rw [height]
  have start : Shifted buffer ((1-1)*80) buffer := by
    intro i
    simp
  have loop : ∃ next, repeated (fun buffer y => repeated (copyCell h y) h.width 0 buffer) 24 1 buffer = some next ∧
      Shifted buffer ((1+24-1)*80) next :=
    repeated_total (fun y next => Shifted buffer ((y-1)*80) next) start
      (fun y middle low high shifted => copyRow_shifts width height low (by omega) shifted)
  exact loop

-- What a scroll leaves of a buffer.
def scrolledBuffer (buffer : Nat → Cell) : Nat → Cell :=
  fun i => if i < 1920 then buffer (i+80) else if i < 2000 then 0 else buffer i

theorem ttyScroll_eq (width : h.width = 80) (height : h.height = 25) (buffer : Nat → Cell) :
    ttyScroll h buffer = some (scrolledBuffer buffer) := by
  obtain ⟨copied,ran,shifted⟩ := copyRows_shift width height buffer
  have clears : ∃ next, repeated (fun buffer x => storeCell h buffer ((h.height-1)*h.width+x) 0) h.width 0 copied = some next ∧
      ∀ i, next i = if 1920 ≤ i ∧ i < 1920+(0+80) then 0 else copied i := by
    rw [width,height]
    refine repeated_total (fun x (next : Nat → Cell) => ∀ i, next i = if 1920 ≤ i ∧ i < 1920+x then 0 else copied i) ?_ ?_
    · intro i
      rw [if_neg (by omega)]
    · intro x middle _ column cleared
      have target : h.inside (((25 : Nat)-1)*(80 : Nat)+x) := by
        unfold TtyHandle.inside
        rw [width,height]
        omega
      refine ⟨_,if_pos target,?_⟩
      intro i
      rw [Function.update_apply,cleared i]
      split
      · rw [if_pos (by omega)]
      · split
        · rw [if_pos (by omega)]
        · rw [if_neg (by omega)]
  obtain ⟨last,cleared,bytes⟩ := clears
  rw [ttyScroll,ran,Option.bind_some,cleared]
  congr 1
  funext i
  rw [bytes i,shifted i,scrolledBuffer]
  by_cases upper : i < 1920
  · rw [if_neg (by omega),if_pos upper,if_pos upper]
  · by_cases bottom : i < 2000
    · rw [if_pos (by omega),if_neg upper,if_pos bottom]
    · rw [if_neg (by omega),if_neg upper,if_neg upper,if_neg bottom]

-- The cursor is on a cell, and nothing was printed below its row.
structure Screen.Sound (s : Screen) : Prop where
  column : s.col < 80
  below : ∀ row, s.row < row → ∀ col, s.cells row col = 0

theorem Screen.Sound.goto (sound : s.Sound) (col : Nat) : (s.goto col).Sound := by
  unfold Screen.goto
  split
  · rename_i less
    exact ⟨less,sound.below⟩
  · exact ⟨Nat.zero_lt_succ 79,fun row below => sound.below row (by dsimp only at below; omega)⟩

theorem Screen.Sound.print (sound : s.Sound) (cell : Cell) : (s.print cell).Sound := by
  refine ⟨sound.column,?_⟩
  intro row below col
  have lower : s.row < row := below
  show (if row = s.row ∧ col = s.col then cell else s.cells row col) = 0
  rw [if_neg (fun both => Nat.ne_of_gt lower both.1)]
  exact sound.below row lower col

theorem Screen.Sound.apply (sound : s.Sound) (c : Command) : (s.apply c).Sound := by
  cases c with
  | setcolors foreground background => exact ⟨sound.column,sound.below⟩
  | putch ch =>
    unfold Screen.apply
    dsimp only
    split
    · exact ⟨Nat.zero_lt_succ 79,fun row below => sound.below row (by dsimp only at below; omega)⟩
    · split
      · exact ⟨Nat.zero_lt_succ 79,sound.below⟩
      · split
        · exact sound.goto _
        · exact (sound.print _).goto _

theorem advance_goto (window : Window v s) (sound : s.Sound) (next_ : v.handle.cursorx+1 = (col : Nat)) (bound : col ≤ 80) :
    ∃ next, advance v = some next ∧ Shows next (s.goto col) := by
  obtain ⟨width,height,text,cursory,color⟩ := window
  unfold advance
  dsimp only
  rw [width,height,next_]
  by_cases inRow : col < 80
  · rw [if_pos (by omega),Screen.goto,if_pos inRow]
    exact ⟨_,rfl,⟨rfl,rfl,text,cursory,color⟩,rfl⟩
  · rw [if_neg (by omega),Screen.goto,if_neg inRow]
    unfold Screen.scrolled at text cursory
    by_cases inWindow : v.handle.cursory+1 < 25
    · rw [if_pos (by omega)]
      have early : s.row < 24 := by omega
      refine ⟨_,rfl,⟨rfl,rfl,?_,?_,color⟩,rfl⟩
      · intro y low x left
        rw [text y low x left]
        show s.cells (s.row-24+y) x = s.cells (s.row+1-24+y) x
        congr 1
        omega
      · show v.handle.cursory+1+((s.row+1-24 : Nat) : Int) = ((s.row+1 : Nat) : Int)
        omega
    · rw [if_neg (by omega),ttyScroll_eq width height]
      have late : 24 ≤ s.row := by omega
      refine ⟨_,rfl,⟨rfl,rfl,?_,?_,color⟩,rfl⟩
      · intro y low x left
        show scrolledBuffer v.buffer (y*80+x) = s.cells (s.row+1-24+y) x
        unfold scrolledBuffer
        by_cases last : y = 24
        · rw [if_neg (by omega),if_pos (by omega),sound.below _ (by omega)]
        · rw [if_pos (by omega),show y*80+x+80 = (y+1)*80+x by omega,text (y+1) (by omega) x left]
          congr 1
          omega
      · show ((25 : Nat) : Int)-1+((s.row+1-24 : Nat) : Int) = ((s.row+1 : Nat) : Int)
        omega

theorem Window.moved (window : Window v s) (cursorx : Int) : Window (moved v cursorx) s :=
  ⟨window.width,window.height,window.text,window.cursory,window.color⟩

theorem ascii_extend : ∀ ch : Byte, ch.toNat < 0x80 → ch.signExtend 16 = ch.zeroExtend 16 := by
  decide

theorem Shows.print (shows : Shows v s) (sound : s.Sound) (cell : Cell) : ∃ buffer,
    storeCell v.handle v.buffer (v.handle.cursory*v.handle.width+v.handle.cursorx) cell = some buffer ∧
      Shows {v with buffer := buffer} (s.print cell) := by
  obtain ⟨⟨width,height,text,cursory,color⟩,cursorx⟩ := shows
  have column := sound.column
  have row : v.handle.cursory = ((s.row-s.scrolled : Nat) : Int) ∧ s.row-s.scrolled < 25 ∧ s.scrolled ≤ s.row := by
    unfold Screen.scrolled at cursory ⊢
    omega
  obtain ⟨row,small,under⟩ := row
  have place : v.handle.cursory*v.handle.width+v.handle.cursorx = (((s.row-s.scrolled)*80+s.col : Nat) : Int) := by
    rw [row,cursorx,width]
    push_cast
    ring
  have inside : v.handle.inside (v.handle.cursory*v.handle.width+v.handle.cursorx) := by
    rw [place]
    unfold TtyHandle.inside
    rw [width,height]
    omega
  refine ⟨_,if_pos inside,⟨⟨width,height,?_,cursory,color⟩,cursorx⟩⟩
  intro y low x left
  show Function.update v.buffer _ cell (y*80+x) = if s.scrolled+y = s.row ∧ x = s.col then cell else s.cells (s.scrolled+y) x
  rw [place,Int.toNat_natCast,Function.update_apply,text y low x left]
  by_cases here : s.scrolled+y = s.row ∧ x = s.col
  · rw [if_pos here,if_pos (by omega)]
  · rw [if_neg here,if_neg (by omega)]

theorem newline_shows (shows : Shows v s) (sound : s.Sound) :
    ∃ next, perform v (.putch newline) = some next ∧ Shows next (s.apply (.putch newline)) := by
  have jump : (moved v (v.handle.width-1)).handle.cursorx+1 = (80 : Nat) := by
    show (v.handle.width : Int)-1+1 = (80 : Nat)
    rw [shows.width]
    omega
  exact advance_goto (shows.toWindow.moved _) sound jump (Nat.le_refl _)

theorem tab_shows (shows : Shows v s) (sound : s.Sound) :
    ∃ next, perform v (.putch tab) = some next ∧ Shows next (s.apply (.putch tab)) := by
  have column := sound.column
  have jump : (moved v (v.handle.cursorx+(8-v.handle.cursorx.tmod 8)-1)).handle.cursorx+1 = ((s.col/8*8+8 : Nat) : Int) := by
    show v.handle.cursorx+(8-v.handle.cursorx.tmod 8)-1+1 = ((s.col/8*8+8 : Nat) : Int)
    rw [shows.cursorx,Int.tmod_eq_emod_of_nonneg (by omega)]
    omega
  exact advance_goto (shows.toWindow.moved _) sound jump (by omega)

theorem char_shows (shows : Shows v s) (sound : s.Sound) (ascii : ch.toNat < 0x80)
    (plain : ch ≠ newline ∧ ch ≠ carriageReturn ∧ ch ≠ backspaceChar ∧ ch ≠ tab) :
    ∃ next, perform v (.putch ch) = some next ∧ Shows next (s.apply (.putch ch)) := by
  obtain ⟨one,two,three,four⟩ := plain
  have cell : coloredChar ch v.handle.color = ch.zeroExtend 16 ||| (s.color.zeroExtend 16 <<< 8) := by
    rw [coloredChar,ascii_extend ch ascii,shows.color]
  have applied : s.apply (.putch ch) = (s.print (coloredChar ch v.handle.color)).goto (s.col+1) := by
    rw [Screen.apply,if_neg one,if_neg two,if_neg four,cell]
  obtain ⟨buffer,stored,printed⟩ := shows.print sound (coloredChar ch v.handle.color)
  have put : perform v (.putch ch) = advance {v with buffer := buffer} := by
    rw [perform,ttyPutch,if_neg one,if_neg two,if_neg three,if_neg four,stored,Option.bind_some]
  rw [put,applied]
  refine advance_goto printed.toWindow (sound.print _) ?_ sound.column
  rw [printed.cursorx]
  rfl

theorem perform_shows (shows : Shows v s) (sound : s.Sound) (legal : c.Legal) (other : c ≠ .putch carriageReturn) :
    ∃ next, perform v c = some next ∧ Shows next (s.apply c) := by
  cases c with
  | setcolors foreground background =>
    exact ⟨_,rfl,⟨⟨shows.width,shows.height,shows.text,shows.cursory,rfl⟩,shows.cursorx⟩⟩
  | putch ch =>
    by_cases one : ch = newline
    · subst one
      exact newline_shows shows sound
    · by_cases two : ch = tab
      · subst two
        exact tab_shows shows sound
      · exact char_shows shows sound legal.1 ⟨one,fun same => other (by rw [same]),legal.2,two⟩

-- The increment is meant for a cursor that was set one short; here it was not.
theorem return_off_by_one (shows : Shows v s) (sound : s.Sound) (ran : perform v (.putch carriageReturn) = some next) :
    ¬ Shows next (s.apply (.putch carriageReturn)) := by
  intro after
  have jump : (moved v 0).handle.cursorx+1 = (1 : Nat) := rfl
  obtain ⟨other,went,behind⟩ := advance_goto (shows.toWindow.moved 0) sound jump (by omega)
  have same : next = other := Option.some.inj (ran.symm.trans went)
  rw [same] at after
  have cursor := behind.cursorx.symm.trans after.cursorx
  rw [show s.goto 1 = {s with col := 1} from rfl,show s.apply (.putch carriageReturn) = {s with col := 0} from rfl] at cursor
  cases cursor

theorem follows_iff (shows : Shows v s) (sound : s.Sound) (legal : ∀ c ∈ commands, c.Legal) :
    Follows v s commands ↔ .putch carriageReturn ∉ commands := by
  induction commands generalizing v s with
  | nil => simp [Follows,shows]
  | cons c rest ih =>
    obtain ⟨here,later⟩ := List.forall_mem_cons.mp legal
    rw [Follows,List.mem_cons,not_or]
    constructor
    · rintro ⟨_,next,ran,follows⟩
      have after : Shows next (s.apply c) := by
        cases rest with
        | nil => exact follows
        | cons _ _ => exact follows.1
      refine ⟨?_,(ih after (sound.apply c) later).mp follows⟩
      rintro rfl
      exact return_off_by_one shows sound ran after
    · rintro ⟨other,none⟩
      obtain ⟨next,ran,after⟩ := perform_shows shows sound here (Ne.symm other)
      exact ⟨shows,next,ran,(ih after (sound.apply c) later).mpr none⟩

theorem ttyInit_shows (v : Vga) (fresh : v.ttyInitialized = false) : Shows (ttyInit v) blankScreen := by
  unfold ttyInit archTtyInit
  rw [fresh]
  refine ⟨⟨rfl,rfl,?_,rfl,rfl⟩,rfl⟩
  intro y low x left
  exact if_pos (show y*80+x < 80*25 by omega)

theorem terminal_follows_iff (v : Vga) (fresh : v.ttyInitialized = false) (commands : List Command) (legal : ∀ c ∈ commands, c.Legal) :
    Follows (ttyInit v) blankScreen commands ↔ .putch carriageReturn ∉ commands :=
  follows_iff (ttyInit_shows v fresh) ⟨Nat.zero_lt_succ 79,fun _ _ _ => rfl⟩ legal

def offVga : Vga := ⟨false,⟨0,0,0,0,0⟩,fun _ => 0⟩

-- H, newline, tab, a change of colour, i.
def greeting : List Command := [.putch 0x48,.putch newline,.putch tab,.setcolors 7 1,.putch 0x69]

theorem terminal_follows_greeting : (∀ c ∈ greeting, c.Legal) ∧ Follows (ttyInit offVga) blankScreen greeting := by
  have legal : ∀ c ∈ greeting, c.Legal := by
    simp [greeting,Command.Legal,newline,tab,backspaceChar]
  exact ⟨legal,(terminal_follows_iff offVga rfl greeting legal).mpr (by decide)⟩

-- A carriage return on the blank screen leaves the cursor in column 1.
theorem return_misplaces_cursor : (∀ c ∈ [Command.putch carriageReturn], c.Legal) ∧
    (∃ next, perform (ttyInit offVga) (.putch carriageReturn) = some next ∧ next.handle.cursorx = 1 ∧
      ¬ Shows next (blankScreen.apply (.putch carriageReturn))) ∧
    ¬ Follows (ttyInit offVga) blankScreen [.putch carriageReturn] := by
  have wrong : ∀ next, perform (ttyInit offVga) (.putch carriageReturn) = some next →
      ¬ Shows next (blankScreen.apply (.putch carriageReturn)) :=
    fun next ran => return_off_by_one (ttyInit_shows offVga rfl) ⟨Nat.zero_lt_succ 79,fun _ _ _ => rfl⟩ ran
  have ran : perform (ttyInit offVga) (.putch carriageReturn) = some (moved (ttyInit offVga) 1) := rfl
  refine ⟨by simp [Command.Legal,carriageReturn,backspaceChar],⟨_,ran,rfl,wrong _ ran⟩,?_⟩
  rintro ⟨_,next,ran,follows⟩
  exact wrong next ran follows

end KaracaOS.Terminal
