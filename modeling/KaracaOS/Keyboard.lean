import KaracaOS.InterruptController
import KaracaOS.Scancodes
import KaracaOS.Terminal

namespace KaracaOS.Keyboard
open ByteMemory StepRuns Scancodes Terminal
open InterruptController (Kernel System IntHandler Lines Serves raise outb pic1Command pic2Command)

def ascii (ch : Char) : Byte := BitVec.ofNat 8 ch.toNat

-- The entries of keyboard.c; the others of the 256 are zero.
def keyboardKeyCodeToAsciiMap : List Byte := [
  0,0,ascii '1',ascii '2',ascii '3',ascii '4',ascii '5',ascii '6',ascii '7',ascii '8',ascii '9',ascii '0',ascii '-',ascii '=',backspaceChar,tab,
  ascii 'q',ascii 'w',ascii 'e',ascii 'r',ascii 't',ascii 'y',ascii 'u',ascii 'i',ascii 'o',ascii 'p',ascii '[',ascii ']',newline,0,ascii 'a',ascii 's',
  ascii 'd',ascii 'f',ascii 'g',ascii 'h',ascii 'j',ascii 'k',ascii 'l',ascii ';',0x27,0x60,0,0x5C,ascii 'z',ascii 'x',ascii 'c',ascii 'v',
  ascii 'b',ascii 'n',ascii 'm',ascii ',',ascii '.',ascii '/',0,ascii '*',0,ascii ' ',0,0,0,0,0,0,
  0,0,0,0,0,0,0,ascii '7',ascii '8',ascii '9',ascii '-',ascii '4',ascii '5',ascii '6',ascii '+',ascii '1',
  ascii '2',ascii '3',ascii '0',ascii '.',0,0,0,0,0,0,0,0,0,0,0,0,
  0,0,0,0,0,ascii '/',newline,0,0,0,0,0,0,0,0,0]

def asciiAt (place : Nat) : Option Byte := if place < 256 then some (keyboardKeyCodeToAsciiMap.getD place 0) else none

-- The character is looked at before the length is, also behind the last one.
def ttyPuts (str : Nat → Option Byte) : Nat → Nat → Vga → Option (Nat × Vga)
  | 0,place,v => (str place).map fun _ => (0,v)
  | length+1,place,v =>
    match str place with
    | none => none
    | some ch =>
      if ch = 0 then some (0,v)
      else (ttyPutch v ch).bind fun v => (ttyPuts str length (place+1) v).map fun (count,v) => (count+1,v)

def welcomemessage : List Byte := [
  ascii 'K',ascii 'a',ascii 'r',ascii 'a',ascii 'c',ascii 'a',ascii 'O',ascii 'S',ascii ' ',
  ascii 'v',ascii 'e',ascii 'r',ascii 's',ascii 'i',ascii 'o',ascii 'n',ascii ' ',ascii '0',ascii '.',ascii '0',ascii '.',ascii '1',newline]

def stringAt (text : List Byte) (place : Nat) : Option Byte := (text++[0])[place]?

-- kmain's terminal before the memory is set up.
def kmainTty (v : Vga) : Option Vga := (ttyPuts (stringAt welcomemessage) 30 0 (ttySetcolors (ttyInit v) 7 0)).map Prod.snd

def keyboardInterruptHandler (keyCode : Byte) (v : Vga) : Option Vga :=
  match asciiAt keyCode.toNat with
  | none => none
  | some ch => if ch ≠ 0 then (ttyPuts asciiAt 1 keyCode.toNat v).map Prod.snd else some v

-- What the keyboard has sent and port 0x60 has not given yet, and the terminal.
structure Console where
  sent : List Byte
  vga : Vga

-- `idle` is what the port gives once everything has been read.
def Console.port (idle : Nat → Byte) (c : Console) (i : Nat) : Byte := c.sent.getD i (idle i)

def archKeyboardInterruptHandler (idle : Nat → Byte) : IntHandler Console := fun intNo _ c =>
  if intNo = 33 then
    match scancodeResolveGetKeyCodeSet1 (c.port idle) with
    | none => none
    | some (keyCode,codes) => (keyboardInterruptHandler keyCode c.vga).map fun vga => ⟨c.sent.drop codes.length,vga⟩
  else some c

def archKeyboardInitialize (idle : Nat → Byte) (k : Kernel Console) : Kernel Console :=
  InterruptController.interruptsSethandler 33 (archKeyboardInterruptHandler idle) k

-- A key whose make code is one byte, pressed or let go.
structure Stroke where
  key : Key
  release : Bool
  short : key.scanCode.length = 1

def Stroke.bytes (s : Stroke) : List Byte := s.key.bytes s.release

-- What a stroke means to the one who types: letting go of a key means nothing.
def Stroke.text (s : Stroke) : Byte := if s.release then 0 else keyboardKeyCodeToAsciiMap.getD s.key.code.toNat 0

-- The character before the cursor is taken back; its colours stay.
def erased (s : Screen) : Screen :=
  {s with cells := fun row col => if row = s.row ∧ col = s.col-1 then s.cells row col &&& 0xFF00 else s.cells row col,col := s.col-1}

def typedOn (s : Screen) (stroke : Stroke) : Screen :=
  if stroke.text = 0 then s
  else if stroke.text = backspaceChar then erased s
  else s.apply (.putch stroke.text)

-- Every backspace finds the cursor behind the first column.
def Fits : Screen → List Stroke → Prop
  | _,[] => True
  | screen,stroke::rest => (stroke.text = backspaceChar → 0 < screen.col) ∧ Fits (typedOn screen stroke) rest

-- The machine with its keyboard, beside what was on the screen before and all
-- that has been typed since.
structure Machine where
  system : System Console
  greeted : Screen
  typed : List Stroke

def Machine.console (m : Machine) : Console := m.system.kernel.world

inductive Deed where
  | stroke (s : Stroke)
  | event (e : InterruptController.Event Console)

def Machine.put (m : Machine) (system : System Console) : Machine := {m with system := system}

def Machine.send (m : Machine) (s : Stroke) : Machine :=
  {m with
    system := {m.system with kernel := {m.system.kernel with world := ⟨m.console.sent++s.bytes,m.console.vga⟩}}
    typed := m.typed++[s]}

-- The keyboard raises line 1 whenever a byte comes to stand first at the port.
def Machine.asks (m : Machine) : Option Machine := (InterruptController.step m.system (.raise 1)).map m.put

def step (m : Machine) : Deed → Option Machine
  | .stroke s => if m.console.sent = [] then (m.send s).asks else some (m.send s)
  | .event .interrupt =>
    (InterruptController.step m.system .interrupt).bind fun system =>
      if system.dispatched.head? = some 33 ∧ 2 ≤ m.console.sent.length then (m.put system).asks else some (m.put system)
  | .event e => (InterruptController.step m.system e).map m.put

-- A handler that has nothing to do with keyboard and screen.
def Quiet (handler : IntHandler Console) : Prop := ∀ intNo errCode c next, handler intNo errCode c = some next → next = c

-- Line 1 is the keyboard's alone, and so is its gate.
def Admitted (m : Machine) : Deed → Prop
  | .stroke s => s.text = backspaceChar → 0 < (m.typed.foldl typedOn m.greeted).col
  | .event (.raise line) => line ≠ 1
  | .event (.sethandler gate handler) => gate ≠ 33 ∧ Quiet handler
  | .event _ => True

structure Started (idle : Nat → Byte) (m : Machine) : Prop where
  kernel : ∃ syscallHandler before, m.system.kernel = archKeyboardInitialize idle (InterruptController.interruptsInit syscallHandler before)
  lines : m.system.lines = InterruptController.bootLines
  sent : m.console.sent = []
  typed : m.typed = []
  shows : Shows m.console.vga m.greeted
  sound : m.greeted.Sound

-- The strokes fall into those on the screen and those still at the port.
structure Settled (idle : Nat → Byte) (handled waiting : List Stroke) (m : Machine) : Prop where
  serves : Serves m.system.kernel.pics m.system.lines
  keyboard : m.system.kernel.intHandlers 33 = some (archKeyboardInterruptHandler idle)
  others : ∀ gate handler, 31 < gate ∧ gate < 48 → gate ≠ 33 → m.system.kernel.intHandlers gate = some handler → Quiet handler
  typed : m.typed = handled++waiting
  sent : m.console.sent = waiting.flatMap Stroke.bytes
  shows : Shows m.console.vga (handled.foldl typedOn m.greeted)
  sound : (handled.foldl typedOn m.greeted).Sound
  fits : Fits (handled.foldl typedOn m.greeted) waiting

structure Typing (idle : Nat → Byte) (handled waiting : List Stroke) (m : Machine) : Prop extends Settled idle handled waiting m where
  asked : m.system.lines.waiting 33 = !waiting.isEmpty

variable {idle : Nat → Byte} {m : Machine} {v : Vga} {s : Screen} {k : Kernel Console} {handled waiting rest : List Stroke} {stroke : Stroke}

theorem Stroke.bytes_length (stroke : Stroke) : stroke.bytes.length = 1 := by
  obtain ⟨key,release,short⟩ := stroke
  cases release with
  | true => simp [Stroke.bytes,Key.bytes,short]
  | false => exact short

theorem sent_length (waiting : List Stroke) : (waiting.flatMap Stroke.bytes).length = waiting.length := by
  simp [List.length_flatMap,Stroke.bytes_length]

theorem sent_empty (waiting : List Stroke) : waiting.flatMap Stroke.bytes = [] ↔ waiting = [] := by
  rw [← List.length_eq_zero_iff,sent_length,List.length_eq_zero_iff]

theorem asciiAt_byte (keyCode : Byte) : asciiAt keyCode.toNat = some (keyboardKeyCodeToAsciiMap.getD keyCode.toNat 0) := if_pos keyCode.isLt

theorem asciiAt_release (code : Byte) : asciiAt (code ||| 0x80).toNat = some 0 := by
  have behind : 128 ≤ (code ||| 0x80).toNat := by
    rw [BitVec.toNat_or]
    exact Nat.right_le_or
  have few : keyboardKeyCodeToAsciiMap.length = 112 := rfl
  rw [asciiAt_byte,List.getD_eq_default _ _ (by omega)]

theorem asciiAt_stroke (stroke : Stroke) : asciiAt (stroke.key.keyCode stroke.release).toNat = some stroke.text := by
  obtain ⟨key,release,short⟩ := stroke
  cases release with
  | true => exact asciiAt_release key.code
  | false => exact asciiAt_byte key.code

theorem map_plain : ∀ ch ∈ keyboardKeyCodeToAsciiMap, ch.toNat < 0x80 ∧ ch ≠ carriageReturn := by
  have all : (keyboardKeyCodeToAsciiMap.all fun ch => decide (ch.toNat < 0x80) && !decide (ch = carriageReturn)) = true := rfl
  simpa using all

theorem text_plain (stroke : Stroke) : stroke.text.toNat < 0x80 ∧ stroke.text ≠ carriageReturn := by
  unfold Stroke.text
  split
  · decide
  · rw [List.getD_eq_getElem?_getD]
    cases entry : keyboardKeyCodeToAsciiMap[stroke.key.code.toNat]? with
    | none => exact ⟨by decide,by decide⟩
    | some ch => exact map_plain ch (List.mem_of_getElem? entry)

theorem asciiAt_next (here : asciiAt place = some ch) (visible : ch ≠ 0) : ∃ after, asciiAt (place+1) = some after := by
  unfold asciiAt at here ⊢
  split at here
  · by_cases last : place = 255
    · subst last
      exact absurd (Option.some.inj here).symm visible
    · exact ⟨_,if_pos (by omega)⟩
  · cases here

theorem ttyPuts_one (here : asciiAt place = some ch) (visible : ch ≠ 0) : ttyPuts asciiAt 1 place v = (ttyPutch v ch).map fun v => (1,v) := by
  obtain ⟨after,next⟩ := asciiAt_next here visible
  simp only [ttyPuts,here,if_neg visible,next,Option.map_some]
  cases ttyPutch v ch <;> rfl

theorem ttyPuts_shows (shows : Shows v s) (sound : s.Sound) (plain : ∀ ch ∈ text, ch ≠ 0 ∧ (Command.putch ch).Legal ∧ ch ≠ carriageReturn)
    (there : ∀ i, str (place+i) = stringAt text i) (fits : text.length ≤ length) :
    ∃ next, ttyPuts str length place v = some (text.length,next) ∧ Shows next (text.foldl (fun s ch => s.apply (.putch ch)) s) := by
  induction text generalizing v s place length with
  | nil =>
    have ends : str place = some 0 := there 0
    exact ⟨v,by cases length <;> simp [ttyPuts,ends],shows⟩
  | cons ch rest ih =>
    obtain ⟨⟨visible,legal,other⟩,others⟩ := List.forall_mem_cons.mp plain
    obtain ⟨length,rfl⟩ : ∃ less, length = less+1 := ⟨length-1,by simp at fits; omega⟩
    obtain ⟨middle,put,after⟩ := perform_shows shows sound legal (fun same => other (Command.putch.inj same))
    have put : ttyPutch v ch = some middle := put
    have here : str place = some ch := there 0
    have later : ∀ i, str (place+1+i) = stringAt rest i := by
      intro i
      rw [Nat.add_right_comm]
      exact there (i+1)
    obtain ⟨next,ran,done⟩ := ih after (sound.apply _) others later (by simpa using fits)
    exact ⟨next,by simp only [ttyPuts,here,if_neg visible,put,Option.bind_some,ran,Option.map_some]; rfl,done⟩

def greeting : Screen := welcomemessage.foldl (fun s ch => s.apply (.putch ch)) (blankScreen.apply (.setcolors 7 0))

theorem putchs_sound (sound : s.Sound) (text : List Byte) : (text.foldl (fun s ch => s.apply (.putch ch)) s).Sound := by
  induction text generalizing s with
  | nil => exact sound
  | cons ch rest ih => exact ih (sound.apply _)

theorem kmainTty_shows (fresh : v.ttyInitialized = false) : ∃ next, kmainTty v = some next ∧ Shows next greeting ∧ greeting.Sound := by
  have blank : blankScreen.Sound := ⟨by decide,fun _ _ _ => rfl⟩
  have plain : ∀ ch ∈ welcomemessage, ch ≠ 0 ∧ (Command.putch ch).Legal ∧ ch ≠ carriageReturn := by
    have all : (welcomemessage.all fun ch => !decide (ch = 0) && decide (ch.toNat < 0x80 ∧ ch ≠ backspaceChar) && !decide (ch = carriageReturn)) =
        true := rfl
    simpa [Command.Legal,and_assoc] using all
  obtain ⟨middle,ran,shows⟩ := perform_shows (c := .setcolors 7 0) (ttyInit_shows v fresh) blank trivial Command.noConfusion
  cases Option.some.inj ran
  have there : ∀ i, stringAt welcomemessage (0+i) = stringAt welcomemessage i := by simp
  obtain ⟨next,put,shown⟩ := ttyPuts_shows shows (blank.apply _) plain there (show welcomemessage.length ≤ 30 by decide)
  exact ⟨next,by rw [kmainTty,put]; rfl,shown,putchs_sound (blank.apply _) _⟩

theorem Screen.Sound.erased (sound : s.Sound) : (erased s).Sound := by
  refine ⟨Nat.lt_of_le_of_lt (Nat.sub_le _ _) sound.column,?_⟩
  intro row below col
  have lower : row ≠ s.row := Nat.ne_of_gt below
  simpa [Keyboard.erased,lower] using sound.below row below col

theorem typedOn_sound (sound : s.Sound) (stroke : Stroke) : (typedOn s stroke).Sound := by
  unfold typedOn
  split
  · exact sound
  · split
    · exact Screen.Sound.erased sound
    · exact sound.apply _

theorem backspace_shows (shows : Shows v s) (sound : s.Sound) (room : 0 < s.col) :
    ∃ next, ttyPutch v backspaceChar = some next ∧ Shows next (erased s) := by
  obtain ⟨⟨width,height,text,cursory,color⟩,cursorx⟩ := shows
  have column := sound.column
  have visible : s.row-s.scrolled < 25 ∧ s.scrolled ≤ s.row := by
    unfold Screen.scrolled
    omega
  have place : v.handle.cursory*v.handle.width+v.handle.cursorx-1 = (((s.row-s.scrolled)*80+(s.col-1) : Nat) : Int) := by
    rw [width,cursorx]
    push_cast [Nat.cast_sub visible.2,Nat.cast_sub room]
    rw [← cursory]
    ring
  have inside : v.handle.inside (v.handle.cursory*v.handle.width+v.handle.cursorx-1) := by
    rw [place]
    unfold TtyHandle.inside
    rw [width,height]
    omega
  have cell : v.buffer ((s.row-s.scrolled)*80+(s.col-1)) = s.cells s.row (s.col-1) := by
    rw [text _ visible.1 _ (by omega),Nat.add_sub_cancel' visible.2]
  have put : ttyPutch v backspaceChar = backspace v := rfl
  have stays : ¬ v.handle.cursorx-1 < 0 := by omega
  rw [put,backspace]
  simp only [loadCell,if_pos inside,if_neg stays]
  rw [place,Int.toNat_natCast,cell]
  refine ⟨_,rfl,⟨width,height,?_,cursory,color⟩,?_⟩
  · intro y low x left
    show Function.update v.buffer _ _ (y*80+x) = if s.scrolled+y = s.row ∧ x = s.col-1 then s.cells (s.scrolled+y) x &&& 0xFF00 else s.cells (s.scrolled+y) x
    rw [Function.update_apply,text y low x left]
    by_cases here : s.scrolled+y = s.row ∧ x = s.col-1
    · rw [if_pos here,if_pos (by omega),here.1,here.2]
    · rw [if_neg here,if_neg (by omega)]
  · show v.handle.cursorx-1 = ((s.col-1 : Nat) : Int)
    omega

theorem keyboardInterruptHandler_shows (shows : Shows v s) (sound : s.Sound) (room : stroke.text = backspaceChar → 0 < s.col) :
    ∃ next, keyboardInterruptHandler (stroke.key.keyCode stroke.release) v = some next ∧ Shows next (typedOn s stroke) := by
  have here := asciiAt_stroke stroke
  unfold keyboardInterruptHandler typedOn
  rw [here]
  by_cases silent : stroke.text = 0
  · exact ⟨v,by simp [silent],by simpa [silent] using shows⟩
  · simp only [silent,ne_eq,not_false_eq_true,if_true,if_false,ttyPuts_one here silent,Option.map_map]
    by_cases back : stroke.text = backspaceChar
    · obtain ⟨next,put,after⟩ := backspace_shows shows sound (room back)
      rw [← back] at put
      exact ⟨next,by simp [put],by simpa [back] using after⟩
    · obtain ⟨low,other⟩ := text_plain stroke
      obtain ⟨next,put,after⟩ := perform_shows (c := .putch stroke.text) shows sound ⟨low,back⟩ (fun same => other (Command.putch.inj same))
      have put : ttyPutch v stroke.text = some next := put
      exact ⟨next,by simp [put],by simpa [back] using after⟩

theorem archKeyboardInterruptHandler_types (shows : Shows v s) (sound : s.Sound) (room : stroke.text = backspaceChar → 0 < s.col)
    (errCode : BitVec 32) (more : List Byte) :
    ∃ next, archKeyboardInterruptHandler idle 33 errCode ⟨stroke.bytes++more,v⟩ = some ⟨more,next⟩ ∧ Shows next (typedOn s stroke) := by
  have delivers : Delivers (Console.port idle ⟨stroke.bytes++more,v⟩) stroke.bytes := by
    intro i inside
    simp [Console.port,List.getElem?_append_left inside,List.getElem?_eq_getElem inside]
  have decoded := getKeyCode_local (one_byte_decoded stroke.key stroke.release stroke.short) delivers
  obtain ⟨next,handled,after⟩ := keyboardInterruptHandler_shows shows sound room
  refine ⟨next,?_,after⟩
  have read : (stroke.bytes++more).drop stroke.bytes.length = more := List.drop_left
  have read : (stroke.bytes++more).drop (stroke.key.bytes stroke.release).length = more := read
  simp [archKeyboardInterruptHandler,decoded,handled,read]

theorem fits_append (screen : Screen) (waiting : List Stroke) (stroke : Stroke) :
    Fits screen (waiting++[stroke]) ↔ Fits screen waiting ∧ (stroke.text = backspaceChar → 0 < (waiting.foldl typedOn screen).col) := by
  induction waiting generalizing screen with
  | nil => simp [Fits]
  | cons first rest ih => simp [Fits,ih,and_assoc]

theorem archInterruptHandler_runs (irq : 31 < vector ∧ vector < 48) (errCode : BitVec 32) (k : Kernel Console) :
    InterruptController.archInterruptHandler vector errCode k =
      ((k.intHandlers vector).bind fun handler => handler vector 0 k.world).map fun world =>
        ⟨outb pic1Command 0x20#8 (if 39 < vector then outb pic2Command 0x20#8 k.pics else k.pics),k.intHandlers,world⟩ := by
  simp only [InterruptController.archInterruptHandler,if_pos irq,InterruptController.archIrqGenericHandler,InterruptController.interruptsGenericHandler]
  cases k.intHandlers vector with
  | none => rfl
  | some handler =>
    simp only [Option.bind_some,Option.map_map]
    rfl

theorem interrupt_runs {system next : System Console} (serves : Serves system.kernel.pics system.lines)
    (taken : InterruptController.step system .interrupt = some next) :
    ∃ vector handler, system.lines.next = some vector ∧ 31 < vector ∧ vector < 48 ∧ system.kernel.intHandlers vector = some handler ∧
      handler vector 0 system.kernel.world = some next.kernel.world ∧ next.kernel.intHandlers = system.kernel.intHandlers := by
  simp only [InterruptController.step] at taken
  cases got : InterruptController.acknowledge system.kernel.pics with
  | none => simp [got] at taken
  | some answer =>
    obtain ⟨vector,pics⟩ := answer
    obtain ⟨following,low,high,_⟩ := serves.taken got
    rw [got] at taken
    obtain ⟨kernel,ran,rfl⟩ := Option.map_eq_some_iff.mp taken
    rw [archInterruptHandler_runs ⟨low,high⟩] at ran
    obtain ⟨world,worked,rfl⟩ := Option.map_eq_some_iff.mp ran
    obtain ⟨handler,installed,worked⟩ := Option.bind_eq_some_iff.mp worked
    exact ⟨vector,handler,following,low,high,installed,worked,rfl⟩

theorem Settled.asks (settled : Settled idle handled waiting m) (some_ : waiting ≠ []) :
    ∃ next, m.asks = some next ∧ Typing idle handled waiting next ∧ next.system.lines.enabled = m.system.lines.enabled ∧
      next.typed = m.typed ∧ next.greeted = m.greeted := by
  obtain ⟨serves,keyboard,others,typed,sent,shows,sound,fits⟩ := settled
  have raised := serves.raised (show 1 < 16 by decide) (show 1 ≠ 2 by decide)
  have asks : m.asks = some (m.put
      {m.system with kernel := {m.system.kernel with pics := raise 1 m.system.kernel.pics},lines := m.system.lines.raised 1}) := by
    simp [Machine.asks,InterruptController.step]
  refine ⟨_,asks,⟨⟨raised,keyboard,others,typed,sent,shows,sound,fits⟩,?_⟩,rfl,rfl,rfl⟩
  simp [Machine.put,Lines.raised,some_]

theorem Typing.stroked (typing : Typing idle handled waiting m) (room : stroke.text = backspaceChar → 0 < (m.typed.foldl typedOn m.greeted).col)
    (taken : step m (.stroke stroke) = some next) : Typing idle handled (waiting++[stroke]) next := by
  obtain ⟨⟨serves,keyboard,others,typed,sent,shows,sound,fits⟩,asked⟩ := typing
  rw [typed,List.foldl_append] at room
  have settled : Settled idle handled (waiting++[stroke]) (m.send stroke) := by
    refine ⟨serves,keyboard,others,?_,?_,shows,sound,(fits_append _ waiting stroke).mpr ⟨fits,room⟩⟩
    · simp [Machine.send,typed]
    · simp [Machine.send,Machine.console,← sent]
  simp only [step] at taken
  split at taken
  · obtain ⟨after,asks,typing,_⟩ := settled.asks (by simp)
    cases asks.symm.trans taken
    exact typing
  · rename_i busy
    rw [sent,sent_empty] at busy
    cases Option.some.inj taken
    refine ⟨settled,?_⟩
    obtain ⟨first,more,rfl⟩ := List.exists_cons_of_ne_nil busy
    exact asked

theorem Typing.served (typing : Typing idle handled (stroke::rest) m) (following : m.system.lines.next = some 33)
    (taken : InterruptController.step m.system .interrupt = some system) :
    ∃ next, step m (.event .interrupt) = some next ∧ Typing idle (handled++[stroke]) rest next ∧
      next.system.lines.enabled = m.system.lines.enabled ∧ next.typed = m.typed ∧ next.greeted = m.greeted := by
  obtain ⟨⟨serves,keyboard,others,typed,sent,shows,sound,fits⟩,asked⟩ := typing
  obtain ⟨vector,same,lines,dispatched,serves'⟩ := InterruptController.interrupt_cases serves taken
  cases following.symm.trans same
  obtain ⟨vector,handler,same,_,_,installed,ran,handlers⟩ := interrupt_runs serves taken
  cases following.symm.trans same
  cases keyboard.symm.trans installed
  obtain ⟨vga,typed_,after⟩ := archKeyboardInterruptHandler_types shows sound fits.1 0 (rest.flatMap Stroke.bytes)
  have console : m.system.kernel.world = ⟨stroke.bytes++rest.flatMap Stroke.bytes,m.console.vga⟩ := by
    rw [← List.flatMap_cons,← sent]
    rfl
  rw [console,typed_] at ran
  have world : system.kernel.world = ⟨rest.flatMap Stroke.bytes,vga⟩ := (Option.some.inj ran).symm
  have settled : Settled idle (handled++[stroke]) rest (m.put system) := by
    refine ⟨serves',by rw [Machine.put,handlers,keyboard],?_,?_,?_,?_,?_,?_⟩
    · intro gate handler irq other installed
      exact others gate handler irq other (by rwa [Machine.put,handlers] at installed)
    · simp [Machine.put,typed]
    · simp [Machine.put,Machine.console,world]
    · simpa [Machine.put,Machine.console,world] using after
    · simpa [Machine.put] using typedOn_sound sound stroke
    · simpa [Machine.put] using fits.2
  have head : system.dispatched.head? = some 33 := by simp [dispatched]
  have count : m.console.sent.length = rest.length+1 := by rw [sent,sent_length,List.length_cons]
  simp only [step,taken,Option.bind_some,head,count,true_and]
  cases rest with
  | nil =>
    refine ⟨_,rfl,⟨settled,?_⟩,by simp [Machine.put,lines,Lines.served],rfl,rfl⟩
    simp [Machine.put,lines,Lines.served]
  | cons first others =>
    obtain ⟨next,asks,typing,enabled,same⟩ := settled.asks (List.cons_ne_nil _ _)
    refine ⟨next,by simp [asks],typing,?_,same⟩
    simpa [Machine.put,lines,Lines.served] using enabled

theorem Typing.kept (typing : Typing idle handled waiting m) {system : System Console} (serves : Serves system.kernel.pics system.lines)
    (handlers : system.kernel.intHandlers = m.system.kernel.intHandlers) (world : system.kernel.world = m.console)
    (asks : system.lines.waiting 33 = m.system.lines.waiting 33) : Typing idle handled waiting (m.put system) := by
  obtain ⟨⟨_,keyboard,others,typed,sent,shows,sound,fits⟩,asked⟩ := typing
  have console : (m.put system).console = m.console := world
  refine ⟨⟨serves,?_,?_,typed,?_,?_,sound,fits⟩,asks.trans asked⟩
  · rw [← keyboard,← handlers]
    rfl
  · rw [← handlers] at others
    exact others
  · rw [console,sent]
  · rw [console]
    exact shows

theorem Typing.passed (typing : Typing idle handled waiting m) (following : m.system.lines.next = some vector) (other : vector ≠ 33)
    (taken : step m (.event .interrupt) = some next) : Typing idle handled waiting next := by
  simp only [step] at taken
  obtain ⟨system,interrupted,taken⟩ := Option.bind_eq_some_iff.mp taken
  obtain ⟨vector,same,lines,dispatched,serves⟩ := InterruptController.interrupt_cases typing.serves interrupted
  cases following.symm.trans same
  obtain ⟨vector,handler,same,low,high,installed,ran,handlers⟩ := interrupt_runs typing.serves interrupted
  cases following.symm.trans same
  have world : system.kernel.world = m.console := typing.others vector handler ⟨low,high⟩ other installed _ _ _ _ ran
  have head : ¬ (system.dispatched.head? = some 33 ∧ 2 ≤ m.console.sent.length) := by simp [dispatched,other]
  rw [if_neg head] at taken
  cases Option.some.inj taken
  exact typing.kept serves handlers world (by simp [lines,Lines.served,other.symm])

theorem Typing.interrupted (typing : Typing idle handled waiting m) (taken : step m (.event .interrupt) = some next) :
    ∃ handled waiting, Typing idle handled waiting next := by
  obtain ⟨system,interrupted⟩ : ∃ system, InterruptController.step m.system .interrupt = some system := by
    simp only [step] at taken
    obtain ⟨system,interrupted,_⟩ := Option.bind_eq_some_iff.mp taken
    exact ⟨system,interrupted⟩
  obtain ⟨vector,following,_⟩ := InterruptController.interrupt_cases typing.serves interrupted
  by_cases own : vector = 33
  · subst own
    have ready := List.find?_some following
    simp only [Lines.ready,Bool.and_eq_true] at ready
    have asked := typing.asked
    rw [ready.1.1] at asked
    cases waiting with
    | nil => cases asked
    | cons stroke rest =>
      obtain ⟨after,served,typing,_⟩ := typing.served following interrupted
      cases served.symm.trans taken
      exact ⟨_,_,typing⟩
  · exact ⟨_,_,typing.passed following own taken⟩

theorem Typing.beside (typing : Typing idle handled waiting m) (kept : event ≠ .interrupt) (admitted : Admitted m (.event event))
    (taken : step m (.event event) = some next) : Typing idle handled waiting next := by
  have plain : step m (.event event) = (InterruptController.step m.system event).map m.put := by
    cases event with
    | interrupt => exact absurd rfl kept
    | _ => rfl
  rw [plain] at taken
  obtain ⟨system,ran,rfl⟩ := Option.map_eq_some_iff.mp taken
  have serves := typing.serves.step ran
  cases event with
  | raise line =>
    have other : 33 ≠ 32+line := by
      have apart : line ≠ 1 := admitted
      omega
    simp only [InterruptController.step] at ran
    split at ran
    · cases Option.some.inj ran
      exact typing.kept serves rfl rfl (by simp [Lines.raised,other])
    · cases ran
  | interrupt => exact absurd rfl kept
  | enablegate gate =>
    cases Option.some.inj ran
    refine typing.kept serves ?_ ?_ ?_
    · simp [InterruptController.archInterruptsEnablegate,apply_ite]
    · simp [InterruptController.archInterruptsEnablegate,apply_ite,Machine.console]
    · unfold Lines.enable
      split <;> rfl
  | disablegate gate =>
    cases Option.some.inj ran
    refine typing.kept serves ?_ ?_ ?_
    · simp [InterruptController.archInterruptsDisablegate,apply_ite]
    · simp [InterruptController.archInterruptsDisablegate,apply_ite,Machine.console]
    · unfold Lines.disable
      split <;> rfl
  | sethandler gate handler =>
    cases Option.some.inj ran
    obtain ⟨apart,quiet⟩ := admitted
    obtain ⟨⟨_,keyboard,others,typed,sent,shows,sound,fits⟩,asked⟩ := typing
    refine ⟨⟨serves,?_,?_,typed,sent,shows,sound,fits⟩,asked⟩
    · simpa [Machine.put,InterruptController.interruptsSethandler,Ne.symm apart] using keyboard
    · intro other installed irq behind found
      simp only [Machine.put,InterruptController.interruptsSethandler] at found
      by_cases same : other = gate
      · rw [same,Function.update_self] at found
        cases found
        exact quiet
      · rw [Function.update_of_ne same] at found
        exact others other installed irq behind found
  | clearhandler gate =>
    cases Option.some.inj ran
    exact typing.kept serves rfl rfl rfl

theorem Typing.moved (typing : Typing idle handled waiting m) (admitted : Admitted m deed) (taken : step m deed = some next) :
    ∃ handled waiting, Typing idle handled waiting next := by
  cases deed with
  | stroke s => exact ⟨_,_,typing.stroked admitted taken⟩
  | event event =>
    by_cases taking : event = .interrupt
    · subst taking
      exact typing.interrupted taken
    · exact ⟨_,_,typing.beside taking admitted taken⟩

theorem started_typing (start : Started idle m) : Typing idle [] [] m := by
  obtain ⟨⟨syscallHandler,before,kernel⟩,lines,sent,typed,shows,sound⟩ := start
  refine ⟨⟨?_,?_,?_,typed,sent,shows,sound,trivial⟩,?_⟩
  · rw [kernel,lines]
    exact InterruptController.initialized _
  · simp [kernel,archKeyboardInitialize,InterruptController.interruptsSethandler]
  · intro gate handler irq other installed
    have apart : gate ≠ 0x80 := by omega
    simp [kernel,archKeyboardInitialize,InterruptController.interruptsSethandler,InterruptController.interruptsInit,other,apart] at installed
  · simp [lines,InterruptController.bootLines]

theorem reached_typing (path : Reached (Started idle) step Admitted m) : ∃ handled waiting, Typing idle handled waiting m := by
  refine path.invariant (fun m => ∃ handled waiting, Typing idle handled waiting m) ?_ ?_
  · exact fun m start => ⟨[],[],started_typing start⟩
  · intro m deed next typed admitted taken
    obtain ⟨handled,waiting,typing⟩ := typed
    exact typing.moved admitted taken

-- No stroke is lost, shown twice or out of order, whatever else happens between
-- them; while some are at the port the keyboard's request stands.
theorem keystrokes_shown (path : Reached (Started idle) step Admitted m) :
    ∃ handled waiting, m.typed = handled++waiting ∧ m.console.sent = waiting.flatMap Stroke.bytes ∧
      Shows m.console.vga (handled.foldl typedOn m.greeted) ∧ m.system.lines.waiting 33 = !waiting.isEmpty := by
  obtain ⟨handled,waiting,typing⟩ := reached_typing path
  exact ⟨handled,waiting,typing.typed,typing.sent,typing.shows,typing.asked⟩

-- The machine as kmain leaves it with a terminal it has greeted on.
def booted (idle : Nat → Byte) (vga : Vga) : Machine :=
  ⟨⟨archKeyboardInitialize idle (InterruptController.interruptsInit (fun _ _ c => some c)
    ⟨⟨⟨0,false,0,0,0,0⟩,⟨0,false,0,0,0,0⟩⟩,fun _ => none,⟨[],vga⟩⟩),InterruptController.bootLines,[]⟩,greeting,[]⟩

theorem booted_started (ran : Shows vga greeting ∧ greeting.Sound) : Started idle (booted idle vga) :=
  ⟨⟨_,_,rfl⟩,rfl,rfl,rfl,ran.1,ran.2⟩

def hi : List Stroke := [⟨.keyH,false,rfl⟩,⟨.keyH,true,rfl⟩,⟨.keyI,false,rfl⟩]

theorem hi_reached : ∃ m, Reached (Started fun _ => 0) step Admitted m ∧ m.typed = hi ∧ m.greeted = greeting ∧
    m.console.sent = [0x23,0xA3,0x17] ∧ m.system.lines.enabled = InterruptController.bootLines.enabled := by
  obtain ⟨vga,_,shows⟩ := kmainTty_shows (v := offVga) rfl
  have letter : ∀ stroke ∈ hi, stroke.text ≠ backspaceChar := by decide
  have first : Reached (Started fun _ => 0) step Admitted (booted (fun _ => 0) vga) := .start (booted_started shows)
  have one := first.extend (.stroke ⟨.keyH,false,rfl⟩) (fun back => absurd back (letter _ (by simp [hi]))) rfl
  have two := one.extend (.stroke ⟨.keyH,true,rfl⟩) (fun back => absurd back (letter _ (by simp [hi]))) rfl
  have three := two.extend (.stroke ⟨.keyI,false,rfl⟩) (fun back => absurd back (letter _ (by simp [hi]))) rfl
  exact ⟨_,three,rfl,rfl,rfl,rfl⟩

theorem hi_shown : ∃ m : Machine, m.typed = hi ∧ ∃ handled waiting, m.typed = handled++waiting ∧ m.console.sent = waiting.flatMap Stroke.bytes ∧
    Shows m.console.vga (handled.foldl typedOn m.greeted) ∧ m.system.lines.waiting 33 = !waiting.isEmpty := by
  obtain ⟨m,path,typed,_⟩ := hi_reached
  exact ⟨m,typed,keystrokes_shown path⟩

theorem Typing.serves_next (typing : Typing idle handled (stroke::rest) m) (open_ : m.system.lines.enabled 33 = true)
    (timer : m.system.lines.enabled 32 = false) :
    m.system.lines.next = some 33 ∧ ∃ system, InterruptController.step m.system .interrupt = some system := by
  have following : m.system.lines.next = some 33 := by
    have order : InterruptController.priority = 32::33::InterruptController.priority.drop 2 := rfl
    have asked : m.system.lines.waiting 33 = true := typing.asked
    rw [Lines.next,order]
    simp [Lines.ready,open_,timer,asked]
  refine ⟨following,?_⟩
  have acknowledged := InterruptController.acknowledged typing.serves
  rw [following] at acknowledged
  obtain ⟨⟨vector,pics⟩,got,same⟩ := Option.map_eq_some_iff.mp acknowledged
  cases same
  obtain ⟨vga,ran,_⟩ := @archKeyboardInterruptHandler_types idle _ _ _ typing.shows typing.sound typing.fits.1 0 (rest.flatMap Stroke.bytes)
  have console : m.system.kernel.world = ⟨stroke.bytes++rest.flatMap Stroke.bytes,m.console.vga⟩ := by
    rw [← List.flatMap_cons,← typing.sent]
    rfl
  simp only [InterruptController.step,got]
  rw [archInterruptHandler_runs ⟨by decide,by decide⟩]
  simp only [typing.keyboard,Option.bind_some,console,ran,Option.map_some]
  exact ⟨_,rfl⟩

theorem Typing.drained (typing : Typing idle handled waiting m) (open_ : m.system.lines.enabled 33 = true)
    (timer : m.system.lines.enabled 32 = false) : ∃ last, follow Keyboard.step m (List.replicate waiting.length (Deed.event .interrupt)) = some last ∧
      Typing idle (handled++waiting) [] last ∧ last.typed = m.typed ∧ last.greeted = m.greeted := by
  induction waiting generalizing handled m with
  | nil => exact ⟨m,rfl,by simpa using typing,rfl,rfl⟩
  | cons stroke rest ih =>
    obtain ⟨following,system,interrupted⟩ := typing.serves_next open_ timer
    obtain ⟨next,taken,later,enabled,typed,greeted⟩ := typing.served following interrupted
    obtain ⟨last,ran,done,typed',greeted'⟩ := ih later (by rw [enabled,open_]) (by rw [enabled,timer])
    refine ⟨last,?_,by simpa using done,typed'.trans typed,greeted'.trans greeted⟩
    rw [List.length_cons,List.replicate_succ,follow,List.foldlM_cons,taken]
    exact ran

-- As many interrupts as there are bytes at the port bring all that was typed to the screen.
theorem keystrokes_drain (path : Reached (Started idle) step Admitted m) (open_ : m.system.lines.enabled 33 = true)
    (timer : m.system.lines.enabled 32 = false) :
    ∃ last, follow step m (List.replicate m.console.sent.length (Deed.event .interrupt)) = some last ∧
      last.console.sent = [] ∧ Shows last.console.vga (m.typed.foldl typedOn m.greeted) := by
  obtain ⟨handled,waiting,typing⟩ := reached_typing path
  obtain ⟨last,ran,done,typed,greeted⟩ := typing.drained open_ timer
  have count : m.console.sent.length = waiting.length := by rw [typing.sent,sent_length]
  refine ⟨last,by rwa [count],done.sent,?_⟩
  rw [typing.typed,← greeted]
  exact done.shows

-- "hi" below the welcome message, three bytes and three interrupts later.
theorem hi_drained : ∃ m last : Machine, m.typed = hi ∧ follow step m (List.replicate 3 (Deed.event .interrupt)) = some last ∧
    last.console.sent = [] ∧ Shows last.console.vga (hi.foldl typedOn greeting) := by
  obtain ⟨m,path,typed,greeted,sent,enabled⟩ := hi_reached
  obtain ⟨last,ran,empty,shows⟩ := keystrokes_drain path (by rw [enabled]; rfl) (by rw [enabled]; rfl)
  rw [typed,greeted] at shows
  exact ⟨m,last,typed,by rwa [sent] at ran,empty,shows⟩

end KaracaOS.Keyboard
