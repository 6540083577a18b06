import KaracaOS.ByteMemory

namespace KaracaOS.Scancodes
open ByteMemory

-- The keys of scancode_resolve.c with their KEYBOARD_KEYCODE values.
inductive Key where
  | esc | key1 | key2 | key3 | key4 | key5 | key6 | key7 | key8 | key9 | key0 | minus | equal | backspace | tab | keyQ | keyW
  | keyE | keyR | keyT | keyY | keyU | keyI | keyO | keyP | bracketOpen | bracketClose | enter | leftCtrl | keyA | keyS | keyD
  | keyF | keyG | keyH | keyJ | keyK | keyL | semicolon | quote | backtick | leftshift | backslash | keyZ | keyX | keyC | keyV
  | keyB | keyN | keyM | comma | dot | slash | rightShift | keypadTimes | leftAlt | space | capsLock | f1 | f2 | f3 | f4 | f5
  | f6 | f7 | f8 | f9 | f10 | numLock | scrollLock | keypad7 | keypad8 | keypad9 | keypadMinus | keypad4 | keypad5 | keypad6
  | keypadPlus | keypad1 | keypad2 | keypad3 | keypad0 | keypadDot | altSysrq | f11 | f12 | rightAlt | rightCtrl | insert
  | delete | home | end_ | pageUp | pageDown | left | up | down | right | numpadSlash | numpadEnter | printScreen | pause
  | ctrlBreak | leftMeta | rightMeta | menu | sleep | power | wake
  deriving DecidableEq, Repr

def Key.code : Key → Byte
  | .esc => 0x01 | .key1 => 0x02 | .key2 => 0x03 | .key3 => 0x04 | .key4 => 0x05 | .key5 => 0x06 | .key6 => 0x07 | .key7 => 0x08
  | .key8 => 0x09 | .key9 => 0x0A | .key0 => 0x0B | .minus => 0x0C | .equal => 0x0D | .backspace => 0x0E | .tab => 0x0F
  | .keyQ => 0x10 | .keyW => 0x11 | .keyE => 0x12 | .keyR => 0x13 | .keyT => 0x14 | .keyY => 0x15 | .keyU => 0x16 | .keyI => 0x17
  | .keyO => 0x18 | .keyP => 0x19 | .bracketOpen => 0x1A | .bracketClose => 0x1B | .enter => 0x1C | .leftCtrl => 0x1D
  | .keyA => 0x1E | .keyS => 0x1F | .keyD => 0x20 | .keyF => 0x21 | .keyG => 0x22 | .keyH => 0x23 | .keyJ => 0x24 | .keyK => 0x25
  | .keyL => 0x26 | .semicolon => 0x27 | .quote => 0x28 | .backtick => 0x29 | .leftshift => 0x2A | .backslash => 0x2B
  | .keyZ => 0x2C | .keyX => 0x2D | .keyC => 0x2E | .keyV => 0x2F | .keyB => 0x30 | .keyN => 0x31 | .keyM => 0x32
  | .comma => 0x33 | .dot => 0x34 | .slash => 0x35 | .rightShift => 0x36 | .keypadTimes => 0x37 | .leftAlt => 0x38
  | .space => 0x39 | .capsLock => 0x3A | .f1 => 0x3B | .f2 => 0x3C | .f3 => 0x3D | .f4 => 0x3E | .f5 => 0x3F | .f6 => 0x40
  | .f7 => 0x41 | .f8 => 0x42 | .f9 => 0x43 | .f10 => 0x44 | .numLock => 0x45 | .scrollLock => 0x46 | .keypad7 => 0x47
  | .keypad8 => 0x48 | .keypad9 => 0x49 | .keypadMinus => 0x4A | .keypad4 => 0x4B | .keypad5 => 0x4C | .keypad6 => 0x4D
  | .keypadPlus => 0x4E | .keypad1 => 0x4F | .keypad2 => 0x50 | .keypad3 => 0x51 | .keypad0 => 0x52 | .keypadDot => 0x53
  | .altSysrq => 0x54 | .f11 => 0x57 | .f12 => 0x58 | .rightAlt => 0x59 | .rightCtrl => 0x5A | .insert => 0x5B | .delete => 0x5C
  | .home => 0x5D | .end_ => 0x5E | .pageUp => 0x5F | .pageDown => 0x60 | .left => 0x61 | .up => 0x62 | .down => 0x63
  | .right => 0x64 | .numpadSlash => 0x65 | .numpadEnter => 0x66 | .printScreen => 0x67 | .pause => 0x68 | .ctrlBreak => 0x69
  | .leftMeta => 0x6A | .rightMeta => 0x6B | .menu => 0x6C | .sleep => 0x6D | .power => 0x6E | .wake => 0x6F

-- The make code of a key in scan code set 1.
def Key.scanCode : Key → List Byte
  | .esc => [0x01] | .key1 => [0x02] | .key2 => [0x03] | .key3 => [0x04] | .key4 => [0x05] | .key5 => [0x06] | .key6 => [0x07]
  | .key7 => [0x08] | .key8 => [0x09] | .key9 => [0x0A] | .key0 => [0x0B] | .minus => [0x0C] | .equal => [0x0D]
  | .backspace => [0x0E] | .tab => [0x0F] | .keyQ => [0x10] | .keyW => [0x11] | .keyE => [0x12] | .keyR => [0x13]
  | .keyT => [0x14] | .keyY => [0x15] | .keyU => [0x16] | .keyI => [0x17] | .keyO => [0x18] | .keyP => [0x19]
  | .bracketOpen => [0x1A] | .bracketClose => [0x1B] | .enter => [0x1C] | .leftCtrl => [0x1D] | .keyA => [0x1E] | .keyS => [0x1F]
  | .keyD => [0x20] | .keyF => [0x21] | .keyG => [0x22] | .keyH => [0x23] | .keyJ => [0x24] | .keyK => [0x25] | .keyL => [0x26]
  | .semicolon => [0x27] | .quote => [0x28] | .backtick => [0x29] | .leftshift => [0x2A] | .backslash => [0x2B] | .keyZ => [0x2C]
  | .keyX => [0x2D] | .keyC => [0x2E] | .keyV => [0x2F] | .keyB => [0x30] | .keyN => [0x31] | .keyM => [0x32] | .comma => [0x33]
  | .dot => [0x34] | .slash => [0x35] | .rightShift => [0x36] | .keypadTimes => [0x37] | .leftAlt => [0x38] | .space => [0x39]
  | .capsLock => [0x3A] | .f1 => [0x3B] | .f2 => [0x3C] | .f3 => [0x3D] | .f4 => [0x3E] | .f5 => [0x3F] | .f6 => [0x40]
  | .f7 => [0x41] | .f8 => [0x42] | .f9 => [0x43] | .f10 => [0x44] | .numLock => [0x45] | .scrollLock => [0x46]
  | .keypad7 => [0x47] | .keypad8 => [0x48] | .keypad9 => [0x49] | .keypadMinus => [0x4A] | .keypad4 => [0x4B]
  | .keypad5 => [0x4C] | .keypad6 => [0x4D] | .keypadPlus => [0x4E] | .keypad1 => [0x4F] | .keypad2 => [0x50]
  | .keypad3 => [0x51] | .keypad0 => [0x52] | .keypadDot => [0x53] | .altSysrq => [0x54] | .f11 => [0x57] | .f12 => [0x58]
  | .rightAlt => [0xE0,0x38] | .rightCtrl => [0xE0,0x1D] | .insert => [0xE0,0x52] | .delete => [0xE0,0x53] | .home => [0xE0,0x47]
  | .end_ => [0xE0,0x4F] | .pageUp => [0xE0,0x49] | .pageDown => [0xE0,0x51] | .left => [0xE0,0x4B] | .up => [0xE0,0x48]
  | .down => [0xE0,0x50] | .right => [0xE0,0x4D] | .numpadSlash => [0xE0,0x35] | .numpadEnter => [0xE0,0x1C]
  | .printScreen => [0xE0,0x37] | .pause => [0xE1,0x1D,0x45,0xE1,0x9D,0xC5] | .ctrlBreak => [0xE0,0x46]
  | .leftMeta => [0xE0,0x5B] | .rightMeta => [0xE0,0x5C] | .menu => [0xE0,0x5D] | .sleep => [0xE0,0x5F] | .power => [0xE0,0x5E]
  | .wake => [0xE0,0x63]

def scancodeSet1 : List (List Byte) := [
  [0x29,0x00,Key.code .backtick], [0x02,0x00,Key.code .key1], [0x03,0x00,Key.code .key2], [0x04,0x00,Key.code .key3],
  [0x05,0x00,Key.code .key4], [0x06,0x00,Key.code .key5], [0x07,0x00,Key.code .key6], [0x08,0x00,Key.code .key7],
  [0x09,0x00,Key.code .key8], [0x0A,0x00,Key.code .key9], [0x0B,0x00,Key.code .key0], [0x0C,0x00,Key.code .minus],
  [0x0D,0x00,Key.code .equal], [0x0E,0x00,Key.code .backspace], [0x0F,0x00,Key.code .tab], [0x10,0x00,Key.code .keyQ],
  [0x11,0x00,Key.code .keyW], [0x12,0x00,Key.code .keyE], [0x13,0x00,Key.code .keyR], [0x14,0x00,Key.code .keyT],
  [0x15,0x00,Key.code .keyY], [0x16,0x00,Key.code .keyU], [0x17,0x00,Key.code .keyI], [0x18,0x00,Key.code .keyO],
  [0x19,0x00,Key.code .keyP], [0x1A,0x00,Key.code .bracketOpen], [0x1B,0x00,Key.code .bracketClose],
  [0x2B,0x00,Key.code .backslash], [0x3A,0x00,Key.code .capsLock], [0x1E,0x00,Key.code .keyA], [0x1F,0x00,Key.code .keyS],
  [0x20,0x00,Key.code .keyD], [0x21,0x00,Key.code .keyF], [0x22,0x00,Key.code .keyG], [0x23,0x00,Key.code .keyH],
  [0x24,0x00,Key.code .keyJ], [0x25,0x00,Key.code .keyK], [0x26,0x00,Key.code .keyL], [0x27,0x00,Key.code .semicolon],
  [0x28,0x00,Key.code .quote], [0x1C,0x00,Key.code .enter], [0x2A,0x00,Key.code .leftshift], [0x2C,0x00,Key.code .keyZ],
  [0x2D,0x00,Key.code .keyX], [0x2E,0x00,Key.code .keyC], [0x2F,0x00,Key.code .keyV], [0x30,0x00,Key.code .keyB],
  [0x31,0x00,Key.code .keyN], [0x32,0x00,Key.code .keyM], [0x33,0x00,Key.code .comma], [0x34,0x00,Key.code .dot],
  [0x35,0x00,Key.code .slash], [0x36,0x00,Key.code .rightShift], [0x1D,0x00,Key.code .leftCtrl], [0x38,0x00,Key.code .leftAlt],
  [0x39,0x00,Key.code .space], [0xE0,0x38,0x00,Key.code .rightAlt], [0xE0,0x1D,0x00,Key.code .rightCtrl],
  [0xE0,0x52,0x00,Key.code .insert], [0xE0,0x53,0x00,Key.code .delete], [0xE0,0x47,0x00,Key.code .home],
  [0xE0,0x4F,0x00,Key.code .end_], [0xE0,0x49,0x00,Key.code .pageUp], [0xE0,0x51,0x00,Key.code .pageDown],
  [0xE0,0x4B,0x00,Key.code .left], [0xE0,0x48,0x00,Key.code .up], [0xE0,0x50,0x00,Key.code .down],
  [0xE0,0x4D,0x00,Key.code .right], [0x45,0x00,Key.code .numLock], [0x47,0x00,Key.code .keypad7], [0x4B,0x00,Key.code .keypad4],
  [0x4F,0x00,Key.code .keypad1], [0xE0,0x35,0x00,Key.code .numpadSlash], [0x48,0x00,Key.code .keypad8],
  [0x4C,0x00,Key.code .keypad5], [0x50,0x00,Key.code .keypad2], [0x52,0x00,Key.code .keypad0], [0x37,0x00,Key.code .keypadTimes],
  [0x49,0x00,Key.code .keypad9], [0x4D,0x00,Key.code .keypad6], [0x51,0x00,Key.code .keypad3], [0x53,0x00,Key.code .keypadDot],
  [0x4A,0x00,Key.code .keypadMinus], [0x4E,0x00,Key.code .keypadPlus], [0xE0,0x1C,0x00,Key.code .numpadEnter],
  [0x01,0x00,Key.code .esc], [0x3B,0x00,Key.code .f1], [0x3C,0x00,Key.code .f2], [0x3D,0x00,Key.code .f3],
  [0x3E,0x00,Key.code .f4], [0x3F,0x00,Key.code .f5], [0x40,0x00,Key.code .f6], [0x41,0x00,Key.code .f7],
  [0x42,0x00,Key.code .f8], [0x43,0x00,Key.code .f9], [0x44,0x00,Key.code .f10], [0x57,0x00,Key.code .f11],
  [0x58,0x00,Key.code .f12], [0xE0,0x37,Key.code .printScreen], [0x54,0x00,Key.code .altSysrq], [0x46,0x00,Key.code .scrollLock],
  [0xE1,0x1D,0x45,0xE1,0x9D,0xC5,0x00,Key.code .pause], [0xE0,0x46,0x00,Key.code .ctrlBreak],
  [0xE0,0x5B,0x00,Key.code .leftMeta], [0xE0,0x5C,0x00,Key.code .rightMeta], [0xE0,0x5D,0x00,Key.code .menu],
  [0xE0,0x5F,0x00,Key.code .sleep], [0xE0,0x5E,0x00,Key.code .power], [0xE0,0x63,0x00,Key.code .wake]]

def keycodeNone : Byte := 0x00

-- A row is 109 bytes wide, zero behind what is written down.
def column (row : List Byte) (j : Nat) : Byte := row.getD j 0

-- The while loop over one row. `codes` are the bytes read so far, codeArr up to
-- signalLength; codeArr has ten bytes, and none is an access behind it.
def matchRow (port : Nat → Byte) (row : List Byte) : Nat → Nat → Bool → List Byte → Option (Option Byte × List Byte)
  | 0,_,_,_ => none
  | fuel+1,j,release,codes =>
    if 10 ≤ j then none else
    let code := codes.getD j 0
    if column row j = code ∨ column row j ||| 0x80 = code then
      let release := if code = column row j ||| 0x80 then true else release
      if column row (j+1) = 0 then
        some (some (if release then column row (j+2) ||| 0x80 else column row (j+2)),codes)
      else if codes.length < 10 then matchRow port row fuel (j+1) release (codes++[port codes.length])
      else none
    else some (none,codes)

def matchRows (port : Nat → Byte) : List (List Byte) → List Byte → Option (Byte × List Byte)
  | [],codes => some (keycodeNone,codes)
  | row::rows,codes =>
    match matchRow port row 11 0 false codes with
    | none => none
    | some (some keyCode,codes) => some (keyCode,codes)
    | some (none,codes) => matchRows port rows codes

-- The key code and the bytes taken from port 0x60, which delivers `port 0`, `port 1` and so on.
def scancodeResolveGetKeyCodeSet1 (port : Nat → Byte) : Option (Byte × List Byte) := matchRows port scancodeSet1 [port 0]

-- Pressing or letting go of a key.
structure Event where
  key : Key
  release : Bool
  known : key ≠ .pause

def Key.bytes (key : Key) (release : Bool) : List Byte :=
  if release then key.scanCode.dropLast++[key.scanCode.getLastD 0 ||| 0x80] else key.scanCode

def Key.keyCode (key : Key) (release : Bool) : Byte := if release then key.code ||| 0x80 else key.code

def Event.bytes (e : Event) : List Byte := e.key.bytes e.release
def Event.keyCode (e : Event) : Byte := e.key.keyCode e.release

def Delivers (port : Nat → Byte) (bytes : List Byte) : Prop := ∀ i, (inside : i < bytes.length) → port i = bytes[i]

-- One call after the other, each on the bytes the earlier ones left.
def Decodes : (Nat → Byte) → List Event → Prop
  | _,[] => True
  | port,e::rest => scancodeResolveGetKeyCodeSet1 port = some (e.keyCode,e.bytes) ∧ Decodes (fun i => port (e.bytes.length+i)) rest

def Event.OneByte (e : Event) : Prop := e.key.scanCode.length = 1
def Event.Clean (e : Event) : Prop := e.OneByte ∨ (e.key = .rightAlt ∧ e.release = true)

theorem matchRow_reads (ran : matchRow port row fuel j release codes = some (answer,after)) : codes.length ≤ after.length := by
  induction fuel generalizing j release codes with
  | zero => cases ran
  | succ fuel ih =>
    rw [matchRow] at ran
    split at ran
    · cases ran
    · dsimp only at ran
      split at ran
      · split at ran
        · cases Option.some.inj ran
          exact Nat.le_refl _
        · split at ran
          · have more := ih ran
            rw [List.length_append,List.length_singleton] at more
            omega
          · cases ran
      · cases Option.some.inj ran
        exact Nat.le_refl _

theorem matchRows_reads (ran : matchRows port rows codes = some (keyCode,after)) : codes.length ≤ after.length := by
  induction rows generalizing codes with
  | nil =>
    cases Option.some.inj ran
    exact Nat.le_refl _
  | cons row rows ih =>
    rw [matchRows] at ran
    split at ran
    · cases ran
    · rename_i matched
      cases Option.some.inj ran
      exact matchRow_reads matched
    · rename_i missed
      exact Nat.le_trans (matchRow_reads missed) (ih ran)

theorem matchRow_local (ran : matchRow port row fuel j release codes = some (answer,after))
    (same : ∀ i < after.length, other i = port i) : matchRow other row fuel j release codes = some (answer,after) := by
  induction fuel generalizing j release codes with
  | zero => cases ran
  | succ fuel ih =>
    rw [matchRow] at ran ⊢
    by_cases behind : 10 ≤ j
    · rw [if_pos behind] at ran
      cases ran
    · rw [if_neg behind] at ran ⊢
      dsimp only at ran ⊢
      split at ran
      · rename_i hit
        rw [if_pos hit]
        split at ran
        · rename_i last
          rw [if_pos last]
          exact ran
        · rename_i inner
          rw [if_neg inner]
          split at ran
          · rename_i room
            rw [if_pos room]
            have read := matchRow_reads ran
            rw [List.length_append,List.length_singleton] at read
            rw [same codes.length (by omega)]
            exact ih ran
          · cases ran
      · rename_i miss
        rw [if_neg miss]
        exact ran

theorem matchRows_local (ran : matchRows port rows codes = some (keyCode,after))
    (same : ∀ i < after.length, other i = port i) : matchRows other rows codes = some (keyCode,after) := by
  induction rows generalizing codes with
  | nil => exact ran
  | cons row rows ih =>
    rw [matchRows] at ran ⊢
    split at ran
    · cases ran
    · rename_i matched
      cases Option.some.inj ran
      rw [matchRow_local matched same]
    · rename_i missed
      have more := matchRows_reads ran
      rw [matchRow_local missed (fun i less => same i (by omega))]
      exact ih ran

theorem getKeyCode_local (ran : scancodeResolveGetKeyCodeSet1 (fun i => bytes.getD i 0) = some (keyCode,bytes))
    (delivers : Delivers port bytes) : scancodeResolveGetKeyCodeSet1 port = some (keyCode,bytes) := by
  have same : ∀ i < bytes.length, port i = bytes.getD i 0 := by
    intro i inside
    rw [delivers i inside,List.getD_eq_getElem _ _ inside]
  have first := matchRows_reads ran
  unfold scancodeResolveGetKeyCodeSet1 at ran ⊢
  rw [same 0 first]
  exact matchRows_local ran same

theorem one_byte_decoded (key : Key) (release : Bool) (single : key.scanCode.length = 1) :
    scancodeResolveGetKeyCodeSet1 (fun i => (key.bytes release).getD i 0) = some (key.keyCode release,key.bytes release) := by
  cases release <;> cases key <;> first | decide +kernel | cases single

theorem right_alt_decoded (release : Bool) : scancodeResolveGetKeyCodeSet1 (fun i => (Key.rightAlt.bytes release).getD i 0) =
    some (Key.rightAlt.keyCode true,Key.rightAlt.bytes release) := by
  cases release <;> decide +kernel

theorem clean_decoded (e : Event) (clean : e.Clean) (delivers : Delivers port e.bytes) :
    scancodeResolveGetKeyCodeSet1 port = some (e.keyCode,e.bytes) := by
  refine getKeyCode_local ?_ delivers
  obtain ⟨key,release,known⟩ := e
  rcases clean with single | ⟨rfl,rfl⟩
  · exact one_byte_decoded key release single
  · exact right_alt_decoded true

theorem row_missed (other : ¬ (column row 0 = codes.getD 0 0 ∨ column row 0 ||| 0x80 = codes.getD 0 0)) :
    matchRow port row 11 0 false codes = some (none,codes) := by
  rw [matchRow,if_neg (by decide)]
  exact if_neg other

theorem matchRows_skip (rows rest : List (List Byte)) (others : ∀ row ∈ rows, column row 0 ≠ 0xE0 ∧ column row 0 ||| 0x80 ≠ 0xE0) :
    matchRows port (rows++rest) [0xE0] = matchRows port rest [0xE0] := by
  induction rows with
  | nil => rfl
  | cons row rows ih =>
    obtain ⟨one,two⟩ := others row List.mem_cons_self
    have missed : matchRow port row 11 0 false [0xE0] = some (none,[0xE0]) := row_missed (not_or.mpr ⟨one,two⟩)
    rw [List.cons_append,matchRows,missed]
    exact ih (fun row member => others row (List.mem_cons_of_mem _ member))

-- The second row with the prefix byte reads a third one, whatever the event was.
theorem prefixed_reads_on (first : port 0 = 0xE0) (other : port 1 ≠ 0x38 ∧ port 1 ≠ 0xB8)
    (ran : scancodeResolveGetKeyCodeSet1 port = some (keyCode,codes)) : 3 ≤ codes.length := by
  have table : scancodeSet1 = scancodeSet1.take 56++[0xE0,0x38,0x00,Key.code .rightAlt]::
      [0xE0,0x1D,0x00,Key.code .rightCtrl]::scancodeSet1.drop 58 := by rfl
  rw [scancodeResolveGetKeyCodeSet1,first,table,matchRows_skip _ _ (by decide)] at ran
  have alt : matchRow port [0xE0,0x38,0x00,Key.code .rightAlt] 11 0 false [0xE0] = some (none,[0xE0,port 1]) := by
    simp [matchRow,column]
    exact ⟨fun same => other.1 same.symm,fun same => other.2 same.symm⟩
  rw [matchRows,alt] at ran
  dsimp only at ran
  rw [matchRows] at ran
  have ctrl : matchRow port [0xE0,0x1D,0x00,Key.code .rightCtrl] 11 0 false [0xE0,port 1] =
      matchRow port [0xE0,0x1D,0x00,Key.code .rightCtrl] 10 1 true [0xE0,port 1,port 2] := by
    rw [matchRow]
    simp [column]
  rw [ctrl] at ran
  split at ran
  · cases ran
  · rename_i matched
    cases Option.some.inj ran
    exact matchRow_reads matched
  · rename_i missed
    exact Nat.le_trans (matchRow_reads missed) (matchRows_reads ran)

theorem prefixed_bytes (key : Key) (release : Bool) (known : key ≠ .pause) (longer : key.scanCode.length ≠ 1) (other : key ≠ .rightAlt) :
    ∃ code, key.bytes release = [0xE0,code] ∧ code ≠ 0x38 ∧ code ≠ 0xB8 := by
  cases release <;> cases key <;> first | exact ⟨_,rfl,by decide,by decide⟩ | exact absurd rfl longer | exact absurd rfl known | exact absurd rfl other

theorem decoded_clean (e : Event) (delivers : Delivers port e.bytes) (decoded : scancodeResolveGetKeyCodeSet1 port = some (e.keyCode,e.bytes)) :
    e.Clean := by
  obtain ⟨key,release,known⟩ := e
  by_cases single : key.scanCode.length = 1
  · exact .inl single
  · by_cases alt : key = .rightAlt
    · subst alt
      cases release with
      | true => exact .inr ⟨rfl,rfl⟩
      | false =>
        have answered := getKeyCode_local (right_alt_decoded false) delivers
        have wrong := (Prod.mk.inj (Option.some.inj (answered.symm.trans decoded))).1
        exact absurd wrong (show Key.rightAlt.keyCode true ≠ Key.rightAlt.keyCode false by decide)
    · obtain ⟨code,bytes,one,two⟩ := prefixed_bytes key release known single alt
      have bytes : Event.bytes ⟨key,release,known⟩ = [0xE0,code] := bytes
      rw [bytes] at delivers decoded
      have second : port 1 = code := delivers 1 (Nat.lt_succ_self 1)
      have reads := prefixed_reads_on (delivers 0 (Nat.zero_lt_succ 1)) (by rw [second]; exact ⟨one,two⟩) decoded
      exact absurd reads (Nat.not_succ_le_self 2)

theorem Delivers.left (delivers : Delivers port (bytes++rest)) : Delivers port bytes := by
  intro i inside
  rw [delivers i (by rw [List.length_append]; omega),List.getElem_append_left inside]

theorem Delivers.right (delivers : Delivers port (bytes++rest)) : Delivers (fun i => port (bytes.length+i)) rest := by
  intro i inside
  have later := delivers (bytes.length+i) (by rw [List.length_append]; omega)
  rw [List.getElem_append_right (Nat.le_add_right _ _)] at later
  simpa using later

-- The bytes behind the last event may be anything.
theorem events_decoded_iff (events : List Event) (port : Nat → Byte) (delivers : Delivers port (events.flatMap Event.bytes)) :
    Decodes port events ↔ ∀ e ∈ events, e.Clean := by
  induction events generalizing port with
  | nil => simp [Decodes]
  | cons e rest ih =>
    rw [List.flatMap_cons] at delivers
    rw [Decodes,ih _ delivers.right,List.forall_mem_cons]
    constructor
    · rintro ⟨decoded,later⟩
      exact ⟨decoded_clean e delivers.left decoded,later⟩
    · rintro ⟨clean,later⟩
      exact ⟨clean_decoded e clean delivers.left,later⟩

def press (key : Key) (known : key ≠ .pause) : Event := ⟨key,false,known⟩
def letGo (key : Key) (known : key ≠ .pause) : Event := ⟨key,true,known⟩

-- A typed and Right Alt let go.
theorem events_decoded_typed : Delivers (fun i => [0x1E,0x9E,0xE0,0xB8].getD i 0)
      ([press .keyA (by decide),letGo .keyA (by decide),letGo .rightAlt (by decide)].flatMap Event.bytes) ∧
    Decodes (fun i => [0x1E,0x9E,0xE0,0xB8].getD i 0) [press .keyA (by decide),letGo .keyA (by decide),letGo .rightAlt (by decide)] := by
  have delivers : Delivers (fun i => [0x1E,0x9E,0xE0,0xB8].getD i 0)
      ([press .keyA (by decide),letGo .keyA (by decide),letGo .rightAlt (by decide)].flatMap Event.bytes) := by
    intro i inside
    have few : i < 4 := inside
    interval_cases i <;> rfl
  refine ⟨delivers,(events_decoded_iff _ _ delivers).mpr ?_⟩
  intro e member
  rcases List.mem_cons.mp member with rfl | member
  · exact .inl rfl
  · rcases List.mem_cons.mp member with rfl | member
    · exact .inl rfl
    · cases List.mem_singleton.mp member
      exact .inr ⟨rfl,rfl⟩

-- Right Ctrl and then A pressed: the first call takes all three bytes and answers
-- with a break of Right Ctrl.
theorem right_ctrl_swallows : Delivers (fun i => [0xE0,0x1D,0x1E].getD i 0)
      ([press .rightCtrl (by decide),press .keyA (by decide)].flatMap Event.bytes) ∧
    scancodeResolveGetKeyCodeSet1 (fun i => [0xE0,0x1D,0x1E].getD i 0) = some (Key.rightCtrl.keyCode true,[0xE0,0x1D,0x1E]) ∧
    ¬ Decodes (fun i => [0xE0,0x1D,0x1E].getD i 0) [press .rightCtrl (by decide),press .keyA (by decide)] := by
  have answered : scancodeResolveGetKeyCodeSet1 (fun i => [0xE0,0x1D,0x1E].getD i 0) =
      some (Key.rightCtrl.keyCode true,[0xE0,0x1D,0x1E]) := by
    decide +kernel
  refine ⟨?_,answered,?_⟩
  · intro i inside
    have few : i < 3 := inside
    interval_cases i <;> rfl
  · rintro ⟨decoded,_⟩
    rw [answered] at decoded
    exact absurd decoded (by decide)

end KaracaOS.Scancodes
