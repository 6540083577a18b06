import KaracaOS.MachineStack
import KaracaOS.Interleavings

namespace KaracaOS.InterruptFrames
open ByteMemory MachineStack Interleavings

structure Registers where
  eax : BitVec 32
  ecx : BitVec 32
  edx : BitVec 32
  ebx : BitVec 32
  esp : BitVec 32
  ebp : BitVec 32
  esi : BitVec 32
  edi : BitVec 32
  eip : BitVec 32
  eflags : BitVec 32
  cs : BitVec 16
  ds : BitVec 16
  es : BitVec 16
  fs : BitVec 16
  gs : BitVec 16
deriving DecidableEq

structure Machine extends Registers where
  memory : Bytes

def Machine.push (m : Machine) (cell : Cell) : Machine :=
  {m with esp := m.esp-BitVec.ofNat 32 cell.size,memory := cell.put m.memory (m.esp-BitVec.ofNat 32 cell.size).toNat}

def Machine.word (m : Machine) : BitVec 16 := BitVec.ofNat 16 (get16 m.memory m.esp.toNat)
def Machine.long (m : Machine) : BitVec 32 := BitVec.ofNat 32 (get32 m.memory m.esp.toNat)
def Machine.drop (m : Machine) (size : Nat) : Machine := {m with esp := m.esp+BitVec.ofNat 32 size}

inductive Segment where
  | ds | es | fs | gs
deriving DecidableEq

def Machine.segment (m : Machine) : Segment → BitVec 16
  | .ds => m.ds
  | .es => m.es
  | .fs => m.fs
  | .gs => m.gs

def Machine.setSegment (m : Machine) (value : BitVec 16) : Segment → Machine
  | .ds => {m with ds := value}
  | .es => {m with es := value}
  | .fs => {m with fs := value}
  | .gs => {m with gs := value}

-- The instructions of int_handlers.S. callEax names the address the call returns to.
inductive Instruction where
  | cli
  | pushl (value : BitVec 32)
  | pusha
  | pushw (segment : Segment)
  | movwAx (value : BitVec 16)
  | movwSegment (segment : Segment)
  | movlEspEax
  | pushlEax
  | movlEax (value : BitVec 32)
  | callEax (back : BitVec 32)
  | poplEax
  | popw (segment : Segment)
  | popa
  | addlEsp (size : Nat)
  | iret

def interruptFlag : BitVec 32 := 0x200#32

-- `code` is what calling an address does, up to and with its ret.
def exec (code : BitVec 32 → Machine → Machine) (m : Machine) : Instruction → Machine
  | .cli => {m with eflags := m.eflags &&& ~~~interruptFlag}
  | .pushl value => m.push (.long value)
  | .pusha =>
    ((((((((m.push (.long m.eax)).push (.long m.ecx)).push (.long m.edx)).push (.long m.ebx)).push
      (.long m.esp)).push (.long m.ebp)).push (.long m.esi)).push (.long m.edi))
  | .pushw segment => m.push (.word (m.segment segment))
  | .movwAx value => {m with eax := (m.eax &&& 0xFFFF0000#32) ||| value.setWidth 32}
  | .movwSegment segment => m.setSegment (m.eax.setWidth 16) segment
  | .movlEspEax => {m with eax := m.esp}
  | .pushlEax => m.push (.long m.eax)
  | .movlEax value => {m with eax := value}
  | .callEax back => code m.eax (m.push (.long back))
  | .poplEax => {m.drop 4 with eax := m.long}
  | .popw segment => (m.drop 2).setSegment m.word segment
  | .popa =>
    let edi := m.long
    let m := m.drop 4
    let esi := m.long
    let m := m.drop 4
    let ebp := m.long
    -- the pushed esp is skipped
    let m := (m.drop 4).drop 4
    let ebx := m.long
    let m := m.drop 4
    let edx := m.long
    let m := m.drop 4
    let ecx := m.long
    let m := m.drop 4
    let eax := m.long
    {m.drop 4 with edi := edi,esi := esi,ebp := ebp,ebx := ebx,edx := edx,ecx := ecx,eax := eax}
  | .addlEsp size => m.drop size
  | .iret =>
    let eip := m.long
    let m := m.drop 4
    let cs := m.long
    let m := m.drop 4
    let eflags := m.long
    {m.drop 4 with eip := eip,cs := cs.setWidth 16,eflags := eflags}

def run (code : BitVec 32 → Machine → Machine) (program : List Instruction) (m : Machine) : Machine :=
  program.foldl (exec code) m

-- The second argument of INT_HANDLER: the vectors whose error code the processor pushes.
def hasErrorCode (vector : Nat) : Bool := vector ∈ [8,10,11,12,13,14,17,30]

def isrEntry (vector : Nat) : List Instruction :=
  .cli::((if hasErrorCode vector then [] else [.pushl 0])++[.pushl (BitVec.ofNat 32 vector)])

def isrCommonSave : List Instruction :=
  [.pusha,.pushw .ds,.pushw .es,.pushw .fs,.pushw .gs,
    .movwAx 0x18#16,.movwSegment .ds,.movwSegment .es,.movwSegment .fs,.movwSegment .gs,.movlEspEax,.pushlEax]

def isrCommonRestore : List Instruction :=
  [.poplEax,.popw .gs,.popw .fs,.popw .es,.popw .ds,.popa,.addlEsp 8,.iret]

def isr (archInterruptHandler back : BitVec 32) (vector : Nat) : List Instruction :=
  isrEntry vector++(isrCommonSave++([.movlEax archInterruptHandler,.callEax back]++isrCommonRestore))

structure IDTEntry where
  offset1 : BitVec 16
  selector : BitVec 16
  reserved : BitVec 8
  flags : BitVec 8
  offset2 : BitVec 16
deriving DecidableEq

def prepareInterruptGate (idtEntries : Nat → IDTEntry) (gate : Nat) (handler : BitVec 32) (selector : BitVec 16)
    (flags : BitVec 8) : Nat → IDTEntry :=
  Function.update idtEntries gate
    ⟨(handler &&& 0xFFFF#32).setWidth 16,selector,0,flags,(handler >>> 16).setWidth 16⟩

def blankEntries : Nat → IDTEntry := fun _ => ⟨0,0,0,0,0⟩

def gates : List Nat := List.range 48++[128]

-- The kernel's text: where _arch_interrupt_handler starts, the address after the
-- stubs' call of it, and the stubs themselves at their addresses.
structure Image where
  archInterruptHandler : BitVec 32
  back : BitVec 32
  stubs : Nat → BitVec 32
  text : BitVec 32 → List Instruction
  loaded : ∀ vector ∈ gates, text (stubs vector) = isr archInterruptHandler back vector

-- The gates arch_interrupts_init prepares, one call for each stub.
def archInterruptsGates (stubs : Nat → BitVec 32) (idtEntries : Nat → IDTEntry) : Nat → IDTEntry :=
  gates.foldl (fun entries gate => prepareInterruptGate entries gate (stubs gate) 0x10#16 0x8E#8) idtEntries

def IDTEntry.present (entry : IDTEntry) : Bool := entry.flags.getLsbD 7
def IDTEntry.offset (entry : IDTEntry) : BitVec 32 := entry.offset2 ++ entry.offset1

-- Entering an interrupt gate clears TF, IF, NT, RF and VM after the flags are saved.
def gateFlags : BitVec 32 := 0x34300#32

def enter (entry : IDTEntry) (m : Machine) (errorCode : Option (BitVec 32)) : Machine :=
  let saved := ((m.push (.long m.eflags)).push (.long (m.cs.setWidth 32))).push (.long m.eip)
  let saved := match errorCode with
    | none => saved
    | some code => saved.push (.long code)
  {saved with eflags := m.eflags &&& ~~~gateFlags,cs := entry.selector,eip := entry.offset}

structure X86InterruptStackFrame where
  gs : BitVec 16
  fs : BitVec 16
  es : BitVec 16
  ds : BitVec 16
  edi : BitVec 32
  esi : BitVec 32
  ebp : BitVec 32
  esp : BitVec 32
  ebx : BitVec 32
  edx : BitVec 32
  ecx : BitVec 32
  eax : BitVec 32
  intNo : BitVec 32
  errCode : BitVec 32
deriving DecidableEq

def frameAt (memory : Bytes) (place : Nat) : X86InterruptStackFrame where
  gs := BitVec.ofNat 16 (get16 memory place)
  fs := BitVec.ofNat 16 (get16 memory (place+2))
  es := BitVec.ofNat 16 (get16 memory (place+4))
  ds := BitVec.ofNat 16 (get16 memory (place+6))
  edi := BitVec.ofNat 32 (get32 memory (place+8))
  esi := BitVec.ofNat 32 (get32 memory (place+12))
  ebp := BitVec.ofNat 32 (get32 memory (place+16))
  esp := BitVec.ofNat 32 (get32 memory (place+20))
  ebx := BitVec.ofNat 32 (get32 memory (place+24))
  edx := BitVec.ofNat 32 (get32 memory (place+28))
  ecx := BitVec.ofNat 32 (get32 memory (place+32))
  eax := BitVec.ofNat 32 (get32 memory (place+36))
  intNo := BitVec.ofNat 32 (get32 memory (place+40))
  errCode := BitVec.ofNat 32 (get32 memory (place+44))

def argument (m : Machine) : BitVec 32 := BitVec.ofNat 32 (get32 m.memory (m.esp.toNat+4))

-- A gate that is not present raises another fault instead.
def interrupt (image : Image) (code : BitVec 32 → Machine → Machine) (idtEntries : Nat → IDTEntry) (vector : Nat)
    (errorCode : Option (BitVec 32)) (m : Machine) : Option Machine :=
  let entry := idtEntries vector
  if entry.present then some (run code (image.text entry.offset) (enter entry m errorCode)) else none

def called (image : Image) (entry : IDTEntry) (vector : Nat) (m : Machine) (errorCode : Option (BitVec 32)) : Machine :=
  let saved := run (fun _ => id) (isrEntry vector++isrCommonSave) (enter entry m errorCode)
  {saved with eax := image.archInterruptHandler}.push (.long image.back)

structure Standing (m : Machine) (spare : Nat) (cells : List Cell) : Prop where
  piled : Piled m.memory m.esp.toNat cells
  room : spare ≤ m.esp.toNat
  fits : m.esp.toNat+height cells < 2^32

theorem size_small (cell : Cell) : cell.size < 2^32 := by cases cell <;> simp [Cell.size]

theorem esp_push (m : Machine) (cell : Cell) (room : cell.size ≤ m.esp.toNat) :
    (m.push cell).esp.toNat+cell.size = m.esp.toNat := by
  have bound := m.esp.isLt
  simp only [Machine.push,BitVec.toNat_sub,BitVec.toNat_ofNat,Nat.mod_eq_of_lt (size_small cell)]
  omega

theorem Standing.push (cell : Cell) (standing : Standing m (cell.size+spare) cells) :
    Standing (m.push cell) spare (cell::cells) := by
  have room := standing.room
  have fits := standing.fits
  have place := esp_push m cell (by omega)
  refine ⟨?_,by omega,?_⟩
  · apply Piled.push
    rw [show (m.esp-BitVec.ofNat 32 cell.size).toNat+cell.size = m.esp.toNat from place]
    exact standing.piled
  · simp only [height]
    omega

theorem Standing.drop (standing : Standing m spare (cell::cells)) : Standing (m.drop cell.size) (spare+cell.size) cells := by
  have room := standing.room
  have fits := standing.fits
  simp only [height] at fits
  have place : (m.drop cell.size).esp.toNat = m.esp.toNat+cell.size := by
    simp only [Machine.drop,BitVec.toNat_add,BitVec.toNat_ofNat,Nat.mod_eq_of_lt (size_small cell)]
    omega
  refine ⟨?_,by omega,by omega⟩
  rw [place]
  exact standing.piled.2

theorem Standing.of_eq (standing : Standing m spare cells) (esp : n.esp = m.esp) (memory : n.memory = m.memory) :
    Standing n spare cells := by
  obtain ⟨piled,room,fits⟩ := standing
  constructor <;> simpa [esp,memory]

def pile (m : Machine) (cells : List Cell) : Machine := cells.foldr (fun cell below => below.push cell) m

@[simp] theorem pile_nil (m : Machine) : pile m [] = m := rfl
@[simp] theorem pile_cons (m : Machine) (cell : Cell) (cells : List Cell) : pile m (cell::cells) = (pile m cells).push cell := rfl

theorem pile_esp (m : Machine) (cells : List Cell) : (pile m cells).esp = m.esp-BitVec.ofNat 32 (height cells) := by
  induction cells with
  | nil => simp
  | cons cell rest ih =>
    simp only [pile_cons,Machine.push,ih,height]
    rw [sub_sub,BitVec.add_comm,BitVec.ofNat_add]

theorem standing_pile (room : height cells+spare ≤ m.esp.toNat) : Standing (pile m cells) spare cells := by
  induction cells generalizing spare with
  | nil => exact ⟨trivial,by simpa using room,by simpa using m.esp.isLt⟩
  | cons cell rest ih =>
    apply Standing.push
    apply ih
    simp only [height] at room
    omega

theorem pile_apart (room : height cells ≤ m.esp.toNat) (apart : m.esp.toNat ≤ first ∨ first+count ≤ m.esp.toNat-height cells) :
    Agree (pile m cells).memory m.memory first count := by
  induction cells with
  | nil => exact Agree.refl _ _ _
  | cons cell rest ih =>
    simp only [height] at room apart
    have bound := m.esp.isLt
    have place : (pile m rest).esp.toNat+height rest = m.esp.toNat := by
      rw [pile_esp]
      simp only [BitVec.toNat_sub,BitVec.toNat_ofNat]
      omega
    have top := esp_push (pile m rest) cell (by omega)
    have beside : ((pile m rest).push cell).esp.toNat+cell.size ≤ first ∨ first+count ≤ ((pile m rest).push cell).esp.toNat := by omega
    exact Agree.trans (cell.put_apart beside) (ih (by omega) (by omega))

-- What is on the stack below an interrupted machine's own data.
def frameCells (m : Registers) (vector : Nat) (errorCode : BitVec 32) : List Cell :=
  [.word m.gs,.word m.fs,.word m.es,.word m.ds,.long m.edi,.long m.esi,.long m.ebp,.long (m.esp-20#32),
    .long m.ebx,.long m.edx,.long m.ecx,.long m.eax,.long (BitVec.ofNat 32 vector),.long errorCode,
    .long m.eip,.long (m.cs.setWidth 32),.long m.eflags]

theorem height_frameCells (m : Registers) (vector : Nat) (errorCode : BitVec 32) : height (frameCells m vector errorCode) = 60 := by
  simp only [frameCells,height_long,height_word,height_nil]

theorem selector_ax (eax : BitVec 32) : ((eax &&& 0xFFFF0000#32) ||| (0x18#16).setWidth 32).setWidth 16 = 0x18#16 := by
  simp [BitVec.setWidth_or,BitVec.setWidth_and]

theorem run_append (code : BitVec 32 → Machine → Machine) (m : Machine) (one two : List Instruction) :
    run code (one++two) m = run code two (run code one m) := List.foldl_append

-- One entry for both shapes: the processor's error code, or the zero the stub pushes for it.
theorem entered (code : BitVec 32 → Machine → Machine) (entry : IDTEntry) (m : Machine) (matched : errorCode.isSome = hasErrorCode vector) :
    run code (isrEntry vector) (enter entry m errorCode) =
      {pile m [.long (BitVec.ofNat 32 vector),.long (errorCode.getD 0),.long m.eip,.long (m.cs.setWidth 32),.long m.eflags] with
        eflags := m.eflags &&& ~~~gateFlags &&& ~~~interruptFlag,cs := entry.selector,eip := entry.offset} := by
  cases errorCode with
  | none =>
    have expected : hasErrorCode vector = false := matched.symm
    simp only [run,isrEntry,expected]
    rfl
  | some value =>
    have expected : hasErrorCode vector = true := matched.symm
    simp only [run,isrEntry,expected]
    rfl

theorem saved (code : BitVec 32 → Machine → Machine) (m : Machine) :
    run code isrCommonSave m =
      {pile m [.long (m.esp-40#32),.word m.gs,.word m.fs,.word m.es,.word m.ds,.long m.edi,.long m.esi,.long m.ebp,.long m.esp,
        .long m.ebx,.long m.edx,.long m.ecx,.long m.eax] with
        eax := m.esp-40#32,ds := 0x18#16,es := 0x18#16,fs := 0x18#16,gs := 0x18#16} := by
  have frame : m.esp-4#32-4#32-4#32-4#32-4#32-4#32-4#32-4#32-2#32-2#32-2#32-2#32 = m.esp-40#32 := by
    simp only [sub_sub]
    rfl
  have selector := selector_ax m.eax
  simp only [run,isrCommonSave,List.foldl,exec,Machine.segment,Machine.setSegment,Machine.push,pile,List.foldr,Cell.size,frame]
  rw [selector]

theorem Machine.drop_drop (m : Machine) (a b : Nat) : (m.drop a).drop b = m.drop (a+b) := by
  simp [Machine.drop,BitVec.ofNat_add,BitVec.add_assoc]

theorem Standing.popl {m : Machine} (standing : Standing (m.drop size) spare (.long value::cells)) :
    (m.drop size).long = value ∧ Standing (m.drop (size+4)) (spare+4) cells :=
  ⟨standing.piled.1,m.drop_drop size 4 ▸ standing.drop⟩

theorem Standing.popw {m : Machine} (standing : Standing (m.drop size) spare (.word value::cells)) :
    (m.drop size).word = value ∧ Standing (m.drop (size+2)) (spare+2) cells :=
  ⟨standing.piled.1,m.drop_drop size 2 ▸ standing.drop⟩

theorem restored_esp (code : BitVec 32 → Machine → Machine) (m : Machine) : (run code isrCommonRestore m).esp = m.esp+64#32 := by
  simp [run,isrCommonRestore,exec,Machine.setSegment,Machine.drop,BitVec.add_assoc]

theorem restored (code : BitVec 32 → Machine → Machine) (m : Machine) (r : Registers)
    (standing : Standing (m.drop 4) spare (frameCells r vector errorCode)) :
    run code isrCommonRestore m = {r with esp := m.esp+64#32,memory := m.memory} := by
  obtain ⟨gs,standing⟩ := standing.popw
  obtain ⟨fs,standing⟩ := standing.popw
  obtain ⟨es,standing⟩ := standing.popw
  obtain ⟨ds,standing⟩ := standing.popw
  obtain ⟨edi,standing⟩ := standing.popl
  obtain ⟨esi,standing⟩ := standing.popl
  obtain ⟨ebp,standing⟩ := standing.popl
  obtain ⟨_,standing⟩ := standing.popl
  obtain ⟨ebx,standing⟩ := standing.popl
  obtain ⟨edx,standing⟩ := standing.popl
  obtain ⟨ecx,standing⟩ := standing.popl
  obtain ⟨eax,standing⟩ := standing.popl
  obtain ⟨_,standing⟩ := standing.popl
  obtain ⟨_,standing⟩ := standing.popl
  obtain ⟨eip,standing⟩ := standing.popl
  obtain ⟨cs,standing⟩ := standing.popl
  obtain ⟨eflags,_⟩ := standing.popl
  simp only [Machine.word,Machine.long,Machine.drop,Nat.reduceAdd] at gs fs es ds edi esi ebp ebx edx ecx eax eip cs eflags
  simp only [run,isrCommonRestore,List.foldl,exec,Machine.setSegment,Machine.drop,Machine.word,Machine.long,BitVec.add_assoc,BitVec.reduceAdd]
  have selector : (r.cs.setWidth 32).setWidth 16 = r.cs := by simp
  simp only [gs,fs,es,ds,edi,esi,ebp,ebx,edx,ecx,eax,eip,cs,eflags,selector]

theorem called_eq (matched : errorCode.isSome = hasErrorCode vector) :
    called image entry vector m errorCode =
      {pile m (.long image.back::.long (m.esp-60#32)::frameCells m.toRegisters vector (errorCode.getD 0)) with
        eax := image.archInterruptHandler,ds := 0x18#16,es := 0x18#16,fs := 0x18#16,gs := 0x18#16,
        eflags := m.eflags &&& ~~~gateFlags &&& ~~~interruptFlag,cs := entry.selector,eip := entry.offset} := by
  have top : m.esp-4#32-4#32-4#32-4#32-4#32 = m.esp-20#32 := by
    simp only [sub_sub]
    rfl
  have frame : m.esp-20#32-40#32 = m.esp-60#32 := by
    simp only [sub_sub]
    rfl
  simp only [called,run_append,entered _ entry m matched,saved,frameCells,pile,List.foldr,Machine.push,Cell.size,top,frame]

theorem esp_sub (m : Machine) (size : Nat) (room : size ≤ m.esp.toNat) :
    (m.esp-BitVec.ofNat 32 size).toNat = m.esp.toNat-size := by
  have bound := m.esp.isLt
  simp only [BitVec.toNat_sub,BitVec.toNat_ofNat]
  omega

theorem frameAt_cells (r : Registers) (piled : Piled memory place (frameCells r vector errorCode)) :
    frameAt memory place = ⟨r.gs,r.fs,r.es,r.ds,r.edi,r.esi,r.ebp,r.esp-20#32,r.ebx,r.edx,r.ecx,r.eax,BitVec.ofNat 32 vector,errorCode⟩ := by
  simp only [frameCells,Piled,Cell.Lies,Cell.size,Nat.add_assoc,Nat.reduceAdd] at piled
  obtain ⟨gs,fs,es,ds,edi,esi,ebp,esp,ebx,edx,ecx,eax,intNo,errCode,_⟩ := piled
  simp only [frameAt,gs,fs,es,ds,edi,esi,ebp,esp,ebx,edx,ecx,eax,intNo,errCode]

theorem called_standing (room : 72 ≤ m.esp.toNat) (matched : errorCode.isSome = hasErrorCode vector) :
    Standing (called image entry vector m errorCode) 4
      (.long image.back::.long (m.esp-60#32)::frameCells m.toRegisters vector (errorCode.getD 0)) := by
  have standing : Standing (pile m (.long image.back::.long (m.esp-60#32)::frameCells m.toRegisters vector (errorCode.getD 0))) 4 _ :=
    standing_pile (by simpa only [height_long,height_frameCells,Nat.reduceAdd] using room)
  apply standing.of_eq <;> rw [called_eq matched]

theorem called_esp (matched : errorCode.isSome = hasErrorCode vector) :
    (called image entry vector m errorCode).esp = m.esp-68#32 := by
  rw [called_eq matched]
  simp only [pile_esp,height_long,height_frameCells,Nat.reduceAdd]

theorem called_apart (room : 72 ≤ m.esp.toNat) (matched : errorCode.isSome = hasErrorCode vector)
    (apart : m.esp.toNat ≤ first ∨ first+count ≤ m.esp.toNat-68) :
    Agree (called image entry vector m errorCode).memory m.memory first count := by
  rw [called_eq matched]
  apply pile_apart <;> simp only [height_long,height_frameCells] <;> omega

-- The C calling convention as the stubs rely on it: the return address is popped
-- and the interrupted state in the caller's frame is left as it was.
structure Returns (before after : Machine) : Prop where
  esp : after.esp = before.esp+4#32
  frame : Agree after.memory before.memory (before.esp.toNat+8) 60

-- The stub calls nothing before it has saved everything.
theorem entry_uncalled (one two : BitVec 32 → Machine → Machine) (vector : Nat) (m : Machine) :
    run one (isrEntry vector) m = run two (isrEntry vector) m := by
  cases expected : hasErrorCode vector <;> simp [isrEntry,expected,run,exec]

theorem save_uncalled (one two : BitVec 32 → Machine → Machine) (m : Machine) :
    run one isrCommonSave m = run two isrCommonSave m := by simp [isrCommonSave,run,exec]

theorem interrupt_eq (image : Image) (code : BitVec 32 → Machine → Machine) (handled : vector ∈ gates)
    (present : (idtEntries vector).present) (offset : (idtEntries vector).offset = image.stubs vector) :
    interrupt image code idtEntries vector errorCode m =
      some (run code isrCommonRestore (code image.archInterruptHandler (called image (idtEntries vector) vector m errorCode))) := by
  simp only [interrupt,present,offset,image.loaded vector handled,isr,run_append,called,if_true,
    entry_uncalled code (fun _ => id),save_uncalled code (fun _ => id)]
  rfl

theorem interrupt_resumes (image : Image) (code : BitVec 32 → Machine → Machine) (handled : vector ∈ gates)
    (present : (idtEntries vector).present) (offset : (idtEntries vector).offset = image.stubs vector)
    (room : 72 ≤ m.esp.toNat) (matched : errorCode.isSome = hasErrorCode vector)
    (returns : Returns (called image (idtEntries vector) vector m errorCode)
      (code image.archInterruptHandler (called image (idtEntries vector) vector m errorCode))) :
    interrupt image code idtEntries vector errorCode m =
      some {m with memory := (code image.archInterruptHandler (called image (idtEntries vector) vector m errorCode)).memory} := by
  generalize before : called image (idtEntries vector) vector m errorCode = start at returns
  generalize after : code image.archInterruptHandler start = last at returns
  have standing : Standing start 4 _ := before ▸ called_standing room matched
  have esp : start.esp = m.esp-68#32 := before ▸ called_esp matched
  have frame : Standing (start.drop 8) 12 _ := start.drop_drop 4 4 ▸ standing.drop.drop
  have place : (start.drop 8).esp.toNat = start.esp.toNat+8 := by
    have fits := standing.fits
    simp only [height_long,height_frameCells] at fits
    simp only [Machine.drop,BitVec.toNat_add,BitVec.toNat_ofNat]
    omega
  have popped : (last.drop 4).esp = (start.drop 8).esp := by
    simp [Machine.drop,returns.esp,BitVec.add_assoc]
  have stands : Standing (last.drop 4) 12 (frameCells m.toRegisters vector (errorCode.getD 0)) := by
    refine ⟨?_,popped ▸ frame.room,popped ▸ frame.fits⟩
    rw [popped]
    apply frame.piled.kept
    rw [place,height_frameCells]
    exact returns.frame
  rw [interrupt_eq image code handled present offset,before,after,restored code last m.toRegisters stands,returns.esp,esp]
  simp [BitVec.add_assoc]

theorem updates_apply {α β : Type} [DecidableEq α] (value : α → β) (keys : List α) (table : α → β) (key : α) :
    keys.foldl (fun entries k => Function.update entries k (value k)) table key = if key ∈ keys then value key else table key := by
  induction keys generalizing table with
  | nil => simp
  | cons first rest ih =>
    rw [List.foldl_cons,ih]
    by_cases same : key = first
    · simp [same]
    · simp [same]

def kernelIdt (image : Image) : Nat → IDTEntry := archInterruptsGates image.stubs blankEntries

theorem kernelIdt_apply (image : Image) (gate : Nat) :
    kernelIdt image gate = if gate ∈ gates then
      ⟨(image.stubs gate &&& 0xFFFF#32).setWidth 16,0x10#16,0,0x8E#8,(image.stubs gate >>> 16).setWidth 16⟩ else blankEntries gate := by
  simp only [kernelIdt,archInterruptsGates,prepareInterruptGate]
  rw [updates_apply (fun gate => IDTEntry.mk _ _ _ _ _)]

theorem kernelIdt_present (image : Image) (gate : Nat) : (kernelIdt image gate).present = decide (gate ∈ gates) := by
  rw [kernelIdt_apply]
  by_cases handled : gate ∈ gates <;> simp [handled,IDTEntry.present,blankEntries]

theorem offset_halves (address : BitVec 32) : (address >>> 16).setWidth 16 ++ (address &&& 0xFFFF#32).setWidth 16 = address := by
  apply BitVec.eq_of_getLsbD_eq
  intro i inside
  rw [BitVec.getLsbD_append]
  by_cases low : i < 16
  · have mask : (0xFFFF#16)[i] = (BitVec.allOnes 16)[i] := rfl
    simp only [BitVec.getElem_allOnes] at mask
    simp [low,mask]
  · have back : 16+(i-16) = i := by omega
    simp [low,back]
    omega

theorem kernelIdt_offset (image : Image) (handled : gate ∈ gates) : (kernelIdt image gate).offset = image.stubs gate := by
  rw [kernelIdt_apply,if_pos handled]
  exact offset_halves _

structure Same (live : Registers → Nat → Prop) (left right : Machine) : Prop where
  registers : left.toRegisters = right.toRegisters
  bytes : ∀ a, live left.toRegisters a → left.memory a = right.memory a

-- A program that reads and writes only its registers and its live bytes.
def Local (live : Registers → Nat → Prop) (own : Machine → Option Machine) : Prop :=
  ∀ left right next, Same live left right → own left = some next → ∃ other, own right = some other ∧ Same live next other

-- The handler of this one interrupt returns and leaves the live bytes of what it interrupted alone.
def Unobtrusive (live : Registers → Nat → Prop) (image : Image) (code : BitVec 32 → Machine → Machine) (vector : Nat)
    (errorCode : Option (BitVec 32)) (m : Machine) : Prop :=
  let before := called image (kernelIdt image vector) vector m errorCode
  let after := code image.archInterruptHandler before
  Returns before after ∧ ∀ a, live m.toRegisters a → after.memory a = before.memory a

-- An interrupt that is taken: the kernel has a gate for it, the error code its vector comes
-- with is there, and its handler comes back. A vector on which the kernel halts is never one.
def Interrupted (live : Registers → Nat → Prop) (image : Image) (code : BitVec 32 → Machine → Machine) (m next : Machine) : Prop :=
  ∃ vector errorCode, vector ∈ gates ∧ errorCode.isSome = hasErrorCode vector ∧ 72 ≤ m.esp.toNat ∧
    Unobtrusive live image code vector errorCode m ∧ interrupt image code (kernelIdt image) vector errorCode m = some next

theorem Interrupted.quiet (above : ∀ r a, live r a → r.esp.toNat ≤ a) (same : Same live left right)
    (interrupted : Interrupted live image code left next) : Same live next right := by
  obtain ⟨vector,errorCode,handled,matched,room,⟨returns,kept⟩,taken⟩ := interrupted
  have present : (kernelIdt image vector).present := by simp [kernelIdt_present,handled]
  rw [interrupt_resumes image code handled present (kernelIdt_offset image handled) room matched returns] at taken
  cases Option.some.inj taken
  refine ⟨same.registers,?_⟩
  intro a alive
  have start := above _ a alive
  have before : Agree (called image (kernelIdt image vector) vector left errorCode).memory left.memory left.esp.toNat (a+1) :=
    called_apart room matched (.inl (Nat.le_refl _))
  exact ((kept a alive).trans (before a start (by omega))).trans (same.bytes a alive)

-- However often and wherever a run is interrupted, the program gets where it
-- would have got alone.
theorem interrupts_unnoticed (image : Image) (code : BitVec 32 → Machine → Machine) (live : Registers → Nat → Prop)
    (own : Machine → Option Machine) (above : ∀ r a, live r a → r.esp.toNat ≤ a) (local_ : Local live own)
    (run : Run own (Interrupted live image code) first count last) :
    ∃ final, alone own first count = some final ∧ Same live last final :=
  run.undisturbed (Same live) local_ (fun _ _ _ same interrupted => interrupted.quiet above same) ⟨rfl,fun _ _ => rfl⟩

-- Stubs at addresses equal to their vectors, and a handler that does nothing but return.
def flatImage : Image where
  archInterruptHandler := 0x1000
  back := 0x2000
  stubs vector := BitVec.ofNat 32 vector
  text address := isr 0x1000 0x2000 address.toNat
  loaded := by
    intro vector handled
    have small : ∀ v ∈ gates, v < 2^32 := by decide
    rw [BitVec.toNat_ofNat,Nat.mod_eq_of_lt (small vector handled)]

def justReturn : BitVec 32 → Machine → Machine := fun _ m => m.drop 4

def stackMachine : Machine := ⟨⟨1,2,3,4,0xCFF0FFF4,5,6,7,0xC0001000,0x202,0x10,0x18,0x18,0x18,0x18⟩,fun _ => 0⟩

theorem justReturn_returns (before : Machine) (address : BitVec 32) : Returns before (justReturn address before) :=
  ⟨rfl,Agree.refl _ _ _⟩

-- A C function with a frame of its own: ebp is pushed, and popped before the return.
def framed (m : Machine) : Machine := (m.push (.long m.ebp)).drop 8

theorem framed_apart (room : 4 ≤ m.esp.toNat) (apart : m.esp.toNat ≤ first ∨ first+count ≤ m.esp.toNat-4) :
    Agree (framed m).memory m.memory first count := by
  have top : (m.esp-4#32).toNat+4 = m.esp.toNat := esp_push m (.long m.ebp) room
  refine Cell.put_apart (.long m.ebp) ?_
  show (m.esp-4#32).toNat+4 ≤ first ∨ first+count ≤ (m.esp-4#32).toNat
  omega

theorem framed_returns (room : 4 ≤ m.esp.toNat) : Returns m (framed m) := by
  refine ⟨?_,framed_apart room (.inl (by omega))⟩
  show m.esp-4#32+8#32 = m.esp+4#32
  bv_omega

-- A kernel that returns from the keyboard's interrupt and from no other.
def keyboardOnly : BitVec 32 → Machine → Machine := fun _ m =>
  if (frameAt m.memory (argument m).toNat).intNo = 33#32 then framed m else m

theorem handed (image : Image) (entry : IDTEntry) (room : 72 ≤ m.esp.toNat) (matched : errorCode.isSome = hasErrorCode vector) :
    argument (called image entry vector m errorCode) = m.esp-60#32 ∧
    frameAt (called image entry vector m errorCode).memory (argument (called image entry vector m errorCode)).toNat =
      ⟨m.gs,m.fs,m.es,m.ds,m.edi,m.esi,m.ebp,m.esp-20#32,m.ebx,m.edx,m.ecx,m.eax,BitVec.ofNat 32 vector,errorCode.getD 0⟩ := by
  have standing : Standing (called image entry vector m errorCode) 4 _ := called_standing room matched
  have top : argument (called image entry vector m errorCode) = m.esp-60#32 := standing.piled.2.1
  have esp : (called image entry vector m errorCode).esp.toNat = m.esp.toNat-68 := by
    rw [called_esp matched]
    exact esp_sub m 68 (by omega)
  refine ⟨top,?_⟩
  rw [top,esp_sub m 60 (by omega)]
  apply frameAt_cells
  have piled := standing.piled.2.2
  rw [esp] at piled
  convert piled using 1
  simp only [Cell.size]
  omega

theorem keyboardOnly_unobtrusive (room : 72 ≤ m.esp.toNat) :
    Unobtrusive (fun r a => r.esp.toNat ≤ a) image keyboardOnly 33 none m := by
  have matched : (none : Option (BitVec 32)).isSome = hasErrorCode 33 := by decide
  obtain ⟨_,frame⟩ := handed image (kernelIdt image 33) room matched
  have esp : (called image (kernelIdt image 33) 33 m none).esp.toNat = m.esp.toNat-68 := by
    rw [called_esp matched]
    exact esp_sub m 68 (by omega)
  simp only [Unobtrusive,keyboardOnly,frame,if_true]
  refine ⟨framed_returns (by omega),?_⟩
  intro a alive
  have kept : Agree (framed (called image (kernelIdt image 33) 33 m none)).memory _ a 1 := framed_apart (by omega) (.inl (by omega))
  exact kept a (Nat.le_refl _) (Nat.lt_succ_self _)

-- A counting program, interrupted by a key between two of its steps.
def counting (m : Machine) : Option Machine := some {m with eax := m.eax+1}

theorem counting_local : Local (fun r a => r.esp.toNat ≤ a) counting := by
  intro left right next same taken
  cases Option.some.inj taken
  have registers := same.registers
  refine ⟨{right with eax := right.eax+1},rfl,?_,same.bytes⟩
  simp only [registers]

theorem counting_unnoticed :
    ∃ last, Run counting (Interrupted (fun r a => r.esp.toNat ≤ a) flatImage keyboardOnly) stackMachine 2 last ∧
      ∃ final, alone counting stackMachine 2 = some final ∧ Same (fun r a => r.esp.toNat ≤ a) last final := by
  have quiet : Unobtrusive (fun r a => r.esp.toNat ≤ a) flatImage keyboardOnly 33 none {stackMachine with eax := 2} :=
    keyboardOnly_unobtrusive (by decide)
  have keyed : Interrupted (fun r a => r.esp.toNat ≤ a) flatImage keyboardOnly {stackMachine with eax := 2} _ :=
    ⟨33,none,by decide,by decide,by decide,quiet,interrupt_resumes flatImage keyboardOnly (by decide)
      (by simp [kernelIdt_present,gates]) (kernelIdt_offset flatImage (by decide)) (by decide) (by decide) quiet.1⟩
  have started : Run counting (Interrupted (fun r a => r.esp.toNat ≤ a) flatImage keyboardOnly) stackMachine 0 stackMachine := .start
  have run := ((started.own rfl).foreign keyed).own rfl
  exact ⟨_,run,interrupts_unnoticed flatImage keyboardOnly _ counting (fun _ _ above => above) counting_local run⟩

theorem saved_esp (code : BitVec 32 → Machine → Machine) (m : Machine) : (run code isrCommonSave m).esp = m.esp-44#32 := by
  rw [saved]
  simp only [pile_esp,height_long,height_word,height_nil,Nat.reduceAdd]

theorem entry_esp (code : BitVec 32 → Machine → Machine) (entry : IDTEntry) (m : Machine) (vector : Nat) (errorCode : Option (BitVec 32)) :
    (run code (isrEntry vector) (enter entry m errorCode)).esp =
      m.esp-BitVec.ofNat 32 ((if errorCode.isSome then 4 else 0)+(if hasErrorCode vector then 16 else 20)) := by
  cases expected : hasErrorCode vector <;> cases errorCode <;>
    simp only [isrEntry,expected,run,Bool.false_eq_true,if_true,if_false,List.cons_append,List.nil_append,List.foldl_cons,List.foldl_nil,
      exec,enter,Machine.push,Cell.size,sub_sub,Option.isSome_none,Option.isSome_some,BitVec.reduceAdd,Nat.reduceAdd]

-- A missing error code, or one too many, moves everything by four bytes.
theorem resumed_esp (code : BitVec 32 → Machine → Machine) (handled : vector ∈ gates) (m : Machine)
    (returns : Returns (called image (kernelIdt image vector) vector m errorCode)
      (code image.archInterruptHandler (called image (kernelIdt image vector) vector m errorCode)))
    (taken : interrupt image code (kernelIdt image) vector errorCode m = some next) :
    next.esp = m.esp ↔ errorCode.isSome = hasErrorCode vector := by
  have present : (kernelIdt image vector).present := by simp [kernelIdt_present,handled]
  rw [interrupt_eq image code handled present (kernelIdt_offset image handled)] at taken
  rw [← Option.some.inj taken,restored_esp,returns.esp]
  simp only [called,run_append,Machine.push,saved_esp,entry_esp,Cell.size]
  have around (top away : BitVec 32) : top-away-44#32-4#32+4#32+64#32 = top ↔ away = 20#32 := by
    rw [sub_add_cancel,sub_sub,sub_add,sub_eq_self,add_sub_assoc]
    exact add_eq_zero_iff_eq_neg
  rw [around]
  cases hasErrorCode vector <;> cases errorCode.isSome <;> decide

-- The stubs and the gates resume an interrupted program exactly when the error
-- code on the stack is the one its vector is known for.
theorem resumes_iff (image : Image) (code : BitVec 32 → Machine → Machine) (m : Machine) (vector : Nat) (errorCode : Option (BitVec 32))
    (handled : vector ∈ gates) (room : 72 ≤ m.esp.toNat)
    (returns : Returns (called image (kernelIdt image vector) vector m errorCode)
      (code image.archInterruptHandler (called image (kernelIdt image vector) vector m errorCode))) :
    (∃ memory, interrupt image code (kernelIdt image) vector errorCode m = some {m with memory := memory}) ↔
      errorCode.isSome = hasErrorCode vector := by
  constructor
  · rintro ⟨memory,taken⟩
    exact (resumed_esp code handled m returns taken).mp rfl
  · intro matched
    have present : (kernelIdt image vector).present := by simp [kernelIdt_present,handled]
    exact ⟨_,interrupt_resumes image code handled present (kernelIdt_offset image handled) room matched returns⟩

theorem keyboard_resumes :
    (∃ memory, interrupt flatImage justReturn (kernelIdt flatImage) 33 none stackMachine = some {stackMachine with memory := memory}) ↔
      (none : Option (BitVec 32)).isSome = hasErrorCode 33 :=
  resumes_iff flatImage justReturn stackMachine 33 none (by decide) (by decide) (justReturn_returns _ _)

-- What _arch_interrupt_handler reads through its pointer is the interrupted program.
theorem handler_reads_interrupted (image : Image) (entry : IDTEntry) (m : Machine) (vector : Nat) (errorCode : Option (BitVec 32))
    (room : 72 ≤ m.esp.toNat) (matched : errorCode.isSome = hasErrorCode vector) :
    let start := called image entry vector m errorCode
    argument start = m.esp-60#32 ∧
    frameAt start.memory (argument start).toNat =
      ⟨m.gs,m.fs,m.es,m.ds,m.edi,m.esi,m.ebp,m.esp-20#32,m.ebx,m.edx,m.ecx,m.eax,BitVec.ofNat 32 vector,errorCode.getD 0⟩ ∧
    ∀ count, Agree start.memory m.memory m.esp.toNat count := by
  obtain ⟨pointer,frame⟩ := handed image entry room matched
  exact ⟨pointer,frame,fun count => called_apart room matched (.inl (Nat.le_refl _))⟩

theorem page_fault_read :
    let start := called flatImage (kernelIdt flatImage 14) 14 stackMachine (some 2)
    argument start = stackMachine.esp-60#32 ∧
    frameAt start.memory (argument start).toNat =
      ⟨0x18,0x18,0x18,0x18,7,6,5,stackMachine.esp-20#32,4,3,2,1,BitVec.ofNat 32 14,2⟩ ∧
    ∀ count, Agree start.memory stackMachine.memory stackMachine.esp.toNat count :=
  handler_reads_interrupted flatImage (kernelIdt flatImage 14) stackMachine 14 (some 2) (by decide) (by decide)

end KaracaOS.InterruptFrames
