import KaracaOS.SysDefs
import KaracaOS.StepRuns

namespace KaracaOS.InterruptController
open StepRuns

abbrev Byte := BitVec 8
abbrev Port := BitVec 16

-- One 8259: the initialisation word it waits for (none while it is set up),
-- its vector base, mask, requested and in-service lines.
structure Pic where
  awaiting : Nat
  fourth : Bool
  offset : Byte
  mask : Byte
  requests : Byte
  inService : Byte
deriving DecidableEq

structure Pics where
  master : Pic
  slave : Pic
deriving DecidableEq

def setBit (byte : Byte) (line : Nat) : Byte := byte ||| (1#8 <<< line)
def clearBit (byte : Byte) (line : Nat) : Byte := byte &&& ~~~(1#8 <<< line)

def highest (byte : Byte) : Option Nat := (List.range 8).find? byte.getLsbD

-- A non-specific end of interrupt ends the line of highest priority in service.
def endOfInterrupt (inService : Byte) : Byte :=
  match highest inService with
  | none => inService
  | some line => clearBit inService line

def Pic.command (p : Pic) (data : Byte) : Pic :=
  if data.getLsbD 4 then {p with awaiting := 2,fourth := data.getLsbD 0,mask := 0,requests := 0,inService := 0}
  else if data = 0x20#8 then {p with inService := endOfInterrupt p.inService}
  else p

def Pic.data (p : Pic) (data : Byte) : Pic :=
  match p.awaiting with
  | 2 => {p with offset := data &&& 0xF8#8,awaiting := 3}
  | 3 => {p with awaiting := if p.fourth then 4 else 0}
  | 4 => {p with awaiting := 0}
  | _ => {p with mask := data}

def pic1Command : Port := 0x20
def pic1Data : Port := 0x21
def pic2Command : Port := 0xA0
def pic2Data : Port := 0xA1

def outb (port : Port) (data : Byte) (p : Pics) : Pics :=
  if port = pic1Command then {p with master := p.master.command data}
  else if port = pic1Data then {p with master := p.master.data data}
  else if port = pic2Command then {p with slave := p.slave.command data}
  else if port = pic2Data then {p with slave := p.slave.data data}
  else p

def inb (port : Port) (p : Pics) : Byte := if port = pic1Data then p.master.mask else p.slave.mask

-- The line a chip asks for: requested, not masked, and nothing of its priority
-- or a higher one in service.
def Pic.asks (p : Pic) (line : Nat) : Bool :=
  p.requests.getLsbD line && !p.mask.getLsbD line && !(List.range (line+1)).any p.inService.getLsbD

def Pic.winner (p : Pic) : Option Nat := (List.range 8).find? p.asks

-- The slave's output is the master's line 2.
def Pics.cascaded (p : Pics) : Pic :=
  {p.master with requests := if p.slave.winner.isSome then setBit p.master.requests 2 else clearBit p.master.requests 2}

def Pic.accept (p : Pic) (line : Nat) : Pic :=
  {p with requests := clearBit p.requests line,inService := setBit p.inService line}

-- The processor's acknowledge: the vector it is given, and the chips after it.
def acknowledge (p : Pics) : Option (Nat × Pics) :=
  match p.cascaded.winner with
  | none => none
  | some line =>
    if line = 2 then
      match p.slave.winner with
      | none => none
      | some below => some (p.slave.offset.toNat+below,⟨p.master.accept 2,p.slave.accept below⟩)
    else some (p.master.offset.toNat+line,{p with master := p.master.accept line})

def raise (line : Nat) (p : Pics) : Pics :=
  if line < 8 then {p with master := {p.master with requests := setBit p.master.requests line}}
  else {p with slave := {p.slave with requests := setBit p.slave.requests (line-8)}}

-- irq.c
def setupPic (pic1offset pic2offset : Byte) (p : Pics) : Pics :=
  let m1 : Byte := ~~~0x02#8
  let m2 : Byte := ~~~0x80#8
  let p := outb pic2Command 0x11#8 (outb pic1Command 0x11#8 p)
  let p := outb pic2Data pic2offset (outb pic1Data pic1offset p)
  let p := outb pic2Data 2#8 (outb pic1Data 4#8 p)
  let p := outb pic2Data 0x01#8 (outb pic1Data 0x01#8 p)
  outb pic2Data m2 (outb pic1Data m1 p)

def archIrqInitialize (p : Pics) : Pics := setupPic 32 40 p

def archIrqEnable (gate : Nat) (p : Pics) : Pics × SysRet :=
  if gate < 8 then (outb pic1Data (clearBit (inb pic1Data p) gate) p,.noError)
  else if gate < 16 then (outb pic2Data (clearBit (inb pic2Data p) (gate-8)) p,.noError)
  else (p,.outOfRange)

def archIrqDisable (gate : Nat) (p : Pics) : Pics × SysRet :=
  if gate < 8 then (outb pic1Data (setBit (inb pic1Data p) gate) p,.noError)
  else if gate < 16 then (outb pic2Data (setBit (inb pic2Data p) (gate-8)) p,.noError)
  else (p,.outOfRange)

-- An int_handler_t on whatever else the kernel consists of; none when it never returns.
abbrev IntHandler (σ : Type) := Nat → BitVec 32 → σ → Option σ

structure Kernel (σ : Type) where
  pics : Pics
  intHandlers : Nat → Option (IntHandler σ)
  world : σ

variable {σ : Type}

def archInterruptsEnablegate (gate : Int) (k : Kernel σ) : Kernel σ :=
  if 32 ≤ gate ∧ gate < 48 then {k with pics := (archIrqEnable (gate-32).toNat k.pics).1} else k

def archInterruptsDisablegate (gate : Int) (k : Kernel σ) : Kernel σ :=
  if 32 ≤ gate ∧ gate < 48 then {k with pics := (archIrqDisable (gate-32).toNat k.pics).1} else k

def interruptsSethandler (gate : Nat) (handler : IntHandler σ) (k : Kernel σ) : Kernel σ :=
  {k with intHandlers := Function.update k.intHandlers gate (some handler)}

-- A stub in the source.
def interruptsClearhandler (_gate : Nat) (k : Kernel σ) : Kernel σ := k

-- Without a handler the kernel says so and stops for good.
def interruptsGenericHandler (intNumber : Nat) (errCode : BitVec 32) (k : Kernel σ) : Option (Kernel σ) :=
  match k.intHandlers intNumber with
  | some handler => (handler intNumber errCode k.world).map fun world => {k with world := world}
  | none => none

def archIrqGenericHandler (intNo : Nat) (k : Kernel σ) : Option (Kernel σ) :=
  (interruptsGenericHandler intNo 0 k).map fun k =>
    let pics := if 39 < intNo then outb pic2Command 0x20#8 k.pics else k.pics
    {k with pics := outb pic1Command 0x20#8 pics}

def archInterruptHandler (intNo : Nat) (errCode : BitVec 32) (k : Kernel σ) : Option (Kernel σ) :=
  if 31 < intNo ∧ intNo < 48 then archIrqGenericHandler intNo k else interruptsGenericHandler intNo errCode k

def interruptsInit (syscallHandler : IntHandler σ) (k : Kernel σ) : Kernel σ :=
  interruptsSethandler 0x80 syscallHandler {k with intHandlers := fun _ => none,pics := archIrqInitialize k.pics}

-- What the two chips are for: fifteen request lines under the gates 32 to 47, of
-- which the enabled one of highest priority comes next.
structure Lines where
  enabled : Nat → Bool
  waiting : Nat → Bool

-- The second chip's lines stand where its output enters the first.
def block (line : Nat) : List Nat := if line = 2 then (List.range 8).map (40+·) else [32+line]
def priority : List Nat := (List.range 8).flatMap block

-- Gates from 40 on also need the gate of the line between the chips.
def Lines.ready (l : Lines) (gate : Nat) : Bool := l.waiting gate && l.enabled gate && (decide (gate < 40) || l.enabled 34)

def Lines.next (l : Lines) : Option Nat := priority.find? l.ready

def Lines.raised (l : Lines) (line : Nat) : Lines := {l with waiting := Function.update l.waiting (32+line) true}
def Lines.served (l : Lines) (gate : Nat) : Lines := {l with waiting := Function.update l.waiting gate false}

def Lines.enable (l : Lines) (gate : Int) : Lines :=
  if 32 ≤ gate ∧ gate < 48 then {l with enabled := Function.update l.enabled gate.toNat true} else l
def Lines.disable (l : Lines) (gate : Int) : Lines :=
  if 32 ≤ gate ∧ gate < 48 then {l with enabled := Function.update l.enabled gate.toNat false} else l

-- A chip that is set up, serves nothing at the moment, and shows the lines above `first`.
structure Shows (p : Pic) (first : Nat) (l : Lines) : Prop where
  ready : p.awaiting = 0
  offset : p.offset.toNat = first
  idle : p.inService = 0#8
  mask : ∀ line, line < 8 → p.mask.getLsbD line = !l.enabled (first+line)
  requests : ∀ line, line < 8 → p.requests.getLsbD line = l.waiting (first+line)

structure Serves (p : Pics) (l : Lines) : Prop where
  master : Shows p.master 32 l
  slave : Shows p.slave 40 l
  between : l.waiting 34 = false

theorem setBit_bit (byte : Byte) (inside : line < 8) : (setBit byte line).getLsbD i = (byte.getLsbD i || decide (i = line)) := by
  rw [setBit,← BitVec.twoPow_eq,BitVec.getLsbD_or,BitVec.getLsbD_twoPow]
  simp [inside,eq_comm]

theorem clearBit_bit (byte : Byte) (inside : line < 8) (bit : i < 8) :
    (clearBit byte line).getLsbD i = (byte.getLsbD i && !decide (i = line)) := by
  rw [clearBit,← BitVec.twoPow_eq,BitVec.getLsbD_and,BitVec.getLsbD_not,BitVec.getLsbD_twoPow]
  simp [inside,bit,eq_comm]

theorem Shows.asks (shows : Shows p first l) (inside : line < 8) :
    p.asks line = (l.waiting (first+line) && l.enabled (first+line)) := by
  simp [Pic.asks,shows.idle,shows.mask line inside,shows.requests line inside]

theorem Shows.winner (shows : Shows p first l) :
    p.winner = (List.range 8).find? (fun line => l.waiting (first+line) && l.enabled (first+line)) := by
  apply List.find?_congr
  intro line inside
  exact shows.asks (List.mem_range.mp inside)

theorem find_blocks {α β : Type} (lines : List α) (inside : α → List β) (holds : β → Bool) (asks : α → Bool) (value : α → β)
    (one : ∀ line ∈ lines, (inside line).find? holds = if asks line then some (value line) else none) :
    (lines.flatMap inside).find? holds = (lines.find? asks).map value := by
  induction lines with
  | nil => rfl
  | cons line rest ih =>
    have first := one line List.mem_cons_self
    rw [List.flatMap_cons,List.find?_append,first,ih (fun other member => one other (List.mem_cons_of_mem _ member))]
    by_cases asked : asks line <;> simp [asked]

theorem cascaded_asks (serves : Serves p l) (inside : line < 8) :
    p.cascaded.asks line =
      if line = 2 then p.slave.winner.isSome && l.enabled 34 else l.waiting (32+line) && l.enabled (32+line) := by
  have mask := serves.master.mask line inside
  have request : p.cascaded.requests.getLsbD line = if line = 2 then p.slave.winner.isSome else l.waiting (32+line) := by
    rw [← serves.master.requests line inside,Pics.cascaded]
    cases below : p.slave.winner.isSome with
    | true =>
      simp only [if_true,setBit_bit _ (show 2 < 8 by decide)]
      by_cases between : line = 2 <;> simp [between]
    | false =>
      simp only [Bool.false_eq_true,if_false,clearBit_bit _ (show 2 < 8 by decide) inside]
      by_cases between : line = 2 <;> simp [between]
  have idle : p.cascaded.inService = 0#8 := serves.master.idle
  have masked : p.cascaded.mask = p.master.mask := rfl
  rw [Pic.asks,request,masked,mask,idle]
  by_cases between : line = 2 <;> simp [between]

theorem block_first (serves : Serves p l) (inside : line < 8) :
    (block line).find? l.ready =
      if p.cascaded.asks line then some (if line = 2 then 40+p.slave.winner.getD 0 else 32+line) else none := by
  rw [cascaded_asks serves inside]
  by_cases between : line = 2
  · simp only [block,between,if_true,List.find?_map]
    have below : (fun line => l.ready (40+line)) = fun line => (l.waiting (40+line) && l.enabled (40+line)) && l.enabled 34 := by
      funext line
      simp [Lines.ready]
    rw [Function.comp_def,below,serves.slave.winner]
    cases open_ : l.enabled 34 with
    | true =>
      simp only [Bool.and_true]
      generalize (List.range 8).find? (fun line => l.waiting (40+line) && l.enabled (40+line)) = found
      cases found <;> simp
    | false => simp
  · have low : 32+line < 40 := by omega
    simp only [block,between,if_false,List.find?_cons,List.find?_nil,Lines.ready,low]
    cases l.waiting (32+line) && l.enabled (32+line) <;> simp

theorem next_eq (serves : Serves p l) :
    l.next = p.cascaded.winner.map (fun line => if line = 2 then 40+p.slave.winner.getD 0 else 32+line) :=
  find_blocks (List.range 8) block l.ready p.cascaded.asks _ (fun _ inside => block_first serves (List.mem_range.mp inside))

theorem winner_bounds (won : Pic.winner p = some line) : line < 8 ∧ p.asks line = true :=
  ⟨List.mem_range.mp (List.mem_of_find?_eq_some won),List.find?_some won⟩

theorem acknowledge_cases (serves : Serves p l) :
    (acknowledge p = none ∧ l.next = none) ∨
    (∃ line, line < 8 ∧ line ≠ 2 ∧ l.next = some (32+line) ∧ acknowledge p = some (32+line,{p with master := p.master.accept line})) ∨
    (∃ line, line < 8 ∧ l.next = some (40+line) ∧ acknowledge p = some (40+line,⟨p.master.accept 2,p.slave.accept line⟩)) := by
  rw [next_eq serves]
  cases won : p.cascaded.winner with
  | none => exact .inl (by simp [acknowledge,won])
  | some line =>
    obtain ⟨inside,asks⟩ := winner_bounds won
    rw [cascaded_asks serves inside] at asks
    by_cases between : line = 2
    · cases below : p.slave.winner with
      | none => simp [between,below] at asks
      | some under =>
        refine .inr (.inr ⟨under,(winner_bounds below).1,?_,?_⟩)
        · simp [between]
        · simp [acknowledge,won,between,below,serves.slave.offset]
    · refine .inr (.inl ⟨line,inside,between,?_,?_⟩)
      · simp [between]
      · simp [acknowledge,won,between,serves.master.offset]

theorem ends_one (inside : line < 8) : endOfInterrupt (setBit 0#8 line) = 0#8 := by
  have ends : ∀ line, line < 8 → endOfInterrupt (setBit 0#8 line) = 0#8 := by decide
  exact ends line inside

-- The command every handled interrupt is ended with.
theorem outb_end1 (p : Pics) : outb pic1Command 0x20#8 p = {p with master := {p.master with inService := endOfInterrupt p.master.inService}} := rfl
theorem outb_end2 (p : Pics) : outb pic2Command 0x20#8 p = {p with slave := {p.slave with inService := endOfInterrupt p.slave.inService}} := rfl

theorem Shows.ended (shows : Shows p first l) (inside : line < 8) :
    Shows {p.accept line with inService := endOfInterrupt (p.accept line).inService} first (l.served (first+line)) := by
  refine ⟨shows.ready,shows.offset,?_,shows.mask,?_⟩
  · simpa only [Pic.accept,shows.idle] using ends_one inside
  · intro other bit
    simp only [Pic.accept,Lines.served,clearBit_bit _ inside bit,shows.requests other bit,Function.update_apply]
    by_cases same : other = line <;> simp [same]

theorem Shows.beside (shows : Shows p first l) (apart : ∀ line, line < 8 → first+line ≠ gate) : Shows p first (l.served gate) := by
  refine ⟨shows.ready,shows.offset,shows.idle,shows.mask,?_⟩
  intro line inside
  rw [shows.requests line inside]
  simp [Lines.served,apart line inside]

-- The line between the chips is in service while one of the slave's is, and its
-- request bit was never set.
theorem Shows.between (shows : Shows p 32 l) (never : l.waiting 34 = false) :
    Shows {p.accept 2 with inService := endOfInterrupt (p.accept 2).inService} 32 l := by
  refine ⟨shows.ready,shows.offset,?_,shows.mask,?_⟩
  · simp only [Pic.accept,shows.idle]
    exact ends_one (by decide)
  · intro other bit
    simp only [Pic.accept,clearBit_bit _ (show 2 < 8 by decide) bit,shows.requests other bit]
    by_cases same : other = 2 <;> simp [same,never]

theorem Serves.taken (serves : Serves p l) (got : acknowledge p = some (vector,q)) :
    l.next = some vector ∧ 31 < vector ∧ vector < 48 ∧
      Serves (outb pic1Command 0x20#8 (if 39 < vector then outb pic2Command 0x20#8 q else q)) (l.served vector) := by
  rcases acknowledge_cases serves with ⟨none,_⟩ | ⟨line,inside,apart,next,one⟩ | ⟨line,inside,next,two⟩
  · rw [none] at got
    cases got
  · rw [one] at got
    cases Option.some.inj got
    have low : ¬39 < 32+line := by omega
    refine ⟨next,by omega,by omega,?_⟩
    rw [if_neg low,outb_end1]
    refine ⟨serves.master.ended inside,serves.slave.beside ?_,?_⟩
    · intro other _
      omega
    · simp [Lines.served,Function.update_apply,serves.between]
  · rw [two] at got
    cases Option.some.inj got
    have high : 39 < 40+line := by omega
    refine ⟨next,by omega,by omega,?_⟩
    rw [if_pos high,outb_end2,outb_end1]
    refine ⟨(serves.master.between serves.between).beside ?_,serves.slave.ended inside,?_⟩
    · intro other _
      omega
    · simp [Lines.served,Function.update_apply,serves.between]

theorem Serves.raised (serves : Serves p l) (inside : line < 16) (apart : line ≠ 2) : Serves (raise line p) (l.raised line) := by
  obtain ⟨master,slave,between⟩ := serves
  have clear : (l.raised line).waiting 34 = false := by
    have other : 34 ≠ 32+line := by omega
    simp [Lines.raised,between,other]
  by_cases low : line < 8
  · rw [raise,if_pos low]
    refine ⟨⟨master.ready,master.offset,master.idle,master.mask,?_⟩,⟨slave.ready,slave.offset,slave.idle,slave.mask,?_⟩,clear⟩
    · intro other bit
      simp only [setBit_bit _ low,master.requests other bit,Lines.raised,Function.update_apply]
      by_cases same : other = line <;> simp [same]
    · intro other bit
      have away : 40+other ≠ 32+line := by omega
      simp [slave.requests other bit,Lines.raised,away]
  · have under : line-8 < 8 := by omega
    rw [raise,if_neg low]
    refine ⟨⟨master.ready,master.offset,master.idle,master.mask,?_⟩,⟨slave.ready,slave.offset,slave.idle,slave.mask,?_⟩,clear⟩
    · intro other bit
      have away : other ≠ line := by omega
      simp [master.requests other bit,Lines.raised,away]
    · intro other bit
      simp only [setBit_bit _ under,slave.requests other bit,Lines.raised,Function.update_apply]
      by_cases same : other = line-8
      · have place : 40+other = 32+line := by omega
        rw [if_pos place]
        simp [same]
      · have place : 40+other ≠ 32+line := by omega
        simp [same,place]

theorem Shows.masked (shows : Shows p first l) (value : Bool)
    (bits : ∀ other, other < 8 → byte.getLsbD other = if first+other = gate then !value else p.mask.getLsbD other) :
    Shows (p.data byte) first {l with enabled := Function.update l.enabled gate value} := by
  have data : p.data byte = {p with mask := byte} := by simp [Pic.data,shows.ready]
  rw [data]
  refine ⟨shows.ready,shows.offset,shows.idle,?_,shows.requests⟩
  intro other bit
  simp only [bits other bit,Function.update_apply]
  by_cases same : first+other = gate <;> simp [same,shows.mask other bit]

theorem Shows.unmasked (shows : Shows p first l) (value : Bool) (away : ∀ other, other < 8 → first+other ≠ gate) :
    Shows p first {l with enabled := Function.update l.enabled gate value} := by
  refine ⟨shows.ready,shows.offset,shows.idle,?_,shows.requests⟩
  intro other bit
  simp [shows.mask other bit,away other bit]

theorem outb_data1 (data : Byte) (p : Pics) : outb pic1Data data p = {p with master := p.master.data data} := rfl
theorem outb_data2 (data : Byte) (p : Pics) : outb pic2Data data p = {p with slave := p.slave.data data} := rfl

theorem Serves.rewritten (serves : Serves p l) (value : Bool) (change : Byte → Nat → Byte) (inside : gate < 16)
    (bits : ∀ byte line other, line < 8 → other < 8 →
      (change byte line).getLsbD other = if other = line then !value else byte.getLsbD other) :
    Serves (if gate < 8 then outb pic1Data (change (inb pic1Data p) gate) p else outb pic2Data (change (inb pic2Data p) (gate-8)) p)
      {l with enabled := Function.update l.enabled (32+gate) value} := by
  by_cases low : gate < 8
  · rw [if_pos low,outb_data1]
    refine ⟨serves.master.masked value ?_,serves.slave.unmasked value ?_,serves.between⟩
    · intro other bit
      simp only [bits _ _ _ low bit,Nat.add_left_cancel_iff]
      rfl
    · intro other bit
      omega
  · rw [if_neg low,outb_data2]
    refine ⟨serves.master.unmasked value ?_,serves.slave.masked value ?_,serves.between⟩
    · intro other bit
      omega
    · intro other bit
      have place : (other = gate-8) = (40+other = 32+gate) := by
        rw [eq_iff_iff]
        omega
      simp only [bits _ _ _ (show gate-8 < 8 by omega) bit,place]
      rfl

theorem Serves.enable (serves : Serves p l) (inside : gate < 16) :
    Serves (archIrqEnable gate p).1 {l with enabled := Function.update l.enabled (32+gate) true} := by
  have rewritten := serves.rewritten true clearBit inside fun byte line other low bit => by
    rw [clearBit_bit _ low bit]
    by_cases same : other = line <;> simp [same]
  rw [archIrqEnable,if_pos inside]
  by_cases low : gate < 8 <;> simpa only [low,if_true,if_false] using rewritten

theorem Serves.disable (serves : Serves p l) (inside : gate < 16) :
    Serves (archIrqDisable gate p).1 {l with enabled := Function.update l.enabled (32+gate) false} := by
  have rewritten := serves.rewritten false setBit inside fun byte line other low _ => by
    rw [setBit_bit _ low]
    by_cases same : other = line <;> simp [same]
  rw [archIrqDisable,if_pos inside]
  by_cases low : gate < 8 <;> simpa only [low,if_true,if_false] using rewritten

theorem gate_place (low : 32 ≤ gate) (high : gate < 48) : (gate-32 : Int).toNat < 16 ∧ 32+(gate-32).toNat = gate.toNat := by omega

theorem Serves.enablegate (k : Kernel σ) (serves : Serves k.pics l) (gate : Int) :
    Serves (archInterruptsEnablegate gate k).pics (l.enable gate) := by
  rw [archInterruptsEnablegate,Lines.enable]
  split
  · rename_i range
    obtain ⟨inside,place⟩ := gate_place range.1 range.2
    rw [← place]
    exact serves.enable inside
  · exact serves

theorem Serves.disablegate (k : Kernel σ) (serves : Serves k.pics l) (gate : Int) :
    Serves (archInterruptsDisablegate gate k).pics (l.disable gate) := by
  rw [archInterruptsDisablegate,Lines.disable]
  split
  · rename_i range
    obtain ⟨inside,place⟩ := gate_place range.1 range.2
    rw [← place]
    exact serves.disable inside
  · exact serves

-- The masks of setup_pic: only the keyboard's line and the last one are open.
def bootLines : Lines := ⟨fun gate => decide (gate = 33) || decide (gate = 47),fun _ => false⟩

theorem archIrqInitialize_eq (p : Pics) :
    archIrqInitialize p = ⟨⟨0,true,32#8,0xFD#8,0#8,0#8⟩,⟨0,true,40#8,0x7F#8,0#8,0#8⟩⟩ := rfl

theorem initialized (p : Pics) : Serves (archIrqInitialize p) bootLines := by
  rw [archIrqInitialize_eq]
  refine ⟨⟨rfl,rfl,rfl,?_,?_⟩,⟨rfl,rfl,rfl,?_,?_⟩,rfl⟩
  all_goals decide

-- The kernel beside the lines it is to serve, and the vectors dispatched so far, last first.
structure System (σ : Type) where
  kernel : Kernel σ
  lines : Lines
  dispatched : List Nat

inductive Event (σ : Type) where
  | raise (line : Nat)
  | interrupt
  | enablegate (gate : Int)
  | disablegate (gate : Int)
  | sethandler (gate : Nat) (handler : IntHandler σ)
  | clearhandler (gate : Nat)

-- No device is wired to line 2. An interrupt that finds no request, or whose
-- handler never returns, has no successor.
def step (s : System σ) : Event σ → Option (System σ)
  | .raise line =>
    if line < 16 ∧ line ≠ 2 then
      some {s with kernel := {s.kernel with pics := raise line s.kernel.pics},lines := s.lines.raised line}
    else none
  | .interrupt =>
    match acknowledge s.kernel.pics with
    | none => none
    | some (vector,pics) =>
      (archInterruptHandler vector 0 {s.kernel with pics := pics}).map fun kernel =>
        ⟨kernel,match s.lines.next with
          | none => s.lines
          | some gate => s.lines.served gate,vector::s.dispatched⟩
  | .enablegate gate => some {s with kernel := archInterruptsEnablegate gate s.kernel,lines := s.lines.enable gate}
  | .disablegate gate => some {s with kernel := archInterruptsDisablegate gate s.kernel,lines := s.lines.disable gate}
  | .sethandler gate handler => some {s with kernel := interruptsSethandler gate handler s.kernel}
  | .clearhandler gate => some {s with kernel := interruptsClearhandler gate s.kernel}

def Started (s : System σ) : Prop :=
  (∃ syscallHandler before, s.kernel = interruptsInit syscallHandler before) ∧ s.lines = bootLines ∧ s.dispatched = []

theorem archInterruptHandler_pics (irq : 31 < vector ∧ vector < 48) (handled : archInterruptHandler vector errCode k = some (next : Kernel σ)) :
    next.pics = outb pic1Command 0x20#8 (if 39 < vector then outb pic2Command 0x20#8 k.pics else k.pics) := by
  rw [archInterruptHandler,if_pos irq,archIrqGenericHandler] at handled
  obtain ⟨after,ran,rfl⟩ := Option.map_eq_some_iff.mp handled
  have pics : after.pics = k.pics := by
    rw [interruptsGenericHandler] at ran
    split at ran
    · obtain ⟨world,_,rfl⟩ := Option.map_eq_some_iff.mp ran
      rfl
    · cases ran
  rw [pics]

theorem interrupt_cases (serves : Serves s.kernel.pics s.lines) (taken : step s .interrupt = some (next : System σ)) :
    ∃ vector, s.lines.next = some vector ∧ next.lines = s.lines.served vector ∧ next.dispatched = vector::s.dispatched ∧
      Serves next.kernel.pics next.lines := by
  simp only [step] at taken
  cases got : acknowledge s.kernel.pics with
  | none => simp [got] at taken
  | some answer =>
    obtain ⟨vector,pics⟩ := answer
    obtain ⟨following,low,high,ended⟩ := serves.taken got
    simp only [got,following] at taken
    obtain ⟨kernel,handled,rfl⟩ := Option.map_eq_some_iff.mp taken
    refine ⟨vector,following,rfl,rfl,?_⟩
    rw [archInterruptHandler_pics ⟨low,high⟩ handled]
    exact ended

theorem Serves.step (serves : Serves s.kernel.pics s.lines) (taken : step s event = some (next : System σ)) :
    Serves next.kernel.pics next.lines := by
  cases event with
  | raise line =>
    simp only [InterruptController.step] at taken
    split at taken
    · rename_i wired
      cases Option.some.inj taken
      exact serves.raised wired.1 wired.2
    · cases taken
  | interrupt =>
    obtain ⟨_,_,_,_,kept⟩ := interrupt_cases serves taken
    exact kept
  | enablegate gate =>
    cases Option.some.inj taken
    exact serves.enablegate _ gate
  | disablegate gate =>
    cases Option.some.inj taken
    exact serves.disablegate _ gate
  | sethandler gate handler =>
    cases Option.some.inj taken
    exact serves
  | clearhandler gate =>
    cases Option.some.inj taken
    exact serves

theorem started_serves (s : System σ) (start : Started s) : Serves s.kernel.pics s.lines := by
  obtain ⟨⟨_,_,kernel⟩,lines,_⟩ := start
  rw [kernel,lines]
  exact initialized _

theorem acknowledged (serves : Serves p l) : (acknowledge p).map Prod.fst = l.next := by
  rcases acknowledge_cases serves with ⟨none,next⟩ | ⟨_,_,_,next,one⟩ | ⟨_,_,next,two⟩
  · simp [none,next]
  · simp [one,next]
  · simp [two,next]

theorem Lines.next_some (gate : Nat) (listed : gate ∈ priority) (ready : l.ready gate) : (Lines.next l).isSome :=
  List.find?_isSome.mpr ⟨gate,listed,ready⟩

-- In every run the two chips are the fifteen lines: between two interrupts none
-- is in service, the next vector is theirs, and an enabled request is never stuck.
theorem chips_serve_lines (path : Reached (Started : System σ → Prop) step any s) :
    Serves s.kernel.pics s.lines ∧ (acknowledge s.kernel.pics).map Prod.fst = s.lines.next ∧
      ∀ gate ∈ priority, s.lines.ready gate → (acknowledge s.kernel.pics).isSome := by
  have serves := path.invariant (fun s => Serves s.kernel.pics s.lines) started_serves (fun _ _ _ serves _ taken => serves.step taken)
  have same := acknowledged serves
  refine ⟨serves,same,?_⟩
  intro gate listed ready
  rw [← Option.isSome_map,same]
  exact Lines.next_some gate listed ready

-- A kernel that answers keys, with every line of the second chip let through.
def bootSystem : System Unit :=
  ⟨interruptsInit (fun _ _ world => some world) ⟨⟨⟨0,false,0,0,0,0⟩,⟨0,false,0,0,0,0⟩⟩,fun _ => none,()⟩,bootLines,[]⟩

theorem bootSystem_started : Started bootSystem := ⟨⟨_,_,rfl⟩,rfl,rfl⟩

theorem disk_served :
    ∃ s, Reached (Started : System Unit → Prop) step any s ∧ s.dispatched = [47] ∧
      Serves s.kernel.pics s.lines ∧ (acknowledge s.kernel.pics).map Prod.fst = s.lines.next ∧
        ∀ gate ∈ priority, s.lines.ready gate → (acknowledge s.kernel.pics).isSome := by
  have first : Reached (Started : System Unit → Prop) step any bootSystem := .start bootSystem_started
  have handled := first.extend (Event.sethandler 47 (fun _ _ world => some world)) trivial rfl
  have raised := (handled.extend (Event.enablegate 34) trivial rfl).extend (Event.raise 15) trivial rfl
  have served := raised.extend Event.interrupt trivial rfl
  exact ⟨_,served,rfl,chips_serve_lines served⟩

-- kmain enables and disables no gate.
def Event.Kept : Event σ → Prop
  | .enablegate _ => False
  | .disablegate _ => False
  | _ => True

structure AsBooted (s : System σ) : Prop where
  serves : Serves s.kernel.pics s.lines
  enabled : s.lines.enabled = bootLines.enabled
  dispatched : ∀ vector ∈ s.dispatched, vector = 33

theorem AsBooted.keyboard {s : System σ} (booted : AsBooted s) (following : s.lines.next = some vector) : vector = 33 := by
  have ready := List.find?_some following
  simp only [Lines.ready,booted.enabled,bootLines,Bool.and_eq_true,Bool.or_eq_true,decide_eq_true_eq] at ready
  omega

theorem AsBooted.step (booted : AsBooted s) (kept : event.Kept) (taken : step s event = some (next : System σ)) : AsBooted next := by
  have serves := booted.serves.step taken
  cases event with
  | raise line =>
    simp only [InterruptController.step] at taken
    split at taken
    · cases Option.some.inj taken
      exact ⟨serves,booted.enabled,booted.dispatched⟩
    · cases taken
  | interrupt =>
    obtain ⟨vector,following,lines,dispatched,_⟩ := interrupt_cases booted.serves taken
    refine ⟨serves,by rw [lines]; exact booted.enabled,?_⟩
    intro other member
    rw [dispatched] at member
    rcases List.mem_cons.mp member with rfl | before
    · exact booted.keyboard following
    · exact booted.dispatched other before
  | enablegate gate => exact kept.elim
  | disablegate gate => exact kept.elim
  | sethandler gate handler =>
    cases Option.some.inj taken
    exact ⟨serves,booted.enabled,booted.dispatched⟩
  | clearhandler gate =>
    cases Option.some.inj taken
    exact ⟨serves,booted.enabled,booted.dispatched⟩

-- The last line is open in the second chip's mask and still never heard: whatever
-- the devices raise, the kernel as booted is only ever interrupted by the keyboard.
theorem keyboard_alone (path : Reached (Started : System σ → Prop) step (fun _ event => event.Kept) s) :
    ∀ vector ∈ s.dispatched, vector = 33 := by
  have booted : AsBooted s := by
    refine path.invariant AsBooted ?_ (fun _ _ _ booted kept taken => booted.step kept taken)
    intro s start
    obtain ⟨kernel,lines,none⟩ := start
    exact ⟨started_serves s ⟨kernel,lines,none⟩,by rw [lines],by simp [none]⟩
  exact booted.dispatched

theorem key_served :
    ∃ s, Reached (Started : System Unit → Prop) step (fun _ event => event.Kept) s ∧ s.dispatched.length = 1 ∧ ∀ vector ∈ s.dispatched, vector = 33 := by
  have first : Reached (Started : System Unit → Prop) step (fun _ event => event.Kept) bootSystem := .start bootSystem_started
  have handled := first.extend (Event.sethandler 33 (fun _ _ world => some world)) trivial rfl
  have raised := (handled.extend (Event.raise 15) trivial rfl).extend (Event.raise 1) trivial rfl
  have served := raised.extend Event.interrupt trivial rfl
  exact ⟨_,served,rfl,keyboard_alone served⟩

end KaracaOS.InterruptController
