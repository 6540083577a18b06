import KaracaOS.ByteMemory
import KaracaOS.SysDefs

namespace KaracaOS.IdeSectors
open ByteMemory

abbrev Port := BitVec 16

structure IdeChannel where
  cmdRegsBase : Port
  ctrlReg : Port

structure IdeDevice where
  deviceId : Byte
  deviceExists : Bool
  lbaSupported : Bool
  channel : IdeChannel

inductive Io where
  | outb (port : Port) (data : Byte)
  | inb (port : Port)
  | insw (port : Port) (len : Nat)
  | outsw (port : Port) (len : Nat)
  deriving DecidableEq

-- The ports: what the readings of the status register answer one after the
-- other, how many there were, and all accesses in order.
structure Bus where
  status : Nat → Byte
  reads : Nat
  io : List Io

def ataRegData : Port := 0x00
def ataRegSeccount : Port := 0x02
def ataRegLba0_7 : Port := 0x03
def ataRegLba8_15 : Port := 0x04
def ataRegLba16_23 : Port := 0x05
def ataRegLba24_27 : Port := 0x06
def ataRegCommand : Port := 0x07

def ataCmdRead : Byte := 0x20
def ataCmdWrite : Byte := 0x30

def ataStatusBsyMask : Byte := 0x80
def ataStatusDrqMask : Byte := 0x08
def ataStatusErrMask : Byte := 0x01

def ideWritectrl (c : IdeChannel) (offset : Port) (data : Byte) (b : Bus) : Bus := {b with io := b.io++[.outb (c.cmdRegsBase+offset) data]}

def ideReadaltstatus (c : IdeChannel) (b : Bus) : Byte × Bus := (b.status b.reads,{b with reads := b.reads+1,io := b.io++[.inb c.ctrlReg]})

def archIdeReadbuffer (c : IdeChannel) (len : Nat) (b : Bus) : Bus := {b with io := b.io++[.insw (c.cmdRegsBase+ataRegData) len]}
def archIdeWritebuffer (c : IdeChannel) (len : Nat) (b : Bus) : Bus := {b with io := b.io++[.outsw (c.cmdRegsBase+ataRegData) len]}

-- while(TRUE); without an answer the drive is still busy after so many readings.
def waitLoop : Nat → IdeChannel → Bus → Bus × Option SysRet
  | 0,_,b => (b,none)
  | fuel+1,c,b =>
    let (status,b) := ideReadaltstatus c b
    if status &&& ataStatusBsyMask = 0 ∧ status &&& ataStatusDrqMask ≠ 0 then (b,some .noError)
    else if status &&& ataStatusBsyMask = 0 ∧ status &&& ataStatusDrqMask = 0 then (b,some .unidentifiedError)
    else if status &&& ataStatusErrMask ≠ 0 then (b,some .unidentifiedError)
    else waitLoop fuel c b

def delayReads (c : IdeChannel) : Nat → Bus → Bus
  | 0,b => b
  | count+1,b => delayReads c count (ideReadaltstatus c b).2

def waitForDriveReady (fuel : Nat) (c : IdeChannel) (b : Bus) : Bus × Option SysRet :=
  let (status,b) := ideReadaltstatus c (delayReads c 4 b)
  if status = 0 then (b,some .noDevice) else waitLoop fuel c b

-- The drive-select bit and the three mode bits share the register of the highest address bits.
def driveRegister (d : IdeDevice) (lba : BitVec 32) : Byte :=
  ((((lba >>> 24) &&& (0xFF : BitVec 32)) ||| (d.deviceId.setWidth 32 <<< 4)) ||| (0b11100000 : BitVec 32)).setWidth 8

-- The register writes in front of both commands.
def writeAddress (d : IdeDevice) (lba numSectors : BitVec 32) (b : Bus) : Bus :=
  let b := ideWritectrl d.channel ataRegSeccount (numSectors.setWidth 8) b
  let b := ideWritectrl d.channel ataRegLba0_7 ((lba &&& 0xFF).setWidth 8) b
  let b := ideWritectrl d.channel ataRegLba8_15 (((lba >>> 8) &&& 0xFF).setWidth 8) b
  let b := ideWritectrl d.channel ataRegLba16_23 (((lba >>> 16) &&& 0xFF).setWidth 8) b
  ideWritectrl d.channel ataRegLba24_27 (driveRegister d lba) b

def ideReadsector (fuel : Nat) (d : IdeDevice) (lba numSectors : BitVec 32) (b : Bus) : Bus × Option SysRet :=
  if !d.deviceExists then (b,some .noDevice)
  else if d.lbaSupported then
    let b := ideWritectrl d.channel ataRegCommand ataCmdRead (writeAddress d lba numSectors b)
    match waitForDriveReady fuel d.channel b with
    | (b,some .noError) => (archIdeReadbuffer d.channel (numSectors.toNat*512%word) b,some .noError)
    | (b,ret) => (b,ret)
  else (b,some .notImplemented)

-- The answer of the second wait is dropped.
def ideWritesector (fuel : Nat) (d : IdeDevice) (lba numSectors : BitVec 32) (b : Bus) : Bus × Option SysRet :=
  if !d.deviceExists then (b,some .noDevice)
  else if d.lbaSupported then
    let b := ideWritectrl d.channel ataRegCommand ataCmdWrite (writeAddress d lba numSectors b)
    match waitForDriveReady fuel d.channel b with
    | (b,some .noError) =>
      let (b,ret) := waitForDriveReady fuel d.channel (archIdeWritebuffer d.channel (numSectors.toNat*512%word) b)
      (b,ret.map fun _ => .noError)
    | (b,ret) => (b,ret)
  else (b,some .notImplemented)

-- The sector number becomes a uint32_t in the call; nothing is returned.
def blockDevRead (fuel : Nat) (d : IdeDevice) (sectorNum : BitVec 64) (b : Bus) : Bus := (ideReadsector fuel d (sectorNum.setWidth 32) 1 b).1
def blockDevWrite (fuel : Nat) (d : IdeDevice) (sectorNum : BitVec 64) (b : Bus) : Bus := (ideWritesector fuel d (sectorNum.setWidth 32) 1 b).1

-- The drives' side: a command takes the registers as they were written last.
structure Request where
  command : Byte
  lba : Nat
  select : Bool
  deriving DecidableEq

def lba28 (low middle high drive : Byte) : Nat := low.toNat+256*middle.toNat+65536*high.toNat+16777216*(drive.toNat%16)

def issued (base : Port) : (Port → Byte) → List Io → List Request
  | _,[] => []
  | regs,.outb port data::rest =>
    if port = base+ataRegCommand then
      ⟨data,lba28 (regs (base+ataRegLba0_7)) (regs (base+ataRegLba8_15)) (regs (base+ataRegLba16_23)) (regs (base+ataRegLba24_27)),
        (regs (base+ataRegLba24_27)).getLsbD 4⟩::issued base regs rest
    else issued base (Function.update regs port data) rest
  | regs,_::rest => issued base regs rest

-- What a call of block_dev_read or block_dev_write asks of the drives; the
-- registers held anything before it.
def requestsOf (write : Bool) (fuel : Nat) (d : IdeDevice) (sectorNum : BitVec 64) (status : Nat → Byte) (regs : Port → Byte) : List Request :=
  issued d.channel.cmdRegsBase regs ((if write then blockDevWrite else blockDevRead) fuel d sectorNum ⟨status,0,[]⟩).io

def AddressIntact (d : IdeDevice) (sectorNum : BitVec 64) (requests : List Request) : Prop :=
  ∀ r ∈ requests, r.lba = sectorNum.toNat ∧ r.select = decide (d.deviceId = 1)

variable {d : IdeDevice} {b : Bus} {c : IdeChannel}

def Io.quiet : Io → Prop
  | .outb _ _ => False
  | _ => True

-- Waiting and the data transfers write no register.
def Quiet (b next : Bus) : Prop := ∃ more, next.io = b.io++more ∧ ∀ event ∈ more, event.quiet

theorem Quiet.same : Quiet b b := ⟨[],(List.append_nil _).symm,fun _ member => by cases member⟩

theorem Quiet.trans {middle next : Bus} (one : Quiet b middle) (two : Quiet middle next) : Quiet b next := by
  obtain ⟨first,io,quiet⟩ := one
  obtain ⟨second,io',quiet'⟩ := two
  refine ⟨first++second,by rw [io',io,List.append_assoc],?_⟩
  intro event member
  rcases List.mem_append.mp member with old | new
  · exact quiet event old
  · exact quiet' event new

theorem Quiet.one {next : Bus} {event : Io} (added : next.io = b.io++[event]) (silent : event.quiet) : Quiet b next :=
  ⟨[event],added,fun _ member => by rw [List.mem_singleton.mp member]; exact silent⟩

theorem readaltstatus_quiet (c : IdeChannel) (b : Bus) : Quiet b (ideReadaltstatus c b).2 := .one rfl trivial

theorem waitLoop_quiet (fuel : Nat) (c : IdeChannel) (b : Bus) : Quiet b (waitLoop fuel c b).1 := by
  induction fuel generalizing b with
  | zero => exact .same
  | succ fuel ih =>
    have read := readaltstatus_quiet c b
    rw [waitLoop]
    dsimp only
    split
    · exact read
    · split
      · exact read
      · split
        · exact read
        · exact read.trans (ih _)

theorem delayReads_quiet (c : IdeChannel) (count : Nat) (b : Bus) : Quiet b (delayReads c count b) := by
  induction count generalizing b with
  | zero => exact .same
  | succ count ih => exact (readaltstatus_quiet c b).trans (ih _)

theorem waitForDriveReady_quiet (fuel : Nat) (c : IdeChannel) (b : Bus) : Quiet b (waitForDriveReady fuel c b).1 := by
  have read := (delayReads_quiet c 4 b).trans (readaltstatus_quiet c _)
  unfold waitForDriveReady
  dsimp only
  split
  · exact read
  · exact read.trans (waitLoop_quiet fuel c _)

def commandOf (write : Bool) : Byte := if write then ataCmdWrite else ataCmdRead

def commanded (write : Bool) (d : IdeDevice) (lba numSectors : BitVec 32) (b : Bus) : Bus :=
  ideWritectrl d.channel ataRegCommand (commandOf write) (writeAddress d lba numSectors b)

theorem call_quiet (write : Bool) (fuel : Nat) (sectorNum : BitVec 64) (b : Bus) (exists_ : d.deviceExists = true) (lba : d.lbaSupported = true) :
    Quiet (commanded write d (sectorNum.setWidth 32) 1 b) ((if write then blockDevWrite else blockDevRead) fuel d sectorNum b) := by
  cases write with
  | true =>
    have waited := waitForDriveReady_quiet fuel d.channel (commanded true d (sectorNum.setWidth 32) 1 b)
    rw [if_pos rfl,blockDevWrite,ideWritesector,exists_,lba]
    dsimp only
    rw [if_neg (show ¬ (!true) = true from nofun),if_pos rfl]
    show Quiet _ (match waitForDriveReady fuel d.channel (commanded true d (sectorNum.setWidth 32) 1 b) with
      | (b,some .noError) => _
      | (b,ret) => (b,ret)).1
    split
    · rename_i ready same
      rw [same] at waited
      have sent : Quiet ready (archIdeWritebuffer d.channel ((1 : BitVec 32).toNat*512%word) ready) := .one rfl trivial
      exact (waited.trans sent).trans (waitForDriveReady_quiet fuel d.channel _)
    · rename_i same
      rw [same] at waited
      exact waited
  | false =>
    have waited := waitForDriveReady_quiet fuel d.channel (commanded false d (sectorNum.setWidth 32) 1 b)
    rw [if_neg Bool.false_ne_true,blockDevRead,ideReadsector,exists_,lba]
    dsimp only
    rw [if_neg (show ¬ (!true) = true from nofun),if_pos rfl]
    show Quiet _ (match waitForDriveReady fuel d.channel (commanded false d (sectorNum.setWidth 32) 1 b) with
      | (b,some .noError) => _
      | (b,ret) => (b,ret)).1
    split
    · rename_i ready same
      rw [same] at waited
      exact waited.trans (.one rfl trivial)
    · rename_i same
      rw [same] at waited
      exact waited

theorem issued_quiet (base : Port) (regs : Port → Byte) (events : List Io) (quiet : ∀ event ∈ events, event.quiet) :
    issued base regs events = [] := by
  induction events with
  | nil => rfl
  | cons event events ih =>
    have later := ih fun event member => quiet event (List.mem_cons_of_mem _ member)
    cases event with
    | outb port data => exact absurd (quiet _ List.mem_cons_self) id
    | inb port => exact later
    | insw port len => exact later
    | outsw port len => exact later

theorem ports_apart (base : Port) (a b : Port) (differ : a ≠ b) : base+a ≠ base+b := fun same => differ ((BitVec.add_right_inj base).mp same)

theorem requests_commanded (write : Bool) (fuel : Nat) (sectorNum : BitVec 64) (status : Nat → Byte) (regs : Port → Byte)
    (exists_ : d.deviceExists = true) (lba : d.lbaSupported = true) :
    requestsOf write fuel d sectorNum status regs = [⟨commandOf write,
      lba28 (((sectorNum.setWidth 32 : BitVec 32) &&& 0xFF).setWidth 8) ((((sectorNum.setWidth 32 : BitVec 32) >>> 8) &&& 0xFF).setWidth 8)
        ((((sectorNum.setWidth 32 : BitVec 32) >>> 16) &&& 0xFF).setWidth 8) (driveRegister d (sectorNum.setWidth 32)),
      (driveRegister d (sectorNum.setWidth 32)).getLsbD 4⟩] := by
  obtain ⟨more,io,quiet⟩ := call_quiet write fuel sectorNum ⟨status,0,[]⟩ exists_ lba
  have ports : ataRegSeccount ≠ ataRegCommand ∧ ataRegLba0_7 ≠ ataRegCommand ∧ ataRegLba8_15 ≠ ataRegCommand ∧
      ataRegLba16_23 ≠ ataRegCommand ∧ ataRegLba24_27 ≠ ataRegCommand := by decide
  obtain ⟨first,second,third,fourth,fifth⟩ := ports
  have low := ports_apart d.channel.cmdRegsBase
  unfold requestsOf
  rw [io]
  simp only [commanded,writeAddress,ideWritectrl,List.nil_append,List.cons_append]
  rw [issued,if_neg (low _ _ first),issued,if_neg (low _ _ second),issued,if_neg (low _ _ third),issued,if_neg (low _ _ fourth),
    issued,if_neg (low _ _ fifth),issued,if_pos rfl,issued_quiet _ _ _ quiet]
  simp [ataRegSeccount,ataRegLba0_7,ataRegLba8_15,ataRegLba16_23,ataRegLba24_27]

theorem drive_low (d : IdeDevice) (lba : BitVec 32) : (driveRegister d lba).toNat%16 = lba.toNat/16777216%16 := by
  have shifted : (d.deviceId.setWidth 32 <<< 4).toNat%2^4 = 0 := by
    rw [BitVec.toNat_shiftLeft,Nat.shiftLeft_eq]
    omega
  have mode : (0b11100000 : BitVec 32).toNat%2^4 = 0 := by decide
  have low : (driveRegister d lba).toNat%2^4 = (lba >>> 24 &&& (0xFF : BitVec 32)).toNat%2^4 := by
    unfold driveRegister
    rw [BitVec.toNat_setWidth,Nat.mod_mod_of_dvd _ (by decide),BitVec.toNat_or,BitVec.toNat_or,Nat.or_mod_two_pow,Nat.or_mod_two_pow,
      shifted,mode,Nat.or_zero,Nat.or_zero]
  have byte : (lba >>> 24 &&& (0xFF : BitVec 32)).toNat = lba.toNat/16777216%256 := by
    rw [BitVec.toNat_and,BitVec.toNat_ushiftRight,Nat.shiftRight_eq_div_pow]
    exact Nat.and_two_pow_sub_one_eq_mod _ 8
  rw [show (16 : Nat) = 2^4 from rfl,low,byte]
  omega

theorem drive_select (id : d.deviceId = 0 ∨ d.deviceId = 1) (lba : BitVec 32) (small : lba.toNat < 268435456) :
    (driveRegister d lba).getLsbD 4 = decide (d.deviceId = 1) := by
  have clear : lba[28] = false := by
    rw [← BitVec.getLsbD_eq_getElem]
    exact Nat.testBit_lt_two_pow small
  unfold driveRegister
  rcases id with known | known <;> rw [known] <;> simp [clear]

theorem address_decoded (d : IdeDevice) (lba : BitVec 32) :
    lba28 ((lba &&& 0xFF).setWidth 8) (((lba >>> 8) &&& 0xFF).setWidth 8) (((lba >>> 16) &&& 0xFF).setWidth 8) (driveRegister d lba) =
      lba.toNat%268435456 := by
  have byte : ∀ w : BitVec 32, ((w &&& 0xFF).setWidth 8).toNat = w.toNat%256 := by
    intro w
    have masked : (w &&& 0xFF).toNat = w.toNat%256 := by
      rw [BitVec.toNat_and]
      exact Nat.and_two_pow_sub_one_eq_mod _ 8
    rw [BitVec.toNat_setWidth,masked]
    omega
  have small := lba.isLt
  unfold lba28
  rw [byte,byte,byte,drive_low,BitVec.toNat_ushiftRight,BitVec.toNat_ushiftRight,Nat.shiftRight_eq_div_pow,Nat.shiftRight_eq_div_pow]
  omega

theorem no_request (write : Bool) (fuel : Nat) (sectorNum : BitVec 64) (status : Nat → Byte) (regs : Port → Byte)
    (silent : d.deviceExists = false ∨ d.lbaSupported = false) : requestsOf write fuel d sectorNum status regs = [] := by
  have unchanged : ((if write then blockDevWrite else blockDevRead) fuel d sectorNum ⟨status,0,[]⟩).io = [] := by
    unfold blockDevWrite blockDevRead ideWritesector ideReadsector
    rcases silent with none | none
    · cases write <;> simp [none]
    · cases exists_ : d.deviceExists <;> cases write <;> simp [none,exists_]
  unfold requestsOf
  rw [unchanged]
  rfl

theorem address_intact_iff (write : Bool) (fuel : Nat) (d : IdeDevice) (id : d.deviceId = 0 ∨ d.deviceId = 1) (sectorNum : BitVec 64)
    (status : Nat → Byte) (regs : Port → Byte) :
    AddressIntact d sectorNum (requestsOf write fuel d sectorNum status regs) ↔
      d.deviceExists = false ∨ d.lbaSupported = false ∨ sectorNum.toNat < 268435456 := by
  by_cases silent : d.deviceExists = false ∨ d.lbaSupported = false
  · rw [no_request write fuel sectorNum status regs silent,← or_assoc]
    exact ⟨fun _ => .inl silent,fun _ _ member => by cases member⟩
  · rw [not_or,Bool.not_eq_false,Bool.not_eq_false] at silent
    obtain ⟨exists_,lba⟩ := silent
    rw [requests_commanded write fuel sectorNum status regs exists_ lba,exists_,lba]
    unfold AddressIntact
    simp only [List.mem_singleton,forall_eq,address_decoded,BitVec.toNat_setWidth,Bool.true_eq_false,false_or]
    constructor
    · rintro ⟨same,_⟩
      omega
    · intro small
      refine ⟨by omega,drive_select id _ ?_⟩
      rw [BitVec.toNat_setWidth]
      omega

-- The second part: sector numbers below the bound do not address one sector.
theorem sector_address_iff (write : Bool) (fuel : Nat) (d : IdeDevice) (id : d.deviceId = 0 ∨ d.deviceId = 1) (sectorNum : BitVec 64)
    (status : Nat → Byte) (regs : Port → Byte) :
    (AddressIntact d sectorNum (requestsOf write fuel d sectorNum status regs) ↔
      d.deviceExists = false ∨ d.lbaSupported = false ∨ sectorNum.toNat < 268435456) ∧
    (sectorNum.toNat < 268435456 → ∀ other : BitVec 64, other.toNat < 268435456 → other ≠ sectorNum → ∀ write' fuel' status' regs',
      ∀ r ∈ requestsOf write fuel d sectorNum status regs, ∀ r' ∈ requestsOf write' fuel' d other status' regs', r.lba ≠ r'.lba) := by
  refine ⟨address_intact_iff write fuel d id sectorNum status regs,?_⟩
  intro small other small' differ write' fuel' status' regs' r member r' member' same
  obtain ⟨here,_⟩ := (address_intact_iff write fuel d id sectorNum status regs).mpr (.inr (.inr small)) r member
  obtain ⟨there,_⟩ := (address_intact_iff write' fuel' d id other status' regs').mpr (.inr (.inr small')) r' member'
  exact differ (BitVec.eq_of_toNat_eq (there.symm.trans (same.symm.trans here)))

def driveOf (id : Byte) : IdeDevice := ⟨id,true,true,⟨0x1F0,0x3F6⟩⟩

theorem second_drive_addressed : ((driveOf 1).deviceId = 0 ∨ (driveOf 1).deviceId = 1) ∧
    AddressIntact (driveOf 1) 0x0ABCDEF1 (requestsOf false 1 (driveOf 1) 0x0ABCDEF1 (fun _ => 0x58) (fun _ => 0)) := by
  refine ⟨.inr rfl,(sector_address_iff false 1 (driveOf 1) (.inr rfl) 0x0ABCDEF1 (fun _ => 0x58) (fun _ => 0)).1.mpr ?_⟩
  exact .inr (.inr (by decide))

-- Sector 2^28 of the first drive: a read of sector 0 of the second.
theorem other_drive_read : ((driveOf 0).deviceId = 0 ∨ (driveOf 0).deviceId = 1) ∧
    requestsOf false 1 (driveOf 0) 0x10000000 (fun _ => 0x58) (fun _ => 0) = [⟨ataCmdRead,0,true⟩] ∧
    ¬ AddressIntact (driveOf 0) 0x10000000 (requestsOf false 1 (driveOf 0) 0x10000000 (fun _ => 0x58) (fun _ => 0)) := by
  have asked : requestsOf false 1 (driveOf 0) 0x10000000 (fun _ => 0x58) (fun _ => 0) = [⟨ataCmdRead,0,true⟩] := by decide
  refine ⟨.inl rfl,asked,?_⟩
  rw [asked]
  intro intact
  cases (intact _ List.mem_cons_self).1

end KaracaOS.IdeSectors
