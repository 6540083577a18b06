import KaracaOS.IdeSectors
import KaracaOS.BlockDevice
import KaracaOS.StepRuns

namespace KaracaOS.IdeDrives
open ByteMemory StepRuns IdeSectors

-- The two drives of a channel: what the ports hold, the command whose data has
-- not been moved yet, the disks with their numbers of sectors, and the buffer
-- of the call in progress.
structure Channel where
  regs : Port → Byte
  transfer : Option Request
  disks : Bool → Bytes
  sectors : Bool → Nat
  buffer : Bytes

def Channel.request (base : Port) (h : Channel) (command : Byte) : Request :=
  ⟨command,lba28 (h.regs (base+ataRegLba0_7)) (h.regs (base+ataRegLba8_15)) (h.regs (base+ataRegLba16_23)) (h.regs (base+ataRegLba24_27)),
    (h.regs (base+ataRegLba24_27)).getLsbD 4⟩

def Channel.has (h : Channel) (r : Request) : Prop := r.lba < h.sectors r.select
instance (h : Channel) (r : Request) : Decidable (h.has r) := inferInstanceAs (Decidable (_ < _))

-- Data moves one sector at a time, in the direction of the command; any other
-- access to the data port is none.
def Channel.access (base : Port) (h : Channel) : Io → Option Channel
  | .inb _ => some h
  | .outb port data =>
    if port = base+ataRegCommand then some {h with transfer := some (h.request base data)}
    else some {h with regs := Function.update h.regs port data}
  | .insw port len =>
    match h.transfer with
    | none => none
    | some r =>
      if port = base+ataRegData ∧ len = 512 ∧ h.regs (base+ataRegSeccount) = 1 ∧ r.command = ataCmdRead ∧ h.has r then
        some {h with transfer := none,buffer := blit h.buffer 0 (h.disks r.select) (r.lba*512) 512}
      else none
  | .outsw port len =>
    match h.transfer with
    | none => none
    | some r =>
      if port = base+ataRegData ∧ len = 512 ∧ h.regs (base+ataRegSeccount) = 1 ∧ r.command = ataCmdWrite ∧ h.has r then
        some {h with
          transfer := none
          disks := Function.update h.disks r.select (blit (h.disks r.select) (r.lba*512) h.buffer 0 512)}
      else none

def Channel.run (base : Port) (h : Channel) (io : List Io) : Option Channel := io.foldlM (Channel.access base) h

def busy (status : Byte) : Bool := status &&& ataStatusBsyMask ≠ 0
def hasData (status : Byte) : Bool := status &&& ataStatusDrqMask ≠ 0
def failed (status : Byte) : Bool := status &&& ataStatusErrMask ≠ 0

-- A drive with the sector is busy for a while and then has or wants the data.
-- Nothing is said about the other readings.
def Channel.answers (h : Channel) (status : Byte) : Prop :=
  ∀ r, h.transfer = some r → h.has r → if busy status then failed status = false else hasData status = true

-- The n-th reading and those behind it come from these drives. The first four of a call only
-- pass the time a drive takes to show its status.
def Answered (base : Port) (status : Nat → Byte) : Nat → Channel → List Io → Prop
  | _,_,[] => True
  | n,h,.inb _::rest => (4 ≤ n → h.answers (status n)) ∧ Answered base status (n+1) h rest
  | n,h,event::rest => ∀ next, h.access base event = some next → Answered base status n next rest

-- No drive is busy for `fuel` readings on end.
def Prompt (fuel : Nat) (status : Nat → Byte) : Prop := ∀ n, ∃ k < fuel, busy (status (n+k)) = false

variable {base : Port} {h next : Channel} {status : Nat → Byte} {c : IdeChannel} {b : Bus} {d : IdeDevice} {fuel n k : Nat} {lba : BitVec 32} {sectorNum : BitVec 64}

def heard (c : IdeChannel) (k : Nat) (b : Bus) : Bus := {b with reads := b.reads+k,io := b.io++List.replicate k (.inb c.ctrlReg)}

theorem heard_heard (c : IdeChannel) (j k : Nat) (b : Bus) : heard c k (heard c j b) = heard c (j+k) b := by
  simp [heard,Nat.add_assoc]

theorem ideReadaltstatus_heard (c : IdeChannel) (b : Bus) : ideReadaltstatus c b = (b.status b.reads,heard c 1 b) := rfl

theorem delayReads_heard (c : IdeChannel) (count : Nat) (b : Bus) : delayReads c count b = heard c count b := by
  induction count generalizing b with
  | zero => simp [delayReads,heard]
  | succ count ih => rw [delayReads,ih,ideReadaltstatus_heard,heard_heard,Nat.add_comm]

-- One reading as a drive with the sector gives it.
def Serving (status : Byte) : Prop := if busy status then failed status = false else hasData status = true

theorem waitLoop_heard (fuel : Nat) (c : IdeChannel) (b : Bus) : ∃ k, (waitLoop fuel c b).1 = heard c k b ∧
    ((∀ i < k, Serving (b.status (b.reads+i))) → (∃ i < fuel, busy (b.status (b.reads+i)) = false) → (waitLoop fuel c b).2 = some .noError) := by
  induction fuel generalizing b with
  | zero => exact ⟨0,by simp [waitLoop,heard],fun _ ⟨_,less,_⟩ => absurd less (Nat.not_lt_zero _)⟩
  | succ fuel ih =>
    rw [waitLoop,ideReadaltstatus_heard]
    dsimp only
    by_cases waiting : busy (b.status b.reads) = true
    · have set : ¬ b.status b.reads &&& ataStatusBsyMask = 0 := by simpa [busy] using waiting
      rw [if_neg (fun both => set both.1),if_neg (fun both => set both.1)]
      by_cases wrong : failed (b.status b.reads) = true
      · rw [if_pos (by simpa [failed] using wrong)]
        refine ⟨1,rfl,?_⟩
        intro serving _
        have fine := serving 0 Nat.one_pos
        simp [Serving,waiting,wrong] at fine
      · rw [if_neg (by simpa [failed] using wrong)]
        obtain ⟨k,later,ends⟩ := ih (heard c 1 b)
        refine ⟨1+k,by rw [later,heard_heard],?_⟩
        rintro serving ⟨i,less,free⟩
        refine ends ?_ ?_
        · intro i inside
          have reading := serving (1+i) (by omega)
          rwa [← Nat.add_assoc] at reading
        · cases i with
          | zero => exact absurd (free.symm.trans waiting) Bool.false_ne_true
          | succ i => exact ⟨i,by omega,by rwa [Nat.add_comm i,← Nat.add_assoc] at free⟩
    · have clear : b.status b.reads &&& ataStatusBsyMask = 0 := by simpa [busy] using waiting
      by_cases data : hasData (b.status b.reads) = true
      · rw [if_pos ⟨clear,by simpa [hasData] using data⟩]
        exact ⟨1,rfl,fun _ _ => rfl⟩
      · have none_ : b.status b.reads &&& ataStatusDrqMask = 0 := by simpa [hasData] using data
        rw [if_neg (fun both => both.2 none_),if_pos ⟨clear,none_⟩]
        refine ⟨1,rfl,?_⟩
        intro serving _
        have fine := serving 0 Nat.one_pos
        simp [Serving,waiting,data] at fine

theorem serving_shows {status : Byte} (serving : Serving status) : status ≠ 0 := by
  rintro rfl
  simp [Serving,busy,hasData] at serving

theorem waitForDriveReady_heard (fuel : Nat) (c : IdeChannel) (b : Bus) : ∃ k, (waitForDriveReady fuel c b).1 = heard c k b ∧
    ((∀ i < k, 4 ≤ i → Serving (b.status (b.reads+i))) → Prompt fuel b.status → (waitForDriveReady fuel c b).2 = some .noError) := by
  unfold waitForDriveReady
  rw [delayReads_heard,ideReadaltstatus_heard,heard_heard]
  dsimp only
  split
  · rename_i silent
    refine ⟨5,rfl,?_⟩
    intro serving _
    exact absurd silent (serving_shows (serving 4 (by decide) (by decide)))
  · obtain ⟨k,later,ends⟩ := waitLoop_heard fuel c (heard c (4+1) b)
    refine ⟨5+k,by rw [later,heard_heard],?_⟩
    intro serving prompt
    refine ends ?_ (prompt _)
    intro i inside
    have reading := serving (5+i) (by omega) (by omega)
    rwa [← Nat.add_assoc] at reading

theorem run_append (h : Channel) (first second : List Io) : h.run base (first++second) = (h.run base first).bind (fun next => next.run base second) :=
  List.foldlM_append

theorem run_reads (h : Channel) (port : Port) (k : Nat) : h.run base (List.replicate k (.inb port)) = some h := by
  induction k with
  | zero => rfl
  | succ k ih => exact ih

theorem answered_reads (answered : Answered base status n h (List.replicate k (.inb port)++rest)) :
    (∀ i < k, 4 ≤ n+i → h.answers (status (n+i))) ∧ Answered base status (n+k) h rest := by
  induction k generalizing n with
  | zero => exact ⟨fun i none_ => absurd none_ (Nat.not_lt_zero i),answered⟩
  | succ k ih =>
    obtain ⟨first,others⟩ := answered
    obtain ⟨later,behind⟩ := ih others
    refine ⟨?_,by rwa [Nat.add_assoc,Nat.add_comm 1] at behind⟩
    intro i inside late
    cases i with
    | zero => exact first late
    | succ i =>
      have reading := later i (by omega) (by omega)
      rwa [Nat.add_assoc,Nat.add_comm 1] at reading

-- The registers once the address of one sector has been written.
def addressRegs (d : IdeDevice) (lba : BitVec 32) (regs : Port → Byte) : Port → Byte :=
  let regs := Function.update regs (d.channel.cmdRegsBase+ataRegSeccount) 1
  let regs := Function.update regs (d.channel.cmdRegsBase+ataRegLba0_7) ((lba &&& 0xFF).setWidth 8)
  let regs := Function.update regs (d.channel.cmdRegsBase+ataRegLba8_15) (((lba >>> 8) &&& 0xFF).setWidth 8)
  let regs := Function.update regs (d.channel.cmdRegsBase+ataRegLba16_23) (((lba >>> 16) &&& 0xFF).setWidth 8)
  Function.update regs (d.channel.cmdRegsBase+ataRegLba24_27) (driveRegister d lba)

-- What a drive makes of the command for a sector whose number fits.
def asked (write : Bool) (d : IdeDevice) (lba : BitVec 32) : Request := ⟨commandOf write,lba.toNat,decide (d.deviceId = 1)⟩

def Channel.commanded (write : Bool) (d : IdeDevice) (lba : BitVec 32) (h : Channel) : Channel :=
  {h with regs := addressRegs d lba h.regs,transfer := some (asked write d lba)}

def writes (write : Bool) (d : IdeDevice) (lba : BitVec 32) : List Io :=
  [.outb (d.channel.cmdRegsBase+ataRegSeccount) 1,.outb (d.channel.cmdRegsBase+ataRegLba0_7) ((lba &&& 0xFF).setWidth 8),
    .outb (d.channel.cmdRegsBase+ataRegLba8_15) (((lba >>> 8) &&& 0xFF).setWidth 8),
    .outb (d.channel.cmdRegsBase+ataRegLba16_23) (((lba >>> 16) &&& 0xFF).setWidth 8),
    .outb (d.channel.cmdRegsBase+ataRegLba24_27) (driveRegister d lba),.outb (d.channel.cmdRegsBase+ataRegCommand) (commandOf write)]

theorem commanded_io (write : Bool) (d : IdeDevice) (lba : BitVec 32) (b : Bus) :
    commanded write d lba 1 b = {b with io := b.io++writes write d lba} := by
  simp [commanded,writeAddress,ideWritectrl,writes]

theorem access_reg (h : Channel) (offset : Port) (data : Byte) (other : offset ≠ ataRegCommand) :
    h.access base (.outb (base+offset) data) = some {h with regs := Function.update h.regs (base+offset) data} :=
  if_neg (ports_apart base _ _ other)

theorem access_command (h : Channel) (data : Byte) :
    h.access base (.outb (base+ataRegCommand) data) = some {h with transfer := some (h.request base data)} :=
  if_pos rfl

theorem writes_run (id : d.deviceId = 0 ∨ d.deviceId = 1) (small : lba.toNat < 268435456) (write : Bool) (h : Channel) :
    h.run d.channel.cmdRegsBase (writes write d lba) = some (h.commanded write d lba) := by
  have registers : addressRegs d lba h.regs (d.channel.cmdRegsBase+ataRegLba24_27) = driveRegister d lba ∧
      addressRegs d lba h.regs (d.channel.cmdRegsBase+ataRegLba16_23) = ((lba >>> 16) &&& 0xFF).setWidth 8 ∧
      addressRegs d lba h.regs (d.channel.cmdRegsBase+ataRegLba8_15) = ((lba >>> 8) &&& 0xFF).setWidth 8 ∧
      addressRegs d lba h.regs (d.channel.cmdRegsBase+ataRegLba0_7) = (lba &&& 0xFF).setWidth 8 := by
    simp [addressRegs,ataRegLba0_7,ataRegLba8_15,ataRegLba16_23,ataRegLba24_27]
  obtain ⟨drive,high,middle,low⟩ := registers
  have request : Channel.request d.channel.cmdRegsBase {h with regs := addressRegs d lba h.regs} (commandOf write) = asked write d lba := by
    simp only [Channel.request,drive,high,middle,low,address_decoded,drive_select id lba small,asked,Nat.mod_eq_of_lt small]
  simp only [Channel.run,writes,List.foldlM_cons,access_reg _ ataRegSeccount _ (by decide),access_reg _ ataRegLba0_7 _ (by decide),
    access_reg _ ataRegLba8_15 _ (by decide),access_reg _ ataRegLba16_23 _ (by decide),access_reg _ ataRegLba24_27 _ (by decide),
    access_command,List.foldlM_nil,Option.bind_eq_bind,Option.bind_some]
  show some {h with regs := addressRegs d lba h.regs,transfer := some (Channel.request _ {h with regs := addressRegs d lba h.regs} _)} = _
  rw [request]
  rfl

theorem answered_writes (answered : Answered d.channel.cmdRegsBase status n h (writes write d lba++rest))
    (ran : h.run d.channel.cmdRegsBase (writes write d lba) = some next) : Answered d.channel.cmdRegsBase status n next rest := by
  have outs : ∀ events : List Io, (∀ event ∈ events, ∃ port data, event = .outb port data) → ∀ h : Channel, h.run d.channel.cmdRegsBase events = some next →
      Answered d.channel.cmdRegsBase status n h (events++rest) → Answered d.channel.cmdRegsBase status n next rest := by
    intro events
    induction events with
    | nil =>
      intro _ h ran answered
      cases Option.some.inj ran
      exact answered
    | cons event events ih =>
      intro only h ran answered
      obtain ⟨⟨port,data,rfl⟩,others⟩ := List.forall_mem_cons.mp only
      obtain ⟨middle,first,later⟩ := Option.bind_eq_some_iff.mp ran
      exact ih others middle later (answered middle first)
  refine outs _ ?_ h ran answered
  simp [writes]

theorem asked_has (h : Channel) (inside : lba.toNat < h.sectors (decide (d.deviceId = 1))) : (h.commanded write d lba).has (asked write d lba) := inside

theorem answers_serving (inside : lba.toNat < h.sectors (decide (d.deviceId = 1))) (answers : (h.commanded write d lba).answers byte) : Serving byte :=
  answers _ rfl (asked_has h inside)

def Channel.read (d : IdeDevice) (lba : BitVec 32) (h : Channel) : Channel :=
  {h with
    regs := addressRegs d lba h.regs
    transfer := none
    buffer := blit h.buffer 0 (h.disks (decide (d.deviceId = 1))) (lba.toNat*512) 512}

def Channel.wrote (d : IdeDevice) (lba : BitVec 32) (h : Channel) : Channel :=
  {h with
    regs := addressRegs d lba h.regs
    transfer := none
    disks := Function.update h.disks (decide (d.deviceId = 1))
      (blit (h.disks (decide (d.deviceId = 1))) (lba.toNat*512) h.buffer 0 512)}

theorem count_set (d : IdeDevice) (lba : BitVec 32) (regs : Port → Byte) :
    addressRegs d lba regs (d.channel.cmdRegsBase+ataRegSeccount) = 1 := by
  simp [addressRegs,ataRegSeccount,ataRegLba0_7,ataRegLba8_15,ataRegLba16_23,ataRegLba24_27]

theorem read_data (inside : lba.toNat < h.sectors (decide (d.deviceId = 1))) :
    (h.commanded false d lba).access d.channel.cmdRegsBase (.insw (d.channel.cmdRegsBase+ataRegData) 512) = some (h.read d lba) :=
  if_pos ⟨rfl,rfl,count_set d lba h.regs,rfl,inside⟩

theorem write_data (inside : lba.toNat < h.sectors (decide (d.deviceId = 1))) :
    (h.commanded true d lba).access d.channel.cmdRegsBase (.outsw (d.channel.cmdRegsBase+ataRegData) 512) = some (h.wrote d lba) :=
  if_pos ⟨rfl,rfl,count_set d lba h.regs,rfl,inside⟩

theorem call_waits (id : d.deviceId = 0 ∨ d.deviceId = 1) (small : lba.toNat < 268435456)
    (inside : lba.toNat < h.sectors (decide (d.deviceId = 1))) (prompt : Prompt fuel status) (write : Bool) :
    ∃ k, (waitForDriveReady fuel d.channel (commanded write d lba 1 ⟨status,0,[]⟩)).1 = ⟨status,k,writes write d lba++List.replicate k (.inb d.channel.ctrlReg)⟩ ∧
      ∀ rest, Answered d.channel.cmdRegsBase status 0 h (writes write d lba++List.replicate k (.inb d.channel.ctrlReg)++rest) →
        (waitForDriveReady fuel d.channel (commanded write d lba 1 ⟨status,0,[]⟩)).2 = some .noError := by
  rw [commanded_io]
  obtain ⟨k,waited,ends⟩ := waitForDriveReady_heard fuel d.channel ⟨status,0,[]++writes write d lba⟩
  refine ⟨k,by rw [waited]; simp [heard],?_⟩
  intro rest answered
  rw [List.append_assoc] at answered
  obtain ⟨readings,_⟩ := answered_reads (answered_writes answered (writes_run id small write h))
  exact ends (fun i less late => answers_serving inside (readings i less (by omega))) prompt

def before (write : Bool) (d : IdeDevice) (lba : BitVec 32) (k : Nat) : List Io := writes write d lba++List.replicate k (.inb d.channel.ctrlReg)

theorem before_run (id : d.deviceId = 0 ∨ d.deviceId = 1) (small : lba.toNat < 268435456) (write : Bool) (k : Nat) (rest : List Io) :
    h.run d.channel.cmdRegsBase (before write d lba k++rest) = (h.commanded write d lba).run d.channel.cmdRegsBase rest := by
  rw [before,List.append_assoc,run_append,writes_run id small,Option.bind_some,run_append,run_reads,Option.bind_some]

theorem blockDevRead_io (exists_ : d.deviceExists = true) (lba : d.lbaSupported = true) (sectorNum : BitVec 64) (b : Bus) :
    (blockDevRead fuel d sectorNum b).io =
      (waitForDriveReady fuel d.channel (commanded false d (sectorNum.setWidth 32) 1 b)).1.io++
        if (waitForDriveReady fuel d.channel (commanded false d (sectorNum.setWidth 32) 1 b)).2 = some .noError then
          [.insw (d.channel.cmdRegsBase+ataRegData) 512] else [] := by
  have called : commanded false d (sectorNum.setWidth 32) 1 b =
    ideWritectrl d.channel ataRegCommand ataCmdRead (writeAddress d (sectorNum.setWidth 32) 1 b) := rfl
  simp only [blockDevRead,ideReadsector,exists_,lba,Bool.not_true,Bool.false_eq_true,if_false,if_true,called]
  generalize waitForDriveReady fuel d.channel (ideWritectrl d.channel ataRegCommand ataCmdRead (writeAddress d (sectorNum.setWidth 32) 1 b)) = waited
  obtain ⟨b,ret⟩ := waited
  cases ret with
  | none => simp
  | some ret => cases ret <;> simp [archIdeReadbuffer,word]

theorem blockDevWrite_io (exists_ : d.deviceExists = true) (lba : d.lbaSupported = true) (sectorNum : BitVec 64) (b : Bus) :
    ∃ k, (blockDevWrite fuel d sectorNum b).io =
      (waitForDriveReady fuel d.channel (commanded true d (sectorNum.setWidth 32) 1 b)).1.io++
        if (waitForDriveReady fuel d.channel (commanded true d (sectorNum.setWidth 32) 1 b)).2 = some .noError then
          .outsw (d.channel.cmdRegsBase+ataRegData) 512::List.replicate k (.inb d.channel.ctrlReg) else [] := by
  have called : commanded true d (sectorNum.setWidth 32) 1 b =
    ideWritectrl d.channel ataRegCommand ataCmdWrite (writeAddress d (sectorNum.setWidth 32) 1 b) := rfl
  simp only [blockDevWrite,ideWritesector,exists_,lba,Bool.not_true,Bool.false_eq_true,if_false,if_true,called]
  generalize waitForDriveReady fuel d.channel (ideWritectrl d.channel ataRegCommand ataCmdWrite (writeAddress d (sectorNum.setWidth 32) 1 b)) = waited
  obtain ⟨b,ret⟩ := waited
  obtain ⟨k,second,_⟩ := waitForDriveReady_heard fuel d.channel (archIdeWritebuffer d.channel ((1 : BitVec 32).toNat*512%word) b)
  cases ret with
  | none => simp
  | some ret =>
    cases ret with
    | noError =>
      refine ⟨k,?_⟩
      show (waitForDriveReady fuel d.channel (archIdeWritebuffer d.channel ((1 : BitVec 32).toNat*512%word) b)).1.io = _
      rw [second]
      simp [heard,archIdeWritebuffer,word]
    | _ => simp

theorem blockDevRead_serves (exists_ : d.deviceExists = true) (lba : d.lbaSupported = true) (id : d.deviceId = 0 ∨ d.deviceId = 1)
    (small : sectorNum.toNat < 268435456) (inside : sectorNum.toNat < h.sectors (decide (d.deviceId = 1))) (prompt : Prompt fuel status)
    (answered : Answered d.channel.cmdRegsBase status 0 h (blockDevRead fuel d sectorNum ⟨status,0,[]⟩).io) :
    h.run d.channel.cmdRegsBase (blockDevRead fuel d sectorNum ⟨status,0,[]⟩).io = some (h.read d (sectorNum.setWidth 32)) := by
  have same : (sectorNum.setWidth 32 : BitVec 32).toNat = sectorNum.toNat := by
    rw [BitVec.toNat_setWidth]
    omega
  rw [← same] at small inside
  obtain ⟨k,waited,ends⟩ := call_waits (d := d) (h := h) id small inside prompt false
  rw [blockDevRead_io exists_ lba,waited] at answered ⊢
  have ended := ends _ answered
  rw [if_pos ended]
  show h.run _ (before false d _ k++_) = _
  rw [before_run id small]
  simp only [Channel.run,List.foldlM_cons,read_data inside,List.foldlM_nil]
  rfl

theorem blockDevWrite_serves (exists_ : d.deviceExists = true) (lba : d.lbaSupported = true) (id : d.deviceId = 0 ∨ d.deviceId = 1)
    (small : sectorNum.toNat < 268435456) (inside : sectorNum.toNat < h.sectors (decide (d.deviceId = 1))) (prompt : Prompt fuel status)
    (answered : Answered d.channel.cmdRegsBase status 0 h (blockDevWrite fuel d sectorNum ⟨status,0,[]⟩).io) :
    h.run d.channel.cmdRegsBase (blockDevWrite fuel d sectorNum ⟨status,0,[]⟩).io = some (h.wrote d (sectorNum.setWidth 32)) := by
  have same : (sectorNum.setWidth 32 : BitVec 32).toNat = sectorNum.toNat := by
    rw [BitVec.toNat_setWidth]
    omega
  rw [← same] at small inside
  obtain ⟨k,waited,ends⟩ := call_waits (d := d) (h := h) id small inside prompt true
  obtain ⟨after,io⟩ := @blockDevWrite_io d fuel exists_ lba sectorNum ⟨status,0,[]⟩
  rw [io,waited] at answered ⊢
  have ended := ends _ answered
  rw [if_pos ended]
  show h.run _ (before true d _ k++_) = _
  rw [before_run id small]
  simp only [Channel.run,List.foldlM_cons,write_data inside]
  exact run_reads _ _ after

-- The drives of a channel beside the two disks the file systems see, and the
-- buffer of the last call as it should be.
structure Served where
  channel : Channel
  devices : Bool → BlockDevice.Device
  buffer : Bytes

-- One call of block_dev_read or block_dev_write with the caller's buffer, and
-- what the status register gives in its course.
structure Call where
  write : Bool
  drive : Bool
  sectorNum : BitVec 64
  buffer : Bytes
  status : Nat → Byte

def deviceOf (c : IdeChannel) (drive : Bool) : IdeDevice := ⟨if drive then 1 else 0,true,true,c⟩

def Call.io (fuel : Nat) (c : IdeChannel) (call : Call) : List Io :=
  ((if call.write then blockDevWrite else blockDevRead) fuel (deviceOf c call.drive) call.sectorNum ⟨call.status,0,[]⟩).io

def Channel.load (h : Channel) (buffer : Bytes) : Channel := {h with buffer := buffer}

def step (fuel : Nat) (c : IdeChannel) (s : Served) (call : Call) : Option Served :=
  ((s.channel.load call.buffer).run c.cmdRegsBase (call.io fuel c)).map fun channel =>
    if call.write then
      ⟨channel,Function.update s.devices call.drive (BlockDevice.blockDevWrite (s.devices call.drive) call.sectorNum.toNat call.buffer 0).2,call.buffer⟩
    else ⟨channel,s.devices,(BlockDevice.blockDevRead (s.devices call.drive) call.sectorNum.toNat call.buffer 0).2⟩

-- A sector the drive has, below 2^28, on drives that answer in time.
structure Admitted (fuel : Nat) (c : IdeChannel) (s : Served) (call : Call) : Prop where
  small : call.sectorNum.toNat < 268435456
  inside : call.sectorNum.toNat < s.channel.sectors call.drive
  prompt : Prompt fuel call.status
  answered : Answered c.cmdRegsBase call.status 0 (s.channel.load call.buffer) (call.io fuel c)

structure Same (s : Served) : Prop where
  disks : ∀ drive, s.channel.disks drive = (s.devices drive).disk
  buffer : s.channel.buffer = s.buffer

variable {s : Served} {call : Call}

theorem deviceOf_id (c : IdeChannel) (drive : Bool) : ((deviceOf c drive).deviceId = 0 ∨ (deviceOf c drive).deviceId = 1) ∧
    decide ((deviceOf c drive).deviceId = 1) = drive := by
  cases drive <;> simp [deviceOf]

theorem wrote_deviceOf (h : Channel) (drive : Bool) : h.wrote (deviceOf c drive) lba =
    {h with
      regs := addressRegs (deviceOf c drive) lba h.regs
      transfer := none
      disks := Function.update h.disks drive (blit (h.disks drive) (lba.toNat*512) h.buffer 0 512)} := by
  cases drive <;> rfl

theorem read_deviceOf (h : Channel) (drive : Bool) : h.read (deviceOf c drive) lba =
    {h with
      regs := addressRegs (deviceOf c drive) lba h.regs
      transfer := none
      buffer := blit h.buffer 0 (h.disks drive) (lba.toNat*512) 512} := by
  cases drive <;> rfl

theorem Admitted.ran (admitted : Admitted fuel c s call) : (s.channel.load call.buffer).run c.cmdRegsBase (call.io fuel c) =
    some (if call.write then (s.channel.load call.buffer).wrote (deviceOf c call.drive) (call.sectorNum.setWidth 32)
      else (s.channel.load call.buffer).read (deviceOf c call.drive) (call.sectorNum.setWidth 32)) := by
  obtain ⟨small,inside,prompt,answered⟩ := admitted
  obtain ⟨id,select⟩ := deviceOf_id c call.drive
  have inside : call.sectorNum.toNat < (s.channel.load call.buffer).sectors (decide ((deviceOf c call.drive).deviceId = 1)) := by rwa [select]
  unfold Call.io at answered ⊢
  cases write : call.write with
  | true =>
    rw [write,if_pos rfl] at answered
    simp only [if_true]
    exact blockDevWrite_serves rfl rfl id small inside prompt answered
  | false =>
    rw [write,if_neg Bool.false_ne_true] at answered
    simp only [Bool.false_eq_true,if_false]
    exact blockDevRead_serves rfl rfl id small inside prompt answered

theorem Same.step (same : Same s) (admitted : Admitted fuel c s call) : ∃ next, step fuel c s call = some next ∧ Same next := by
  obtain ⟨disks,_⟩ := same
  have number : (call.sectorNum.setWidth 32 : BitVec 32).toNat = call.sectorNum.toNat := by
    have small := admitted.small
    rw [BitVec.toNat_setWidth]
    omega
  rw [IdeDrives.step,admitted.ran,wrote_deviceOf,read_deviceOf,number]
  refine ⟨_,rfl,?_⟩
  cases call.write with
  | true =>
    refine ⟨?_,rfl⟩
    intro drive
    by_cases here : drive = call.drive
    · simp [here,Channel.load,BlockDevice.blockDevWrite,disks]
    · simp [here,Channel.load,disks]
  | false =>
    refine ⟨disks,?_⟩
    simp [Channel.load,BlockDevice.blockDevRead,disks]

-- In every run the two drives of a channel are the two disks the file systems
-- are written for: no call fails, a read gives what was last written to its
-- sector of its drive, and nothing else changes.
theorem drives_are_disks (path : Reached Same (step fuel c) (Admitted fuel c) s) :
    Same s ∧ ∀ call, Admitted fuel c s call → ∃ next, step fuel c s call = some next ∧ Same next := by
  have same : Same s := by
    refine path.invariant Same (fun _ start => start) ?_
    intro s call next same admitted taken
    obtain ⟨after,ran,kept⟩ := same.step admitted
    cases ran.symm.trans taken
    exact kept
  exact ⟨same,fun call admitted => same.step admitted⟩

-- Two drives of eight sectors that are always ready.
def primary : IdeChannel := ⟨0x1F0,0x3F6⟩
def emptyDrives : Served :=
  ⟨⟨fun _ => 0,none,fun _ => BlockDevice.blank,fun _ => 8,BlockDevice.blank⟩,fun _ => ⟨512,4,BlockDevice.blank,BlockDevice.blank,[]⟩,BlockDevice.blank⟩

theorem ready_status : busy 0x58#8 = false ∧ hasData 0x58#8 = true := by decide

theorem ready_answers (n : Nat) (h : Channel) (io : List Io) : Answered base (fun _ => 0x58) n h io := by
  induction io generalizing n h with
  | nil => trivial
  | cons event rest ih =>
    cases event with
    | inb port => exact ⟨fun _ r _ _ => by simp [ready_status],ih _ _⟩
    | outb port data => exact fun next _ => ih _ _
    | insw port len => exact fun next _ => ih _ _
    | outsw port len => exact fun next _ => ih _ _

theorem ready_admitted (write drive : Bool) (buffer : Bytes) (small : sectorNum.toNat < 268435456)
    (inside : sectorNum.toNat < s.channel.sectors drive) : Admitted 1 c s ⟨write,drive,sectorNum,buffer,fun _ => 0x58⟩ where
  small := small
  inside := inside
  prompt := fun _ => ⟨0,Nat.one_pos,ready_status.1⟩
  answered := ready_answers _ _ _

def writeA : Call := ⟨true,true,3,fun _ => 0x41,fun _ => 0x58⟩
def readA : Call := ⟨false,true,3,BlockDevice.blank,fun _ => 0x58⟩

theorem sector_read_back : ∃ s, (Same s ∧ ∀ call, Admitted 1 primary s call → ∃ next, step 1 primary s call = some next ∧ Same next) ∧
    ∃ next, step 1 primary s readA = some next ∧ next.channel.buffer 7 = 0x41 := by
  have writing : Admitted 1 primary emptyDrives writeA := ready_admitted true true _ (by decide) (by decide)
  obtain ⟨s,ran,_⟩ := Same.step ⟨fun _ => rfl,rfl⟩ writing
  have path : Reached Same (step 1 primary) (Admitted 1 primary) s := (Reached.start ⟨fun _ => rfl,rfl⟩).extend writeA writing ran
  have served := drives_are_disks path
  obtain ⟨channel,wrote,rfl⟩ := Option.map_eq_some_iff.mp ran
  have sectors : channel.sectors true = 8 := by
    rw [writing.ran] at wrote
    cases Option.some.inj wrote
    rfl
  have reading : ∀ s : Served, s.channel.sectors true = 8 → Admitted 1 primary s readA :=
    fun s eight => ready_admitted false true _ (by decide) (by rw [eight]; decide)
  obtain ⟨next,ran',same⟩ := served.2 readA (reading _ sectors)
  refine ⟨_,served,next,ran',?_⟩
  obtain ⟨channel',_,rfl⟩ := Option.map_eq_some_iff.mp ran'
  rw [same.buffer]
  simp [BlockDevice.blockDevRead,BlockDevice.blockDevWrite,readA,writeA,blit]

end KaracaOS.IdeDrives
