import KaracaOS.InterruptFrames
import KaracaOS.SysDefs

namespace KaracaOS.SystemCalls
open ByteMemory MachineStack InterruptFrames

-- The kernel functions behind the system calls, as functions of the machine's memory:
-- what they return and the memory they leave.
structure Services where
  kaosFopen : (path mode : BitVec 32) → Bytes → BitVec 32 × Bytes
  kaosFread : (buffer size count stream : BitVec 32) → Bytes → BitVec 32 × Bytes
  kaosFwrite : (buffer size count stream : BitVec 32) → Bytes → BitVec 32 × Bytes
  kaosPrintf : (format : String) → (args : List (BitVec 32)) → Bytes → Bytes

structure Params where
  param1 : BitVec 32
  param2 : BitVec 32
  param3 : BitVec 32
  param4 : BitVec 32
  param5 : BitVec 32

def sysCallFopen : BitVec 32 := 1
def sysCallFread : BitVec 32 := 2
def sysCallFwrite : BitVec 32 := 3
def sysCallFclose : BitVec 32 := 4

-- `at_` is where the array of parameters stands; only its address is printed.
variable (s : Services) (at_ : BitVec 32)

def syscallHandleFopen (params : Params) (memory : Bytes) : Bytes :=
  let (fp,memory) := s.kaosFopen params.param2 params.param3 memory
  put32 memory params.param1.toNat fp.toNat

def syscallHandleFread (params : Params) (memory : Bytes) : Bytes :=
  let (retVal,memory) := s.kaosFread params.param1 params.param2 params.param3 params.param4 memory
  put32 memory params.param5.toNat retVal.toNat

def syscallHandleFwrite (params : Params) (memory : Bytes) : Bytes :=
  let (retVal,memory) := s.kaosFwrite params.param1 params.param2 params.param3 params.param4 memory
  put32 memory params.param5.toNat retVal.toNat

def syscallGenericSyscallHandler (function : BitVec 32) (params : Params) (memory : Bytes) : Bytes :=
  if function = sysCallFopen then syscallHandleFopen s params (s.kaosPrintf "fopen syscall called\n" [] memory)
  else if function = sysCallFread then syscallHandleFread s params (s.kaosPrintf "fread syscall called\n" [] memory)
  else if function = sysCallFclose then s.kaosPrintf "fclose syscall called\n" [] memory
  else if function = sysCallFwrite then syscallHandleFwrite s params (s.kaosPrintf "fwrite syscall called\n" [] memory)
  else s.kaosPrintf "0x%x\n" [at_] (s.kaosPrintf "unknown syscall\n" [] memory)

def archSyscallInitialHandler (frame : X86InterruptStackFrame) (memory : Bytes) : Bytes :=
  syscallGenericSyscallHandler s at_ frame.eax ⟨frame.edi,frame.esi,frame.ebx,frame.ecx,frame.edx⟩ memory

-- _arch_interrupt_handler with the handler interrupts_init installs for 0x80; `others`
-- is what it does for every other vector.
def archInterruptHandler (others : BitVec 32 → Nat → Bytes → Option Bytes) (frame : Nat) (memory : Bytes) : Option Bytes :=
  let f := frameAt memory frame
  if f.intNo = 0x80#32 then some (archSyscallInitialHandler s at_ f memory) else others f.intNo frame memory

variable {s at_} {others : BitVec 32 → Nat → Bytes → Option Bytes} {image : Image} {code : BitVec 32 → Machine → Machine}
variable {bottom depth : Nat} {m : Machine}

-- The functions of libc that are one int $0x80 each.
inductive Call where
  | fopen (path mode : BitVec 32)
  | fread (buffer size count stream : BitVec 32)
  | fwrite (buffer size count stream : BitVec 32)

-- The inputs of each asm statement; the result comes back in the local at `slot`.
def Call.inputs (slot : BitVec 32) (m : Machine) : Call → Machine
  | .fopen path mode => {m with eax := 1,edi := slot,esi := path,ebx := mode}
  | .fread buffer size count stream => {m with eax := 2,edi := buffer,esi := size,ebx := count,ecx := stream,edx := slot}
  | .fwrite buffer size count stream => {m with eax := 3,edi := buffer,esi := size,ebx := count,ecx := stream,edx := slot}

-- The kernel function each of them means, behind the message its handler prints.
def Call.service (s : Services) (memory : Bytes) : Call → BitVec 32 × Bytes
  | .fopen path mode => s.kaosFopen path mode (s.kaosPrintf "fopen syscall called\n" [] memory)
  | .fread buffer size count stream => s.kaosFread buffer size count stream (s.kaosPrintf "fread syscall called\n" [] memory)
  | .fwrite buffer size count stream => s.kaosFwrite buffer size count stream (s.kaosPrintf "fwrite syscall called\n" [] memory)

theorem Call.handled (s : Services) (at_ slot : BitVec 32) (m : Machine) (memory : Bytes) (c : Call) :
    let r := c.inputs slot m
    syscallGenericSyscallHandler s at_ r.eax ⟨r.edi,r.esi,r.ebx,r.ecx,r.edx⟩ memory =
      put32 (c.service s memory).2 slot.toNat (c.service s memory).1.toNat := by
  cases c <;> rfl

def stacked (handler : Nat → Bytes → Option Bytes) : BitVec 32 → Machine → Machine := fun _ m =>
  match handler (argument m).toNat m.memory with
  | none => m
  | some memory => framed {m with memory := memory}

end KaracaOS.SystemCalls
