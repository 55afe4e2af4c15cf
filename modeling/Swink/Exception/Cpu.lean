import Swink.Lib.ByteMemory
import Mathlib.Algebra.GroupWithZero.Nat

namespace Swink.Exception
open ByteMemory

instance generalRegisters : NeZero 31 := ⟨by decide⟩
instance neonRegisters : NeZero 32 := ⟨by decide⟩

/-- The registers that exception entry and return work with, and memory. `spsrEl1` and `esrEl1` are the
low halves of their registers, the part that the code stores. -/
structure Cpu where
  x : Fin 31 → BitVec 64
  spEl0 : BitVec 64
  spEl1 : BitVec 64
  q : Fin 32 → BitVec 128
  fpsr : BitVec 32
  fpcr : BitVec 32
  pc : BitVec 64
  pstate : BitVec 32
  elrEl1 : BitVec 64
  spsrEl1 : BitVec 32
  esrEl1 : BitVec 32
  farEl1 : BitVec 64
  mem : BitVec 64 → BitVec 8

namespace Cpu

/-- PSTATE as SPSR_EL1 holds it: the stack selection is bit 0, which is clear at EL0, and D, A, I and
F are bits 9 to 6. -/
def spSel (c : Cpu) : Bool := c.pstate.getLsbD 0

/-- The stack pointer in use, and writing it. -/
def sp (c : Cpu) : BitVec 64 := if c.spSel then c.spEl1 else c.spEl0

def setSp (value : BitVec 64) (c : Cpu) : Cpu :=
  if c.spSel then { c with spEl1 := value } else { c with spEl0 := value }

/-- Writing the stack pointer writes one of the two. -/
theorem setSp_eq (c : Cpu) (value : BitVec 64) :
    c.setSp value =
      { c with
        spEl0 := if c.spSel then c.spEl0 else value
        spEl1 := if c.spSel then value else c.spEl1 } := by
  rcases sel : c.spSel <;> simp [setSp, sel]

def setX (t : Fin 31) (value : BitVec 64) (c : Cpu) : Cpu := { c with x := Function.update c.x t value }

def setQ (t : Fin 32) (value : BitVec 128) (c : Cpu) : Cpu := { c with q := Function.update c.q t value }

end Cpu

/-- The bytes of an object at an offset from a base. -/
def bytesAt (base : BitVec 64) (offset i : Nat) : BitVec 64 := base + BitVec.ofNat 64 (offset + i)

/-- System registers that `mrs` and `msr` name. -/
inductive SysReg
  | esrEl1
  | spsrEl1
  | farEl1
  | elrEl1
  | fpsr
  | fpcr
  | spEl0

def SysReg.read : SysReg → Cpu → BitVec 64
  | esrEl1, c => c.esrEl1.setWidth 64
  | spsrEl1, c => c.spsrEl1.setWidth 64
  | farEl1, c => c.farEl1
  | elrEl1, c => c.elrEl1
  | fpsr, c => c.fpsr.setWidth 64
  | fpcr, c => c.fpcr.setWidth 64
  | spEl0, c => c.spEl0

def SysReg.write (value : BitVec 64) : SysReg → Cpu → Cpu
  | esrEl1, c => { c with esrEl1 := value.setWidth 32 }
  | spsrEl1, c => { c with spsrEl1 := value.setWidth 32 }
  | farEl1, c => { c with farEl1 := value }
  | elrEl1, c => { c with elrEl1 := value }
  | fpsr, c => { c with fpsr := value.setWidth 32 }
  | fpcr, c => { c with fpcr := value.setWidth 32 }
  | spEl0, c => { c with spEl0 := value }

/-- The instructions of exception.S. -/
abbrev Instr := Cpu → Cpu

def stpX (t1 t2 : Fin 31) (offset : Nat) : Instr := fun c =>
  { c with
    mem := store (store c.mem (bytesAt c.sp offset) (c.x t1) 8) (bytesAt c.sp (offset + 8)) (c.x t2) 8 }

def strX (t : Fin 31) (offset : Nat) : Instr := fun c =>
  { c with mem := store c.mem (bytesAt c.sp offset) (c.x t) 8 }

def strW (t : Fin 31) (offset : Nat) : Instr := fun c =>
  { c with mem := store c.mem (bytesAt c.sp offset) ((c.x t).setWidth 32) 4 }

def stpQ (t1 t2 : Fin 32) (offset : Nat) : Instr := fun c =>
  { c with
    mem := store (store c.mem (bytesAt c.sp offset) (c.q t1) 16) (bytesAt c.sp (offset + 16)) (c.q t2) 16 }

def ldrX (t : Fin 31) (offset : Nat) : Instr := fun c => c.setX t (load 64 c.mem (bytesAt c.sp offset) 8)

def ldrW (t : Fin 31) (offset : Nat) : Instr := fun c =>
  c.setX t ((load 32 c.mem (bytesAt c.sp offset) 4).setWidth 64)

/-- `ldp` with the stack pointer as its base, and with the base in a register. -/
def ldpX (t1 t2 : Fin 31) (offset : Nat) : Instr := fun c =>
  (c.setX t1 (load 64 c.mem (bytesAt c.sp offset) 8)).setX t2 (load 64 c.mem (bytesAt c.sp (offset + 8)) 8)

def ldpXFrom (t1 t2 base : Fin 31) (offset : Nat) : Instr := fun c =>
  (c.setX t1 (load 64 c.mem (bytesAt (c.x base) offset) 8)).setX t2
    (load 64 c.mem (bytesAt (c.x base) (offset + 8)) 8)

def ldpQ (t1 t2 : Fin 32) (offset : Nat) : Instr := fun c =>
  (c.setQ t1 (load 128 c.mem (bytesAt c.sp offset) 16)).setQ t2 (load 128 c.mem (bytesAt c.sp (offset + 16)) 16)

def mrs (t : Fin 31) (reg : SysReg) : Instr := fun c => c.setX t (reg.read c)

def msr (reg : SysReg) (t : Fin 31) : Instr := fun c => reg.write (c.x t) c

/-- `msr SPSel, #0` and `msr DAIFSet, #mask`. -/
def msrSpSelZero : Instr := fun c => { c with pstate := c.pstate &&& ~~~1#32 }

def msrDaifSet (mask : BitVec 32) : Instr := fun c => { c with pstate := c.pstate ||| mask <<< 6 }

def subSp (count : Nat) : Instr := fun c => c.setSp (c.sp - BitVec.ofNat 64 count)

def addXSp (t : Fin 31) (count : Nat) : Instr := fun c => c.setX t (c.sp + BitVec.ofNat 64 count)

def movXSp (t : Fin 31) : Instr := fun c => c.setX t c.sp

def movSpX (t : Fin 31) : Instr := fun c => c.setSp (c.x t)

/-- `ADRL` of a symbol. -/
def adrl (t : Fin 31) (symbol : BitVec 64) : Instr := fun c => c.setX t symbol

def eret : Instr := fun c => { c with pc := c.elrEl1, pstate := c.spsrEl1 }

/-- Straight-line code. -/
def run (code : List Instr) (c : Cpu) : Cpu := code.foldl (fun c instr => instr c) c

theorem run_append (code code' : List Instr) (c : Cpu) : run (code ++ code') c = run code' (run code c) :=
  List.foldl_append

/-- Taking an exception to EL1: return address and PSTATE are saved, interrupts masked, and SP_EL1
selected, with the syndrome the hardware reports. The condition flags stay. -/
def takeException (vector : BitVec 64) (esr : BitVec 32) (far : BitVec 64) (c : Cpu) : Cpu :=
  { c with
    elrEl1 := c.pc
    spsrEl1 := c.pstate
    esrEl1 := esr
    farEl1 := far
    pstate := c.pstate &&& 0xf0000000 ||| 0x3c5
    pc := vector }

end Swink.Exception
