import Swink.Exception.Cpu

namespace Swink.Exception

/-- Offsets of `struct arm64_context`, exception_asm.h. -/
def arm64ContextSize : Nat := (32 + 64 + 2) * 8 + (2 + 2) * 4

def arm64Gp (n : Nat) : Nat := 8 * n
def arm64GpLr : Nat := 8 * 30
def arm64GpSp : Nat := 8 * 31
def arm64GpEnd : Nat := arm64GpSp + 8

def arm64NeonQ (n : Nat) : Nat := arm64GpEnd + 16 * n
def arm64NeonQEnd : Nat := arm64NeonQ 30 + 16 * 2
def arm64NeonFpsr : Nat := arm64NeonQEnd + 4 * 0
def arm64NeonFpcr : Nat := arm64NeonQEnd + 4 * 1
def arm64NeonEnd : Nat := arm64NeonFpcr + 4

def arm64Esr : Nat := arm64NeonEnd + 4 * 0
def arm64Cpsr : Nat := arm64NeonEnd + 4 * 1
def arm64Far : Nat := arm64NeonEnd + 8 * 1
def arm64Pc : Nat := arm64NeonEnd + 8 * 2

/-- `DAIF_ALL_BUT_DEBUG` of asm_utils.h. -/
def daifAllButDebug : BitVec 32 := 1 <<< 2 ||| 1 <<< 1 ||| 1 <<< 0

def lr : Fin 31 := 30

/-- `REGISTER_SPILL_NO_X0X1SP` in its three parts: general registers, NEON registers and system
registers. -/
def spillGp : List Instr :=
  [ stpX 2 3 (arm64Gp 2),
    stpX 4 5 (arm64Gp 4),
    stpX 6 7 (arm64Gp 6),
    stpX 8 9 (arm64Gp 8),
    stpX 10 11 (arm64Gp 10),
    stpX 12 13 (arm64Gp 12),
    stpX 14 15 (arm64Gp 14),
    stpX 16 17 (arm64Gp 16),
    stpX 18 19 (arm64Gp 18),
    stpX 20 21 (arm64Gp 20),
    stpX 22 23 (arm64Gp 22),
    stpX 24 25 (arm64Gp 24),
    stpX 26 27 (arm64Gp 26),
    stpX 28 29 (arm64Gp 28),
    strX lr arm64GpLr ]

def spillNeon : List Instr :=
  [ stpQ 0 1 (arm64NeonQ 0),
    stpQ 2 3 (arm64NeonQ 2),
    stpQ 4 5 (arm64NeonQ 4),
    stpQ 6 7 (arm64NeonQ 6),
    stpQ 8 9 (arm64NeonQ 8),
    stpQ 10 11 (arm64NeonQ 10),
    stpQ 12 13 (arm64NeonQ 12),
    stpQ 14 15 (arm64NeonQ 14),
    stpQ 16 17 (arm64NeonQ 16),
    stpQ 18 19 (arm64NeonQ 18),
    stpQ 20 21 (arm64NeonQ 20),
    stpQ 22 23 (arm64NeonQ 22),
    stpQ 24 25 (arm64NeonQ 24),
    stpQ 26 27 (arm64NeonQ 26),
    stpQ 28 29 (arm64NeonQ 28),
    stpQ 30 31 (arm64NeonQ 30) ]

def spillSystem : List Instr :=
  [ mrs 0 .esrEl1,
    strW 0 arm64Esr,
    mrs 2 .spsrEl1,
    strW 2 arm64Cpsr,
    mrs 3 .farEl1,
    strX 3 arm64Far,
    mrs 4 .elrEl1,
    strX 4 arm64Pc,
    mrs 5 .fpsr,
    strW 5 arm64NeonFpsr,
    mrs 6 .fpcr,
    strW 6 arm64NeonFpcr,
    movXSp 0 ]

def registerSpillNoX0X1Sp : List Instr := spillGp ++ spillNeon ++ spillSystem

/-- `REGISTER_UNSPILL` in its parts. -/
def unspillGp : List Instr :=
  [ ldpX 2 3 (arm64Gp 2),
    ldpX 4 5 (arm64Gp 4),
    ldpX 6 7 (arm64Gp 6),
    ldpX 8 9 (arm64Gp 8),
    ldpX 10 11 (arm64Gp 10),
    ldpX 12 13 (arm64Gp 12),
    ldpX 14 15 (arm64Gp 14),
    ldpX 16 17 (arm64Gp 16),
    ldpX 18 19 (arm64Gp 18),
    ldpX 20 21 (arm64Gp 20),
    ldpX 22 23 (arm64Gp 22),
    ldpX 24 25 (arm64Gp 24),
    ldpX 26 27 (arm64Gp 26),
    ldpX 28 29 (arm64Gp 28) ]

def unspillNeon : List Instr :=
  [ ldpQ 0 1 (arm64NeonQ 0),
    ldpQ 2 3 (arm64NeonQ 2),
    ldpQ 4 5 (arm64NeonQ 4),
    ldpQ 6 7 (arm64NeonQ 6),
    ldpQ 8 9 (arm64NeonQ 8),
    ldpQ 10 11 (arm64NeonQ 10),
    ldpQ 12 13 (arm64NeonQ 12),
    ldpQ 14 15 (arm64NeonQ 14),
    ldpQ 16 17 (arm64NeonQ 16),
    ldpQ 18 19 (arm64NeonQ 18),
    ldpQ 20 21 (arm64NeonQ 20),
    ldpQ 22 23 (arm64NeonQ 22),
    ldpQ 24 25 (arm64NeonQ 24),
    ldpQ 26 27 (arm64NeonQ 26),
    ldpQ 28 29 (arm64NeonQ 28),
    ldpQ 30 31 (arm64NeonQ 30) ]

def unspillSystem : List Instr :=
  [ ldrW 0 arm64NeonFpsr,
    ldrW 1 arm64NeonFpsr,
    msr .fpsr 0,
    msr .fpsr 1,
    ldrW 0 arm64Cpsr,
    ldrX 1 arm64Pc,
    msr .spsrEl1 0,
    msr .elrEl1 1 ]

def unspillStack : List Instr :=
  [ ldpX lr 1 arm64GpLr,
    movXSp 0,
    movSpX 1,
    ldpXFrom 0 1 0 (arm64Gp 0) ]

def registerUnspill : List Instr :=
  [msrDaifSet daifAllButDebug] ++ unspillGp ++ unspillNeon ++ unspillSystem ++ unspillStack

/-- The entry paths: from EL1 on SP_EL0, from EL1 on SP_EL1 and from 64-bit EL0. -/
inductive EntryPath
  | el1Sp0
  | el1Sp1
  | el0Sp1
  deriving DecidableEq

/-- `EL1_SP0_VECTOR`, `EL1_SP1_VECTOR` and `EL0_64_SP1_VECTOR` with the address of their handler. -/
def EntryPath.vector (target : BitVec 64) : EntryPath → List Instr
  | el1Sp0 =>
    [ msrSpSelZero,
      subSp arm64ContextSize,
      stpX 0 1 (arm64Gp 0),
      addXSp 0 arm64ContextSize,
      strX 0 arm64GpSp,
      adrl 1 target ]
  | el1Sp1 =>
    [ subSp arm64ContextSize,
      stpX 0 1 (arm64Gp 0),
      addXSp 0 arm64ContextSize,
      strX 0 arm64GpSp,
      adrl 1 target ]
  | el0Sp1 =>
    [ subSp arm64ContextSize,
      stpX 0 1 (arm64Gp 0),
      mrs 0 .spEl0,
      strX 0 arm64GpSp,
      adrl 1 target ]

/-- From the interrupted state to the call of the handler: `blr x1` leaves the address of
`exception_return` in the link register. -/
def enter (path : EntryPath) (target vector exceptionReturnAddr : BitVec 64) (esr : BitVec 32) (far : BitVec 64)
    (c : Cpu) : Cpu :=
  (run (path.vector target ++ registerSpillNoX0X1Sp) (takeException vector esr far c)).setX lr exceptionReturnAddr

/-- From the return of the handler to the resumed state. -/
def exceptionReturn (c : Cpu) : Cpu := run (registerUnspill ++ [eret]) c

end Swink.Exception
