import Swink.Exception.Trace
import Swink.Lib.StructLayout

namespace Swink.Exception
open ByteMemory StructLayout

/-- The member names of `struct arm64_context`, exception.h. -/
inductive ContextMember
  | gp
  | x
  | fp
  | lr
  | sp
  | neon
  | q
  | fpsr
  | fpcr
  | esr
  | cpsr
  | far
  | pc
  deriving DecidableEq

def uint32 : CType ContextMember := .scalar 4
def uint64 : CType ContextMember := .scalar 8

def structGp : CType ContextMember :=
  .struct (.cons .x (.array uint64 29) (.cons .fp uint64 (.cons .lr uint64 (.cons .sp uint64 .nil))))

def structNeon : CType ContextMember :=
  .struct (.cons .q (.array uint64 (32 * 2)) (.cons .fpsr uint32 (.cons .fpcr uint32 .nil)))

def structArm64Context : CType ContextMember :=
  .struct (.cons .gp structGp (.cons .neon structNeon (.cons .esr uint32 (.cons .cpsr uint32
    (.cons .far uint64 (.cons .pc uint64 .nil))))))

/-- The `STATIC_ASSERT`s of exception.h. -/
theorem context_static_asserts :
    arm64ContextSize = structArm64Context.size ∧ arm64GpEnd = structGp.size ∧
      arm64NeonEnd = structGp.size + structNeon.size ∧ arm64Pc = arm64NeonEnd + 4 * 2 + 8 * 1 ∧
      structArm64Context.size % 16 = 0 := by decide

/-- What a handler reads through its first argument: `context->gp.x[r]` and the like, by the size of
the member. -/
def handlerReads (k : Cpu) (access : List (Step ContextMember)) (bytes : Nat) : Option (BitVec (8 * bytes)) :=
  structArm64Context.read access bytes k.mem (bytesAt (k.x 0) 0)

/-- Every member of the context has the value of the interrupted state `c` or, for the exception
registers, of the state `e` that taking the exception has left. A `q` register takes two words. -/
structure HandlerSees (path : EntryPath) (c e k : Cpu) : Prop where
  x : ∀ r : Fin 29, handlerReads k [.member .gp, .member .x, .index r] 8 = some (c.x (r.castLE (by decide)))
  fp : handlerReads k [.member .gp, .member .fp] 8 = some (c.x 29)
  lr : handlerReads k [.member .gp, .member .lr] 8 = some (c.x 30)
  sp : handlerReads k [.member .gp, .member .sp] 8 = some (path.interruptedSp c)
  qLow : ∀ r : Fin 32, handlerReads k [.member .neon, .member .q, .index (2 * r)] 8 =
    some ((c.q r).extractLsb' 0 64)
  qHigh : ∀ r : Fin 32, handlerReads k [.member .neon, .member .q, .index (2 * r + 1)] 8 =
    some ((c.q r).extractLsb' 64 64)
  fpsr : handlerReads k [.member .neon, .member .fpsr] 4 = some c.fpsr
  fpcr : handlerReads k [.member .neon, .member .fpcr] 4 = some c.fpcr
  esr : handlerReads k [.member .esr] 4 = some ((SysReg.esrEl1.read e).setWidth 32)
  cpsr : handlerReads k [.member .cpsr] 4 = some ((SysReg.spsrEl1.read e).setWidth 32)
  far : handlerReads k [.member .far] 8 = some (SysReg.farEl1.read e)
  pc : handlerReads k [.member .pc] 8 = some (SysReg.elrEl1.read e)

theorem locate_x {r : Nat} (bound : r < 29) :
    structArm64Context.locate [.member .gp, .member .x, .index r] = some (arm64Gp r, .scalar 8) := by
  have element : (CType.array uint64 29).locate [.index r] = some (r * 8, .scalar 8) := CType.locate_scalar_index bound
  have inGp : structGp.locate [.member .x, .index r] = some (0 + r * 8, .scalar 8) := CType.locate_member rfl element
  have inContext : structArm64Context.locate [.member .gp, .member .x, .index r] =
      some (0 + (0 + r * 8), .scalar 8) := CType.locate_member rfl inGp
  rw [inContext, arm64Gp, Nat.zero_add, Nat.zero_add, Nat.mul_comm]

theorem locate_q {i : Nat} (bound : i < 32 * 2) :
    structArm64Context.locate [.member .neon, .member .q, .index i] = some (arm64GpEnd + i * 8, .scalar 8) := by
  have element : (CType.array uint64 (32 * 2)).locate [.index i] = some (i * 8, .scalar 8) :=
    CType.locate_scalar_index bound
  have inNeon : structNeon.locate [.member .q, .index i] = some (0 + i * 8, .scalar 8) :=
    CType.locate_member rfl element
  have inContext : structArm64Context.locate [.member .neon, .member .q, .index i] =
      some (arm64GpEnd + (0 + i * 8), .scalar 8) := CType.locate_member rfl inNeon
  rw [inContext, Nat.zero_add]

/-- A member that the header places where the compiler does is read there. -/
theorem handlerReads_eq {k : Cpu} {access : List (Step ContextMember)} {offset bytes : Nat}
    (located : structArm64Context.locate access = some (offset, .scalar bytes)) :
    handlerReads k access bytes = some (load (8 * bytes) k.mem (bytesAt (k.x 0) offset) bytes) := by
  have from0 : (fun i => bytesAt (k.x 0) 0 (offset + i)) = bytesAt (k.x 0) offset := by
    funext i
    rw [bytesAt, bytesAt, Nat.zero_add]
  rw [handlerReads, CType.read_of_locate located, from0]

/-- The words of `q` are the halves of the registers, the low one first. -/
theorem handlerReads_q {k : Cpu} (pointer : k.x 0 = k.sp) (r : Fin 32) (half : Nat) (bound : half < 2) :
    handlerReads k [.member .neon, .member .q, .index (2 * r + half)] 8 =
      some ((contextQ k r).extractLsb' (8 * (8 * half)) (8 * 8)) := by
  have bytes : bytesAt k.sp (arm64GpEnd + (2 * r + half) * 8) = fun i => bytesAt k.sp (arm64NeonQ r) (8 * half + i) := by
    funext i
    have offset : arm64GpEnd + (2 * r + half) * 8 + i = arm64NeonQ r + (8 * half + i) := by
      rw [arm64NeonQ]
      omega
    rw [bytesAt, bytesAt, offset]
  rw [handlerReads_eq (locate_q (by omega)), pointer, contextQ, extractLsb'_load (by omega) (by omega), bytes]

section
variable (path : EntryPath) (target vector exceptionReturnAddr : BitVec 64) (esr : BitVec 32) (far : BitVec 64) (c : Cpu)

/-- `mov x0, sp` is the last instruction of the spill. -/
theorem enter_x0 : (enter path target vector exceptionReturnAddr esr far c).x 0 =
    (enter path target vector exceptionReturnAddr esr far c).sp := by
  have last : registerSpillNoX0X1Sp = (spillGp ++ spillNeon ++ spillSystem.dropLast) ++ [movXSp 0] := rfl
  rw [enter, last, ← List.append_assoc, run_append]
  rfl

/-- The spill leaves the address of the handler in x1. -/
theorem enter_x1 : (enter path target vector exceptionReturnAddr esr far c).x 1 = target := by
  have keeps : ∀ op ∈ spillOps, op.writesX 1 = false := by decide
  have code : path.vector target = (path.vector target).dropLast ++ [adrl 1 target] := by cases path <;> rfl
  have spill : registerSpillNoX0X1Sp = spillOps.map Op.instr := rfl
  have other : (enter path target vector exceptionReturnAddr esr far c).x 1 =
      (run (path.vector target ++ registerSpillNoX0X1Sp) (takeException vector esr far c)).x 1 := rfl
  rw [other, run_append, spill, run_x keeps, code, run_append]
  rfl

theorem enter_returns : Returns (enter path target vector exceptionReturnAddr esr far c)
    (enter path target vector exceptionReturnAddr esr far c) where
  spSel := rfl
  spEl0 := rfl
  spEl1 := rfl
  context _ _ := rfl

/-- What an entry has stored where the compiler places a member is what the handler reads there. -/
theorem handlerReads_enter {access : List (Step ContextMember)} {s : Slot}
    (member : s ∈ contextSlots path (takeException vector esr far c))
    (located : structArm64Context.locate access = some (s.offset, .scalar s.bytes)) :
    handlerReads (enter path target vector exceptionReturnAddr esr far c) access s.bytes = some s.value := by
  rw [handlerReads_eq located, enter_x0]
  exact congrArg some ((enter_returns ..).load_context member)

theorem enter_handlerSees : HandlerSees path c (takeException vector esr far c)
    (enter path target vector exceptionReturnAddr esr far c) := by
  let e := takeException vector esr far c
  have stored {access : List (Step ContextMember)} {s : Slot} (member : s ∈ contextSlots path e)
      (located : structArm64Context.locate access = some (s.offset, .scalar s.bytes)) :=
    handlerReads_enter path target vector exceptionReturnAddr esr far c member located
  have system {access : List (Step ContextMember)} {s : Slot} (member : s ∈ systemSlots e)
      (located : structArm64Context.locate access = some (s.offset, .scalar s.bytes)) :=
    stored (system_mem_contextSlots path e member) located
  have pointer := enter_x0 path target vector exceptionReturnAddr esr far c
  have q := (enter_returns path target vector exceptionReturnAddr esr far c).contextQ
  have interruptedSp : path.interruptedSp e = path.interruptedSp c := by cases path <;> rfl
  have esrLow : (SysReg.esrEl1.read e).setWidth 32 = e.esrEl1 := setWidth_back e.esrEl1
  have spsrLow : (SysReg.spsrEl1.read e).setWidth 32 = e.spsrEl1 := setWidth_back e.spsrEl1
  exact
    { x := fun r => stored (x_mem_contextSlots path e (r.castLE (by decide))) (locate_x r.isLt)
      fp := stored (x_mem_contextSlots path e 29) rfl
      lr := stored (x_mem_contextSlots path e 30) rfl
      sp := interruptedSp ▸ stored (sp_mem_contextSlots path e) rfl
      qLow := fun r => q ▸ handlerReads_q pointer r 0 (by decide)
      qHigh := fun r => q ▸ handlerReads_q pointer r 1 (by decide)
      fpsr := system (s := slotW arm64NeonFpsr e.fpsr) (by simp [systemSlots]) rfl
      fpcr := system (s := slotW arm64NeonFpcr e.fpcr) (by simp [systemSlots]) rfl
      esr := esrLow ▸ system (s := slotW arm64Esr e.esrEl1) (by simp [systemSlots]) rfl
      cpsr := spsrLow ▸ system (s := slotW arm64Cpsr e.spsrEl1) (by simp [systemSlots]) rfl
      far := system (s := slotX arm64Far e.farEl1) (by simp [systemSlots]) rfl
      pc := system (s := slotX arm64Pc e.elrEl1) (by simp [systemSlots]) rfl }

end

/-- The handler of every entry path gets a pointer to the context in x0 and finds the interrupted state in
its members; the stores of the entry, which are all that changes memory, hit no byte twice and none
outside the context. -/
theorem handler_sees_interrupted_state (path : EntryPath) (target vector exceptionReturnAddr : BitVec 64)
    (esr : BitVec 32) (far : BitVec 64) (c : Cpu) :
    let e := takeException vector esr far c
    let k := enter path target vector exceptionReturnAddr esr far c
    let stores := storesOf (entryOps path target) e
    (k.x 0 = path.context c ∧ k.x 0 = k.sp ∧ k.x 1 = target) ∧
      HandlerSees path c e k ∧
      ((c.spSel = true ↔ path = .el1Sp1) → path.interruptedSp c = c.sp) ∧
      (entryOps path target).map Op.instr = path.vector target ++ registerSpillNoX0X1Sp ∧
      k.mem = stores.foldl Store.write c.mem ∧
      stores.Pairwise Store.Apart ∧
      (∀ s ∈ stores, s.Within (k.x 0) arm64ContextSize) ∧
      structArm64Context.size = arm64ContextSize := by
  intro e k stores
  have atSp : k.x 0 = k.sp := enter_x0 ..
  have pointer : k.x 0 = path.context c := atSp.trans (enter_sp ..)
  have code := entryOps_instr path target
  have extents : stores.map (fun s => (s.base, s.range)) = contextRanges.map fun r => (path.context c, r) :=
    storesOf_entryOps path target (takeException_spSel vector esr far c)
  refine ⟨⟨pointer, atSp, enter_x1 ..⟩, enter_handlerSees .., fun taken => ?_, code, ?_,
    apart_of_extents extents contextRanges_apart, ?_, context_static_asserts.1.symm⟩
  · cases path with
    | el1Sp0 =>
      have clear : c.spSel = false := by simpa using taken
      simp [Cpu.sp, EntryPath.interruptedSp, clear]
    | el1Sp1 =>
      have set : c.spSel = true := taken.mpr rfl
      simp [Cpu.sp, EntryPath.interruptedSp, set]
    | el0Sp1 =>
      have clear : c.spSel = false := by simpa using taken
      simp [Cpu.sp, EntryPath.interruptedSp, clear]
  · have run := run_mem (entryOps path target) e
    rw [code] at run
    exact run
  · rw [pointer]
    exact within_of_extents extents contextRanges_inside

end Swink.Exception
