import Swink.Exception.Spill

namespace Swink.Exception
open ByteMemory

/-- The stack that an entry path puts the context on, and the stack pointer that it saves. -/
def EntryPath.stack (c : Cpu) : EntryPath → BitVec 64
  | el1Sp0 => c.spEl0
  | el1Sp1 => c.spEl1
  | el0Sp1 => c.spEl1

def EntryPath.interruptedSp (c : Cpu) : EntryPath → BitVec 64
  | el1Sp0 => c.spEl0
  | el1Sp1 => c.spEl1
  | el0Sp1 => c.spEl0

/-- The address of the context. -/
def EntryPath.context (path : EntryPath) (c : Cpu) : BitVec 64 := path.stack c - BitVec.ofNat 64 arm64ContextSize

/-- Does the handler run on SP_EL1? -/
def EntryPath.usesSp1 : EntryPath → Bool
  | el1Sp0 => false
  | el1Sp1 => true
  | el0Sp1 => true

/-- What the vector stores. -/
def vectorSlots (path : EntryPath) (c : Cpu) : List Slot :=
  [ slotX (arm64Gp 0) (c.x 0),
    slotX (arm64Gp 0 + 8) (c.x 1),
    slotX arm64GpSp (path.interruptedSp c) ]

/-- What a whole entry stores, in terms of the state that the exception has left. -/
def contextSlots (path : EntryPath) (c : Cpu) : List Slot :=
  vectorSlots path c ++ (gpSlots c.x ++ [slotX arm64GpLr (c.x lr)]) ++ (neonSlots c.q ++ systemSlots c)

/-- The state that a path has moved to its stack. -/
def EntryPath.onStack (path : EntryPath) (c : Cpu) : Cpu :=
  { c with
    pstate := if path.usesSp1 then c.pstate else c.pstate &&& ~~~1#32
    spEl0 := if path.usesSp1 then c.spEl0 else path.context c
    spEl1 := if path.usesSp1 then path.context c else c.spEl1 }

theorem gpSlots_congr {x x' : Fin 31 → BitVec 64} (same : ∀ r, r ≠ 0 → r ≠ 1 → x r = x' r) :
    gpSlots x = gpSlots x' := by
  have away : ∀ t ∈ gpPairs, (t ≠ 0 ∧ t ≠ 1) ∧ t + 1 ≠ 0 ∧ t + 1 ≠ 1 := by decide
  unfold gpSlots
  rw [List.flatMap_def, List.flatMap_def]
  refine congrArg List.flatten (List.map_congr_left fun t member => ?_)
  obtain ⟨⟨t0, t1⟩, next0, next1⟩ := away t member
  rw [same t t0 t1, same (t + 1) next0 next1]

/-- Once the stack is chosen, x0 and x1 are stored, and the stack pointer that `save` brings to x0. -/
theorem run_save {save : Instr} {value : BitVec 64} (target : BitVec 64) (c : Cpu)
    (saves : save (stpX 0 1 (arm64Gp 0) c) = (stpX 0 1 (arm64Gp 0) c).setX 0 value) :
    run [stpX 0 1 (arm64Gp 0), save, strX 0 arm64GpSp, adrl 1 target] c =
      { c with
        x := Function.update (Function.update c.x 0 value) 1 target
        mem := writeAll c.mem c.sp
          [slotX (arm64Gp 0) (c.x 0), slotX (arm64Gp 0 + 8) (c.x 1), slotX arm64GpSp value] } := by
  show adrl 1 target (strX 0 arm64GpSp (save (stpX 0 1 (arm64Gp 0) c))) = _
  rw [saves]
  rfl

theorem EntryPath.onStack_spSel (path : EntryPath) {c : Cpu} (selected : c.spSel = true) :
    (path.onStack c).spSel = path.usesSp1 := by
  cases path with
  | el1Sp0 =>
    show (c.pstate &&& ~~~1#32).getLsbD 0 = false
    simp
  | el1Sp1 => exact selected
  | el0Sp1 => exact selected

theorem EntryPath.onStack_sp (path : EntryPath) {c : Cpu} (selected : c.spSel = true) :
    (path.onStack c).sp = path.context c := by
  unfold Cpu.sp
  rw [path.onStack_spSel selected]
  cases path <;> rfl

theorem systemSlots_onStack (path : EntryPath) (c : Cpu) : systemSlots (path.onStack c) = systemSlots c := rfl

theorem subSp_eq (c : Cpu) (count : Nat) :
    subSp count c =
      { c with
        spEl0 := if c.spSel then c.spEl0 else c.spEl0 - BitVec.ofNat 64 count
        spEl1 := if c.spSel then c.spEl1 - BitVec.ofNat 64 count else c.spEl1 } := by
  rw [subSp, Cpu.setSp_eq]
  rcases sel : c.spSel <;> simp [Cpu.sp, sel]

/-- Making room for the context on the stack of each path. -/
theorem subSp_onStack {c : Cpu} (selected : c.spSel = true) :
    subSp arm64ContextSize c = EntryPath.el1Sp1.onStack c := by
  rw [subSp_eq, selected]
  rfl

theorem subSp_msrSpSelZero_onStack {c : Cpu} (selected : c.spSel = true) :
    subSp arm64ContextSize (msrSpSelZero c) = EntryPath.el1Sp0.onStack c := by
  have cleared : (msrSpSelZero c).spSel = false := EntryPath.el1Sp0.onStack_spSel selected
  rw [subSp_eq, cleared]
  rfl

/-- A vector makes room for the context and stores x0, x1 and the interrupted stack pointer. -/
theorem run_vector (path : EntryPath) (target : BitVec 64) {c : Cpu} (selected : c.spSel = true) :
    ∃ x, run (path.vector target) c =
        { path.onStack c with
          x := x
          mem := writeAll c.mem (path.context c) (vectorSlots path c) } ∧
      ∀ r, r ≠ 0 → r ≠ 1 → x r = c.x r := by
  have restored : path.stack c = (path.onStack c).sp + BitVec.ofNat 64 arm64ContextSize := by
    rw [path.onStack_sp selected, EntryPath.context, BitVec.sub_add_cancel]
  refine ⟨Function.update (Function.update c.x 0 (path.interruptedSp c)) 1 target, ?_, fun r not0 not1 => ?_⟩
  · rw [← path.onStack_sp selected]
    cases path with
    | el1Sp0 =>
      show run _ (subSp arm64ContextSize (msrSpSelZero c)) = _
      rw [subSp_msrSpSelZero_onStack selected]
      exact run_save target _ (congrArg (fun value => Cpu.setX 0 value _) restored.symm)
    | el1Sp1 =>
      show run _ (subSp arm64ContextSize c) = _
      rw [subSp_onStack selected]
      exact run_save target _ (congrArg (fun value => Cpu.setX 0 value _) restored.symm)
    | el0Sp1 =>
      show run _ (subSp arm64ContextSize c) = _
      rw [subSp_onStack selected]
      exact run_save target _ rfl
  · rw [Function.update_of_ne not1, Function.update_of_ne not0]

/-- The rest of an entry stores everything else at the stack pointer. -/
theorem run_registerSpill (c : Cpu) (x : Fin 31 → BitVec 64) (mem : BitVec 64 → BitVec 8) :
    ∃ x', run registerSpillNoX0X1Sp { c with x := x, mem := mem } =
      { c with
        x := x'
        mem := writeAll mem c.sp (gpSlots x ++ [slotX arm64GpLr (x lr)] ++ (neonSlots c.q ++ systemSlots c)) } := by
  have rest := stores_spillNeon.append stores_spillSystem
  obtain ⟨x', stored⟩ := rest.after (run_spillGp { c with x := x, mem := mem })
  refine ⟨x', ?_⟩
  rw [registerSpillNoX0X1Sp, List.append_assoc, stored, rest.stable]
  rfl

/-- Taking an exception selects SP_EL1. -/
theorem takeException_spSel (vector : BitVec 64) (esr : BitVec 32) (far : BitVec 64) (c : Cpu) :
    (takeException vector esr far c).spSel = true := by
  show (c.pstate &&& 0xf0000000#32 ||| 0x3c5#32).getLsbD 0 = true
  have set : (0x3c5#32).getLsbD 0 = true := by decide
  rw [BitVec.getLsbD_or, set, Bool.or_true]

/-- The handler is called on the stack of the path, with the whole context at the stack pointer. -/
theorem enter_eq (path : EntryPath) (target vector exceptionReturnAddr : BitVec 64) (esr : BitVec 32) (far : BitVec 64)
    (c : Cpu) :
    ∃ x, enter path target vector exceptionReturnAddr esr far c =
      { path.onStack (takeException vector esr far c) with
        x := x
        mem := writeAll c.mem (path.context c) (contextSlots path (takeException vector esr far c)) } := by
  have selected := takeException_spSel vector esr far c
  obtain ⟨x, atVector, kept⟩ := run_vector path target selected
  obtain ⟨x', stored⟩ := run_registerSpill (path.onStack (takeException vector esr far c)) x
    (writeAll c.mem (path.context c) (vectorSlots path (takeException vector esr far c)))
  have onContext : (path.onStack (takeException vector esr far c)).sp = path.context c := path.onStack_sp selected
  refine ⟨Function.update x' lr exceptionReturnAddr, ?_⟩
  rw [enter, run_append, atVector]
  refine (congrArg (Cpu.setX lr exceptionReturnAddr) stored).trans ?_
  have whole : contextSlots path (takeException vector esr far c) = _ := List.append_assoc ..
  rw [onContext, writeAll_append, gpSlots_congr kept, kept lr (by decide) (by decide), whole, systemSlots_onStack]
  rfl

theorem enter_sp (path : EntryPath) (target vector exceptionReturnAddr : BitVec 64) (esr : BitVec 32) (far : BitVec 64)
    (c : Cpu) : (enter path target vector exceptionReturnAddr esr far c).sp = path.context c := by
  obtain ⟨x, entered⟩ := enter_eq path target vector exceptionReturnAddr esr far c
  rw [entered]
  exact path.onStack_sp (takeException_spSel vector esr far c)

end Swink.Exception
