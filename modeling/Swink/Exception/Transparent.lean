import Swink.Exception.Entry
import Swink.Exception.Unspill

namespace Swink.Exception
open ByteMemory

/-- A handler called in `k` comes back in `k'`: both stack pointers and the context are as they were.
It may have changed everything else. -/
structure Returns (k k' : Cpu) : Prop where
  spSel : k'.spSel = k.spSel
  spEl0 : k'.spEl0 = k.spEl0
  spEl1 : k'.spEl1 = k.spEl1
  context : ∀ i < arm64ContextSize, k'.mem (bytesAt k.sp 0 i) = k.mem (bytesAt k.sp 0 i)

/-- What interrupted code can see of the state is as it was. -/
structure Resumes (c c' : Cpu) : Prop where
  x : c'.x = c.x
  spEl0 : c'.spEl0 = c.spEl0
  spEl1 : c'.spEl1 = c.spEl1
  q : c'.q = c.q
  fpsr : c'.fpsr = c.fpsr
  fpcr : c'.fpcr = c.fpcr
  pc : c'.pc = c.pc
  pstate : c'.pstate = c.pstate

/-- The ranges of `struct arm64_context` that an entry fills, in the order it does. -/
def contextRanges : List (Nat × Nat) :=
  [(arm64Gp 0, arm64Gp 1), (arm64Gp 1, arm64Gp 2), (arm64GpSp, arm64GpEnd)] ++
    ((gpPairs.flatMap fun t : Fin 31 => [(arm64Gp t, arm64Gp t + 8), (arm64Gp t + 8, arm64Gp t + 16)]) ++
      [(arm64GpLr, arm64GpSp)]) ++
    ((neonPairs.flatMap fun t : Fin 32 =>
      [(arm64NeonQ t, arm64NeonQ t + 16), (arm64NeonQ t + 16, arm64NeonQ t + 32)]) ++
      [ (arm64Esr, arm64Cpsr),
        (arm64Cpsr, arm64Far),
        (arm64Far, arm64Pc),
        (arm64Pc, arm64ContextSize),
        (arm64NeonFpsr, arm64NeonFpcr),
        (arm64NeonFpcr, arm64NeonEnd) ])

theorem contextRanges_apart : RangesApart contextRanges := by decide +kernel

theorem contextSlots_ranges (path : EntryPath) (c : Cpu) : (contextSlots path c).map Slot.range = contextRanges := rfl

theorem contextRanges_inside : ∀ r ∈ contextRanges, r.2 ≤ arm64ContextSize := by decide

theorem x_mem_contextSlots (path : EntryPath) (c : Cpu) (r : Fin 31) :
    slotX (arm64Gp r) (c.x r) ∈ contextSlots path c := by
  have split : ∀ r : Fin 31, r = 0 ∨ r = 1 ∨ r = lr ∨ ∃ t ∈ gpPairs, r = t ∨ r = t + 1 := by decide
  have adjacent : ∀ t ∈ gpPairs, arm64Gp (t + 1 : Fin 31) = arm64Gp t + 8 := by decide
  refine List.mem_append_left _ ?_
  rcases split r with rfl | rfl | rfl | ⟨t, member, rfl | rfl⟩
  · exact List.mem_append_left _ (List.mem_cons_self ..)
  · exact List.mem_append_left _ (List.mem_cons_of_mem _ (List.mem_cons_self ..))
  · exact List.mem_append_right _ (List.mem_append_right _ (List.mem_cons_self ..))
  · refine List.mem_append_right _ (List.mem_append_left _ (List.mem_flatMap.mpr ⟨r, member, ?_⟩))
    exact List.mem_cons_self ..
  · refine List.mem_append_right _ (List.mem_append_left _ (List.mem_flatMap.mpr ⟨t, member, ?_⟩))
    rw [adjacent t member]
    exact List.mem_cons_of_mem _ (List.mem_cons_self ..)

theorem q_mem_contextSlots (path : EntryPath) (c : Cpu) (r : Fin 32) :
    slotQ (arm64NeonQ r) (c.q r) ∈ contextSlots path c := by
  have split : ∀ r : Fin 32, ∃ t ∈ neonPairs, r = t ∨ r = t + 1 := by decide
  have adjacent : ∀ t ∈ neonPairs, arm64NeonQ (t + 1 : Fin 32) = arm64NeonQ t + 16 := by decide
  refine List.mem_append_right _ (List.mem_append_left _ ?_)
  obtain ⟨t, member, rfl | rfl⟩ := split r
  · exact List.mem_flatMap.mpr ⟨r, member, List.mem_cons_self ..⟩
  · refine List.mem_flatMap.mpr ⟨t, member, ?_⟩
    rw [adjacent t member]
    exact List.mem_cons_of_mem _ (List.mem_cons_self ..)

theorem sp_mem_contextSlots (path : EntryPath) (c : Cpu) :
    slotX arm64GpSp (path.interruptedSp c) ∈ contextSlots path c :=
  List.mem_append_left _ (List.mem_append_left _ (by simp [vectorSlots]))

theorem system_mem_contextSlots (path : EntryPath) (c : Cpu) {s : Slot} (member : s ∈ systemSlots c) :
    s ∈ contextSlots path c :=
  List.mem_append_right _ (List.mem_append_right _ member)

theorem Returns.sp {k k' : Cpu} (returns : Returns k k') : k'.sp = k.sp := by
  unfold Cpu.sp
  rw [returns.spSel, returns.spEl0, returns.spEl1]

section
variable {path : EntryPath} {target vector exceptionReturnAddr : BitVec 64} {esr : BitVec 32} {far : BitVec 64}
  {c k : Cpu} (returns : Returns (enter path target vector exceptionReturnAddr esr far c) k)
include returns

/-- After the handler, the context still says what the entry has stored. -/
theorem Returns.load_context {s : Slot} (member : s ∈ contextSlots path (takeException vector esr far c)) :
    load (8 * s.bytes) k.mem (bytesAt k.sp s.offset) s.bytes = s.value := by
  obtain ⟨x, entered⟩ := enter_eq path target vector exceptionReturnAddr esr far c
  have ranges := contextSlots_ranges path (takeException vector esr far c)
  have inside : s.offset + s.bytes ≤ arm64ContextSize :=
    contextRanges_inside s.range (ranges ▸ List.mem_map_of_mem member)
  have mem : (enter path target vector exceptionReturnAddr esr far c).mem =
      writeAll c.mem (path.context c) (contextSlots path (takeException vector esr far c)) := by
    rw [entered]
  rw [returns.sp, load_bytesAt_congr returns.context inside, enter_sp, mem]
  exact load_writeAll (ranges ▸ contextRanges_apart) member

theorem Returns.contextX : contextX k = c.x := by
  funext r
  exact returns.load_context (x_mem_contextSlots path (takeException vector esr far c) r)

theorem Returns.contextQ : contextQ k = c.q := by
  funext r
  exact returns.load_context (q_mem_contextSlots path (takeException vector esr far c) r)

theorem Returns.contextSp : contextSp k = path.interruptedSp c := by
  have interruptedSp : path.interruptedSp (takeException vector esr far c) = path.interruptedSp c := by
    cases path <;> rfl
  exact (returns.load_context (sp_mem_contextSlots path (takeException vector esr far c))).trans interruptedSp

theorem Returns.system {s : Slot} (member : s ∈ systemSlots (takeException vector esr far c)) :
    load (8 * s.bytes) k.mem (bytesAt k.sp s.offset) s.bytes = s.value :=
  returns.load_context (system_mem_contextSlots path _ member)

/-- What the interrupted code gets back: the path from EL0 finds the saved SP_EL0 in SP_EL1, and every
path finds FPCR as the handler has left it. -/
theorem Returns.exceptionReturn_eq :
    exceptionReturn k =
      { k with
        x := c.x
        q := c.q
        spEl0 := c.spEl0
        spEl1 := if path = .el0Sp1 then c.spEl0 else c.spEl1
        fpsr := c.fpsr
        elrEl1 := c.pc
        spsrEl1 := c.pstate
        pc := c.pc
        pstate := c.pstate } := by
  obtain ⟨x, entered⟩ := enter_eq path target vector exceptionReturnAddr esr far c
  have fpsr : load 32 k.mem (bytesAt k.sp arm64NeonFpsr) 4 = c.fpsr :=
    returns.system (s := slotW arm64NeonFpsr c.fpsr) (by simp [systemSlots, takeException])
  have pstate : load 32 k.mem (bytesAt k.sp arm64Cpsr) 4 = c.pstate :=
    returns.system (s := slotW arm64Cpsr c.pstate) (by simp [systemSlots, takeException])
  have pc : load 64 k.mem (bytesAt k.sp arm64Pc) 8 = c.pc :=
    returns.system (s := slotX arm64Pc c.pc) (by simp [systemSlots, takeException])
  have spSel : k.spSel = path.usesSp1 := by
    rw [returns.spSel, entered]
    exact path.onStack_spSel (takeException_spSel vector esr far c)
  have spEl0 : (if path.usesSp1 then k.spEl0 else path.interruptedSp c) = c.spEl0 := by
    rw [returns.spEl0, entered]
    cases path <;> rfl
  have spEl1 : (if path.usesSp1 then path.interruptedSp c else k.spEl1) =
      if path = .el0Sp1 then c.spEl0 else c.spEl1 := by
    rw [returns.spEl1, entered]
    cases path <;> rfl
  rw [Exception.exceptionReturn_eq, returns.contextX, returns.contextQ, returns.contextSp, fpsr, pstate, pc, spSel,
    spEl0, spEl1]

end

/-- Entry and return are transparent exactly when the handler keeps FPCR and the path does not mix
the two stack pointers up. -/
theorem exception_is_transparent_iff (path : EntryPath) (target vector exceptionReturnAddr : BitVec 64)
    (esr : BitVec 32) (far : BitVec 64) {c k : Cpu}
    (returns : Returns (enter path target vector exceptionReturnAddr esr far c) k) :
    Resumes c (exceptionReturn k) ↔ (path = .el0Sp1 → c.spEl0 = c.spEl1) ∧ k.fpcr = c.fpcr := by
  rw [returns.exceptionReturn_eq]
  constructor
  · intro resumes
    refine ⟨fun fromEl0 => ?_, resumes.fpcr⟩
    have spEl1 := resumes.spEl1
    rwa [if_pos fromEl0] at spEl1
  · rintro ⟨sameStack, fpcr⟩
    refine ⟨rfl, rfl, ?_, rfl, rfl, fpcr, rfl, rfl⟩
    by_cases fromEl0 : path = .el0Sp1
    · exact (if_pos fromEl0).trans (sameStack fromEl0)
    · exact if_neg fromEl0

/-- A state of a program on its stack, with the service stack elsewhere. -/
def sampleState (pstate : BitVec 32) : Cpu where
  x := fun t => BitVec.ofNat 64 t
  spEl0 := 0x7ffff000
  spEl1 := 0xffff000000092000
  q := fun t => BitVec.ofNat 128 t
  fpsr := 0x10
  fpcr := 0x400000
  pc := 0x400080
  pstate := pstate
  elrEl1 := 0
  spsrEl1 := 0
  esrEl1 := 0
  farEl1 := 0
  mem := fun _ => 0

/-- A handler that clears every register it may. -/
def clearingHandler (c : Cpu) : Cpu :=
  { c with
    x := fun _ => 0
    q := fun _ => 0
    fpsr := 0
    elrEl1 := 0
    spsrEl1 := 0 }

theorem clearingHandler_returns (c : Cpu) : Returns c (clearingHandler c) where
  spSel := rfl
  spEl0 := rfl
  spEl1 := rfl
  context _ _ := rfl

theorem exception_is_transparent_iff_sample :
    Resumes (sampleState 5) (exceptionReturn (clearingHandler (enter .el1Sp1 0x80200 0x80a00 0x80c00 0x56000000 0
      (sampleState 5)))) := by
  refine (exception_is_transparent_iff .el1Sp1 0x80200 0x80a00 0x80c00 0x56000000 0
    (clearingHandler_returns _)).mpr ⟨nofun, ?_⟩
  obtain ⟨x, entered⟩ := enter_eq .el1Sp1 0x80200 0x80a00 0x80c00 0x56000000 0 (sampleState 5)
  rw [entered]
  rfl

/-- A system call comes back with the stack pointer of the program in SP_EL1, where the next exception
will store its context. -/
theorem user_return_loses_service_stack :
    ¬ (Returns (enter .el0Sp1 0x80200 0x80c00 0x80e00 0x56000000 0 (sampleState 0))
        (clearingHandler (enter .el0Sp1 0x80200 0x80c00 0x80e00 0x56000000 0 (sampleState 0))) →
      Resumes (sampleState 0) (exceptionReturn (clearingHandler
        (enter .el0Sp1 0x80200 0x80c00 0x80e00 0x56000000 0 (sampleState 0))))) := by
  intro transparent
  have returns := clearingHandler_returns (enter .el0Sp1 0x80200 0x80c00 0x80e00 0x56000000 0 (sampleState 0))
  have spEl1 := (transparent returns).spEl1
  rw [returns.exceptionReturn_eq] at spEl1
  have wrong : (0x7ffff000 : BitVec 64) = 0xffff000000092000 := spEl1
  exact absurd wrong (by decide)

end Swink.Exception
