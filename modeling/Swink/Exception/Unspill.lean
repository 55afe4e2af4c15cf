import Swink.Exception.Spill
import Mathlib.Order.Fin.Basic

namespace Swink.Exception
open ByteMemory

/-- What a context at the stack pointer says of a general register and of a NEON register. -/
def contextX (c : Cpu) (t : Fin 31) : BitVec 64 := load 64 c.mem (bytesAt c.sp (arm64Gp t)) 8

def contextQ (c : Cpu) (t : Fin 32) : BitVec 128 := load 128 c.mem (bytesAt c.sp (arm64NeonQ t)) 16

def contextSp (c : Cpu) : BitVec 64 := load 64 c.mem (bytesAt c.sp arm64GpSp) 8

/-- A list of instructions that load registers of a file: as no value depends on the file, each
register ends with its own value, however often it is loaded. -/
theorem run_loads {α ρ V : Type} [DecidableEq ρ] (file : Cpu → ρ → V) (setFile : (ρ → V) → Cpu → Cpu)
    (value : Cpu → ρ → V) (instr : α → Instr) (regs : α → List ρ) (ts : List α)
    (file_set : ∀ f c, file (setFile f c) = f) (set_set : ∀ f g c, setFile g (setFile f c) = setFile g c)
    (set_file : ∀ c, setFile (file c) c = c) (value_set : ∀ f c, value (setFile f c) = value c)
    (one : ∀ t ∈ ts, ∀ c, instr t c = setFile (fun r => if r ∈ regs t then value c r else file c r) c) (c : Cpu) :
    run (ts.map instr) c = setFile (fun r => if r ∈ ts.flatMap regs then value c r else file c r) c := by
  induction ts generalizing c with
  | nil =>
    have same : (fun r => if r ∈ ([] : List α).flatMap regs then value c r else file c r) = file c := by
      funext r
      exact if_neg (by simp)
    rw [same, set_file]
    rfl
  | cons t rest ih =>
    show run (rest.map instr) (instr t c) = _
    rw [ih (fun t' member => one t' (List.mem_cons_of_mem _ member)), one t (List.mem_cons_self ..), set_set,
      value_set, file_set]
    congr 1
    funext r
    by_cases later : r ∈ rest.flatMap regs
    · rw [if_pos later, if_pos (List.flatMap_cons ▸ List.mem_append_right _ later)]
    · by_cases now : r ∈ regs t
      · rw [if_neg later, if_pos now, if_pos (List.flatMap_cons ▸ List.mem_append_left _ now)]
      · rw [if_neg later, if_neg now, if_neg]
        rw [List.flatMap_cons, List.mem_append]
        exact not_or.mpr ⟨now, later⟩

theorem update_pair {ρ V : Type} [DecidableEq ρ] (f value : ρ → V) (t t' : ρ) :
    Function.update (Function.update f t (value t)) t' (value t') = fun r => if r ∈ [t, t'] then value r else f r := by
  funext r
  by_cases second : r = t'
  · subst second
    simp
  · by_cases first : r = t
    · subst first
      simp [second]
    · simp [first, second]

theorem run_unspillGp (c : Cpu) :
    run unspillGp c =
      { c with
        x := fun r => if r ∈ gpPairs.flatMap fun t : Fin 31 => [t, t + 1] then contextX c r else c.x r } := by
  have shape : unspillGp = gpPairs.map fun t : Fin 31 => ldpX t (t + 1) (arm64Gp t) := rfl
  have adjacent : ∀ t ∈ gpPairs, arm64Gp (t + 1 : Fin 31) = arm64Gp t + 8 := by decide
  rw [shape]
  refine run_loads (·.x) (fun x c => { c with x := x }) contextX _ (fun t => [t, t + 1]) gpPairs (fun _ _ => rfl)
    (fun _ _ _ => rfl) (fun _ => rfl) (fun _ _ => rfl) (fun t member c => ?_) c
  rw [← update_pair, contextX, contextX, adjacent t member]
  rfl

theorem run_unspillNeon (c : Cpu) : run unspillNeon c = { c with q := contextQ c } := by
  have shape : unspillNeon = neonPairs.map fun t : Fin 32 => ldpQ t (t + 1) (arm64NeonQ t) := rfl
  have adjacent : ∀ t ∈ neonPairs, arm64NeonQ (t + 1 : Fin 32) = arm64NeonQ t + 16 := by decide
  have every : ∀ r : Fin 32, r ∈ neonPairs.flatMap fun t : Fin 32 => [t, t + 1] := by decide
  rw [shape]
  refine (run_loads (·.q) (fun q c => { c with q := q }) contextQ _ (fun t => [t, t + 1]) neonPairs (fun _ _ => rfl)
    (fun _ _ _ => rfl) (fun _ => rfl) (fun _ _ => rfl) (fun t member c => ?_) c).trans ?_
  · rw [← update_pair, contextQ, contextQ, adjacent t member]
    rfl
  · simp only [if_pos (every _)]

/-- FPSR is loaded twice, and FPCR not at all. -/
theorem run_unspillSystem (c : Cpu) :
    ∃ x, run unspillSystem c =
        { c with
          x := x
          fpsr := load 32 c.mem (bytesAt c.sp arm64NeonFpsr) 4
          spsrEl1 := load 32 c.mem (bytesAt c.sp arm64Cpsr) 4
          elrEl1 := load 64 c.mem (bytesAt c.sp arm64Pc) 8 } ∧
      ∀ r, r ≠ 0 → r ≠ 1 → x r = c.x r := by
  refine ⟨(run unspillSystem c).x, ?_, fun r not0 not1 => ?_⟩
  · have fpsr : (run unspillSystem c).fpsr = load 32 c.mem (bytesAt c.sp arm64NeonFpsr) 4 := setWidth_back _
    have spsr : (run unspillSystem c).spsrEl1 = load 32 c.mem (bytesAt c.sp arm64Cpsr) 4 := setWidth_back _
    have elr : (run unspillSystem c).elrEl1 = load 64 c.mem (bytesAt c.sp arm64Pc) 8 := rfl
    rw [← fpsr, ← spsr, ← elr]
    rfl
  · show Function.update (Function.update (Function.update (Function.update c.x 0 _) 1 _) 0 _) 1 _ r = c.x r
    rw [Function.update_of_ne not1, Function.update_of_ne not0, Function.update_of_ne not1, Function.update_of_ne not0]

/-- Loading a pair through a register that holds the stack pointer of another state. -/
theorem ldpXFrom_eq {c k : Cpu} (base : k.x 0 = c.sp) (mem : k.mem = c.mem) :
    ldpXFrom 0 1 0 (arm64Gp 0) k =
      { k with x := Function.update (Function.update k.x 0 (contextX c 0)) 1 (contextX c 1) } := by
  have first : load 64 k.mem (bytesAt (k.x 0) (arm64Gp 0)) 8 = contextX c 0 := by
    rw [base, mem]
    rfl
  have second : load 64 k.mem (bytesAt (k.x 0) (arm64Gp 0 + 8)) 8 = contextX c 1 := by
    rw [base, mem]
    rfl
  unfold ldpXFrom
  rw [first, second]
  rfl

/-- The last four instructions load the link register and the stack pointer, and x0 and x1 through
the address that the stack pointer had. -/
theorem run_unspillStack (c : Cpu) :
    run unspillStack c =
      { c with
        x := fun r => if r ∈ [lr, 0, 1] then contextX c r else c.x r
        spEl0 := if c.spSel then c.spEl0 else contextSp c
        spEl1 := if c.spSel then contextSp c else c.spEl1 } := by
  let x := Function.update (Function.update (Function.update c.x lr (contextX c lr)) 1 (contextSp c)) 0 c.sp
  have moved : run [ldpX lr 1 arm64GpLr, movXSp 0, movSpX 1] c =
      { c with
        x := x
        spEl0 := if c.spSel then c.spEl0 else contextSp c
        spEl1 := if c.spSel then contextSp c else c.spEl1 } := Cpu.setSp_eq { c with x := x } (contextSp c)
  have loaded : Function.update (Function.update x 0 (contextX c 0)) 1 (contextX c 1) =
      fun r => if r ∈ [lr, 0, 1] then contextX c r else c.x r := by
    rw [update_pair]
    funext r
    by_cases low : r ∈ [(0 : Fin 31), 1]
    · rw [if_pos low, if_pos (List.mem_cons_of_mem _ low)]
    · have not0 : r ≠ 0 := fun same => low (same ▸ List.mem_cons_self ..)
      have not1 : r ≠ 1 := fun same => low (same ▸ List.mem_cons_of_mem _ (List.mem_cons_self ..))
      rw [if_neg low]
      show Function.update (Function.update (Function.update c.x lr (contextX c lr)) 1 _) 0 _ r = _
      rw [Function.update_of_ne not0, Function.update_of_ne not1]
      by_cases link : r = lr
      · rw [link, Function.update_self, if_pos (List.mem_cons_self ..)]
      · rw [Function.update_of_ne link, if_neg (List.mem_cons.not.mpr (not_or.mpr ⟨link, low⟩))]
  show ldpXFrom 0 1 0 (arm64Gp 0) (run [ldpX lr 1 arm64GpLr, movXSp 0, movSpX 1] c) = _
  rw [moved]
  refine (ldpXFrom_eq (c := c) ?_ ?_).trans ?_
  · rfl
  · rfl
  · rw [← loaded]

/-- The loads of `REGISTER_UNSPILL` together: every register of both files comes from the context,
and the saved stack pointer goes to the stack pointer in use. -/
theorem run_unspill (c : Cpu) :
    run (unspillGp ++ unspillNeon ++ unspillSystem ++ unspillStack) c =
      { c with
        x := contextX c
        q := contextQ c
        spEl0 := if c.spSel then c.spEl0 else contextSp c
        spEl1 := if c.spSel then contextSp c else c.spEl1
        fpsr := load 32 c.mem (bytesAt c.sp arm64NeonFpsr) 4
        spsrEl1 := load 32 c.mem (bytesAt c.sp arm64Cpsr) 4
        elrEl1 := load 64 c.mem (bytesAt c.sp arm64Pc) 8 } := by
  obtain ⟨x, system, kept⟩ := run_unspillSystem (run unspillNeon (run unspillGp c))
  have every : ∀ r : Fin 31, r ∉ [lr, 0, 1] → r ∈ gpPairs.flatMap fun t : Fin 31 => [t, t + 1] := by decide
  have whole : (fun r => if r ∈ [lr, 0, 1] then contextX c r else x r) = contextX c := by
    funext r
    by_cases low : r ∈ [lr, 0, 1]
    · exact if_pos low
    · have not0 : r ≠ 0 := fun same => low (by simp [same])
      have not1 : r ≠ 1 := fun same => low (by simp [same])
      rw [if_neg low, kept r not0 not1, run_unspillNeon, run_unspillGp]
      exact if_pos (every r low)
  rw [run_append, run_append, run_append, system, run_unspillStack, run_unspillNeon, run_unspillGp]
  show ({ c with
    x := fun r => if r ∈ [lr, 0, 1] then contextX c r else x r
    q := contextQ c
    spEl0 := _
    spEl1 := _
    fpsr := _
    spsrEl1 := _
    elrEl1 := _ } : Cpu) = _
  rw [whole]
  rfl

/-- Setting exception masks keeps the stack. -/
theorem msrDaifSet_spSel (c : Cpu) : (msrDaifSet daifAllButDebug c).spSel = c.spSel := by
  show (c.pstate ||| daifAllButDebug <<< 6).getLsbD 0 = c.pstate.getLsbD 0
  have clear : (daifAllButDebug <<< 6).getLsbD 0 = false := by decide
  rw [BitVec.getLsbD_or, clear, Bool.or_false]

theorem msrDaifSet_sp (c : Cpu) : (msrDaifSet daifAllButDebug c).sp = c.sp := by
  unfold Cpu.sp
  rw [msrDaifSet_spSel]
  rfl

/-- `exception_return` loads every register from the context at the stack pointer, except that FPCR
stays and that the saved stack pointer goes to the stack pointer in use. -/
theorem exceptionReturn_eq (c : Cpu) :
    exceptionReturn c =
      { c with
        x := contextX c
        q := contextQ c
        spEl0 := if c.spSel then c.spEl0 else contextSp c
        spEl1 := if c.spSel then contextSp c else c.spEl1
        fpsr := load 32 c.mem (bytesAt c.sp arm64NeonFpsr) 4
        elrEl1 := load 64 c.mem (bytesAt c.sp arm64Pc) 8
        spsrEl1 := load 32 c.mem (bytesAt c.sp arm64Cpsr) 4
        pc := load 64 c.mem (bytesAt c.sp arm64Pc) 8
        pstate := load 32 c.mem (bytesAt c.sp arm64Cpsr) 4 } := by
  have code : registerUnspill ++ [eret] =
      [msrDaifSet daifAllButDebug] ++ (unspillGp ++ unspillNeon ++ unspillSystem ++ unspillStack) ++ [eret] := by
    simp only [registerUnspill, List.append_assoc]
  rw [exceptionReturn, code, run_append, run_append, run_unspill]
  have x : contextX (msrDaifSet daifAllButDebug c) = contextX c := by
    unfold contextX
    rw [msrDaifSet_sp]
    rfl
  have q : contextQ (msrDaifSet daifAllButDebug c) = contextQ c := by
    unfold contextQ
    rw [msrDaifSet_sp]
    rfl
  have stack : contextSp (msrDaifSet daifAllButDebug c) = contextSp c := by
    unfold contextSp
    rw [msrDaifSet_sp]
    rfl
  have masked : run [msrDaifSet daifAllButDebug] c = msrDaifSet daifAllButDebug c := rfl
  rw [masked, x, q, stack, msrDaifSet_sp, msrDaifSet_spSel]
  rfl

end Swink.Exception
