import Swink.Exception.Context

namespace Swink.Exception
open ByteMemory

/-- Code that stores objects at offsets from the stack pointer: it may change general registers on the
way, which the stored values do not depend on. -/
structure Stores (code : List Instr) (slots : Cpu → List Slot) : Prop where
  run : ∀ c : Cpu, ∃ x, run code c = { c with x := x, mem := writeAll c.mem c.sp (slots c) }
  stable : ∀ (c : Cpu) x mem, slots { c with x := x, mem := mem } = slots c

theorem Stores.append {code code' : List Instr} {slots slots' : Cpu → List Slot} (first : Stores code slots)
    (second : Stores code' slots') : Stores (code ++ code') fun c => slots c ++ slots' c where
  run c := by
    obtain ⟨x, ran⟩ := first.run c
    obtain ⟨x', ran'⟩ := second.run { c with x := x, mem := writeAll c.mem c.sp (slots c) }
    refine ⟨x', ?_⟩
    rw [run_append, ran, ran', second.stable, ← writeAll_append]
    rfl
  stable c x mem := by rw [first.stable, second.stable]

theorem Stores.after {code code' : List Instr} {slots : List Slot} {slots' : Cpu → List Slot}
    (second : Stores code' slots') {c : Cpu}
    (first : Exception.run code c = { c with mem := writeAll c.mem c.sp slots }) :
    ∃ x, Exception.run (code ++ code') c = { c with x := x, mem := writeAll c.mem c.sp (slots ++ slots' c) } := by
  obtain ⟨x, ran⟩ := second.run { c with mem := writeAll c.mem c.sp slots }
  have stable : slots' { c with mem := writeAll c.mem c.sp slots } = slots' c := second.stable c c.x _
  refine ⟨x, ?_⟩
  rw [run_append, first, ran, stable, ← writeAll_append]
  rfl

/-- A list of instructions that only store: each stores what it would store from the start. -/
theorem run_stores {α : Type} (instr : α → Instr) (slots : α → Cpu → List Slot)
    (one : ∀ t c, instr t c = { c with mem := writeAll c.mem c.sp (slots t c) })
    (stable : ∀ t c mem, slots t { c with mem := mem } = slots t c) (ts : List α) (c : Cpu) :
    run (ts.map instr) c = { c with mem := writeAll c.mem c.sp (ts.flatMap fun t => slots t c) } := by
  induction ts generalizing c with
  | nil => rfl
  | cons t rest ih =>
    rw [List.map_cons, List.flatMap_cons, ← writeAll_append]
    show run (rest.map instr) (instr t c) = _
    rw [ih, one]
    simp only [stable]
    rfl

theorem run_spillGp (c : Cpu) :
    run spillGp c = { c with mem := writeAll c.mem c.sp (gpSlots c.x ++ [slotX arm64GpLr (c.x lr)]) } := by
  have pairs := run_stores (fun t : Fin 31 => stpX t (t + 1) (arm64Gp t))
    (fun t c => [slotX (arm64Gp t) (c.x t), slotX (arm64Gp t + 8) (c.x (t + 1))]) (fun _ _ => rfl)
    (fun _ _ _ => rfl) gpPairs c
  have shape : spillGp = (gpPairs.map fun t : Fin 31 => stpX t (t + 1) (arm64Gp t)) ++ [strX lr arm64GpLr] := rfl
  rw [shape, run_append, pairs, ← writeAll_append]
  rfl

theorem stores_spillNeon : Stores spillNeon fun c => neonSlots c.q where
  run c := by
    have shape : spillNeon = neonPairs.map fun t : Fin 32 => stpQ t (t + 1) (arm64NeonQ t) := rfl
    refine ⟨c.x, ?_⟩
    rw [shape]
    exact run_stores (fun t : Fin 32 => stpQ t (t + 1) (arm64NeonQ t))
      (fun t c => [slotQ (arm64NeonQ t) (c.q t), slotQ (arm64NeonQ t + 16) (c.q (t + 1))])
      (fun _ _ => rfl) (fun _ _ _ => rfl) neonPairs c
  stable _ _ _ := rfl

/-- A 32-bit register survives the way through a general register. -/
theorem setWidth_back (value : BitVec 32) : (value.setWidth 64).setWidth 32 = value := by
  apply BitVec.eq_of_getLsbD_eq
  intro i lt
  rw [BitVec.getLsbD_setWidth, BitVec.getLsbD_setWidth]
  simp [lt]
  omega

/-- A 32-bit system register goes to the context through a general register. -/
theorem stores_mrs_strW (t : Fin 31) (reg : SysReg) (offset : Nat) (value : Cpu → BitVec 32)
    (read : ∀ c, reg.read c = (value c).setWidth 64)
    (stable : ∀ (c : Cpu) x mem, value { c with x := x, mem := mem } = value c) :
    Stores [mrs t reg, strW t offset] fun c => [slotW offset (value c)] where
  run c := by
    have stored : ((mrs t reg c).x t).setWidth 32 = value c := by
      show (Function.update c.x t (reg.read c) t).setWidth 32 = value c
      rw [Function.update_self, read, setWidth_back]
    refine ⟨(mrs t reg c).x, ?_⟩
    show { mrs t reg c with mem := store c.mem (bytesAt c.sp offset) (((mrs t reg c).x t).setWidth 32) 4 } = _
    rw [stored]
    rfl
  stable c x mem := by rw [stable]

/-- A 64-bit system register likewise. -/
theorem stores_mrs_strX (t : Fin 31) (reg : SysReg) (offset : Nat)
    (stable : ∀ (c : Cpu) x mem, reg.read { c with x := x, mem := mem } = reg.read c) :
    Stores [mrs t reg, strX t offset] fun c => [slotX offset (reg.read c)] where
  run c := by
    have stored : (mrs t reg c).x t = reg.read c := Function.update_self ..
    refine ⟨(mrs t reg c).x, ?_⟩
    show { mrs t reg c with mem := store c.mem (bytesAt c.sp offset) ((mrs t reg c).x t) 8 } = _
    rw [stored]
    rfl
  stable c x mem := by rw [stable]

theorem stores_spillSystem : Stores spillSystem systemSlots := by
  have pointer : Stores [movXSp 0] fun _ => [] :=
    { run := fun c => ⟨(movXSp 0 c).x, rfl⟩
      stable := fun _ _ _ => rfl }
  exact (stores_mrs_strW 0 .esrEl1 arm64Esr (·.esrEl1) (fun _ => rfl) fun _ _ _ => rfl).append <|
    (stores_mrs_strW 2 .spsrEl1 arm64Cpsr (·.spsrEl1) (fun _ => rfl) fun _ _ _ => rfl).append <|
    (stores_mrs_strX 3 .farEl1 arm64Far fun _ _ _ => rfl).append <|
    (stores_mrs_strX 4 .elrEl1 arm64Pc fun _ _ _ => rfl).append <|
    (stores_mrs_strW 5 .fpsr arm64NeonFpsr (·.fpsr) (fun _ => rfl) fun _ _ _ => rfl).append <|
    (stores_mrs_strW 6 .fpcr arm64NeonFpcr (·.fpcr) (fun _ => rfl) fun _ _ _ => rfl).append pointer

end Swink.Exception
