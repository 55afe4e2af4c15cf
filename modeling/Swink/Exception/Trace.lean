import Swink.Exception.Transparent

namespace Swink.Exception
open ByteMemory

/-- The instructions that the entry paths consist of. -/
inductive Op
  | stpX (t1 t2 : Fin 31) (offset : Nat)
  | strX (t : Fin 31) (offset : Nat)
  | strW (t : Fin 31) (offset : Nat)
  | stpQ (t1 t2 : Fin 32) (offset : Nat)
  | mrs (t : Fin 31) (reg : SysReg)
  | adrl (t : Fin 31) (symbol : BitVec 64)
  | addXSp (t : Fin 31) (count : Nat)
  | movXSp (t : Fin 31)
  | subSp (count : Nat)
  | msrSpSelZero

namespace Op

def instr : Op → Instr
  | stpX t1 t2 offset => Exception.stpX t1 t2 offset
  | strX t offset => Exception.strX t offset
  | strW t offset => Exception.strW t offset
  | stpQ t1 t2 offset => Exception.stpQ t1 t2 offset
  | mrs t reg => Exception.mrs t reg
  | adrl t symbol => Exception.adrl t symbol
  | addXSp t count => Exception.addXSp t count
  | movXSp t => Exception.movXSp t
  | subSp count => Exception.subSp count
  | msrSpSelZero => Exception.msrSpSelZero

/-- What an instruction stores, at offsets from the stack pointer. -/
def slots (c : Cpu) : Op → List Slot
  | stpX t1 t2 offset => [slotX offset (c.x t1), slotX (offset + 8) (c.x t2)]
  | strX t offset => [slotX offset (c.x t)]
  | strW t offset => [slotW offset ((c.x t).setWidth 32)]
  | stpQ t1 t2 offset => [slotQ offset (c.q t1), slotQ (offset + 16) (c.q t2)]
  | _ => []

/-- The ranges of offsets that an instruction stores to; they do not depend on the state. -/
def ranges : Op → List (Nat × Nat)
  | stpX _ _ offset => [(offset, offset + 8), (offset + 8, offset + 16)]
  | strX _ offset => [(offset, offset + 8)]
  | strW _ offset => [(offset, offset + 4)]
  | stpQ _ _ offset => [(offset, offset + 16), (offset + 16, offset + 32)]
  | _ => []

/-- The instructions that move the stack pointer or select the other one. -/
def movesSp : Op → Bool
  | subSp _ | msrSpSelZero => true
  | _ => false

/-- Does an instruction write a general register? -/
def writesX (r : Fin 31) : Op → Bool
  | mrs t _ | adrl t _ | addXSp t _ | movXSp t => t = r
  | _ => false

end Op

/-- One store of a run: an object and the stack pointer that its offset counts from. -/
structure Store extends Slot where
  base : BitVec 64

/-- The address of a byte of a store. -/
def Store.address (s : Store) (i : Nat) : BitVec 64 := bytesAt s.base s.offset i

/-- Two stores that have no byte in common. -/
def Store.Apart (s t : Store) : Prop := ∀ i < s.bytes, ∀ j < t.bytes, s.address i ≠ t.address j

/-- A store to an object of `size` bytes. -/
def Store.Within (start : BitVec 64) (size : Nat) (s : Store) : Prop :=
  ∀ i < s.bytes, ∃ k < size, s.address i = bytesAt start 0 k

/-- The stores of a run, in the order in which it makes them. -/
def storesOf : List Op → Cpu → List Store
  | [], _ => []
  | op :: rest, c => (op.slots c).map (⟨·, c.sp⟩) ++ storesOf rest (op.instr c)

def Store.write (mem : BitVec 64 → BitVec 8) (s : Store) : BitVec 64 → BitVec 8 :=
  store mem s.address s.value s.bytes

theorem Op.slots_range (op : Op) (c : Cpu) : (op.slots c).map Slot.range = op.ranges := by
  cases op <;> rfl

theorem setSp_mem (c : Cpu) (value : BitVec 64) : (c.setSp value).mem = c.mem := by
  rw [Cpu.setSp_eq]

theorem setSp_x (c : Cpu) (value : BitVec 64) : (c.setSp value).x = c.x := by
  rw [Cpu.setSp_eq]

/-- Memory changes by the stores of an instruction and by nothing else. -/
theorem Op.instr_mem (op : Op) (c : Cpu) :
    (op.instr c).mem = ((op.slots c).map (⟨·, c.sp⟩ : Slot → Store)).foldl Store.write c.mem := by
  cases op with
  | subSp count => exact setSp_mem ..
  | _ => rfl

theorem Op.instr_sp {op : Op} (keeps : op.movesSp = false) (c : Cpu) : (op.instr c).sp = c.sp := by
  cases op with
  | subSp count => cases keeps
  | msrSpSelZero => cases keeps
  | _ => rfl

theorem Op.instr_x {op : Op} {r : Fin 31} (keeps : op.writesX r = false) (c : Cpu) : (op.instr c).x r = c.x r := by
  have other {t : Fin 31} (different : decide (t = r) = false) (value : BitVec 64) : (c.setX t value).x r = c.x r :=
    Function.update_of_ne (Ne.symm (of_decide_eq_false different)) ..
  cases op with
  | mrs t reg => exact other keeps _
  | adrl t symbol => exact other keeps _
  | addXSp t count => exact other keeps _
  | movXSp t => exact other keeps _
  | subSp count => exact congrFun (setSp_x ..) r
  | _ => rfl

variable {ops : List Op} {c : Cpu}

/-- A run changes memory by its stores, one after the other. -/
theorem run_mem (ops : List Op) (c : Cpu) :
    (run (ops.map Op.instr) c).mem = (storesOf ops c).foldl Store.write c.mem := by
  induction ops generalizing c with
  | nil => rfl
  | cons op rest ih =>
    rw [storesOf, List.foldl_append, ← op.instr_mem c]
    exact ih (op.instr c)

theorem run_x {r : Fin 31} (keeps : ∀ op ∈ ops, op.writesX r = false) (c : Cpu) :
    (run (ops.map Op.instr) c).x r = c.x r := by
  induction ops generalizing c with
  | nil => rfl
  | cons op rest ih =>
    have first := op.instr_x (keeps op (List.mem_cons_self ..)) c
    exact (ih (fun op member => keeps op (List.mem_cons_of_mem _ member)) (op.instr c)).trans first

theorem storesOf_append (ops ops' : List Op) (c : Cpu) :
    storesOf (ops ++ ops') c = storesOf ops c ++ storesOf ops' (run (ops.map Op.instr) c) := by
  induction ops generalizing c with
  | nil => rfl
  | cons op rest ih =>
    rw [List.cons_append, storesOf, storesOf, ih, List.append_assoc]
    rfl

/-- While the stack pointer stays, a run stores to the ranges of its instructions from there. -/
theorem storesOf_ranges (keeps : ∀ op ∈ ops, op.movesSp = false) (c : Cpu) :
    (storesOf ops c).map (fun s => (s.base, s.range)) = (ops.flatMap Op.ranges).map fun r => (c.sp, r) := by
  induction ops generalizing c with
  | nil => rfl
  | cons op rest ih =>
    have same := op.instr_sp (keeps op (List.mem_cons_self ..)) c
    rw [storesOf, List.map_append, ih (fun op member => keeps op (List.mem_cons_of_mem _ member)), same,
      List.flatMap_cons, List.map_append, ← op.slots_range c, List.map_map, List.map_map]
    rfl

/-- The parts of an entry: the stack is chosen and moved, x0, x1 and the interrupted stack pointer are
saved, and `REGISTER_SPILL_NO_X0X1SP` saves the rest. -/
def EntryPath.stackOps : EntryPath → List Op
  | el1Sp0 => [.msrSpSelZero, .subSp arm64ContextSize]
  | el1Sp1 => [.subSp arm64ContextSize]
  | el0Sp1 => [.subSp arm64ContextSize]

def EntryPath.saveOps (target : BitVec 64) : EntryPath → List Op
  | el1Sp0 => [.stpX 0 1 (arm64Gp 0), .addXSp 0 arm64ContextSize, .strX 0 arm64GpSp, .adrl 1 target]
  | el1Sp1 => [.stpX 0 1 (arm64Gp 0), .addXSp 0 arm64ContextSize, .strX 0 arm64GpSp, .adrl 1 target]
  | el0Sp1 => [.stpX 0 1 (arm64Gp 0), .mrs 0 .spEl0, .strX 0 arm64GpSp, .adrl 1 target]

def spillGpOps : List Op :=
  (gpPairs.map fun t : Fin 31 => Op.stpX t (t + 1) (arm64Gp t)) ++ [Op.strX lr arm64GpLr]

def spillNeonOps : List Op := neonPairs.map fun t : Fin 32 => .stpQ t (t + 1) (arm64NeonQ t)

def spillSystemOps : List Op :=
  [ .mrs 0 .esrEl1,
    .strW 0 arm64Esr,
    .mrs 2 .spsrEl1,
    .strW 2 arm64Cpsr,
    .mrs 3 .farEl1,
    .strX 3 arm64Far,
    .mrs 4 .elrEl1,
    .strX 4 arm64Pc,
    .mrs 5 .fpsr,
    .strW 5 arm64NeonFpsr,
    .mrs 6 .fpcr,
    .strW 6 arm64NeonFpcr,
    .movXSp 0 ]

def spillOps : List Op := spillGpOps ++ spillNeonOps ++ spillSystemOps

def entryOps (path : EntryPath) (target : BitVec 64) : List Op :=
  path.stackOps ++ (path.saveOps target ++ spillOps)

section
variable (path : EntryPath) (target : BitVec 64)

/-- The code of an entry, instruction by instruction. -/
theorem entryOps_instr : (entryOps path target).map Op.instr = path.vector target ++ registerSpillNoX0X1Sp := by
  cases path <;> rfl

theorem run_stackOps {c : Cpu} (selected : c.spSel = true) :
    run (path.stackOps.map Op.instr) c = path.onStack c := by
  cases path with
  | el1Sp0 => exact subSp_msrSpSelZero_onStack selected
  | el1Sp1 => exact subSp_onStack selected
  | el0Sp1 => exact subSp_onStack selected

theorem saveOps_spillOps_movesSp : ∀ op ∈ path.saveOps target ++ spillOps, op.movesSp = false := by
  have all : ((path.saveOps target ++ spillOps).all fun op => !op.movesSp) = true := by cases path <;> rfl
  intro op member
  exact Bool.not_eq_true' _ ▸ List.all_eq_true.mp all op member

theorem saveOps_spillOps_ranges : (path.saveOps target ++ spillOps).flatMap Op.ranges = contextRanges := by
  cases path <;> rfl

/-- An entry stores to the ranges of the context, and nowhere else. -/
theorem storesOf_entryOps {c : Cpu} (selected : c.spSel = true) :
    (storesOf (entryOps path target) c).map (fun s => (s.base, s.range)) =
      contextRanges.map fun r => (path.context c, r) := by
  have noStores : storesOf path.stackOps c = [] := by cases path <;> rfl
  rw [entryOps, storesOf_append, noStores, List.nil_append, run_stackOps path selected,
    storesOf_ranges (saveOps_spillOps_movesSp path target), path.onStack_sp selected,
    saveOps_spillOps_ranges path target]

end

section
variable {stores : List Store} {base : BitVec 64} {ranges : List (Nat × Nat)}
  (extents : stores.map (fun s => (s.base, s.range)) = ranges.map fun r => (base, r))
include extents

theorem mem_of_extents {s : Store} (member : s ∈ stores) : s.base = base ∧ s.range ∈ ranges := by
  have extent : (s.base, s.range) ∈ ranges.map fun r => (base, r) :=
    extents ▸ List.mem_map_of_mem (f := fun s : Store => (s.base, s.range)) member
  obtain ⟨r, inRanges, same⟩ := List.mem_map.mp extent
  obtain ⟨rfl, rfl⟩ := Prod.mk.inj same
  exact ⟨rfl, inRanges⟩

/-- Stores to ranges that do not overlap have no byte in common. -/
theorem apart_of_extents (apart : RangesApart ranges) : stores.Pairwise Store.Apart := by
  obtain ⟨pairwise, fits⟩ := apart
  have offsets : (ranges.map fun r => (base, r)).Pairwise fun p p' => p.2.2 ≤ p'.2.1 ∨ p'.2.2 ≤ p.2.1 :=
    List.pairwise_map.mpr pairwise
  rw [← extents, List.pairwise_map] at offsets
  refine offsets.imp_of_mem fun {s t} sIn tIn disjoint i lt j lt' same => ?_
  obtain ⟨sBase, sRange⟩ := mem_of_extents extents sIn
  obtain ⟨tBase, tRange⟩ := mem_of_extents extents tIn
  have sFits : s.offset + s.bytes ≤ 2 ^ 64 := fits _ sRange
  have tFits : t.offset + t.bytes ≤ 2 ^ 64 := fits _ tRange
  have separate : s.offset + s.bytes ≤ t.offset ∨ t.offset + t.bytes ≤ s.offset := disjoint
  rw [Store.address, Store.address, sBase, tBase] at same
  have := bytesAt_inj (by omega) (by omega) same
  omega

theorem within_of_extents {size : Nat} (inside : ∀ r ∈ ranges, r.2 ≤ size) :
    ∀ s ∈ stores, s.Within base size := by
  intro s member i lt
  obtain ⟨sBase, sRange⟩ := mem_of_extents extents member
  have stop : s.offset + s.bytes ≤ size := inside _ sRange
  refine ⟨s.offset + i, by omega, ?_⟩
  rw [Store.address, sBase, bytesAt, bytesAt, Nat.zero_add]

end

end Swink.Exception
