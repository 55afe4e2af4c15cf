import Swink.Exception.Vectors

namespace Swink.Exception
open ByteMemory

/-- An object of a number of bytes at an offset from a base, with the value it gets. -/
structure Slot where
  offset : Nat
  bytes : Nat
  value : BitVec (8 * bytes)

/-- The memory after a list of objects has been stored. -/
def writeAll (mem : BitVec 64 → BitVec 8) (base : BitVec 64) : List Slot → BitVec 64 → BitVec 8
  | [] => mem
  | s :: rest => writeAll (store mem (bytesAt base s.offset) s.value s.bytes) base rest

/-- The range of offsets that an object takes. -/
def Slot.range (s : Slot) : Nat × Nat := (s.offset, s.offset + s.bytes)

/-- Ranges of offsets that do not overlap, below the size of the address space. -/
def RangesApart (ranges : List (Nat × Nat)) : Prop :=
  ranges.Pairwise (fun r r' => r.2 ≤ r'.1 ∨ r'.2 ≤ r.1) ∧ ∀ r ∈ ranges, r.2 ≤ 2 ^ 64

instance (ranges : List (Nat × Nat)) : Decidable (RangesApart ranges) := inferInstanceAs (Decidable (_ ∧ _))

variable {mem mem' : BitVec 64 → BitVec 8} {base : BitVec 64} {slots : List Slot} {s : Slot}

theorem bytesAt_inj {offset offset' i j : Nat} (small : offset + i < 2 ^ 64) (small' : offset' + j < 2 ^ 64)
    (same : bytesAt base offset i = bytesAt base offset' j) : offset + i = offset' + j := by
  have numbers := congrArg BitVec.toNat (BitVec.add_right_inj base |>.mp same)
  rwa [BitVec.toNat_ofNat, BitVec.toNat_ofNat, Nat.mod_eq_of_lt small, Nat.mod_eq_of_lt small'] at numbers

/-- Objects that do not overlap an object leave it alone. -/
theorem load_writeAll_of_apart {w offset bytes : Nat} (fits : offset + bytes ≤ 2 ^ 64)
    (fitsAll : ∀ s ∈ slots, s.range.2 ≤ 2 ^ 64) (apart : ∀ s ∈ slots, offset + bytes ≤ s.range.1 ∨ s.range.2 ≤ offset) :
    load w (writeAll mem base slots) (bytesAt base offset) bytes = load w mem (bytesAt base offset) bytes := by
  induction slots generalizing mem with
  | nil => rfl
  | cons s rest ih =>
    rw [writeAll, ih (fun t member => fitsAll t (List.mem_cons_of_mem _ member))
      fun t member => apart t (List.mem_cons_of_mem _ member)]
    refine load_store_of_apart fun i lt j lt' same => ?_
    have fitsHead := fitsAll s (List.mem_cons_self ..)
    have apartHead := apart s (List.mem_cons_self ..)
    simp only [Slot.range] at fitsHead apartHead
    have := bytesAt_inj (by omega) (by omega) same
    omega

/-- Every stored object can be read back when none overlaps another. -/
theorem load_writeAll (apart : RangesApart (slots.map Slot.range)) (member : s ∈ slots) :
    load (8 * s.bytes) (writeAll mem base slots) (bytesAt base s.offset) s.bytes = s.value := by
  obtain ⟨pairwise, fits⟩ := apart
  rw [List.pairwise_map] at pairwise
  have fitsAll : ∀ t ∈ slots, t.range.2 ≤ 2 ^ 64 := fun t inSlots => fits _ (List.mem_map_of_mem inSlots)
  clear fits
  induction slots generalizing mem with
  | nil => cases member
  | cons t rest ih =>
    obtain ⟨head, tail⟩ := List.pairwise_cons.mp pairwise
    have fitsRest : ∀ u ∈ rest, u.range.2 ≤ 2 ^ 64 := fun u inRest => fitsAll u (List.mem_cons_of_mem _ inRest)
    rcases List.mem_cons.mp member with rfl | later
    · have fitsHead : s.offset + s.bytes ≤ 2 ^ 64 := fitsAll s (List.mem_cons_self ..)
      rw [writeAll, load_writeAll_of_apart fitsHead fitsRest head]
      exact load_store fun i lt j lt' same => by
        have := bytesAt_inj (by omega) (by omega) same
        omega
    · rw [writeAll]
      exact ih later tail fitsRest

/-- A load depends on the bytes of its object. -/
theorem load_bytesAt_congr {w offset bytes size : Nat}
    (same : ∀ i < size, mem' (bytesAt base 0 i) = mem (bytesAt base 0 i))
    (inside : offset + bytes ≤ size) :
    load w mem' (bytesAt base offset) bytes = load w mem (bytesAt base offset) bytes :=
  load_congr fun i lt => by
    have byte := same (offset + i) (by omega)
    rwa [bytesAt, Nat.zero_add] at byte

def slotX (offset : Nat) (value : BitVec 64) : Slot := ⟨offset, 8, value⟩
def slotW (offset : Nat) (value : BitVec 32) : Slot := ⟨offset, 4, value⟩
def slotQ (offset : Nat) (value : BitVec 128) : Slot := ⟨offset, 16, value⟩

theorem writeAll_append (slots' : List Slot) :
    writeAll (writeAll mem base slots) base slots' = writeAll mem base (slots ++ slots') := by
  induction slots generalizing mem with
  | nil => rfl
  | cons s rest ih => exact ih

/-- The first register of every pair that the macros transfer. -/
def gpPairs : List (Fin 31) := [2, 4, 6, 8, 10, 12, 14, 16, 18, 20, 22, 24, 26, 28]

def neonPairs : List (Fin 32) := [0, 2, 4, 6, 8, 10, 12, 14, 16, 18, 20, 22, 24, 26, 28, 30]

def gpSlots (x : Fin 31 → BitVec 64) : List Slot :=
  gpPairs.flatMap fun t : Fin 31 => [slotX (arm64Gp t) (x t), slotX (arm64Gp t + 8) (x (t + 1))]

def neonSlots (q : Fin 32 → BitVec 128) : List Slot :=
  neonPairs.flatMap fun t : Fin 32 => [slotQ (arm64NeonQ t) (q t), slotQ (arm64NeonQ t + 16) (q (t + 1))]

def systemSlots (c : Cpu) : List Slot :=
  [ slotW arm64Esr c.esrEl1,
    slotW arm64Cpsr c.spsrEl1,
    slotX arm64Far c.farEl1,
    slotX arm64Pc c.elrEl1,
    slotW arm64NeonFpsr c.fpsr,
    slotW arm64NeonFpcr c.fpcr ]

end Swink.Exception
