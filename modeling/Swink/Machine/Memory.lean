import Swink.Lib.ByteMemory

namespace Swink

open ByteMemory

/-- Memory as bytes at addresses. -/
abbrev Mem := Nat → BitVec 8

namespace Mem

def load32 (mem : Mem) (a : Nat) : BitVec 32 := load 32 mem (a + ·) 4
def load64 (mem : Mem) (a : Nat) : BitVec 64 := load 64 mem (a + ·) 8
def store32 (mem : Mem) (a : Nat) (value : BitVec 32) : Mem := store mem (a + ·) value 4
def store64 (mem : Mem) (a : Nat) (value : BitVec 64) : Mem := store mem (a + ·) value 8

/-- `memset` of string.c. -/
def memset (mem : Mem) (a : Nat) (byte : BitVec 8) (count : Nat) : Mem :=
  fill mem (fun x => decide (a ≤ x ∧ x < a + count)) byte

/-- Two memories hold the same bytes in the range [lower, upper). -/
def Agree (lower upper : Nat) (mem mem' : Mem) : Prop := ∀ a, lower ≤ a → a < upper → mem' a = mem a

variable {mem mem' : Mem} {a b lower upper count : Nat}

theorem Agree.mono (agree : Agree lower upper mem mem') {lower' upper' : Nat} (le : lower ≤ lower')
    (le' : upper' ≤ upper) :
    Agree lower' upper' mem mem' := fun a above below => agree a (Nat.le_trans le above) (by omega)

theorem Agree.load64 (agree : Agree lower upper mem mem') (above : lower ≤ a) (below : a + 8 ≤ upper) :
    mem'.load64 a = mem.load64 a :=
  load_congr fun i lt => agree (a + i) (by omega) (by omega)

theorem Agree.load32 (agree : Agree lower upper mem mem') (above : lower ≤ a) (below : a + 4 ≤ upper) :
    mem'.load32 a = mem.load32 a :=
  load_congr fun i lt => agree (a + i) (by omega) (by omega)

theorem load64_store64 (mem : Mem) (a : Nat) (value : BitVec 64) : (mem.store64 a value).load64 a = value :=
  load_store (n := 8) fun i _ j _ same => by omega

theorem load32_store32 (mem : Mem) (a : Nat) (value : BitVec 32) : (mem.store32 a value).load32 a = value :=
  load_store (n := 4) fun i _ j _ same => by omega

theorem store64_of_outside {value : BitVec 64} (outside : b < a ∨ a + 8 ≤ b) : mem.store64 a value b = mem b :=
  store_of_ne fun i lt => by omega

theorem store32_of_outside {value : BitVec 32} (outside : b < a ∨ a + 4 ≤ b) : mem.store32 a value b = mem b :=
  store_of_ne fun i lt => by omega

theorem agree_store64 (lower upper : Nat) {value : BitVec 64} (apart : upper ≤ a ∨ a + 8 ≤ lower) :
    Agree lower upper mem (mem.store64 a value) :=
  fun _ above below => store64_of_outside (by omega)

theorem agree_store32 (lower upper : Nat) {value : BitVec 32} (apart : upper ≤ a ∨ a + 4 ≤ lower) :
    Agree lower upper mem (mem.store32 a value) :=
  fun _ above below => store32_of_outside (by omega)

theorem load64_store64_of_apart {value : BitVec 64} (apart : b + 8 ≤ a ∨ a + 8 ≤ b) :
    (mem.store64 a value).load64 b = mem.load64 b :=
  (agree_store64 b (b + 8) (by omega)).load64 (Nat.le_refl _) (Nat.le_refl _)

theorem load32_store32_of_apart {value : BitVec 32} (apart : b + 4 ≤ a ∨ a + 4 ≤ b) :
    (mem.store32 a value).load32 b = mem.load32 b :=
  (agree_store32 b (b + 4) (by omega)).load32 (Nat.le_refl _) (Nat.le_refl _)

theorem memset_of_outside {byte : BitVec 8} (outside : b < a ∨ a + count ≤ b) : mem.memset a byte count b = mem b :=
  fill_of_not (by simp; omega)

theorem memset_of_inside {byte : BitVec 8} (above : a ≤ b) (below : b < a + count) :
    mem.memset a byte count b = byte := by
  simp [memset, fill, above, below]

theorem agree_memset {byte : BitVec 8} (apart : upper ≤ a ∨ a + count ≤ lower) :
    Agree lower upper mem (mem.memset a byte count) :=
  fun _ above below => memset_of_outside (by omega)

/-- A zero-filled word reads as zero. -/
theorem load64_memset_zero (above : a ≤ b) (below : b + 8 ≤ a + count) : (mem.memset a 0 count).load64 b = 0 := by
  have bytes : (mem.memset a 0 count).load64 b = Mem.load64 (fun _ => 0) b :=
    load_congr fun i lt => memset_of_inside (by omega) (by omega)
  rw [bytes]
  simp [Mem.load64, load]

end Mem

end Swink
