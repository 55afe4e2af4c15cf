import Mathlib.Data.Nat.Bitwise
import Mathlib.Tactic.Ring

namespace Swink

/-- Truncation to `uint32_t`. -/
def u32 (n : Nat) : Nat := n % 2 ^ 32

/-- Truncation to `uint64_t`, also of `size_t`, `phys_addr_t` and `vm_addr_t`. -/
def u64 (n : Nat) : Nat := n % 2 ^ 64

/-- Subtraction of two `uint32_t`. -/
def sub32 (a b : Nat) : Nat := u32 (a + (2 ^ 32 - b))

/-- Subtraction of two `uint64_t`. -/
def sub64 (a b : Nat) : Nat := u64 (a + (2 ^ 64 - b))

/-- Left shift of a `uint32_t`: the result keeps the type of the left operand. -/
def shl32 (n shift : Nat) : Nat := u32 (n <<< shift)

theorem u32_of_lt {n : Nat} (small : n < 2 ^ 32) : u32 n = n := Nat.mod_eq_of_lt small

theorem u64_of_lt {n : Nat} (small : n < 2 ^ 64) : u64 n = n := Nat.mod_eq_of_lt small

theorem sub32_of_le {a b : Nat} (le : b ≤ a) (small : a < 2 ^ 32) : sub32 a b = a - b := by
  unfold sub32 u32
  omega

theorem sub64_of_le {a b : Nat} (le : b ≤ a) (small : a < 2 ^ 64) : sub64 a b = a - b := by
  unfold sub64 u64
  omega

/-- The `ROUND_UP` macro of ctype.h. -/
def roundUp (x step : Nat) : Nat := (x + step - 1) / step * step

theorem roundUp_dvd (x step : Nat) : step ∣ roundUp x step := Nat.dvd_mul_left ..

theorem le_roundUp {x step : Nat} (positive : 0 < step) : x ≤ roundUp x step := by
  have split := Nat.div_add_mod' (x + step - 1) step
  have small := Nat.mod_lt (x + step - 1) positive
  unfold roundUp
  omega

theorem roundUp_lt {x step : Nat} (positive : 0 < step) : roundUp x step < x + step := by
  have le := Nat.div_mul_le_self (x + step - 1) step
  unfold roundUp
  omega

/-- `PAGE_SHIFT` and `PAGE_SIZE` of vm_asm.h. -/
def pageShift : Nat := 12
def pageSize : Nat := 1 <<< pageShift

theorem pageSize_eq : pageSize = 4096 := rfl

/-- A shift in 32 bits is exact below 4 GB. -/
theorem shl32_pageShift_iff (n : Nat) : shl32 n pageShift = n * pageSize ↔ n < 2 ^ 20 := by
  rw [shl32, pageShift, Nat.shiftLeft_eq, pageSize_eq, u32]
  omega

/-- `PHYS_ADDR_INVALID` of pmap.h. -/
def physAddrInvalid : Nat := 2 ^ 64 - 1

end Swink
