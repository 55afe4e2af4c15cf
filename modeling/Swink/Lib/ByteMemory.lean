import Mathlib.Data.Nat.Notation
import Mathlib.Logic.Function.Basic
import Mathlib.Tactic.Common

namespace ByteMemory

variable {A : Type} {w : Nat}

/-- The little-endian number in the first `n` of the bytes at `pos 0`, `pos 1`, … -/
def load (w : Nat) (mem : A → BitVec 8) (pos : Nat → A) : Nat → BitVec w
  | 0 => 0
  | n + 1 => load w mem pos n ||| ((mem (pos n)).setWidth w <<< (8 * n))

/-- Writes the low `n` bytes of a number, little-endian, to `pos 0`, `pos 1`, … -/
def store [DecidableEq A] (mem : A → BitVec 8) (pos : Nat → A) (value : BitVec w) : Nat → A → BitVec 8
  | 0 => mem
  | n + 1 => Function.update (store mem pos value n) (pos n) (value.extractLsb' (8 * n) 8)

/-- Sets a range of addresses, given by its membership test, to one byte. -/
def fill (mem : A → BitVec 8) (inside : A → Bool) (byte : BitVec 8) : A → BitVec 8 :=
  fun a => if inside a then byte else mem a

variable {mem mem' : A → BitVec 8} {pos pos' : Nat → A} {n m : Nat}

theorem getLsbD_load (j : Nat) :
    (load w mem pos n).getLsbD j = (decide (j < w) && decide (j < 8 * n) && (mem (pos (j / 8))).getLsbD (j % 8)) := by
  induction n with
  | zero => simp [load]
  | succ n ih =>
    rw [load, BitVec.getLsbD_or, ih, BitVec.getLsbD_shiftLeft, BitVec.getLsbD_setWidth]
    by_cases old : j < 8 * n
    · have new : j < 8 * (n + 1) := by omega
      simp [old, new]
    · by_cases here : j < 8 * (n + 1)
      · have byte : j / 8 = n := by omega
        have bit : j - 8 * n = j % 8 := by omega
        have inside : j % 8 < w ∨ ¬j < w := by omega
        rcases inside with small | large
        · simp [old, here, byte, bit, small]
        · simp [large]
      · have past : ¬j - 8 * n < 8 := by omega
        simp [old, here, BitVec.getLsbD_of_ge _ _ (Nat.le_of_not_lt past)]

/-- A load depends on the loaded bytes only. -/
theorem load_congr (same : ∀ i < n, mem (pos i) = mem' (pos' i)) : load w mem pos n = load w mem' pos' n := by
  induction n with
  | zero => rfl
  | succ n ih =>
    rw [load, load, ih fun i lt => same i (by omega), same n (Nat.lt_succ_self n)]

/-- A part of a loaded number that consists of whole bytes is the number in these bytes. -/
theorem extractLsb'_load {k : Nat} (within : k + m ≤ n) (wide : 8 * n ≤ w) :
    (load w mem pos n).extractLsb' (8 * k) (8 * m) = load (8 * m) mem (fun i => pos (k + i)) m := by
  apply BitVec.eq_of_getLsbD_eq
  intro j lt
  have byte : (8 * k + j) / 8 = k + j / 8 := by omega
  have bit : (8 * k + j) % 8 = j % 8 := by omega
  rw [BitVec.getLsbD_extractLsb', getLsbD_load, getLsbD_load, byte, bit]
  simp [lt, show 8 * k + j < w by omega, show 8 * k + j < 8 * n by omega]

theorem fill_of_not {inside : A → Bool} {byte : BitVec 8} {a : A} (outside : inside a = false) :
    fill mem inside byte a = mem a := by simp [fill, outside]

variable [DecidableEq A] {value : BitVec w}

theorem store_of_ne {a : A} (outside : ∀ i < n, a ≠ pos i) : store mem pos value n a = mem a := by
  induction n with
  | zero => rfl
  | succ n ih =>
    rw [store, Function.update_of_ne (outside n (Nat.lt_succ_self n)), ih fun i lt => outside i (by omega)]

theorem store_at (distinct : ∀ i < n, ∀ j < n, pos i = pos j → i = j) {i : Nat} (inside : i < n) :
    store mem pos value n (pos i) = value.extractLsb' (8 * i) 8 := by
  induction n with
  | zero => omega
  | succ n ih =>
    by_cases last : i = n
    · subst last
      rw [store, Function.update_self]
    · have different : pos i ≠ pos n := fun same => last (distinct i inside n (Nat.lt_succ_self n) same)
      rw [store, Function.update_of_ne different]
      exact ih (fun i lt j lt' => distinct i (by omega) j (by omega)) (by omega)

/-- Loading what was stored gives it back. -/
theorem load_store {value : BitVec (8 * n)} (distinct : ∀ i < n, ∀ j < n, pos i = pos j → i = j) :
    load (8 * n) (store mem pos value n) pos n = value := by
  apply BitVec.eq_of_getLsbD_eq
  intro j lt
  have byte : j / 8 < n := by omega
  have bit : j % 8 < 8 := Nat.mod_lt _ (by omega)
  have whole : 8 * (j / 8) + j % 8 = j := Nat.div_add_mod j 8
  rw [getLsbD_load, store_at distinct byte, BitVec.getLsbD_extractLsb', whole]
  simp [lt, bit]

/-- A store elsewhere leaves a load alone. -/
theorem load_store_of_apart {v : Nat} (apart : ∀ i < n, ∀ j < m, pos i ≠ pos' j) :
    load v (store mem pos' value m) pos n = load v mem pos n :=
  load_congr fun i lt => store_of_ne fun j lt' => apart i lt j lt'

end ByteMemory
