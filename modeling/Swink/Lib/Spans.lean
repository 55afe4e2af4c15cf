import Mathlib.Data.List.Basic
import Mathlib.Logic.Function.Basic
import Mathlib.Tactic.Common

namespace Spans

variable {β : Type} {mem mem' : Nat → β} {values : List β} {value : β} {p q n a : Nat}

/-- The `n` values from `p` on. -/
def read (mem : Nat → β) (p n : Nat) : List β := (List.range n).map fun i => mem (p + i)

/-- Puts values at `p`, `p + 1`, … -/
def write (mem : Nat → β) (p : Nat) (values : List β) : Nat → β :=
  fun a => if p ≤ a then values[a - p]?.getD (mem a) else mem a

theorem length_read : (read mem p n).length = n := by rw [read, List.length_map, List.length_range]

theorem getElem?_read {i : Nat} (inside : i < n) : (read mem p n)[i]? = some (mem (p + i)) := by
  simp only [read, List.getElem?_map, List.getElem?_range inside, Option.map_some]

theorem read_zero : read mem p 0 = [] := rfl

theorem read_cons : read mem p (n + 1) = mem p :: read mem (p + 1) n := by
  unfold read
  rw [List.range_succ_eq_map, List.map_cons, List.map_map]
  congr 1
  apply List.map_congr_left
  intro i _
  exact congrArg mem (by simp only [Nat.succ_eq_add_one]; omega)

theorem read_append (m : Nat) : read mem p (n + m) = read mem p n ++ read mem (p + n) m := by
  simp only [read, List.range_add, List.map_append, List.map_map, Function.comp_def, Nat.add_assoc]

theorem read_congr (same : ∀ i < n, mem' (q + i) = mem (p + i)) : read mem' q n = read mem p n := by
  apply List.map_congr_left
  intro i inside
  exact same i (List.mem_range.mp inside)

theorem write_nil : write mem p [] = mem := by
  funext a
  simp only [write, List.getElem?_nil, Option.getD_none, ite_self]

theorem write_of_outside (outside : a < p ∨ p + values.length ≤ a) : write mem p values a = mem a := by
  unfold write
  split
  · next above =>
    rw [List.getElem?_eq_none (by omega), Option.getD_none]
  · rfl

theorem write_of_inside {i : Nat} (inside : i < values.length) : write mem p values (p + i) = values[i] := by
  unfold write
  rw [if_pos (Nat.le_add_right p i), Nat.add_sub_cancel_left, List.getElem?_eq_getElem inside, Option.getD_some]

theorem read_write : read (write mem p values) p values.length = values := by
  apply List.ext_getElem?
  intro i
  by_cases inside : i < values.length
  · rw [getElem?_read inside, write_of_inside inside, List.getElem?_eq_getElem inside]
  · rw [List.getElem?_eq_none (by rw [length_read]; omega), List.getElem?_eq_none (by omega)]

/-- What a move of `n` values puts where. -/
theorem write_read (mem mem' : Nat → β) (p q n a : Nat) :
    write mem p (read mem' q n) a = if p ≤ a ∧ a < p + n then mem' (q + (a - p)) else mem a := by
  by_cases inside : p ≤ a ∧ a < p + n
  · have small : a - p < n := by omega
    rw [if_pos inside, write, if_pos inside.1, getElem?_read small, Option.getD_some]
  · rw [if_neg inside, write_of_outside (by rw [length_read]; omega)]

/-- Writing one text after another. -/
theorem write_append (values' : List β) :
    write mem p (values ++ values') = write (write mem p values) (p + values.length) values' := by
  funext a
  by_cases second : p + values.length ≤ a
  · have here : p ≤ a := by omega
    have far : values.length ≤ a - p := by omega
    have shift : a - p - values.length = a - (p + values.length) := by omega
    simp only [write, if_pos second, if_pos here, List.getElem?_append_right far, shift, List.getElem?_eq_none far,
      Option.getD_none]
  · rw [write_of_outside (p := p + values.length) (by omega)]
    by_cases above : p ≤ a
    · simp only [write, if_pos above, List.getElem?_append_left (show a - p < values.length by omega)]
    · rw [write_of_outside (by omega), write_of_outside (by omega)]

theorem write_single : write mem p [value] = Function.update mem p value := by
  funext a
  by_cases here : a = p
  · subst here
    simp only [write, Nat.le_refl, if_true, Nat.sub_self, List.getElem?_cons_zero, Option.getD_some, Function.update_self]
  · rw [Function.update_of_ne here, write_of_outside (by simp only [List.length_singleton]; omega)]

/-- One value more at the end. -/
theorem write_concat :
    write mem p (values ++ [value]) = Function.update (write mem p values) (p + values.length) value := by
  rw [write_append, write_single]

end Spans
