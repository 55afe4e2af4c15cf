import Mathlib.Data.Nat.Find
import Mathlib.Data.Set.BooleanAlgebra
import Mathlib.Order.CompletePartialOrder
import Mathlib.Order.Interval.Set.Basic
import Mathlib.Tactic.Ring

namespace Dyadic

/-- The points of the block of size `2 ^ level` that starts at `start`. -/
def block (level start : Nat) : Set Nat := Set.Ico start (start + 2 ^ level)

/-- Start of the aligned block of a level that contains a point. -/
def root (level point : Nat) : Nat := point / 2 ^ level * 2 ^ level

/-- Start of the other half of the enclosing block of the next level. -/
def sibling (level point : Nat) : Nat :=
  if point / 2 ^ level % 2 = 0 then root level point + 2 ^ level else root level point - 2 ^ level

theorem mem_block {level start x : Nat} : x ∈ block level start ↔ start ≤ x ∧ x < start + 2 ^ level :=
  Set.mem_Ico

theorem start_mem_block (level start : Nat) : start ∈ block level start :=
  mem_block.mpr ⟨le_rfl, Nat.lt_add_of_pos_right (Nat.two_pow_pos level)⟩

theorem root_dvd (level point : Nat) : 2 ^ level ∣ root level point := Nat.dvd_mul_left ..

theorem mem_block_root (level point : Nat) : point ∈ block level (root level point) := by
  have split := Nat.div_add_mod' point (2 ^ level)
  have small := Nat.mod_lt point (Nat.two_pow_pos level)
  exact mem_block.mpr ⟨Nat.div_mul_le_self .., by unfold root; omega⟩

/-- An aligned block is determined by its level and any one of its points. -/
theorem root_eq_of_mem {level start point : Nat} (aligned : 2 ^ level ∣ start)
    (member : point ∈ block level start) : root level point = start := by
  obtain ⟨k, rfl⟩ := aligned
  obtain ⟨lower, upper⟩ := mem_block.mp member
  have quotient : point / 2 ^ level = k := by
    rw [Nat.div_eq_iff (Nat.two_pow_pos level)]
    have positive := Nat.two_pow_pos level
    rw [Nat.mul_comm] at lower upper
    omega
  rw [root, quotient, Nat.mul_comm]

theorem root_eq_self {level start : Nat} (aligned : 2 ^ level ∣ start) : root level start = start :=
  Nat.div_mul_cancel aligned

theorem root_zero (point : Nat) : root 0 point = point := by simp [root]

theorem root_le (level point : Nat) : root level point ≤ point := Nat.div_mul_le_self ..

/-- Coarser roots forget finer ones. -/
theorem root_root {fine coarse : Nat} (le : fine ≤ coarse) (point : Nat) :
    root coarse (root fine point) = root coarse point := by
  obtain ⟨d, rfl⟩ := Nat.exists_eq_add_of_le le
  simp only [root, Nat.pow_add, ← Nat.div_div_eq_div_mul]
  rw [Nat.mul_div_cancel _ (Nat.two_pow_pos fine)]

/-- Aligned blocks around one point are nested. -/
theorem block_root_mono {fine coarse : Nat} (le : fine ≤ coarse) (point : Nat) :
    block fine (root fine point) ⊆ block coarse (root coarse point) := by
  intro x member
  have same := root_eq_of_mem (root_dvd fine point) member
  have coarseSame : root coarse x = root coarse point := by
    rw [← root_root le x, same, root_root le point]
  exact coarseSame ▸ mem_block_root coarse x

theorem root_succ_cases (level point : Nat) :
    point / 2 ^ level % 2 = 0 ∧ root (level + 1) point = root level point ∨
      point / 2 ^ level % 2 = 1 ∧ root (level + 1) point + 2 ^ level = root level point := by
  have halves := Nat.div_add_mod' (point / 2 ^ level) 2
  have positive := Nat.two_pow_pos level
  simp only [root, Nat.pow_succ, ← Nat.div_div_eq_div_mul]
  rcases Nat.mod_two_eq_zero_or_one (point / 2 ^ level) with even | odd
  · left
    refine ⟨even, ?_⟩
    rw [even] at halves
    conv_rhs => rw [← halves]
    ring
  · right
    refine ⟨odd, ?_⟩
    rw [odd] at halves
    conv_rhs => rw [← halves]
    ring

/-- A block of the next level is the block around a point and its sibling. -/
theorem block_succ (level point : Nat) :
    block (level + 1) (root (level + 1) point) =
      block level (root level point) ∪ block level (sibling level point) := by
  have positive := Nat.two_pow_pos level
  ext x
  simp only [Set.mem_union, mem_block, sibling, Nat.pow_succ]
  rcases root_succ_cases level point with ⟨even, same⟩ | ⟨odd, same⟩
  · rw [if_pos even, same]
    omega
  · rw [if_neg (by omega)]
    omega

theorem sibling_dvd (level point : Nat) : 2 ^ level ∣ sibling level point := by
  unfold sibling
  split
  · exact Nat.dvd_add (root_dvd ..) (dvd_refl _)
  · exact Nat.dvd_sub (root_dvd ..) (dvd_refl _)

theorem not_mem_sibling (level point : Nat) : point ∉ block level (sibling level point) := by
  intro member
  have positive := Nat.two_pow_pos level
  have own := mem_block.mp (mem_block_root level point)
  have other := mem_block.mp member
  rcases root_succ_cases level point with ⟨even, same⟩ | ⟨odd, same⟩
  · simp only [sibling, if_pos even] at other
    omega
  · simp only [sibling, if_neg (show ¬point / 2 ^ level % 2 = 0 by omega)] at other
    omega

/-- The sibling lies in the enclosing block of the next level. -/
theorem root_succ_sibling (level point : Nat) :
    root (level + 1) (sibling level point) = root (level + 1) point := by
  have member : sibling level point ∈ block (level + 1) (root (level + 1) point) := by
    rw [block_succ]
    exact Or.inr (start_mem_block ..)
  exact root_eq_of_mem (root_dvd ..) member

/-- The two halves of one block are each other's siblings. -/
theorem sibling_of_mem {level start point : Nat} (aligned : 2 ^ level ∣ start)
    (enclosed : point ∈ block (level + 1) (root (level + 1) start)) (outside : point ∉ block level start) :
    start = sibling level point := by
  have same := root_eq_of_mem (root_dvd ..) enclosed
  have inside : start ∈ block (level + 1) (root (level + 1) point) := by
    rw [same]
    exact mem_block_root ..
  rw [block_succ] at inside
  rcases inside with own | other
  · have shared := root_eq_of_mem (root_dvd ..) own
    rw [root_eq_self aligned] at shared
    exact absurd (shared ▸ mem_block_root level point) outside
  · have shared := root_eq_of_mem (sibling_dvd ..) other
    rwa [root_eq_self aligned] at shared

end Dyadic
