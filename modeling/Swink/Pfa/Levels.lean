import Swink.Machine.Word
import Swink.Lib.Dyadic
import Mathlib.Data.Nat.Log

namespace Swink

/-- Physical and virtual addresses of the physmap, pmap.c. -/
def pmapPaToKva (physmapVmBase pa : Nat) : Nat := u64 (physmapVmBase + pa)

/-- `BUDDY_LEVELS` of pmap_pfa.c. -/
def buddyLevels : Nat := 6

def buddyLevelPageCount (level : Nat) : Nat := 1 <<< level

def paToPageId (page : Nat) : Nat := u32 (page >>> pageShift)

def sizeToPageCount (size : Nat) : Nat := u32 (u64 (size + (pageSize - 1)) >>> pageShift)

/-- `__builtin_ctz`: trailing zeros of a nonzero `uint32_t`; C leaves the value at zero open. -/
def ctzFrom : Nat → Nat → Nat
  | 0, _ => 0
  | bits + 1, x => if x % 2 = 1 then 0 else ctzFrom bits (x / 2) + 1

def builtinCtz (x : Nat) : Nat := ctzFrom 32 x

/-- `__builtin_clzl`: leading zeros of a nonzero `uint64_t`; C leaves the value at zero open. -/
def builtinClzl (x : Nat) : Nat := 63 - Nat.log2 x

def maxBuddyLevelForPageAlignment (pageId : Nat) : Nat :=
  let idAlign := builtinCtz pageId
  if pageId = 0 ∨ idAlign ≥ buddyLevels then buddyLevels - 1 else idAlign

/-- The `while` loop of `min_buddy_level_for_size_no_overflow`; it ends within `BUDDY_LEVELS` rounds. -/
def noOverflowLoop (size : Nat) : Nat → Nat → Nat → Nat × Nat
  | 0, level, value => (level, value)
  | rounds + 1, level, value =>
    if level < buddyLevels - 1 ∧ value < size then noOverflowLoop size rounds (level + 1) (u64 (value <<< 1))
    else (level, value)

def minBuddyLevelForSizeNoOverflow (size : Nat) : Nat :=
  let (level, value) := noOverflowLoop size buddyLevels 0 pageSize
  if level > 0 ∧ value > size then level - 1 else level

def minBuddyLevelForSize (size : Nat) : Nat :=
  if size ≤ pageSize then 0
  else
    let level := 64 - builtinClzl (sizeToPageCount size)
    min (buddyLevels - 1) level

def getBuddyPageIdForPage (page level : Nat) : Nat :=
  let buddyId := page >>> level
  if buddyId % 2 = 0 then u32 (page + buddyLevelPageCount level)
  else sub32 page (buddyLevelPageCount level)

/-- The mask `~((1 << (level + 1)) - 1)` is an `int`, converted to `uint32_t` by the `&`. -/
def getRootBuddyPageIdForPage (page level : Nat) : Nat :=
  page &&& (2 ^ 32 - 1 - ((1 <<< (level + 1)) - 1))

theorem buddyLevelPageCount_eq (level : Nat) : buddyLevelPageCount level = 2 ^ level := by
  simp [buddyLevelPageCount, Nat.shiftLeft_eq]

theorem paToPageId_eq {pa : Nat} (small : pa < 2 ^ 44) : paToPageId pa = pa / 4096 := by
  simp only [paToPageId, pageShift, Nat.shiftRight_eq_div_pow]
  exact u32_of_lt (by omega)

theorem paToPageId_mul {page : Nat} (small : page < 2 ^ 32) : paToPageId (page * 4096) = page := by
  rw [paToPageId_eq (by omega), Nat.mul_div_cancel _ (by omega)]

theorem sizeToPageCount_eq {size : Nat} (small : size < 2 ^ 43) : sizeToPageCount size = (size + 4095) / 4096 := by
  simp only [sizeToPageCount, pageSize_eq, pageShift, Nat.shiftRight_eq_div_pow]
  rw [u64_of_lt (by omega), u32_of_lt (by omega)]

theorem ctzFrom_spec {bits x : Nat} (positive : 0 < x) (small : x < 2 ^ bits) (k : Nat) :
    2 ^ k ∣ x ↔ k ≤ ctzFrom bits x := by
  induction bits generalizing x k with
  | zero => simp at small; omega
  | succ bits ih =>
    unfold ctzFrom
    rw [Nat.pow_succ] at small
    cases k with
    | zero => simp
    | succ k =>
      split
      · rename_i odd
        simp only [Nat.le_zero, Nat.add_eq_zero_iff, one_ne_zero, and_false, iff_false]
        intro divides
        have even : 2 ∣ x := (dvd_pow_self 2 (Nat.succ_ne_zero k)).trans divides
        omega
      · rename_i even
        have half : x = x / 2 * 2 := by omega
        rw [Nat.succ_le_succ_iff, ← ih (by omega) (by omega), Nat.pow_succ]
        conv_lhs => rw [half]
        exact Nat.mul_dvd_mul_iff_right (by omega)

/-- The alignment level of a page is the largest level below `BUDDY_LEVELS` it is aligned to. -/
theorem maxBuddyLevelForPageAlignment_spec {page : Nat} (small : page < 2 ^ 32) {k : Nat} (bound : k < 6) :
    2 ^ k ∣ page ↔ k ≤ maxBuddyLevelForPageAlignment page := by
  unfold maxBuddyLevelForPageAlignment
  rcases Nat.eq_zero_or_pos page with rfl | positive
  · simp [buddyLevels]
    omega
  · have aligned : 2 ^ k ∣ page ↔ k ≤ builtinCtz page := ctzFrom_spec positive small k
    by_cases high : builtinCtz page ≥ buddyLevels
    · rw [if_pos (Or.inr high), aligned]
      unfold buddyLevels at *
      omega
    · rw [if_neg (by omega), aligned]

theorem maxBuddyLevelForPageAlignment_lt (page : Nat) : maxBuddyLevelForPageAlignment page < 6 := by
  unfold maxBuddyLevelForPageAlignment
  dsimp only
  by_cases high : page = 0 ∨ builtinCtz page ≥ buddyLevels
  · rw [if_pos high]
    decide
  · rw [if_neg high]
    unfold buddyLevels at high
    omega

theorem noOverflowLoop_spec (pages rounds level : Nat) (within : 5 < level + rounds) (bound : level ≤ 5)
    (before : level = 0 ∨ 2 ^ (level - 1) < pages) :
    ∃ last, noOverflowLoop (pages * 4096) rounds level (4096 * 2 ^ level) = (last, 4096 * 2 ^ last) ∧
      last ≤ 5 ∧ (last = 0 ∨ 2 ^ (last - 1) < pages) ∧ (last = 5 ∨ pages ≤ 2 ^ last) := by
  induction rounds generalizing level with
  | zero => omega
  | succ rounds ih =>
    unfold noOverflowLoop
    split
    · rename_i again
      simp only [buddyLevels] at again
      have doubled : u64 ((4096 * 2 ^ level) <<< 1) = 4096 * 2 ^ (level + 1) := by
        have small : 2 ^ (level + 1) ≤ 2 ^ 5 := Nat.pow_le_pow_right (by omega) (by omega)
        rw [Nat.shiftLeft_eq, show 4096 * 2 ^ level * 2 ^ 1 = 4096 * 2 ^ (level + 1) by ring]
        exact u64_of_lt (by omega)
      rw [doubled]
      exact ih (level + 1) (by omega) (by omega) (Or.inr (by rw [Nat.add_sub_cancel]; omega))
    · rename_i done
      simp only [buddyLevels] at done
      exact ⟨level, rfl, bound, before, by omega⟩

/-- The size level of `pages` pages is the largest level below `BUDDY_LEVELS` that fits into them. -/
theorem minBuddyLevelForSizeNoOverflow_spec {pages : Nat} (positive : 0 < pages) {k : Nat} (bound : k < 6) :
    2 ^ k ≤ pages ↔ k ≤ minBuddyLevelForSizeNoOverflow (pages * 4096) := by
  obtain ⟨last, run, lastBound, below, above⟩ :=
    noOverflowLoop_spec pages 6 0 (by omega) (by omega) (Or.inl rfl)
  have mono {i j : Nat} (le : i ≤ j) : 2 ^ i ≤ 2 ^ j := Nat.pow_le_pow_right (by omega) le
  have start : (4096 * 2 ^ 0 : Nat) = 4096 := rfl
  rw [start] at run
  simp only [minBuddyLevelForSizeNoOverflow, buddyLevels, pageSize_eq, run]
  split
  · rename_i exceeds
    constructor
    · intro fits
      by_contra larger
      have := mono (show last ≤ k by omega)
      omega
    · intro le
      have := mono le
      have := below.resolve_left (by omega)
      omega
  · rename_i reached
    constructor
    · intro fits
      by_contra larger
      have := mono (show last + 1 ≤ k by omega)
      have doubled := Nat.pow_succ 2 last
      have := above.resolve_left (by omega)
      have := Nat.two_pow_pos last
      omega
    · intro le
      have := mono le
      rcases Nat.eq_zero_or_pos last with rfl | _
      · simp at this
        omega
      · omega

/-- The level at which an allocation starts its search holds the whole request. -/
theorem minBuddyLevelForSize_spec {size : Nat} (bound : size ≤ 131072) :
    minBuddyLevelForSize size < 6 ∧ sizeToPageCount size ≤ 2 ^ minBuddyLevelForSize size := by
  have count := sizeToPageCount_eq (show size < 2 ^ 43 by omega)
  unfold minBuddyLevelForSize buddyLevels builtinClzl
  rw [pageSize_eq, count]
  split
  · omega
  · have logBound : Nat.log2 ((size + 4095) / 4096) < 6 := by
      rw [Nat.log2_lt (by omega)]
      omega
    have fits : (size + 4095) / 4096 < 2 ^ (Nat.log2 ((size + 4095) / 4096) + 1) := Nat.lt_log2_self
    have level : 64 - (63 - Nat.log2 ((size + 4095) / 4096)) = Nat.log2 ((size + 4095) / 4096) + 1 := by omega
    simp only [level]
    rcases Nat.lt_or_ge (Nat.log2 ((size + 4095) / 4096) + 1) 5 with small | large
    · rw [min_eq_right small.le]
      omega
    · rw [min_eq_left (by omega)]
      omega

/-- The buddy of the block around a page starts at the sibling of that block. -/
theorem getBuddyPageIdForPage_root {page level : Nat} (small : page < 2 ^ 31) (bound : level < 6) :
    getBuddyPageIdForPage (Dyadic.root level page) level = Dyadic.sibling level page := by
  have positive := Nat.two_pow_pos level
  have le := Dyadic.root_le level page
  have limit : 2 ^ level ≤ 2 ^ 5 := Nat.pow_le_pow_right (by omega) (by omega)
  have quotient : Dyadic.root level page / 2 ^ level = page / 2 ^ level := by
    rw [Dyadic.root, Nat.mul_div_cancel _ positive]
  simp only [getBuddyPageIdForPage, Nat.shiftRight_eq_div_pow, quotient, buddyLevelPageCount_eq, Dyadic.sibling]
  split
  · exact u32_of_lt (by omega)
  · rcases Dyadic.root_succ_cases level page with ⟨even, _⟩ | ⟨_, same⟩
    · contradiction
    · exact sub32_of_le (by omega) (by omega)

/-- Merging a block with its buddy continues at the block of the next level. -/
theorem getRootBuddyPageIdForPage_root {page level : Nat} (small : page < 2 ^ 31) (bound : level < 6) :
    getRootBuddyPageIdForPage (Dyadic.root level page) level = Dyadic.root (level + 1) page := by
  have mask : 2 ^ 32 - 1 - ((1 <<< (level + 1)) - 1) = 2 ^ 32 - 2 ^ (level + 1) := by
    rw [Nat.shiftLeft_eq, one_mul]
    have := Nat.two_pow_pos (level + 1)
    omega
  have clear {x : Nat} (lt : x < 2 ^ 32) :
      x &&& (2 ^ 32 - 2 ^ (level + 1)) = x / 2 ^ (level + 1) * 2 ^ (level + 1) := by
    apply Nat.eq_of_testBit_eq
    intro i
    have maskBit : (2 ^ 32 - 2 ^ (level + 1)).testBit i = (decide (level + 1 ≤ i) && decide (i < 32)) := by
      have shape : 2 ^ 32 - 2 ^ (level + 1) = (2 ^ (32 - (level + 1)) - 1) * 2 ^ (level + 1) := by
        rw [Nat.sub_mul, one_mul, ← Nat.pow_add, Nat.sub_add_cancel (by omega)]
      rw [shape, Nat.testBit_mul_two_pow, Nat.testBit_two_pow_sub_one]
      by_cases le : level + 1 ≤ i
      · simp [le]
        omega
      · simp [le]
    rw [Nat.testBit_and, maskBit, Nat.testBit_mul_two_pow, Nat.testBit_div_two_pow]
    by_cases le : level + 1 ≤ i
    · rcases Nat.lt_or_ge i 32 with low | high
      · simp [le, low]
      · have zero : x.testBit i = false :=
          Nat.testBit_lt_two_pow (lt.trans_le (Nat.pow_le_pow_right (by omega) high))
        simp [le, zero]
    · simp [le]
  rw [getRootBuddyPageIdForPage, mask, clear (by have := Dyadic.root_le level page; omega)]
  exact Dyadic.root_root (Nat.le_succ level) page

end Swink
