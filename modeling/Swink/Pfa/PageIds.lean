import Swink.Pfa.Guarantees

namespace Swink

open PfaStore

/-- The address of the list node and the size in bytes that a round of
`buddy_insert_range_freed_locked` computes at `free_i`. -/
def insertedNode {σ : Type} [PfaStore σ] (s : σ) (freeI : Nat) : Nat :=
  pmapPaToKva (physmapVmBase s) (shl32 freeI pageShift)

def insertedSize (limit freeI : Nat) : Nat := shl32 (sub32 limit freeI) pageShift

/-- The round works with these two numbers. -/
theorem buddyInsertRangeLoop_round {σ : Type} [PfaStore σ] (limit rounds freeI : Nat) (fe : Option Nat) (s : σ) :
    buddyInsertRangeLoop limit (rounds + 1) freeI fe s =
      if freeI < limit then do
        let level := min (maxBuddyLevelForPageAlignment freeI)
          (minBuddyLevelForSizeNoOverflow (insertedSize limit freeI))
        assert (level < buddyLevels) "level >= 0 && level < BUDDY_LEVELS"
        assert (1 <<< level ≤ sub32 limit freeI) "1 << level <= limit - free_i"
        let pushed ← listPushFront level (insertedNode s freeI) s
        let marked ← buddyBitmapSetBitLocked freeI level buddyBitFree pushed
        buddyInsertRangeLoop limit rounds (u32 (freeI + buddyLevelPageCount level)) (some (insertedNode s freeI)) marked
      else .ok (fe, s) := rfl

/-- Both ways to the list node of a page lead to the start of the page in the physmap, and the node
leads back to the page. -/
def NodeExact {σ : Type} [PfaStore σ] (s : σ) (page : Nat) : Prop :=
  insertedNode s page = physmapVmBase s + page * pageSize ∧
  getPfaFreeEntryForPage page s = .ok (physmapVmBase s + page * pageSize) ∧
  ∃ pa, pmapPhysmapKvaToPa (physmapVmBase s) (insertedNode s page) = .ok pa ∧ paToPageId pa = page

theorem sizeToPageCount_of_fits {size : Nat} (fits : (size + 4095) / 4096 < 2 ^ 32) :
    sizeToPageCount size = (size + 4095) / 4096 := by
  simp only [sizeToPageCount, pageSize_eq, pageShift, Nat.shiftRight_eq_div_pow]
  rw [u64_of_lt (by omega), u32_of_lt (by omega)]

section
variable {σ : Type} [PfaStore σ] {s : σ} {page : Nat}

theorem insertedNode_iff (inside : physmapVmBase s + page * pageSize < 2 ^ 64) :
    insertedNode s page = physmapVmBase s + page * pageSize ↔ page < 2 ^ 20 := by
  have le : shl32 page pageShift ≤ page * pageSize := by
    rw [shl32, pageShift, Nat.shiftLeft_eq, pageSize_eq]
    exact Nat.mod_le ..
  rw [← shl32_pageShift_iff, insertedNode, pmapPaToKva, u64_of_lt (by omega)]
  omega

theorem nodeExact_iff (base : pageBase s = 0) (small : page < 2 ^ 32) (managed : page < pageCount s)
    (inside : physmapVmBase s + page * pageSize < 2 ^ 64) : NodeExact s page ↔ page < 2 ^ 20 := by
  have exact := insertedNode_iff inside
  constructor
  · rintro ⟨node, -, -⟩
    exact exact.mp node
  · intro low
    have node := exact.mpr low
    have entry : getPfaFreeEntryForPage page s = .ok (insertedNode s page) := by
      rw [getPfaFreeEntryForPage, base, sub32_of_le (Nat.zero_le _) small, Nat.sub_zero, assert_of managed]
      rfl
    refine ⟨node, entry.trans (congrArg Except.ok node), page * pageSize, ?_, paToPageId_mul small⟩
    rw [node, pmapPhysmapKvaToPa, require_of (Nat.le_add_right ..), ok_bind, Nat.add_sub_cancel_left]

end

/-- Page ids are exact below 4 GB of RAM and only there: the shifts of a page id, and of the number
of pages still to be inserted, are made in 32 bits. -/
theorem page_ids_are_exact_iff {σ : Type} [PfaStore σ] (s : σ) (ramSize : Nat)
    (fits : (ramSize + 4095) / 4096 < 2 ^ 32) (base : pageBase s = 0) (count : pageCount s = sizeToPageCount ramSize)
    (physmap : physmapVmBase s + pageCount s * pageSize ≤ 2 ^ 64) :
    pageCount s = (ramSize + 4095) / 4096 ∧
    (∀ page < pageCount s, NodeExact s page ↔ page < 2 ^ 20) ∧
    (∀ limit freeI, freeI < limit → limit ≤ pageCount s →
      (insertedSize limit freeI = (limit - freeI) * pageSize ↔ limit - freeI < 2 ^ 20)) ∧
    ∀ page < pageCount s, ∀ page' < pageCount s, page < 2 ^ 20 → page' < 2 ^ 20 → page ≠ page' →
      insertedNode s page ≠ insertedNode s page' ∧ physmapVmBase s + page * pageSize ≤ insertedNode s page ∧
        insertedNode s page < physmapVmBase s + (page + 1) * pageSize := by
  rw [sizeToPageCount_of_fits fits] at count
  have inside {page : Nat} (managed : page < pageCount s) : physmapVmBase s + page * pageSize < 2 ^ 64 := by
    rw [pageSize_eq] at physmap ⊢
    omega
  refine ⟨count, fun page managed => nodeExact_iff base (by omega) managed (inside managed),
    fun limit freeI before within => ?_, fun page managed page' managed' low low' different => ?_⟩
  · rw [insertedSize, sub32_of_le before.le (by omega)]
    exact shl32_pageShift_iff _
  · rw [(insertedNode_iff (inside managed)).mpr low, (insertedNode_iff (inside managed')).mpr low', pageSize_eq]
    omega

/-- An allocator for 8 GB of RAM. -/
def eightGigabytes : Pfa := { blankPfa with physmapVmBase := 2 ^ 64 - 2 ^ 33, pageCount := 2 ^ 21, lock := 1 }

theorem page_ids_are_exact_iff_sample : NodeExact eightGigabytes 0xfffff ∧ insertedSize 5 2 = 3 * pageSize := by
  obtain ⟨-, nodes, sizes, -⟩ := page_ids_are_exact_iff eightGigabytes (2 ^ 33) (by decide) rfl rfl (by decide)
  exact ⟨(nodes 0xfffff (by decide)).mpr (by decide), (sizes 5 2 (by decide) (by decide)).mpr (by decide)⟩

/-- The first page above 4 GB shares its list node with page zero. -/
theorem page_above_four_gigabytes :
    ¬NodeExact eightGigabytes 0x100000 ∧ insertedNode eightGigabytes 0x100000 = insertedNode eightGigabytes 0 := by
  refine ⟨fun exact => ?_, rfl⟩
  exact absurd exact.1 (by decide)

end Swink
