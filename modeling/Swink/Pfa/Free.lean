import Swink.Pfa.Alloc

namespace Swink.Pfa
open Blocks Dyadic

variable {g : Geometry} {s : Pfa} {blocks : Blocks} {free : Set Nat} {point : Nat}

/-- The blocks left on the lists once a page has merged with its siblings below `level`. -/
def unmerged (free : Set Nat) (point level : Nat) : Blocks :=
  fun l p => Maximal 5 free l p ∧ ∀ j < level, ¬(l = j ∧ p = sibling j point)

theorem unmerged_succ (free : Set Nat) (point level : Nat) (l p : Nat) :
    (unmerged free point level).remove level (sibling level point) l p ↔ unmerged free point (level + 1) l p := by
  unfold unmerged Blocks.remove
  constructor
  · rintro ⟨⟨maximal, kept⟩, last⟩
    refine ⟨maximal, fun j lt => ?_⟩
    rcases Nat.lt_succ_iff_lt_or_eq.mp lt with lower | rfl
    · exact kept j lower
    · exact last
  · rintro ⟨maximal, kept⟩
    exact ⟨⟨maximal, fun j lt => kept j (by omega)⟩, kept level (Nat.lt_succ_self _)⟩

/-- At the level reached, only the maximal block itself decides whether the sibling is listed. -/
theorem unmerged_sibling {level : Nat} :
    unmerged free point level level (sibling level point) ↔ Maximal 5 free level (sibling level point) :=
  and_iff_left fun _ lt same => absurd same.1 (by omega)

/-- The sibling of a managed block has a bit in the words of its level, even when it lies past
the managed pages. -/
theorem sibling_lt_words {level : Nat} (managed : point < g.pageCount) :
    sibling level point / 2 ^ level < 64 * bitmapWords g.pageCount level := by
  have positive := Nat.two_pow_pos level
  have own := lt_bitmapWords level managed
  have split {a : Nat} : (a * 2 ^ level + 2 ^ level) / 2 ^ level = a + 1 := by
    rw [← Nat.succ_mul, Nat.mul_div_cancel _ positive]
  rcases root_succ_cases level point with ⟨even, -⟩ | ⟨odd, -⟩
  · rw [sibling, if_pos even, root, split]
    omega
  · have le : sibling level point ≤ point := by
      rw [sibling, if_neg (by omega)]
      exact (Nat.sub_le ..).trans (root_le ..)
    exact (Nat.div_le_div_right le).trans_lt own

theorem sibling_lt {level : Nat} (managed : point < 2 ^ 20) (bound : level < 6) : sibling level point < 2 ^ 31 := by
  have le := root_le level point
  have positive := Nat.two_pow_pos level
  have cap : 2 ^ level ≤ 2 ^ 5 := Nat.pow_le_pow_right (by omega) (by omega)
  unfold sibling
  split <;> omega

/-- The bit of the buddy at the level reached tells whether the buddy is a maximal block. -/
theorem buddyBit_spec (managed : point < g.pageCount) {level : Nat} (bound : level < 6)
    (holds : s.Holds g (unmerged free point level)) :
    ∃ bit, buddyBitmapGetBitLocked (sibling level point) level s = .ok bit ∧
      (bit = buddyBitAllocated ↔ ¬Maximal 5 free level (sibling level point)) := by
  have countLe := g.pageCount_le
  have small := sibling_lt (show point < 2 ^ 20 by omega) bound
  obtain ⟨bit, read, -, isAllocated⟩ := buddyBitmapGetBitLocked_spec holds.manages holds.bits bound
    (sibling_dvd level point) (by omega) (sibling_lt_words managed)
  rw [unmerged_sibling] at isAllocated
  exact ⟨bit, read, isAllocated⟩

/-- A round of the merge loop takes a free buddy out of its bitmap and off its list. -/
theorem mergeBuddy_spec {level : Nat} (bound : level < 6) (holds : s.Holds g (unmerged free point level))
    (listed : Maximal 5 free level (sibling level point)) :
    ∃ lists bitmaps,
      buddyBitmapSetBitLocked (sibling level point) level buddyBitAllocated s =
        .ok (s.withBlocks s.buddyLists bitmaps) ∧
      getPfaFreeEntryForPage (sibling level point) (s.withBlocks s.buddyLists bitmaps) =
        .ok (g.node (sibling level point)) ∧
      (s.withBlocks s.buddyLists bitmaps).listRemove (g.node (sibling level point)) =
        .ok (s.withBlocks lists bitmaps) ∧
      (s.withBlocks lists bitmaps).Holds g (unmerged free point (level + 1)) := by
  have countLe := g.pageCount_le
  have member := unmerged_sibling.mpr listed
  have buddyManaged := holds.managed.page_lt member
  have unique (l : Nat) (other : unmerged free point level l (sibling level point)) : l = level :=
    (other.1.eq_of_mem listed (start_mem_block ..) (start_mem_block ..)).1
  obtain ⟨bitmaps, marked, inBitmaps⟩ := setBit_allocated_spec holds.manages holds.bits bound
    (sibling_dvd level point) buddyManaged
  obtain ⟨lists, removed, onLists⟩ := listRemove_spec (s := s.withBlocks s.buddyLists bitmaps)
    holds.lists bound member unique
  refine ⟨lists, bitmaps, marked, ?_, removed, ?_⟩
  · have debased : sub32 (sibling level point) s.pageBase = sibling level point := by
      rw [holds.manages.base]
      exact sub32_of_le (Nat.zero_le _) (by omega)
    simp only [getPfaFreeEntryForPage, store_pageBase, store_pageCount, store_physmapVmBase,
      withBlocks_pageBase, withBlocks_pageCount, withBlocks_physmapVmBase, debased]
    rw [assert_of (holds.manages.count ▸ buddyManaged), ok_bind, holds.manages.physmap, g.node_eq buddyManaged]
  · refine Holds.congr ⟨holds.manages.withBlocks .., holds.managed.remove level _, onLists, inBitmaps⟩ ?_
    exact unmerged_succ free point level

/-- The merge loop stops at the first level whose sibling is not free, having taken every
lower sibling off its list. -/
theorem buddyMergeLoop_spec (managed : point < g.pageCount) (rounds level : Nat) (within : level + rounds = 5)
    (holds : s.Holds g (unmerged free point level)) (merged : ∀ j < level, Maximal 5 free j (sibling j point)) :
    ∃ stop after, buddyMergeLoop rounds level (root level point) s = .ok (stop, root stop point, after) ∧
      after = s.withBlocks after.buddyLists after.buddyBitmaps ∧ stop ≤ 5 ∧
      after.Holds g (unmerged free point stop) ∧ (∀ j < stop, Maximal 5 free j (sibling j point)) ∧
      (stop = 5 ∨ ¬Maximal 5 free stop (sibling stop point)) := by
  have countLe := g.pageCount_le
  induction rounds generalizing s level with
  | zero =>
    obtain rfl : level = 5 := by omega
    exact ⟨5, s, rfl, rfl, le_rfl, holds, merged, Or.inl rfl⟩
  | succ rounds ih =>
    have bound : level < 6 := by omega
    have buddy := getBuddyPageIdForPage_root (show point < 2 ^ 31 by omega) bound
    obtain ⟨bit, read, isAllocated⟩ := buddyBit_spec managed bound holds
    by_cases listed : Maximal 5 free level (sibling level point)
    · obtain ⟨lists, bitmaps, marked, entry, removed, next⟩ := mergeBuddy_spec bound holds listed
      obtain ⟨stop, after, run, shape, rest⟩ := ih (level + 1) (by omega) next fun j lt => by
        rcases Nat.lt_succ_iff_lt_or_eq.mp lt with lower | rfl
        · exact merged j lower
        · exact listed
      refine ⟨stop, after, ?_, by rw [shape]; rfl, rest⟩
      have unallocated : ¬bit = buddyBitAllocated := fun eq => isAllocated.mp eq listed
      rw [buddyMergeLoop]
      simp only [buddy, read, ok_bind, if_neg unallocated, marked, entry, store_listRemove, removed,
        getRootBuddyPageIdForPage_root (show point < 2 ^ 31 by omega) bound]
      exact run
    · refine ⟨level, s, ?_, rfl, by omega, holds, merged, Or.inr listed⟩
      rw [buddyMergeLoop]
      simp only [buddy, read, ok_bind, if_pos (isAllocated.mpr listed)]

/-- Freeing one managed page that is not free keeps the blocks coalesced. -/
theorem buddyFreePageLocked_spec (holds : s.Holds g (Maximal 5 free)) (managed : point < g.pageCount)
    (usable : point ∈ g.usable) (fresh : point ∉ free) :
    ∃ after, buddyFreePageLocked point s = .ok after ∧
      after = s.withBlocks after.buddyLists after.buddyBitmaps ∧ after.Holds g (Maximal 5 (insert point free)) := by
  have countLe := g.pageCount_le
  have begin_ : s.Holds g (unmerged free point 0) :=
    holds.congr fun l p => (and_iff_left fun j lt => absurd lt (Nat.not_lt_zero j)).symm
  obtain ⟨stop, middle, run, shape, bound, middleHolds, merged, last⟩ :=
    buddyMergeLoop_spec managed 5 0 rfl begin_ fun j lt => absurd lt (Nat.not_lt_zero j)
  have result (l p : Nat) := Maximal.insert_iff fresh bound merged last (k := l) (x := p)
  have reached : Maximal 5 (insert point free) stop (root stop point) := (result ..).mpr (Or.inl ⟨rfl, rfl⟩)
  have inside := managed_maximal (show ∀ q ∈ insert point free, q < g.pageCount by
    rintro q (rfl | member)
    · exact managed
    · exact holds.free_lt member) (Set.insert_subset usable holds.free_usable) stop _ reached
  have rootManaged : root stop point < g.pageCount := (root_le ..).trans_lt managed
  obtain ⟨linked, after, pushed, marked, afterShape, afterHolds⟩ :=
    middleHolds.link inside.1 inside.2.1 inside.2.2.1 inside.2.2.2 fun l _ member => by
      have other : Maximal 5 (insert point free) l (root stop point) := (result ..).mpr (Or.inr member)
      obtain ⟨rfl, -⟩ := other.eq_of_mem reached (start_mem_block ..) (start_mem_block ..)
      exact fresh (member.1.2.2.1 (mem_block_root ..))
  refine ⟨after, ?_, by rw [afterShape, shape]; rfl, afterHolds.congr fun l p => (result l p).symm⟩
  have debased : sub32 (root stop point) middle.pageBase = root stop point := by
    rw [middleHolds.manages.base]
    exact sub32_of_le (Nat.zero_le _) (by omega)
  have entry : getPfaFreeEntryForPage (root stop point) middle = .ok (g.node (root stop point)) := by
    simp only [getPfaFreeEntryForPage, store_pageBase, store_pageCount, store_physmapVmBase, debased]
    rw [assert_of (middleHolds.manages.count ▸ rootManaged), ok_bind, middleHolds.manages.physmap,
      g.node_eq rootManaged]
  rw [root_zero] at run
  have levels : buddyLevels - 1 = 5 := rfl
  simp only [buddyFreePageLocked, levels, run, ok_bind, entry, store_listPushFront, pushed, marked]

/-- Freeing a range page by page frees exactly the pages of the range. -/
theorem buddyFreePagesLoop_spec (base count i : Nat) (holds : s.Holds g (Maximal 5 free))
    (inside : base + i + count ≤ g.pageCount) (usable : Set.Ico (base + i) (base + i + count) ⊆ g.usable)
    (fresh : ∀ q ∈ free, q < base + i ∨ base + i + count ≤ q) :
    ∃ after, buddyFreePagesLoop base count i s = .ok after ∧
      after = s.withBlocks after.buddyLists after.buddyBitmaps ∧
      after.Holds g (Maximal 5 (free ∪ Set.Ico (base + i) (base + i + count))) := by
  have countLe := g.pageCount_le
  induction count generalizing s free i with
  | zero => exact ⟨s, rfl, rfl, by simpa using holds⟩
  | succ count ih =>
    have notFree : base + i ∉ free := fun member => by
      have := fresh _ member
      omega
    obtain ⟨next, step, nextShape, nextHolds⟩ := buddyFreePageLocked_spec holds (show base + i < g.pageCount by omega)
      (usable (Set.mem_Ico.mpr (by omega))) notFree
    obtain ⟨after, run, shape, afterHolds⟩ := ih (i + 1) nextHolds (by omega)
      (Set.Subset.trans (Set.Ico_subset_Ico (by omega) (by omega)) usable) (by
      rintro q (rfl | member)
      · omega
      · have := fresh q member
        omega)
    refine ⟨after, ?_, by rw [shape, nextShape]; rfl, ?_⟩
    · rw [buddyFreePagesLoop, u32_of_lt (by omega), step, ok_bind, run]
    · have pages : insert (base + i) free ∪ Set.Ico (base + (i + 1)) (base + (i + 1) + count) =
          free ∪ Set.Ico (base + i) (base + i + (count + 1)) := by
        ext q
        simp only [Set.mem_union, Set.mem_insert_iff, Set.mem_Ico]
        constructor
        · rintro ((rfl | member) | range)
          · exact Or.inr (by omega)
          · exact Or.inl member
          · exact Or.inr (by omega)
        · rintro (member | range)
          · exact Or.inl (Or.inr member)
          · rcases Nat.eq_or_lt_of_le range.1 with same | later
            · exact Or.inl (Or.inl same.symm)
            · exact Or.inr (by omega)
      rwa [pages] at afterHolds

/-- The pages of a byte range, as `pmap_pfa_free_contig` counts them. -/
def pagesOf (addr size : Nat) : Set Nat := Set.Ico (addr / 4096) (addr / 4096 + (size + 4095) / 4096)

/-- Freeing managed pages none of which is free adds exactly these pages. -/
theorem pmapPfaFreeContig_spec (ready : s.Ready g free) {addr size : Nat} (addrLt : addr < 2 ^ 64)
    (sizeLt : size < 2 ^ 64) (managed : ∀ q ∈ pagesOf addr size, q < g.pageCount)
    (usable : pagesOf addr size ⊆ g.usable)
    (fresh : Disjoint (pagesOf addr size) free) :
    ∃ after, pmapPfaFreeContig addr size s = .ok after ∧ after.Ready g (free ∪ pagesOf addr size) ∧
      after.metadata = s.metadata := by
  have countLe := g.pageCount_le
  rcases Nat.eq_zero_or_pos size with rfl | positive
  · have nothing : pagesOf addr 0 = ∅ := by simp [pagesOf]
    refine ⟨s, ?_, by rwa [nothing, Set.union_empty], rfl⟩
    rw [pmapPfaFreeContig, ready.acquire]
    simp only [ok_bind, buddyFreePagesLocked, sizeToPageCount_eq (show 0 < 2 ^ 43 by omega)]
    exact congrArg Except.ok (release_acquired ready)
  · have last := managed (addr / 4096 + (size + 4095) / 4096 - 1) (Set.mem_Ico.mpr (by omega))
    have first : paToPageId addr = addr / 4096 := paToPageId_eq (by omega)
    have count : sizeToPageCount size = (size + 4095) / 4096 := sizeToPageCount_eq (by omega)
    obtain ⟨after, run, shape, holds⟩ := buddyFreePagesLoop_spec (addr / 4096) ((size + 4095) / 4096) 0
      (ready.holds.withLock 0) (by omega) usable (fun q member => by
        by_contra inRange
        exact Set.disjoint_left.mp fresh (Set.mem_Ico.mpr (by omega)) member)
    refine ⟨{ after with lock := 1 }, ?_, ⟨holds.withLock 1, rfl⟩, by rw [shape]; rfl⟩
    have locked : after.lock = 0 := by rw [shape]; rfl
    rw [pmapPfaFreeContig, ready.acquire]
    simp only [ok_bind, buddyFreePagesLocked, first, count, run, synchsLockRelease, store_lockValue, locked]
    rfl

end Swink.Pfa
