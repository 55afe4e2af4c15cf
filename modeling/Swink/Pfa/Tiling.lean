import Swink.Pfa.Insert

namespace Swink

open PfaStore Dyadic Pfa

/-- Range insertion is the sequence of pushes of one tiling of the range by largest fits, which
holds no two buddies below the top level and is as short as any cover of the range; where the
allocator's lists and bitmaps are intact and none of the range is free yet, the pushes succeed. -/
theorem range_insertion_tiles (base count : Nat) (small : count < 2 ^ 20) (below : base + count ≤ 2 ^ 20) :
    ∃ tiles : List (Nat × Nat),
      (∀ {σ : Type} [PfaStore σ] (s : σ), buddyInsertRangeFreedLocked base count s = pushBlocks tiles none s) ∧
      Tiles (buddyLevels - 1) tiles base (base + count) ∧
      (∀ tile ∈ tiles, LargestFit (buddyLevels - 1) (base + count) tile) ∧
      (∀ level page, (level, page) ∈ tiles → level < buddyLevels - 1 →
        (level, getBuddyPageIdForPage page level) ∉ tiles) ∧
      (∀ cover, Covers (buddyLevels - 1) cover (Set.Ico base (base + count)) → tiles.length ≤ cover.length) ∧
      ∀ (g : Geometry) (held : Blocks) (s : Pfa), base + count ≤ g.pageCount →
        Set.Ico base (base + count) ⊆ g.usable → s.Holds g held →
        (∀ level page, held level page → base ≤ page → base + count ≤ page) →
        ∃ fe after, pushBlocks tiles none s = .ok (fe, after) := by
  obtain ⟨tiles, tiling, greedy, pushes⟩ := buddyInsertRangeFreedLocked_tiles base count small below
  refine ⟨tiles, pushes, tiling, greedy, ?_, fun cover covers => tiling.length_le greedy covers, ?_⟩
  · intro level page member low
    have maximal := tiling.maximal_Ico greedy member
    have inRange := maximal.start_mem.2
    have buddy := getBuddyPageIdForPage_root (show page < 2 ^ 31 by omega) (show level < 6 from Nat.lt_succ_of_lt low)
    rw [root_eq_self maximal.2.1] at buddy
    rw [buddy]
    exact tiling.no_siblings greedy member low
  · intro g held s inside usable holds fresh
    obtain ⟨fe, after, result, _⟩ := holds.pushBlocks tiling inside usable fresh none
    exact ⟨fe, after, result⟩

theorem range_insertion_tiles_sample : ∃ tiles : List (Nat × Nat),
    (∀ {σ : Type} [PfaStore σ] (s : σ), buddyInsertRangeFreedLocked 3 13 s = pushBlocks tiles none s) ∧
      Tiles (buddyLevels - 1) tiles 3 16 ∧ tiles.length ≤ 3 := by
  obtain ⟨tiles, pushes, tiling, _, _, fewest, _⟩ := range_insertion_tiles 3 13 (by decide) (by decide)
  refine ⟨tiles, pushes, tiling, fewest [(0, 3), (2, 4), (3, 8)] ⟨?_, ?_⟩⟩
  · simp only [List.forall_mem_cons, List.not_mem_nil, IsEmpty.forall_iff, implies_true, and_true, buddyLevels]
    refine ⟨⟨by decide, by decide, ?_⟩, ⟨by decide, by decide, ?_⟩, by decide, by decide, ?_⟩
    all_goals exact Set.Ico_subset_Ico (by decide) (by decide)
  · intro x member
    simp only [Set.mem_Ico] at member
    simp only [List.exists_mem_cons_iff, mem_block, List.not_mem_nil, false_and, exists_false, or_false]
    omega

end Swink
