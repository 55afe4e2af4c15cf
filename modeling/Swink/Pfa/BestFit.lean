import Swink.Pfa.Guarantees

namespace Swink

namespace Pfa
open Blocks Dyadic

variable {g : Geometry} {s : Pfa} {free : Set Nat} {size level : Nat}

/-- A request fails only when no level that holds it has a block, and then changes nothing;
otherwise it takes its block from the lowest such level. -/
def BestFit (s : Pfa) (size : Nat) (metadata : BitVec 8) : Prop :=
  ∃ result after, pmapPfaAllocContig size metadata s = .ok (result, after) ∧
    (result = physAddrInvalid ↔ ∀ level < buddyLevels, size ≤ pageSize <<< level → s.pagesOn level = []) ∧
    (result = physAddrInvalid →
      after.buddyLists = s.buddyLists ∧ after.buddyBitmaps = s.buddyBitmaps ∧ after.metadata = s.metadata) ∧
    (result ≠ physAddrInvalid → ∃ level < buddyLevels, size ≤ pageSize <<< level ∧
      (∀ lower < level, size ≤ pageSize <<< lower → s.pagesOn lower = []) ∧
      ∃ page, result = page * pageSize ∧ page ∈ s.pagesOn level ∧ page ∉ after.pagesOn level)

/-- The level a request should be served from is free, and `min_buddy_level_for_size` starts above it. -/
def StartsTooHigh (s : Pfa) (size : Nat) : Prop :=
  ∃ level, 0 < level ∧ level < buddyLevels - 1 ∧ (size + 4095) / 4096 = 2 ^ level ∧ s.pagesOn level ≠ []

theorem le_shiftLeft_iff : size ≤ pageSize <<< level ↔ (size + 4095) / 4096 ≤ 2 ^ level := by
  rw [pageSize_eq, Nat.shiftLeft_eq]
  omega

/-- The search includes a level when the level is the last one or has room to spare. -/
theorem minBuddyLevelForSize_le (bound : size ≤ 131072) :
    minBuddyLevelForSize size ≤ level ↔ size ≤ 4096 ∨ 5 ≤ level ∨ (size + 4095) / 4096 < 2 ^ level := by
  have count := sizeToPageCount_eq (show size < 2 ^ 43 by omega)
  unfold minBuddyLevelForSize buddyLevels builtinClzl
  rw [pageSize_eq, count]
  by_cases one : size ≤ 4096
  · simp [one]
  · have logBound : Nat.log2 ((size + 4095) / 4096) < 6 := by
      rw [Nat.log2_lt (by omega)]
      omega
    have start : 64 - (63 - Nat.log2 ((size + 4095) / 4096)) = Nat.log2 ((size + 4095) / 4096) + 1 := by omega
    rw [if_neg one, ← Nat.log2_lt (show (size + 4095) / 4096 ≠ 0 by omega)]
    simp only [start]
    omega

/-- A level that holds the request is skipped just if the request fills its blocks exactly. -/
theorem skipped (bound : size ≤ 131072) (fits : (size + 4095) / 4096 ≤ 2 ^ level)
    (skips : ¬minBuddyLevelForSize size ≤ level) :
    0 < level ∧ level < buddyLevels - 1 ∧ (size + 4095) / 4096 = 2 ^ level := by
  rw [minBuddyLevelForSize_le bound] at skips
  have positive : 0 < level := by
    rcases Nat.eq_zero_or_pos level with rfl | positive
    · rw [Nat.pow_zero] at fits
      omega
    · exact positive
  exact ⟨positive, by unfold buddyLevels; omega, by omega⟩

theorem starts_above (bound : size ≤ 131072) (positive : 0 < level) (low : level < 5)
    (exact : (size + 4095) / 4096 = 2 ^ level) : level < minBuddyLevelForSize size := by
  have two : 2 ^ 1 ≤ 2 ^ level := Nat.pow_le_pow_right (by omega) positive
  by_contra reached
  rcases (minBuddyLevelForSize_le bound).mp (Nat.not_lt.mp reached) with small | last | room
  · omega
  · omega
  · omega

theorem Ready.pagesOn_eq_nil (ready : s.Ready g free) (bound : level < 6) :
    s.pagesOn level = [] ↔ ∀ p, ¬Maximal 5 free level p := by
  rw [List.eq_nil_iff_forall_not_mem]
  exact forall_congr' fun p => not_congr (ready.holds.mem_pagesOn bound)

/-- Allocation is best fit except where it skips a level that has a block. -/
theorem Ready.bestFit_iff (ready : s.Ready g free) (bound : size ≤ 131072) (positive : 0 < size)
    (metadata : BitVec 8) : s.BestFit size metadata ↔ ¬s.StartsTooHigh size := by
  have empty {l : Nat} (lt : l < 6) := ready.pagesOn_eq_nil lt
  -- below the start of the search only a skipped level can have a block that holds the request
  have skips (good : ¬s.StartsTooHigh size) {l : Nat} (lt : l < 6) (fits : size ≤ pageSize <<< l)
      (before : ¬minBuddyLevelForSize size ≤ l) : s.pagesOn l = [] := by
    by_contra some_
    obtain ⟨pos, low, same⟩ := skipped bound (le_shiftLeft_iff.mp fits) before
    exact good ⟨l, pos, low, same, some_⟩
  rcases pmapPfaAllocContig_spec ready bound metadata with
    ⟨run, nothing⟩ | ⟨level, page, after, run, from_, below, takes⟩
  · constructor
    · rintro ⟨result, after, outcome, invalid, -, -⟩ ⟨l, pos, low, same, some_⟩
      rw [run] at outcome
      cases outcome
      have lt : l < buddyLevels := by omega
      exact some_ (invalid.mp rfl l lt (le_shiftLeft_iff.mpr same.le))
    · intro good
      refine ⟨_, _, run, iff_of_true rfl fun l lt fits => ?_, fun _ => ⟨rfl, rfl, rfl⟩, fun valid => absurd rfl valid⟩
      by_cases reached : minBuddyLevelForSize size ≤ l
      · exact (empty lt).mpr (nothing l reached lt)
      · exact skips good lt fits reached
  · have lt : level < 6 := by have := takes.maximal.1; omega
    have count : sizeToPageCount size = (size + 4095) / 4096 := sizeToPageCount_eq (by omega)
    have countLe := g.pageCount_le
    have managed := ready.holds.managed.page_lt takes.maximal
    have valid : page * 4096 ≠ physAddrInvalid := by unfold physAddrInvalid; omega
    have listed : page ∈ s.pagesOn level := (ready.holds.mem_pagesOn lt).mpr takes.maximal
    have fits : size ≤ pageSize <<< level := le_shiftLeft_iff.mpr (count ▸ takes.fits)
    constructor
    · rintro ⟨result, after', outcome, -, -, taken⟩ ⟨l, pos, low, same, some_⟩
      rw [run] at outcome
      cases outcome
      obtain ⟨level', lt', -, lowest, page', samePage, listed', -⟩ := taken valid
      have maximal' := (ready.holds.mem_pagesOn lt').mp listed'
      obtain rfl : page = page' := by rw [pageSize_eq] at samePage; omega
      obtain ⟨rfl, -⟩ := takes.maximal.eq_of_mem maximal' (start_mem_block ..) (start_mem_block ..)
      have above := starts_above bound pos low same
      exact some_ (lowest l (by omega) (le_shiftLeft_iff.mpr same.le))
    · intro good
      have present : ¬∀ l < buddyLevels, size ≤ pageSize <<< l → s.pagesOn l = [] := fun none =>
        List.ne_nil_of_mem listed (none level lt fits)
      refine ⟨_, _, run, iff_of_false valid present, fun invalid => absurd invalid valid, fun _ =>
        ⟨level, lt, fits, fun l lower fits' => ?_, page, rfl, listed, fun remains => ?_⟩⟩
      · by_cases reached : minBuddyLevelForSize size ≤ l
        · exact (empty (by omega)).mpr (below l reached lower)
        · exact skips good (by omega) fits' reached
      · have maximal' := (takes.holds.mem_pagesOn lt).mp remains
        exact maximal'.start_mem.2 ⟨le_rfl, by omega⟩

end Pfa

open Pfa Dyadic

variable {b : BootParams} {s₀ : Pfa} {w : World}

/-- Allocation is complete and takes the best fit in every state that clients reach, unless the
request fills blocks of some level exactly, below the top one, and there is such a block: the
search starts at the level above. -/
theorem allocation_is_best_fit_iff (reach : b.ClientReaches s₀ w) {size : Nat} (positive : 1 ≤ size)
    (bound : size ≤ pageSize <<< (buddyLevels - 1)) (metadata : BitVec 8) :
    w.pfa.BestFit size metadata ↔ ¬∃ level, 0 < level ∧ level < buddyLevels - 1 ∧
      (size + (pageSize - 1)) / pageSize = 2 ^ level ∧ w.pfa.pagesOn level ≠ [] :=
  reach.balanced.ready.bestFit_iff bound positive metadata

theorem allocation_is_best_fit_iff_sample :
    ∃ s, sampleBoot.Boots s ∧ s.BestFit 0x3000 0 := by
  obtain ⟨s, boots⟩ := sampleBoot_boots
  refine ⟨s, boots, (allocation_is_best_fit_iff (w := ⟨s, ∅⟩) ⟨boots, .refl⟩ (by decide) (by decide) 0).mpr ?_⟩
  rintro ⟨level, positive, -, same, -⟩
  have count : (0x3000 + (pageSize - 1)) / pageSize = 3 := rfl
  rw [count] at same
  obtain ⟨k, rfl⟩ := Nat.exists_eq_succ_of_ne_zero positive.ne'
  rw [Nat.pow_succ] at same
  omega

/-- With eight aligned pages free and no larger block, a request for eight pages fails. -/
theorem eight_pages_not_found :
    ¬∀ s, sampleBoot.Boots s → s.BestFit 0x8000 0 := by
  intro bestFit
  obtain ⟨s, boots⟩ := sampleBoot_boots
  have ready := boots.ready
  refine (ready.bestFit_iff (by decide) (by decide) 0).mp (bestFit s boots) ⟨3, by decide, by decide, by decide, ?_⟩
  have range : sampleBoot.initialFree = Set.Ico 3 16 := rfl
  rw [range] at ready
  have maximal : Maximal 5 (Set.Ico 3 16) 3 8 := by
    refine ⟨by decide, by decide, Set.Ico_subset_Ico (by decide) (by decide), fun _ larger => ?_⟩
    have first : (0 : Nat) ∈ block 4 (root 4 8) := mem_block.mpr (by decide)
    exact absurd (larger first).1 (by decide)
  exact List.ne_nil_of_mem ((ready.holds.mem_pagesOn (by decide)).mpr maximal)

end Swink
