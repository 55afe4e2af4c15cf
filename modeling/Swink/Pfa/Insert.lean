import Swink.Lib.Tilings
import Swink.Pfa.Represents

namespace Swink

open PfaStore in
/-- The pushes of `buddy_insert_range_freed_locked` alone, for blocks given by level and page:
neither an assertion nor a loop bound can stop them. -/
def pushBlocks {σ : Type} [PfaStore σ] : List (Nat × Nat) → Option Nat → σ → Except Fault (Option Nat × σ)
  | [], fe, s => .ok (fe, s)
  | (level, page) :: rest, _, s => do
    let fe := pmapPaToKva (physmapVmBase s) (page * pageSize)
    let s ← listPushFront level fe s
    let s ← buddyBitmapSetBitLocked page level buddyBitFree s
    pushBlocks rest (some fe) s

namespace Pfa
open Blocks Dyadic

/-- Lists and bitmaps both encode `blocks`. -/
structure Holds (g : Geometry) (blocks : Blocks) (s : Pfa) : Prop where
  manages : s.Manages g
  managed : blocks.Managed g
  lists : blocks.OnLists g s.buddyLists
  bits : blocks.InBitmaps g s.buddyBitmaps

variable {g : Geometry} {s : Pfa} {blocks other : Blocks} {level page : Nat}

theorem Holds.congr (holds : s.Holds g blocks) (same : ∀ l p, blocks l p ↔ other l p) : s.Holds g other :=
  (show blocks = other from funext₂ fun l p => propext (same l p)) ▸ holds

/-- Linking a block and setting its bit adds it to both encodings. -/
theorem Holds.link (holds : s.Holds g blocks) (bound : level < 6) (aligned : 2 ^ level ∣ page)
    (inside : page + 2 ^ level ≤ g.pageCount) (usable : block level page ⊆ g.usable)
    (fresh : ∀ l < 6, ¬blocks l page) :
    ∃ linked after, s.listPushFront level (g.node page) = .ok linked ∧
      buddyBitmapSetBitLocked page level buddyBitFree linked = .ok after ∧
      after = s.withBlocks after.buddyLists after.buddyBitmaps ∧ after.Holds g (blocks.add level page) := by
  have managed : page < g.pageCount := by have := Nat.two_pow_pos level; omega
  obtain ⟨lists, pushed, onLists⟩ := listPushFront_spec holds.manages holds.lists bound
    (usable (start_mem_block ..)) fresh
  obtain ⟨bitmaps, marked, inBitmaps⟩ := setBit_free_spec (s := s.withBlocks lists s.buddyBitmaps)
    (holds.manages.withBlocks ..) holds.bits bound aligned managed
  exact ⟨_, _, pushed, marked, rfl, holds.manages.withBlocks .., holds.managed.add bound aligned inside usable,
    onLists, inBitmaps⟩

/-- The level the source chooses is the largest one that alignment and length allow. -/
theorem insertLevel_spec {limit : Nat} (before : page < limit) (small : limit - page < 2 ^ 20)
    (bound : limit ≤ 2 ^ 20) :
    ∃ level, min (maxBuddyLevelForPageAlignment page)
        (minBuddyLevelForSizeNoOverflow (shl32 (sub32 limit page) pageShift)) = level ∧ level < buddyLevels ∧
      sub32 limit page = limit - page ∧ 2 ^ level ∣ page ∧ page + 2 ^ level ≤ limit ∧
      LargestFit (buddyLevels - 1) limit (level, page) := by
  have difference : sub32 limit page = limit - page := sub32_of_le before.le (by omega)
  have bytes : shl32 (limit - page) pageShift = (limit - page) * 4096 := (shl32_pageShift_iff _).mpr small
  have alignLt := maxBuddyLevelForPageAlignment_lt page
  have align {k : Nat} (lt : k < 6) := maxBuddyLevelForPageAlignment_spec (show page < 2 ^ 32 by omega) lt
  have room {k : Nat} (lt : k < 6) := minBuddyLevelForSizeNoOverflow_spec (show 0 < limit - page by omega) lt
  rw [difference, bytes]
  have levelLt : min (maxBuddyLevelForPageAlignment page)
      (minBuddyLevelForSizeNoOverflow ((limit - page) * 4096)) < 6 := by omega
  refine ⟨_, rfl, levelLt, rfl, (align levelLt).mpr (min_le_left ..), ?_, fun k le divides fits => ?_⟩
  · have := (room levelLt).mpr (min_le_right ..)
    omega
  · have lt : k < 6 := Nat.lt_succ_of_le le
    exact le_min ((align lt).mp divides) ((room lt).mp (Nat.le_sub_of_add_le' fits))

/-- From every position on, the loop pushes a tiling of what remains by largest fits, whatever
it writes to. -/
theorem buddyInsertRangeLoop_tiles (limit : Nat) (bound : limit ≤ 2 ^ 20) (rounds freeI : Nat)
    (within : freeI ≤ limit) (small : limit - freeI < 2 ^ 20) (enough : limit - freeI ≤ rounds) :
    ∃ tiles, Tiles (buddyLevels - 1) tiles freeI limit ∧
      (∀ tile ∈ tiles, LargestFit (buddyLevels - 1) limit tile) ∧
      ∀ {σ : Type} [PfaStore σ] (fe : Option Nat) (s : σ),
        buddyInsertRangeLoop limit rounds freeI fe s = pushBlocks tiles fe s := by
  induction rounds generalizing freeI with
  | zero =>
    obtain rfl : freeI = limit := by omega
    refine ⟨[], rfl, by simp, fun fe s => ?_⟩
    rw [buddyInsertRangeLoop, if_neg (by omega), pushBlocks]
  | succ rounds ih =>
    by_cases more : freeI < limit
    · obtain ⟨level, chosen, levelLt, difference, aligned, fits, largest⟩ := insertLevel_spec more small bound
      have positive := Nat.two_pow_pos level
      have advance : u32 (freeI + buddyLevelPageCount level) = freeI + 2 ^ level := by
        rw [buddyLevelPageCount_eq, u32_of_lt (by omega)]
      have address : shl32 freeI pageShift = freeI * pageSize := (shl32_pageShift_iff freeI).mpr (by omega)
      obtain ⟨tiles, tiling, greedy, run⟩ := ih (freeI + 2 ^ level) fits (by omega) (by omega)
      refine ⟨(level, freeI) :: tiles, ⟨Nat.le_pred_of_lt levelLt, rfl, aligned, fits, tiling⟩, ?_, fun fe s => ?_⟩
      · intro tile member
        rcases List.mem_cons.mp member with rfl | later
        · exact largest
        · exact greedy tile later
      · rw [buddyInsertRangeLoop, if_pos more]
        simp only [chosen]
        rw [assert_of levelLt, ok_bind, difference, assert_of (by rw [Nat.shiftLeft_eq]; omega), ok_bind, address,
          pushBlocks, advance]
        simp only [run]
    · obtain rfl : freeI = limit := by omega
      refine ⟨[], rfl, by simp, fun fe s => ?_⟩
      rw [buddyInsertRangeLoop, if_neg more, pushBlocks]

theorem buddyInsertRangeFreedLocked_tiles (base count : Nat) (small : count < 2 ^ 20) (below : base + count ≤ 2 ^ 20) :
    ∃ tiles, Tiles (buddyLevels - 1) tiles base (base + count) ∧
      (∀ tile ∈ tiles, LargestFit (buddyLevels - 1) (base + count) tile) ∧
      ∀ {σ : Type} [PfaStore σ] (s : σ), buddyInsertRangeFreedLocked base count s = pushBlocks tiles none s := by
  have limit : u32 (base + count) = base + count := u32_of_lt (by omega)
  obtain ⟨tiles, tiling, greedy, run⟩ := buddyInsertRangeLoop_tiles (base + count) below
    (base + count - base) base (Nat.le_add_right ..) (by omega) le_rfl
  refine ⟨tiles, tiling, greedy, fun s => ?_⟩
  rw [buddyInsertRangeFreedLocked, limit, run]

/-- Pushing the tiles of a range of pages that are not free adds them to both encodings. -/
theorem Holds.pushBlocks {tiles : List (Nat × Nat)} {lower limit : Nat}
    (tiling : Tiles (buddyLevels - 1) tiles lower limit) (limitLe : limit ≤ g.pageCount)
    (usable : Set.Ico lower limit ⊆ g.usable) (holds : s.Holds g blocks)
    (fresh : ∀ l p, blocks l p → lower ≤ p → limit ≤ p) (fe : Option Nat) :
    ∃ fe' after, Swink.pushBlocks tiles fe s = .ok (fe', after) ∧
      after = s.withBlocks after.buddyLists after.buddyBitmaps ∧
      after.Holds g fun l p => blocks l p ∨ (l, p) ∈ tiles := by
  have countLe := g.pageCount_le
  induction tiles generalizing s blocks lower fe with
  | nil => exact ⟨fe, s, rfl, rfl, holds.congr fun l p => by simp⟩
  | cons tile rest ih =>
    obtain ⟨level, page⟩ := tile
    obtain ⟨bound, rfl, aligned, fits, later⟩ := tiling
    have positive := Nat.two_pow_pos level
    have own : block level page ⊆ Set.Ico page limit := Set.Ico_subset_Ico le_rfl fits
    have behind : Set.Ico (page + 2 ^ level) limit ⊆ Set.Ico page limit :=
      Set.Ico_subset_Ico (Nat.le_add_right ..) le_rfl
    obtain ⟨linked, next, pushed, marked, shape, nextHolds⟩ :=
      holds.link (Nat.lt_succ_of_le bound) aligned (fits.trans limitLe) (own.trans usable) fun l _ member => by
        have := fresh l page member le_rfl
        omega
    obtain ⟨fe', after, run, afterShape, afterHolds⟩ := ih later (behind.trans usable) nextHolds
      (by
        rintro l p (⟨rfl, rfl⟩ | member) late
        · omega
        · exact fresh l p member (by omega))
      (some (g.node page))
    have node : pmapPaToKva g.physmapVmBase (page * pageSize) = g.node page := by
      rw [← (shl32_pageShift_iff page).mpr (by omega), g.node_eq (by omega)]
    refine ⟨fe', after, ?_, ?_, afterHolds.congr fun l p => ?_⟩
    · rw [Swink.pushBlocks]
      simp only [store_physmapVmBase, holds.manages.physmap, store_listPushFront, node]
      rw [pushed, ok_bind, marked, ok_bind, run]
    · rw [afterShape, shape]
      rfl
    · rw [List.mem_cons, ← or_assoc, Prod.mk.injEq]
      exact or_congr_left or_comm

/-- Inserting a range adds exactly the maximal blocks of the range. -/
theorem buddyInsertRangeFreedLocked_spec (base count : Nat) (inside : base + count ≤ g.pageCount)
    (small : count < 2 ^ 20) (usable : Set.Ico base (base + count) ⊆ g.usable) (holds : s.Holds g blocks)
    (fresh : ∀ l p, blocks l p → base ≤ p → base + count ≤ p) :
    ∃ fe after, buddyInsertRangeFreedLocked base count s = .ok (fe, after) ∧
      after = s.withBlocks after.buddyLists after.buddyBitmaps ∧
      after.Holds g fun l p => blocks l p ∨ Maximal 5 (Set.Ico base (base + count)) l p := by
  obtain ⟨tiles, tiling, greedy, pushes⟩ := buddyInsertRangeFreedLocked_tiles base count small
    (inside.trans g.pageCount_le)
  obtain ⟨fe, after, run, shape, afterHolds⟩ := holds.pushBlocks tiling inside usable fresh none
  exact ⟨fe, after, (pushes s).trans run, shape, afterHolds.congr fun l p => or_congr_right (tiling.mem_iff greedy)⟩

end Pfa

end Swink
