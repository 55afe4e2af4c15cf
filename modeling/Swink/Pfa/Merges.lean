import Swink.Pfa.Runs
import Swink.Pfa.Simulation

namespace Swink

open PfaStore

/-- The free buddies that the merge loop takes off their lists, each with its level. -/
def mergedBuddies {σ : Type} [PfaStore σ] : Nat → Nat → Nat → σ → Except Fault (List (Nat × Nat))
  | 0, _, _, _ => .ok []
  | rounds + 1, level, page, s => do
    let buddy := getBuddyPageIdForPage page level
    let bit ← buddyBitmapGetBitLocked buddy level s
    if bit = buddyBitAllocated then .ok [] else
    let s ← buddyBitmapSetBitLocked buddy level buddyBitAllocated s
    let buddyFe ← getPfaFreeEntryForPage buddy s
    let s ← listRemove buddyFe s
    let rest ← mergedBuddies rounds (level + 1) (getRootBuddyPageIdForPage page level) s
    .ok ((level, buddy) :: rest)

namespace Simulates
open Refinement
variable {σ τ : Type} [PfaStore σ] [PfaStore τ] {R : σ → τ → Prop} (sim : Simulates R)
include sim

theorem mergedBuddies (rounds level page : Nat) {s : σ} {t : τ} (related : R s t) :
    Refines Eq (mergedBuddies rounds level page s) (Swink.mergedBuddies rounds level page t) := by
  induction rounds generalizing level page s t with
  | zero => exact .ok rfl
  | succ rounds ih =>
    simp only [Swink.mergedBuddies]
    refine (sim.buddyBitmapGetBitLocked related ..).bind fun bit _ same => ?_
    subst same
    refine .ite (fun _ => .ok rfl) fun _ => ?_
    refine (sim.buddyBitmapSetBitLocked related ..).bind fun s t related => ?_
    rw [sim.getPfaFreeEntryForPage related]
    refine (Refines.refl _).bind fun fe _ same => ?_
    subst same
    refine (sim.listRemove related _).bind fun s t related => ?_
    refine (ih _ _ related).bind fun rest _ same => ?_
    subst same
    exact .ok rfl

end Simulates

namespace Pfa
open Blocks Dyadic

variable {g : Geometry} {s : Pfa} {free : Set Nat} {point : Nat}

/-- Merging only takes maximal blocks of the free pages off their lists. -/
theorem mergedBuddies_spec (managed : point < g.pageCount) (rounds level : Nat) (within : level + rounds = 5)
    (holds : s.Holds g (unmerged free point level)) :
    ∃ merged, mergedBuddies rounds level (root level point) s = .ok merged ∧
      ∀ buddy ∈ merged, Maximal 5 free buddy.1 buddy.2 := by
  have countLe := g.pageCount_le
  induction rounds generalizing s level with
  | zero => exact ⟨[], rfl, by simp⟩
  | succ rounds ih =>
    have bound : level < 6 := by omega
    have buddy := getBuddyPageIdForPage_root (show point < 2 ^ 31 by omega) bound
    obtain ⟨bit, read, isAllocated⟩ := buddyBit_spec managed bound holds
    by_cases listed : Maximal 5 free level (sibling level point)
    · obtain ⟨lists, bitmaps, marked, entry, removed, next⟩ := mergeBuddy_spec bound holds listed
      obtain ⟨rest, run, inside⟩ := ih (level + 1) (by omega) next
      have unallocated : ¬bit = buddyBitAllocated := fun eq => isAllocated.mp eq listed
      refine ⟨(level, sibling level point) :: rest, ?_, List.forall_mem_cons.mpr ⟨listed, inside⟩⟩
      rw [mergedBuddies]
      simp only [buddy, read, ok_bind, if_neg unallocated, marked, entry, store_listRemove, removed,
        getRootBuddyPageIdForPage_root (show point < 2 ^ 31 by omega) bound, run]
    · refine ⟨[], ?_, by simp⟩
      rw [mergedBuddies]
      simp only [buddy, read, ok_bind, if_pos (isAllocated.mpr listed)]

/-- While a range of pages is freed, every block that is taken off its list lies inside the
managed pages. -/
theorem mergedBuddies_inside (holds : s.Holds g (Maximal 5 free)) {base count i : Nat}
    (inside : base + count ≤ g.pageCount) (usable : Set.Ico base (base + count) ⊆ g.usable)
    (fresh : ∀ q ∈ free, q < base ∨ base + count ≤ q) (before : i < count) :
    ∃ middle merged, buddyFreePagesLoop base i 0 s = .ok middle ∧
      mergedBuddies (buddyLevels - 1) 0 (u32 (base + i)) middle = .ok merged ∧
      ∀ buddy ∈ merged, buddy.2 + 2 ^ buddy.1 ≤ g.pageCount := by
  have countLe := g.pageCount_le
  obtain ⟨middle, run, -, middleHolds⟩ := buddyFreePagesLoop_spec base i 0 holds (by omega)
    ((Set.Ico_subset_Ico (by omega) (by omega)).trans usable) fun q member => by
      have := fresh q member
      omega
  have managed : base + i < g.pageCount := by omega
  have start : middle.Holds g (unmerged (free ∪ Set.Ico (base + 0) (base + 0 + i)) (base + i) 0) :=
    middleHolds.congr fun l p => (and_iff_left fun j lt => absurd lt (Nat.not_lt_zero j)).symm
  obtain ⟨merged, found, maximal⟩ := mergedBuddies_spec managed 5 0 rfl start
  rw [root_zero] at found
  refine ⟨middle, merged, run, ?_, fun buddy member => (middleHolds.managed _ _ (maximal buddy member)).2.2.1⟩
  rw [u32_of_lt (by omega)]
  exact found

end Pfa

end Swink
