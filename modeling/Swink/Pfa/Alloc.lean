import Swink.Pfa.Insert

namespace Swink.Pfa
open Blocks Dyadic

variable {g : Geometry} {s : Pfa} {blocks : Blocks} {free : Set Nat}

/-- The maximal blocks of a set of managed pages are managed blocks. -/
theorem managed_maximal (inside : ∀ q ∈ free, q < g.pageCount) (usable : free ⊆ g.usable) :
    Blocks.Managed g (Maximal 5 free) := by
  intro l p maximal
  have positive := Nat.two_pow_pos l
  have last := inside _ (maximal.2.2.1 (mem_block.mpr ⟨show p ≤ p + 2 ^ l - 1 by omega, by omega⟩))
  exact ⟨by have := maximal.1; omega, maximal.2.1, by omega, maximal.2.2.1.trans usable⟩

theorem Holds.free_lt (holds : s.Holds g (Maximal 5 free)) {q : Nat} (member : q ∈ free) : q < g.pageCount := by
  obtain ⟨l, p, maximal, inBlock⟩ := (Maximal.mem_iff 5).mp member
  have := (holds.managed l p maximal).2.2.1
  have := (mem_block.mp inBlock).2
  omega

theorem Holds.free_usable (holds : s.Holds g (Maximal 5 free)) : free ⊆ g.usable := by
  intro q member
  obtain ⟨l, p, maximal, inBlock⟩ := (Maximal.mem_iff 5).mp member
  exact (holds.managed l p maximal).2.2.2 inBlock

theorem Holds.withLock (holds : s.Holds g blocks) (lock : Nat) : ({ s with lock := lock } : Pfa).Holds g blocks :=
  ⟨⟨holds.manages.physmap, holds.manages.base, holds.manages.count, holds.manages.linkable⟩, holds.managed,
    holds.lists, holds.bits⟩

theorem Holds.withMetadata (holds : s.Holds g blocks) (metadata : Nat → BitVec 8) :
    ({ s with metadata := metadata } : Pfa).Holds g blocks :=
  ⟨⟨holds.manages.physmap, holds.manages.base, holds.manages.count, holds.manages.linkable⟩, holds.managed,
    holds.lists, holds.bits⟩

/-- The metadata store after a range of pages was given one metadata value. -/
def fillRange (metadata : Nat → BitVec 8) (base count : Nat) (byte : BitVec 8) : Nat → BitVec 8 :=
  fun i => if base ≤ i ∧ i < base + count then byte else metadata i

theorem applyMetadataRangeLocked_spec (manages : s.Manages g) {base count : Nat} (inside : base + count ≤ g.pageCount)
    (byte : BitVec 8) :
    applyMetadataRangeLocked base count byte s = .ok { s with metadata := fillRange s.metadata base count byte } := by
  have small := g.pageCount_le
  have debased : sub32 base 0 = base := sub32_of_le (Nat.zero_le _) (by omega)
  have zero : PfaStore.pageBase s = 0 := manages.base
  rw [applyMetadataRangeLocked, zero, debased, store_pageCount,
    assert_of (by rw [u64_of_lt (by omega), manages.count]; exact inside), ok_bind, if_neg (Nat.not_lt_zero _),
    Nat.sub_zero, store_fillMetadata, fillMetadata, if_pos (manages.count ▸ inside)]
  rfl

/-- The search returns the front block of the lowest nonempty level it looks at. -/
theorem allocScan_spec (holds : s.Holds g blocks) (rounds level : Nat) (within : level + rounds = 6) :
    (allocScan rounds level s = .ok (0, physAddrInvalid, 6) ∧ ∀ l, level ≤ l → l < 6 → ∀ p, ¬blocks l p) ∨
      ∃ found p, level ≤ found ∧ found < 6 ∧ blocks found p ∧ (∀ l, level ≤ l → l < found → ∀ p, ¬blocks l p) ∧
        allocScan rounds level s = .ok (g.node p, p * 4096, found) := by
  induction rounds generalizing level with
  | zero =>
    obtain rfl : level = 6 := by omega
    exact Or.inl ⟨rfl, fun l _ _ => by omega⟩
  | succ rounds ih =>
    have bound : level < 6 := by omega
    have look : s.listEmpty level = .ok (s.buddyLists level).isEmpty := if_pos bound
    by_cases empty : s.buddyLists level = []
    · have none_here (p : Nat) : ¬blocks level p := by
        intro member
        have := (holds.lists.mem_iff level bound (g.node p)).mpr ⟨p, member, rfl⟩
        rw [empty] at this
        simp at this
      have skip : allocScan (rounds + 1) level s = allocScan rounds (level + 1) s := by
        simp [allocScan, look, empty]
      rw [skip]
      rcases ih (level + 1) (by omega) with ⟨run, nothing⟩ | ⟨found, p, le, lt, member, below, run⟩
      · refine Or.inl ⟨run, fun l from_ lt p => ?_⟩
        rcases Nat.eq_or_lt_of_le from_ with rfl | later
        · exact none_here p
        · exact nothing l later lt p
      · refine Or.inr ⟨found, p, by omega, lt, member, fun l from_ before q => ?_, run⟩
        rcases Nat.eq_or_lt_of_le from_ with rfl | later
        · exact none_here q
        · exact below l later before q
    · obtain ⟨p, front, member⟩ := listFront_spec holds.lists bound empty
      refine Or.inr ⟨level, p, le_rfl, bound, member, fun l from_ before => by omega, ?_⟩
      simp [allocScan, look, empty, front, holds.manages.physmap, g.kvaToPa_node]

/-- What the allocation of `count` pages out of the maximal block `(level, page)` does to the state. -/
structure Takes (g : Geometry) (free : Set Nat) (s : Pfa) (count : Nat) (metadata : BitVec 8)
    (level page : Nat) (after : Pfa) : Prop where
  maximal : Maximal 5 free level page
  fits : count ≤ 2 ^ level
  holds : after.Holds g (Maximal 5 (free \ Set.Ico page (page + count)))
  metadata_eq : after.metadata = fillRange s.metadata page count metadata
  lock_eq : after.lock = s.lock

theorem pmapPfaAllocContigSmallLocked_spec (holds : s.Holds g (Maximal 5 free)) {size : Nat} (bound : size ≤ 131072)
    (metadata : BitVec 8) :
    (pmapPfaAllocContigSmallLocked size metadata s = .ok (physAddrInvalid, s) ∧
      ∀ l, minBuddyLevelForSize size ≤ l → l < 6 → ∀ p, ¬Maximal 5 free l p) ∨
      ∃ level page after, pmapPfaAllocContigSmallLocked size metadata s = .ok (page * 4096, after) ∧
        minBuddyLevelForSize size ≤ level ∧
        (∀ l, minBuddyLevelForSize size ≤ l → l < level → ∀ p, ¬Maximal 5 free l p) ∧
        Takes g free s (sizeToPageCount size) metadata level page after := by
  obtain ⟨startBound, startFits⟩ := minBuddyLevelForSize_spec bound
  have countLe := g.pageCount_le
  rcases allocScan_spec holds (buddyLevels - minBuddyLevelForSize size) (minBuddyLevelForSize size)
      (by unfold buddyLevels; omega) with ⟨run, nothing⟩ | ⟨level, page, from_, lt, maximal, below, run⟩
  · left
    refine ⟨?_, nothing⟩
    rw [pmapPfaAllocContigSmallLocked, run]
    rfl
  · right
    have levelFits : 2 ^ minBuddyLevelForSize size ≤ 2 ^ level := Nat.pow_le_pow_right (by omega) from_
    have levelCap : 2 ^ level ≤ 2 ^ 5 := Nat.pow_le_pow_right (by omega) (by omega)
    obtain ⟨-, aligned, inside, usable⟩ := holds.managed level page maximal
    set count := sizeToPageCount size
    have managed : page < g.pageCount := by have := Nat.two_pow_pos level; omega
    have unique (l : Nat) (other : Maximal 5 free l page) : l = level :=
      (other.eq_of_mem maximal (start_mem_block ..) (start_mem_block ..)).1
    obtain ⟨lists, removed, onLists⟩ := listRemove_spec holds.lists lt maximal unique
    obtain ⟨bitmaps, marked, inBitmaps⟩ := setBit_allocated_spec (s := s.withBlocks lists s.buddyBitmaps)
      (holds.manages.withBlocks ..) holds.bits lt aligned managed
    have taken : (s.withBlocks lists bitmaps).Holds g (Blocks.remove (Maximal 5 free) level page) :=
      ⟨holds.manages.withBlocks .., holds.managed.remove level page, onLists, inBitmaps⟩
    obtain ⟨fe, rest, inserted, restShape, restHolds⟩ := buddyInsertRangeFreedLocked_spec
      (page + count) (2 ^ level - count) (by omega) (by omega)
      (Set.Subset.trans (Set.Ico_subset_Ico (by omega) (by omega)) usable) taken (by
        rintro l p ⟨other, different⟩ late
        by_contra early
        exact different (other.eq_of_mem maximal (start_mem_block ..) (mem_block.mpr ⟨by omega, by omega⟩)))
    have limit : page + count + (2 ^ level - count) = page + 2 ^ level := by omega
    rw [limit] at restHolds
    have part : Set.Ico (page + count) (page + 2 ^ level) ⊆ block level page :=
      Set.Ico_subset_Ico (Nat.le_add_right ..) le_rfl
    have coalesced := restHolds.congr fun l p => (maximal.replace_iff part).symm
    rw [maximal.keep_end (Nat.le_add_right ..) (by omega)] at coalesced
    refine ⟨level, page, { rest with metadata := fillRange rest.metadata page count metadata }, ?_, from_, below,
      maximal, by omega, coalesced.withMetadata _, by rw [restShape]; rfl, by rw [restShape]; rfl⟩
    rw [pmapPfaAllocContigSmallLocked, run]
    simp only [ok_bind, if_neg (g.node_ne_zero page), store_listRemove, removed,
      paToPageId_mul (show page < 2 ^ 32 by omega),
      marked, withBlocks_buddyLists, withBlocks_withBlocks, buddyLevelPageCount_eq]
    rw [u32_of_lt (show page + count < 2 ^ 32 by omega), sub32_of_le (by omega) (by omega), inserted]
    simp only [ok_bind]
    rw [applyMetadataRangeLocked_spec restHolds.manages (by omega)]
    rfl

/-- An allocator between two calls: it is unlocked and its blocks are the maximal blocks of
the free pages. -/
structure Ready (g : Geometry) (free : Set Nat) (s : Pfa) : Prop where
  holds : s.Holds g (Maximal 5 free)
  unlocked : s.lock = 1

theorem Ready.acquire (ready : s.Ready g free) :
    synchsLockAcquire s = .ok { s with lock := 0 } := by
  simp [synchsLockAcquire, ready.unlocked, PfaStore.setLockValue]

theorem release_acquired (ready : s.Ready g free) : synchsLockRelease ({ s with lock := 0 } : Pfa) = s := by
  have unlocked := ready.unlocked
  cases s
  subst unlocked
  rfl

theorem pmapPfaAllocContig_large {size : Nat} (large : 131072 < size) (metadata : BitVec 8) (s : Pfa) :
    pmapPfaAllocContig size metadata s = .ok (physAddrInvalid, s) :=
  if_pos large

/-- A request that is not too large either finds no block and changes nothing, or takes its
pages from the start of a maximal block. -/
theorem pmapPfaAllocContig_spec (ready : s.Ready g free) {size : Nat} (bound : size ≤ 131072) (metadata : BitVec 8) :
    (pmapPfaAllocContig size metadata s = .ok (physAddrInvalid, s) ∧
      ∀ l, minBuddyLevelForSize size ≤ l → l < 6 → ∀ p, ¬Maximal 5 free l p) ∨
      ∃ level page after, pmapPfaAllocContig size metadata s = .ok (page * 4096, after) ∧
        minBuddyLevelForSize size ≤ level ∧
        (∀ l, minBuddyLevelForSize size ≤ l → l < level → ∀ p, ¬Maximal 5 free l p) ∧
        Takes g free s (sizeToPageCount size) metadata level page after := by
  have small : ¬size > pageSize <<< (buddyLevels - 1) := Nat.not_lt.mpr bound
  rcases pmapPfaAllocContigSmallLocked_spec (ready.holds.withLock 0) bound metadata with
    ⟨run, nothing⟩ | ⟨level, page, after, run, from_, below, takes⟩
  · refine Or.inl ⟨?_, nothing⟩
    rw [pmapPfaAllocContig, if_neg small, ready.acquire]
    simp only [ok_bind, run]
    rw [release_acquired ready]
  · refine Or.inr ⟨level, page, { after with lock := 1 }, ?_, from_, below, takes.maximal, takes.fits,
      takes.holds.withLock 1, takes.metadata_eq, ready.unlocked.symm⟩
    have locked : after.lock = 0 := takes.lock_eq
    rw [pmapPfaAllocContig, if_neg small, ready.acquire]
    simp only [ok_bind, run, synchsLockRelease, store_lockValue, locked]
    rfl

end Swink.Pfa
