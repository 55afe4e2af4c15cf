import Swink.Image.Watch

namespace Swink.WatchedPfa
open PfaImage Mem Refinement Pfa Blocks Dyadic

variable {mdsOffset : Nat → Nat} {b : BootParams} {before : Mem} {s : Pfa} {image : PfaImage mdsOffset}

/-- Memory that is put under watch. -/
def watch (b : BootParams) (image : PfaImage mdsOffset) : WatchedPfa mdsOffset := ⟨image, b.pageCount⟩

/-- `pmap_pfa_init` as it runs under watch on memory of any content. -/
def boot (b : BootParams) (raw : PfaImage mdsOffset) : Except Fault (WatchedPfa mdsOffset) :=
  pmapPfaInit 0 b.ramSize b.kernelTextBase b.kernelTextSize b.kernelDataBase b.kernelDataSize
    b.bootstrapPaReserved ⟨{ raw with physmapVmBase := b.physmapVmBase }, 0⟩

theorem simulates (separate : b.Separate mdsOffset) (before : Mem) :
    Simulates fun (s : Pfa) (t : WatchedPfa mdsOffset) => Depicts (b.geometry b.releasable) b.pfaAddr before s t :=
  depicts_simulates (site_of_releasable separate Set.Subset.rfl) before

/-- A settled memory that is put under watch. -/
theorem settled_watch (settled : Settled b before s image) :
    Coalesced (Depicts (b.geometry b.releasable) b.pfaAddr before) (b.geometry b.releasable) s (watch b image) :=
  ⟨⟨rfl, settled.related⟩, settled.ready⟩

theorem Depicts.eq_watch {t : WatchedPfa mdsOffset} {usable : Set Nat} {place : Nat}
    (depicts : Depicts (b.geometry usable) place before s t) : t = watch b t.image := by
  cases t
  exact congrArg (WatchedPfa.mk _) depicts.1

/-- Initialisation that returns also returns under watch. -/
theorem boot_watched (separate : b.Separate mdsOffset) {raw start : PfaImage mdsOffset}
    (booted : PfaImage.boot b raw = .ok start) : boot b raw = .ok (watch b start) := by
  have sim := simulates separate raw.mem
  obtain ⟨first, physmap, linkable, laidOut⟩ := layout_depicts separate Set.Subset.rfl raw
  have blocks := initBlocks_refines (PfaImage.simulates separate raw.mem) physmap rfl laidOut
  obtain ⟨s, run, -⟩ :=
    Coalesced.boot (PfaImage.simulates separate raw.mem) linkable b.initialFree_subset blocks booted
  have created : Refines (Depicts (b.geometry b.releasable) b.pfaAddr raw.mem) (.ok (first.create 0 b.pageCount))
      (PfaStore.create b.pfaAddr 0 b.pageCount
        (⟨{ raw with physmapVmBase := b.physmapVmBase }, 0⟩ : WatchedPfa mdsOffset)) :=
    laidOut.wrap (watch b) fun _ _ depicts => ⟨rfl, depicts⟩
  have watched : Refines (Depicts (b.geometry b.releasable) b.pfaAddr raw.mem) (b.boot first) (boot b raw) :=
    sim.pmapPfaInit _ _ _ _ (initBlocks_refines sim physmap rfl created)
  obtain ⟨t, outcome, depicts⟩ := watched.of_ok s run
  have plain : Refines (fun (t : WatchedPfa mdsOffset) image => t.image = image) (boot b raw) (PfaImage.boot b raw) :=
    passive.pmapPfaInit _ _ _ _ (passive.initBlocks rfl (.unwrap _ (.refl _)))
  rw [outcome, depicts.eq_watch, plain.predict outcome booted]

/-- Nothing is accessed past the edges of the managed memory, and no assertion fails, at initialisation
and in every state reached, whatever is requested and whatever managed pages are released that are
neither free nor the structures' own: the calls run through under watch as they do without it; merging
only unlinks blocks that lie inside the managed pages; and the buddy of every managed block has a bit in
the words of its level. -/
theorem safe_at_the_edges (separate : b.Separate mdsOffset) {raw start : PfaImage mdsOffset}
    (booted : PfaImage.boot b raw = .ok start) (run : Relation.ReflTransGen (ManagedStep b b.ownPages) start image) :
    boot b raw = .ok (watch b start) ∧
    (∀ (size : Nat) (metadata : BitVec 8), ∃ result after, pmapPfaAllocContig size metadata image = .ok (result, after) ∧
      pmapPfaAllocContig size metadata (watch b image) = .ok (result, watch b after)) ∧
    (∀ addr size, addr < 2 ^ 64 → size < 2 ^ 64 → (∀ q ∈ pagesOf addr size, q < b.pageCount) →
      Disjoint (pagesOf addr size) b.ownPages → Disjoint (pagesOf addr size) image.freePages →
        (∃ after, pmapPfaFreeContig addr size image = .ok after ∧
          pmapPfaFreeContig addr size (watch b image) = .ok (watch b after)) ∧
        ∀ i < sizeToPageCount size, ∃ locked middle merged, synchsLockAcquire image = .ok locked ∧
          buddyFreePagesLoop (paToPageId addr) i 0 locked = .ok middle ∧
          mergedBuddies (buddyLevels - 1) 0 (u32 (paToPageId addr + i)) middle = .ok merged ∧
          ∀ buddy ∈ merged, buddy.2 + 2 ^ buddy.1 ≤ b.pageCount) ∧
    ∀ level < buddyLevels, ∀ page < b.pageCount, 2 ^ level ∣ page →
      buddyBitmapPageIndex (getBuddyPageIdForPage page level) level image < bitmapWords b.pageCount level := by
  have site := site_of_releasable separate (Set.Subset.refl b.releasable)
  obtain ⟨_, settled, -⟩ := Settled.boot separate booted
  obtain ⟨s, settled⟩ := settled.run separate run
  have sim := simulates separate raw.mem
  have countLe : b.pageCount ≤ 2 ^ 20 := (b.geometry Set.univ).pageCount_le
  refine ⟨boot_watched separate booted, fun size metadata => ?_,
    fun addr size addrLt sizeLt managed spared notFree => ?_, fun level bound page managed aligned => ?_⟩
  · obtain ⟨result, after, _, outcome, next⟩ := Coalesced.alloc sim (settled_watch settled) size metadata
    obtain ⟨⟨_, plain⟩, run, rfl, same⟩ := (passive.pmapPfaAllocContig rfl size metadata).of_ok _ outcome
    simp only at same
    refine ⟨result, plain, run, ?_⟩
    rw [outcome, ← same, ← next.related.eq_watch]
  · rw [settled.related.freePages_eq site settled.ready] at notFree
    have usable : pagesOf addr size ⊆ b.releasable := fun q member =>
      ⟨managed q member, Set.disjoint_left.mp spared member⟩
    refine ⟨?_, fun i within => Coalesced.merges (PfaImage.simulates separate raw.mem) settled addrLt sizeLt managed
      usable notFree within⟩
    obtain ⟨after, _, outcome, next⟩ := Coalesced.free sim (settled_watch settled) addrLt sizeLt managed usable notFree
    obtain ⟨plain, run, same⟩ := (passive.pmapPfaFreeContig rfl addr size).of_ok _ outcome
    refine ⟨plain, run, ?_⟩
    rw [outcome, ← same, ← next.related.eq_watch]
  · have base : PfaStore.pageBase image = 0 :=
      ((PfaImage.simulates separate raw.mem).pageBase settled.related).symm.trans settled.ready.holds.manages.base
    have start := root_eq_self aligned
    have buddy := getBuddyPageIdForPage_root (show page < 2 ^ 31 by omega) bound
    rw [start] at buddy
    have small := sibling_lt (show page < 2 ^ 20 by omega) bound
    rw [buddyBitmapPageIndex, base, buddy, sub32_of_le (Nat.zero_le _) (by omega), Nat.sub_zero,
      Nat.shiftRight_eq_div_pow, Nat.add_comm, Nat.pow_add, ← Nat.div_div_eq_div_mul]
    have words : sibling level page / 2 ^ level < 64 * bitmapWords (b.geometry Set.univ).pageCount level :=
      sibling_lt_words managed
    exact Nat.div_lt_of_lt_mul words

theorem safe_at_the_edges_sample :
    ∃ s after after' : PfaImage packedMdsOffset, s.freeList = [7, 3, 8, 9, 10, 11, 12, 13, 14, 15] ∧
      pmapPfaFreeContig (0 * pageSize) pageSize (watch sampleBoot s) = .ok (watch sampleBoot after) ∧
      ∃ result, pmapPfaAllocContig 0x8000 0 (watch sampleBoot s) = .ok (result, watch sampleBoot after') := by
  obtain ⟨start, s, image, booted, run, free, released, step⟩ := sampleBoot_steps
  obtain ⟨-, allocs, frees, -⟩ := safe_at_the_edges sampleBoot_placed.toSeparate booted run
  obtain ⟨result, after', -, taken⟩ := allocs 0x8000 0
  have foreign : (0 : Nat) ∉ sampleBoot.ownPages := sampleBoot_foreign (by decide)
  have listed : (0 : Nat) ∉ s.freePages := by
    rw [← mem_freeList, free]
    decide
  obtain ⟨⟨after, -, freed⟩, -⟩ := frees (0 * pageSize) pageSize (by decide) (by decide)
    (by rw [pagesOf_page]; rintro q rfl; decide)
    (by rw [pagesOf_page]; exact Set.disjoint_singleton_left.mpr foreign)
    (by rw [pagesOf_page]; exact Set.disjoint_singleton_left.mpr listed)
  exact ⟨s, after, after', free, freed, result, taken⟩

/-- Once the structures' own page has been released, the probe for the buddy of a client's page reads
a bitmap word that is not reserved. -/
theorem released_structures_break_edges : ∃ start image : PfaImage packedMdsOffset,
    tightBoot.Separate packedMdsOffset ∧ PfaImage.boot tightBoot ⟨fun _ => 0, 0, 0⟩ = .ok start ∧
      Relation.ReflTransGen (ManagedStep tightBoot ∅) start image ∧
      (∀ q ∈ pagesOf (62 * pageSize) pageSize, q < tightBoot.pageCount) ∧
      Disjoint (pagesOf (62 * pageSize) pageSize) image.freePages ∧
      pmapPfaFreeContig (62 * pageSize) pageSize (watch tightBoot image) = .error (.undefined "pfa->buddy_bitmaps") := by
  obtain ⟨start, s₁, image, -, booted, taken, own, -, free, free', -⟩ := tightBoot_run
  have stopped : returns (do
      let start ← PfaImage.boot tightBoot (⟨fun _ => 0, 0, 0⟩ : PfaImage packedMdsOffset)
      let (_, s₁) ← pmapPfaAllocContig 0x1000 0 start
      pmapPfaFreeContig (61 * pageSize) pageSize s₁)
      (fun image => match pmapPfaFreeContig (62 * pageSize) pageSize (watch tightBoot image) with
        | .ok _ => false
        | .error e => e == .undefined "pfa->buddy_bitmaps") = true := by
    decide +kernel
  simp only [booted, ok_bind, taken, own, returns] at stopped
  have managed : 62 < tightBoot.pageCount := by decide
  refine ⟨start, image, tightBoot_separate, booted, tightBoot_steps taken own free, ?_, ?_, ?_⟩
  · rw [pagesOf_page]
    rintro q rfl
    exact managed
  · rw [pagesOf_page, Set.disjoint_singleton_left, ← mem_freeList, free']
    decide
  · split at stopped
    · cases stopped
    · rename_i e run
      rw [run, eq_of_beq stopped]

end Swink.WatchedPfa
