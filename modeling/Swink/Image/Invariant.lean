import Swink.Image.Isolation

namespace Swink.PfaImage
open Mem Refinement Pfa Blocks Dyadic
variable {mdsOffset : Nat → Nat} {b : BootParams} {kept : Set Nat}

/-- A call of the allocator by anyone: any request, and the release of any managed pages that are
neither free nor among those that are kept. -/
inductive ManagedStep (b : BootParams) (kept : Set Nat) : PfaImage mdsOffset → PfaImage mdsOffset → Prop
  | alloc {image after : PfaImage mdsOffset} {size result : Nat} {metadata : BitVec 8} (sizeLt : size < 2 ^ 64)
      (run : pmapPfaAllocContig size metadata image = .ok (result, after)) : ManagedStep b kept image after
  | free {image after : PfaImage mdsOffset} {addr size : Nat} (addrLt : addr < 2 ^ 64) (sizeLt : size < 2 ^ 64)
      (managed : ∀ q ∈ pagesOf addr size, q < b.pageCount) (spared : Disjoint (pagesOf addr size) kept)
      (notFree : Disjoint (pagesOf addr size) image.freePages) (run : pmapPfaFreeContig addr size image = .ok after) :
      ManagedStep b kept image after

/-- The release of a single page. -/
theorem ManagedStep.page {image after : PfaImage mdsOffset} {p : Nat} (managed : p < b.pageCount) (spared : p ∉ kept)
    (notFree : p ∉ image.freeList) (run : pmapPfaFreeContig (p * pageSize) pageSize image = .ok after) :
    ManagedStep b kept image after := by
  have small : b.pageCount ≤ 2 ^ 20 := (b.geometry Set.univ).pageCount_le
  refine .free (by rw [pageSize_eq]; omega) (by decide) ?_ ?_ ?_ run
  all_goals rw [pagesOf_page]
  · rintro q rfl
    exact managed
  · exact Set.disjoint_singleton_left.mpr spared
  · exact Set.disjoint_singleton_left.mpr fun member => notFree (mem_freeList.mpr member)

/-- The states reachable from initialisation by such calls. -/
def Reaches (b : BootParams) (kept : Set Nat) (image : PfaImage mdsOffset) : Prop :=
  ∃ raw start, boot b raw = .ok start ∧ Relation.ReflTransGen (ManagedStep b kept) start image

/-- Memory whose free pages are coalesced, with nodes in any managed pages but the structures' own. -/
def Settled (b : BootParams) (before : Mem) (s : Pfa) (image : PfaImage mdsOffset) : Prop :=
  Coalesced (Depicts (b.geometry b.releasable) b.pfaAddr before) (b.geometry b.releasable) s image

variable {before : Mem} {s : Pfa} {image : PfaImage mdsOffset} {level page : Nat}

theorem simulates (separate : b.Separate mdsOffset) (before : Mem) :
    Simulates fun (s : Pfa) (image : PfaImage mdsOffset) => Depicts (b.geometry b.releasable) b.pfaAddr before s image :=
  depicts_simulates (site_of_releasable separate Set.Subset.rfl) before

theorem Settled.boot (separate : b.Separate mdsOffset) {raw start : PfaImage mdsOffset}
    (booted : PfaImage.boot b raw = .ok start) : ∃ s, Settled b raw.mem s start ∧ s.freePages = b.initialFree := by
  obtain ⟨first, linkable, blocks⟩ := initBlocks_depicts separate Set.Subset.rfl raw
  obtain ⟨s, -, settled⟩ := Coalesced.boot (simulates separate raw.mem) linkable b.initialFree_subset blocks booted
  exact ⟨s, settled⟩

/-- No release of managed pages that are neither free nor the structures' own is stopped. -/
theorem Settled.free (separate : b.Separate mdsOffset) (settled : Settled b before s image) (addr size : Nat)
    (addrLt : addr < 2 ^ 64) (sizeLt : size < 2 ^ 64) (managed : ∀ q ∈ pagesOf addr size, q < b.pageCount)
    (spared : Disjoint (pagesOf addr size) b.ownPages) (notFree : Disjoint (pagesOf addr size) image.freePages) :
    ∃ after s', pmapPfaFreeContig addr size image = .ok after ∧ Settled b before s' after := by
  rw [settled.related.freePages_eq (site_of_releasable separate Set.Subset.rfl) settled.ready] at notFree
  exact Coalesced.free (simulates separate before) settled addrLt sizeLt managed
    (fun q member => ⟨managed q member, Set.disjoint_left.mp spared member⟩) notFree

theorem ManagedStep.settled (separate : b.Separate mdsOffset) {after : PfaImage mdsOffset}
    (step : ManagedStep b b.ownPages image after) (settled : Settled b before s image) :
    ∃ s', Settled b before s' after := by
  cases step with
  | @alloc size _ metadata _ run =>
    obtain ⟨_, _, s', outcome, next⟩ := Coalesced.alloc (simulates separate before) settled size metadata
    rw [run] at outcome
    cases outcome
    exact ⟨s', next⟩
  | free addrLt sizeLt managed spared notFree run =>
    obtain ⟨_, s', outcome, next⟩ := settled.free separate _ _ addrLt sizeLt managed spared notFree
    rw [run] at outcome
    cases outcome
    exact ⟨s', next⟩

theorem Settled.run (separate : b.Separate mdsOffset) {start : PfaImage mdsOffset} {s₀ : Pfa}
    (settled : Settled b before s₀ start) (run : Relation.ReflTransGen (ManagedStep b b.ownPages) start image) :
    ∃ s, Settled b before s image := by
  induction run with
  | refl => exact ⟨s₀, settled⟩
  | tail _ step ih =>
    obtain ⟨_, settled⟩ := ih
    exact step.settled separate settled

theorem Reaches.settled (separate : b.Separate mdsOffset) (reach : Reaches b b.ownPages image) :
    ∃ before s, Settled b before s image := by
  obtain ⟨raw, start, booted, run⟩ := reach
  obtain ⟨_, settled, -⟩ := Settled.boot separate booted
  exact ⟨raw.mem, settled.run separate run⟩

namespace Settled

theorem mem_pagesOn (separate : b.Separate mdsOffset) (settled : Settled b before s image) (bound : level < 6) :
    page ∈ image.pagesOn level ↔ Maximal 5 image.freePages level page := by
  have site := site_of_releasable separate Set.Subset.rfl
  rw [settled.related.freePages_eq site settled.ready]
  exact settled.related.mem_pagesOn site settled.ready bound

theorem nodup_pagesOn (separate : b.Separate mdsOffset) (settled : Settled b before s image) (bound : level < 6) :
    (image.pagesOn level).Nodup := by
  rw [settled.related.pagesOn_eq (site_of_releasable separate Set.Subset.rfl) settled.ready bound]
  exact settled.ready.holds.nodup_pagesOn bound

theorem inside (separate : b.Separate mdsOffset) (settled : Settled b before s image)
    (maximal : Maximal 5 image.freePages level page) : page + 2 ^ level ≤ b.pageCount := by
  rw [settled.related.freePages_eq (site_of_releasable separate Set.Subset.rfl) settled.ready] at maximal
  exact (settled.ready.holds.managed level page maximal).2.2.1

/-- The bit of every block that has one tells whether the block is on its list. -/
theorem bit_spec (separate : b.Separate mdsOffset) (settled : Settled b before s image) (bound : level < 6)
    (aligned : 2 ^ level ∣ page) (inWords : page / 2 ^ level < 64 * bitmapWords b.pageCount level) :
    ∃ bit, buddyBitmapGetBitLocked page level image = .ok bit ∧
      (bit = buddyBitFree ↔ Maximal 5 image.freePages level page) ∧
      (bit = buddyBitAllocated ↔ ¬Maximal 5 image.freePages level page) := by
  have countLe : b.pageCount ≤ 2 ^ 20 := (b.geometry Set.univ).pageCount_le
  have power : 2 ^ level ≤ 2 ^ 5 := Nat.pow_le_pow_right (by omega) (by omega)
  have words := bitmapWords_mul_lt b.pageCount level
  have small : page < 64 * bitmapWords b.pageCount level * 2 ^ level :=
    (Nat.div_lt_iff_lt_mul (Nat.two_pow_pos level)).mp inWords
  rw [settled.related.freePages_eq (site_of_releasable separate Set.Subset.rfl) settled.ready]
  exact Coalesced.bit_spec (simulates separate before) settled bound aligned (by omega) inWords

end Settled

theorem sampleBoot_foreign {p : Nat} (other : p ≠ 2) : p ∉ sampleBoot.ownPages := by
  rw [BootParams.ownPages, show sampleBoot.firstFree = 3 by decide, Set.mem_Ico]
  show ¬(2 ≤ p ∧ p < 3)
  omega

/-- After two requests and a release between them, the kernel gives up a page of its own. -/
theorem sampleBoot_steps : ∃ start s image : PfaImage packedMdsOffset, boot sampleBoot ⟨fun _ => 0, 0, 0⟩ = .ok start ∧
    Relation.ReflTransGen (ManagedStep sampleBoot sampleBoot.ownPages) start s ∧
    s.freeList = [7, 3, 8, 9, 10, 11, 12, 13, 14, 15] ∧ pmapPfaFreeContig (0 * pageSize) pageSize s = .ok image ∧
    ManagedStep sampleBoot sampleBoot.ownPages s image := by
  obtain ⟨start, s₁, s₂, s₃, booted, taken, freed, again, free, same⟩ := sampleBoot_run
  have count : sampleBoot.pageCount = 16 := by decide
  have separate := sampleBoot_placed.toSeparate
  have run := ((Relation.ReflTransGen.refl.tail (.alloc (by decide) taken)).tail (ManagedStep.page (b := sampleBoot) (p := 5)
    (by omega) (sampleBoot_foreign (by decide)) (by rw [free]; decide) freed)).tail (.alloc (by decide) again)
  obtain ⟨_, settled, -⟩ := Settled.boot separate booted
  obtain ⟨_, settled⟩ := settled.run separate run
  rw [← same] at free
  obtain ⟨image, -, released, -⟩ := settled.free separate (0 * pageSize) pageSize (by decide) (by decide)
    (by rw [pagesOf_page]; rintro q rfl; omega)
    (by rw [pagesOf_page]; exact Set.disjoint_singleton_left.mpr (sampleBoot_foreign (by decide)))
    (by
      rw [pagesOf_page]
      refine Set.disjoint_singleton_left.mpr fun member => ?_
      have listed := mem_freeList.mpr member
      rw [free] at listed
      exact absurd listed (by decide))
  exact ⟨start, s₃, image, booted, run, free, released,
    .page (p := 0) (by omega) (sampleBoot_foreign (by decide)) (by rw [free]; decide) released⟩

/-- RAM of 64 pages of which only the last two are left to clients, right behind the page with the
allocator's structures. -/
def tightBoot : BootParams where
  ramSize := 0x40000
  kernelTextBase := 0
  kernelTextSize := 0x1000
  kernelDataBase := 0x1000
  kernelDataSize := 0x1000
  bootstrapPaReserved := 0x3D000
  physmapVmBase := 2 ^ 64 - 2 ^ 31
  ramSize_lt := by decide
  reserved_dvd := by decide
  reserved_le := by decide
  physmap_pos := by decide
  physmap_le := by decide

theorem tightBoot_separate : tightBoot.Separate packedMdsOffset := ⟨le_rfl, by decide⟩

/-- The release of the structures' own page, a managed one that is not free, writes its node over
the lock, the page base and the page count. -/
theorem tightBoot_run : ∃ start s₁ s₂ s₃ : PfaImage packedMdsOffset,
    boot tightBoot ⟨fun _ => 0, 0, 0⟩ = .ok start ∧ pmapPfaAllocContig 0x1000 0 start = .ok (62 * pageSize, s₁) ∧
      pmapPfaFreeContig (61 * pageSize) pageSize s₁ = .ok s₂ ∧ pmapPfaFreeContig (62 * pageSize) pageSize s₂ = .ok s₃ ∧
      s₁.freeList = [63] ∧ s₂.freeList = [61, 63] ∧ s₃.freeList = [62, 61, 63] ∧
      s₂.pagesOn 0 = [61, 63] ∧ s₃.pagesOn 1 = [] ∧ buddyBitmapGetBitLocked 63 0 s₂ = .ok buddyBitAllocated := by
  obtain ⟨⟨start, result, s₁, s₂, s₃⟩, run, shown⟩ := of_returns
    (do
      let start ← boot tightBoot ⟨fun _ => 0, 0, 0⟩
      let (result, s₁) ← pmapPfaAllocContig 0x1000 0 start
      let s₂ ← pmapPfaFreeContig (61 * pageSize) pageSize s₁
      let s₃ ← pmapPfaFreeContig (62 * pageSize) pageSize s₂
      .ok ((start, result, s₁, s₂, s₃) :
        PfaImage packedMdsOffset × Nat × PfaImage packedMdsOffset × PfaImage packedMdsOffset × PfaImage packedMdsOffset))
    (fun (_, result, s₁, s₂, s₃) =>
      result == 62 * pageSize && s₁.freeList == [63] && s₂.freeList == [61, 63] && s₃.freeList == [62, 61, 63] &&
        s₂.pagesOn 0 == [61, 63] && s₃.pagesOn 1 == [] &&
        returns (buddyBitmapGetBitLocked 63 0 s₂) (· == buddyBitAllocated))
    (by decide +kernel)
  obtain ⟨_, booted, run⟩ := bind_eq_ok.mp run
  obtain ⟨⟨_, _⟩, taken, run⟩ := bind_eq_ok.mp run
  obtain ⟨_, own, run⟩ := bind_eq_ok.mp run
  obtain ⟨_, freed, run⟩ := bind_eq_ok.mp run
  cases run
  simp only [Bool.and_eq_true, beq_iff_eq] at shown
  obtain ⟨⟨⟨⟨⟨⟨rfl, free⟩, free'⟩, free''⟩, pages⟩, none⟩, bit⟩ := shown
  obtain ⟨_, read, isBit⟩ := of_returns _ _ bit
  exact ⟨_, _, _, _, booted, taken, own, freed, free, free', free'', pages, none, by rw [read, eq_of_beq isBit]⟩

/-- The three calls are requests and releases of managed pages that are not free. -/
theorem tightBoot_steps {start s₁ s₂ : PfaImage packedMdsOffset}
    (taken : pmapPfaAllocContig 0x1000 0 start = .ok (62 * pageSize, s₁))
    (own : pmapPfaFreeContig (61 * pageSize) pageSize s₁ = .ok s₂) (free : s₁.freeList = [63]) :
    Relation.ReflTransGen (ManagedStep tightBoot ∅) start s₂ := by
  have count : tightBoot.pageCount = 64 := by decide
  exact (Relation.ReflTransGen.single (.alloc (by decide) taken)).tail
    (.page (by omega) (Set.notMem_empty _) (by rw [free]; decide) own)

/-- The lists and the bitmaps agree: a page is on the list of a level just if it is aligned to
the level and its bit there is free, no page is listed twice, the listed blocks are disjoint
and inside the managed pages, and bits past the managed pages stay allocated. -/
theorem lists_match_bitmaps (separate : b.Separate mdsOffset) (reach : Reaches b b.ownPages image) :
    (∀ level < buddyLevels, ∀ p, p / 2 ^ level < 64 * bitmapWords b.pageCount level →
      (p ∈ image.pagesOn level ↔ 2 ^ level ∣ p ∧ buddyBitmapGetBitLocked p level image = .ok buddyBitFree)) ∧
    (∀ level < buddyLevels, (image.pagesOn level).Nodup) ∧
    (∀ level < buddyLevels, ∀ level' < buddyLevels, ∀ p ∈ image.pagesOn level, ∀ p' ∈ image.pagesOn level',
      ¬(level = level' ∧ p = p') → p ≠ p' ∧ Disjoint (block level p) (block level' p')) ∧
    (∀ level < buddyLevels, ∀ p ∈ image.pagesOn level, p + 2 ^ level ≤ b.pageCount) ∧
    ∀ level < buddyLevels, ∀ bit < 64 * bitmapWords b.pageCount level,
      b.pageCount < bit * 2 ^ level + 2 ^ level →
        buddyBitmapGetBitLocked (bit * 2 ^ level) level image = .ok buddyBitAllocated := by
  obtain ⟨_, _, settled⟩ := reach.settled separate
  have listed {level p : Nat} (bound : level < 6) : p ∈ image.pagesOn level ↔ Maximal 5 image.freePages level p :=
    settled.mem_pagesOn separate bound
  refine ⟨fun level bound p inWords => ?_, fun level bound => settled.nodup_pagesOn separate bound,
    fun level bound level' bound' p member p' member' different => ?_, fun level bound p member => ?_,
    fun level bound bit inWords outside => ?_⟩
  · rw [listed bound]
    constructor
    · intro maximal
      obtain ⟨bit, read, isFree, -⟩ := settled.bit_spec separate bound maximal.2.1 inWords
      exact ⟨maximal.2.1, read.trans (congrArg Except.ok (isFree.mpr maximal))⟩
    · rintro ⟨aligned, free⟩
      obtain ⟨bit, read, isFree, -⟩ := settled.bit_spec separate bound aligned inWords
      rw [read] at free
      exact isFree.mp (Except.ok.inj free)
  · have maximal := (listed bound).mp member
    have maximal' := (listed bound').mp member'
    refine ⟨?_, maximal.disjoint maximal' different⟩
    rintro rfl
    exact different (maximal.eq_of_mem maximal' (start_mem_block ..) (start_mem_block ..))
  · exact settled.inside separate ((listed bound).mp member)
  · have positive := Nat.two_pow_pos level
    obtain ⟨value, read, -, isAllocated⟩ := settled.bit_spec separate bound
      (show 2 ^ level ∣ bit * 2 ^ level from Nat.dvd_mul_left ..) (by rwa [Nat.mul_div_cancel _ positive])
    rw [read, isAllocated.mpr fun maximal => ?_]
    have := settled.inside separate maximal
    omega

theorem lists_match_bitmaps_sample :
    ∃ s image : PfaImage packedMdsOffset, s.freeList = [7, 3, 8, 9, 10, 11, 12, 13, 14, 15] ∧
      pmapPfaFreeContig (0 * pageSize) pageSize s = .ok image ∧ (image.pagesOn 0).Nodup ∧
      ∀ p < 16, p ∈ image.pagesOn 0 ↔ buddyBitmapGetBitLocked p 0 image = .ok buddyBitFree := by
  obtain ⟨start, s, image, booted, run, free, released, step⟩ := sampleBoot_steps
  obtain ⟨bits, nodup, -⟩ := lists_match_bitmaps sampleBoot_placed.toSeparate ⟨_, start, booted, run.tail step⟩
  refine ⟨s, image, free, released, nodup 0 (by decide), fun p small => ?_⟩
  rw [bits 0 (by decide) p (by rw [show bitmapWords sampleBoot.pageCount 0 = 1 by decide]; omega)]
  exact and_iff_right (one_dvd p)

/-- Once the structures' own page has been released, page 63 is on a list although its bit says that
it is allocated. -/
theorem released_structures_break_bitmaps : ∃ image : PfaImage packedMdsOffset, tightBoot.Separate packedMdsOffset ∧
    Reaches tightBoot ∅ image ∧ 63 ∈ image.pagesOn 0 ∧
      buddyBitmapGetBitLocked 63 0 image = .ok buddyBitAllocated ∧ buddyBitAllocated ≠ buddyBitFree := by
  obtain ⟨start, s₁, image, -, booted, taken, own, -, free, -, -, pages, -, bit⟩ := tightBoot_run
  exact ⟨image, tightBoot_separate, ⟨_, start, booted, tightBoot_steps taken own free⟩, by rw [pages]; decide, bit,
    by decide⟩

/-- Coalescing is complete: the listed blocks are the aligned blocks of free pages whose
enclosing block is not free. So they depend on the free pages only, and releasing everything
restores the lists of initialisation up to order. -/
theorem lists_are_canonical (separate : b.Separate mdsOffset) :
    (∀ image : PfaImage mdsOffset, Reaches b b.ownPages image → ∀ level < buddyLevels, ∀ p, p ∈ image.pagesOn level ↔
      2 ^ level ∣ p ∧ block level p ⊆ image.freePages ∧
        (level < buddyLevels - 1 → ¬block (level + 1) (root (level + 1) p) ⊆ image.freePages)) ∧
    (∀ image image' : PfaImage mdsOffset, Reaches b b.ownPages image → Reaches b b.ownPages image' →
      image.freePages = image'.freePages →
        ∀ level < buddyLevels, ∀ p, p ∈ image.pagesOn level ↔ p ∈ image'.pagesOn level) ∧
    ∀ (raw start : PfaImage mdsOffset) calls results image, boot b raw = .ok start →
      Run b start calls results image ∅ →
        ∀ level < buddyLevels, ∀ p, p ∈ image.pagesOn level ↔ p ∈ start.pagesOn level := by
  have listed {image : PfaImage mdsOffset} (reach : Reaches b b.ownPages image) {level p : Nat} (bound : level < 6) :
      p ∈ image.pagesOn level ↔ Maximal 5 image.freePages level p := by
    obtain ⟨_, _, settled⟩ := reach.settled separate
    exact settled.mem_pagesOn separate bound
  refine ⟨fun image reach level bound p => ?_, fun image image' reach reach' same level bound p => ?_,
    fun raw start calls results image booted run level bound p => ?_⟩
  · rw [listed reach bound]
    exact and_iff_right (show level ≤ 5 by unfold buddyLevels at bound; omega)
  · rw [listed reach bound, listed reach' bound, same]
  · have site := site_of_unreserved separate (Set.sdiff_subset (s := b.initialFree) (t := ∅))
    obtain ⟨first, begins⟩ := Mirrors.start separate booted
    obtain ⟨w, -, ends⟩ := run.mirrors separate begins
    rw [ends.depicts.mem_pagesOn site ends.ready bound, begins.depicts.mem_pagesOn site begins.ready bound]

theorem lists_are_canonical_sample :
    ∃ s image : PfaImage packedMdsOffset, s.freeList = [7, 3, 8, 9, 10, 11, 12, 13, 14, 15] ∧
      pmapPfaFreeContig (0 * pageSize) pageSize s = .ok image ∧ ∀ p, p ∈ image.pagesOn 3 ↔
        8 ∣ p ∧ block 3 p ⊆ image.freePages ∧ ¬block 4 (root 4 p) ⊆ image.freePages := by
  obtain ⟨start, s, image, booted, run, free, released, step⟩ := sampleBoot_steps
  refine ⟨s, image, free, released, fun p => ?_⟩
  rw [(lists_are_canonical sampleBoot_placed.toSeparate).1 image ⟨_, start, booted, run.tail step⟩ 3 (by decide) p]
  exact and_congr_right fun _ => and_congr_right fun _ => forall_prop_of_true (by decide)

/-- Nor is the state canonical any more: the pages 62 and 63 are free, but they are not a block. -/
theorem released_structures_break_coalescing : ∃ image : PfaImage packedMdsOffset, tightBoot.Separate packedMdsOffset ∧
    Reaches tightBoot ∅ image ∧ 2 ^ 1 ∣ 62 ∧ block 1 62 ⊆ image.freePages ∧
      ¬block (1 + 1) (root (1 + 1) 62) ⊆ image.freePages ∧ 62 ∉ image.pagesOn 1 := by
  obtain ⟨start, s₁, s₂, image, booted, taken, own, freed, free, free', free'', -, none, -⟩ := tightBoot_run
  have count : tightBoot.pageCount = 64 := by decide
  refine ⟨image, tightBoot_separate, ⟨_, start, booted, (tightBoot_steps taken own free).tail
    (.page (by omega) (Set.notMem_empty _) (by rw [free']; decide) freed)⟩, by decide, fun q member => ?_,
    fun whole => ?_, by rw [none]; decide⟩
  · have inside := mem_block.mp member
    rw [← mem_freeList, free'']
    have : q = 62 ∨ q = 63 := by omega
    simp only [List.mem_cons]
    omega
  · have member : 60 ∈ image.freePages := whole (mem_block.mpr (by decide))
    rw [← mem_freeList, free''] at member
    exact absurd member (by decide)

end Swink.PfaImage
