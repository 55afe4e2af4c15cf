import Swink.Image.Layout

namespace Swink.PfaImage
open Mem
variable {mdsOffset : Nat → Nat}

/-- The byte ranges of the structure, of every bitmap and of the metadata, each as its start and
its length. -/
def regions (s : PfaImage mdsOffset) : List (Nat × Nat) :=
  (s.pfa, sizeofPmapPfa) ::
    ((List.range buddyLevels).map fun level =>
      (s.buddyBitmap level, buddyBitmapRequiredBytesForLevel s.pageCount level)) ++
    [(s.metadata, s.pageCount)]

def InRegion (a : Nat) (region : Nat × Nat) : Prop := region.1 ≤ a ∧ a < region.1 + region.2

/-- Two regions without a common byte. -/
def Apart (region region' : Nat × Nat) : Prop := ∀ a, ¬(InRegion a region ∧ InRegion a region')

/-- A byte of the bitmaps lies in the bitmap of some level. -/
theorem exists_level (pageCount level : Nat) {x : Nat} (inside : x < bitmapBytesBelow pageCount level) :
    ∃ l < level, bitmapBytesBelow pageCount l ≤ x ∧
      x < bitmapBytesBelow pageCount l + buddyBitmapRequiredBytesForLevel pageCount l := by
  induction level with
  | zero => exact absurd inside (Nat.not_lt_zero x)
  | succ level ih =>
    rcases Nat.lt_or_ge x (bitmapBytesBelow pageCount level) with lower | here
    · obtain ⟨l, lt, found⟩ := ih lower
      exact ⟨l, by omega, found⟩
    · exact ⟨level, Nat.lt_succ_self level, here, inside⟩

variable {raw s : PfaImage initMdsOffset} {pfa pageBase pageCount : Nat}

/-- The offset of the metadata leaves out the size of the structure, so its first byte is a byte of
the structure or of a bitmap. -/
theorem Fresh.overlap (fresh : Fresh initMdsOffset pfa pageBase pageCount raw s) :
    ∃ region ∈ s.regions.dropLast, InRegion s.metadata region := by
  have structure_ : sizeofPmapPfa = 264 := rfl
  have offset : s.metadata = pfa + buddyBitmapRequiredBytes pageCount := fresh.metadata
  rw [regions, List.dropLast_concat, offset]
  rcases Nat.lt_or_ge (buddyBitmapRequiredBytes pageCount) sizeofPmapPfa with small | large
  · exact ⟨_, List.mem_cons_self .., by rw [fresh.at_pfa]; exact Nat.le_add_right .., by rw [fresh.at_pfa]; omega⟩
  · have positive : 0 < bitmapBytesBelow pageCount buddyLevels := by
      rw [← buddyBitmapRequiredBytes_eq]
      omega
    obtain ⟨l, lt, lower, upper⟩ := exists_level pageCount buddyLevels
      (x := buddyBitmapRequiredBytes pageCount - sizeofPmapPfa) (by rw [buddyBitmapRequiredBytes_eq] at *; omega)
    refine ⟨_, List.mem_cons_of_mem _ (List.mem_map.mpr ⟨l, List.mem_range.mpr lt, rfl⟩), ?_, ?_⟩
    · rw [fresh.bitmap l lt, pfaSize_eq]
      omega
    · rw [fresh.bitmap l lt, fresh.count, pfaSize_eq]
      omega

theorem Fresh.not_apart (fresh : Fresh initMdsOffset pfa pageBase pageCount raw s) (nonempty : 1 ≤ pageCount) :
    ¬s.regions.Pairwise Apart := by
  intro apart
  obtain ⟨region, member, inside⟩ := fresh.overlap
  have shape : s.regions = s.regions.dropLast ++ [(s.metadata, s.pageCount)] := by
    rw [regions, List.dropLast_concat]
  rw [shape, List.pairwise_append] at apart
  refine apart.2.2 region member (s.metadata, s.pageCount) (List.mem_singleton_self _) s.metadata ⟨inside, le_rfl, ?_⟩
  rw [fresh.count]
  omega

/-- All regions lie in the bytes that initialisation reserves. -/
theorem Fresh.inside (fresh : Fresh initMdsOffset pfa pageBase pageCount raw s) {region : Nat × Nat}
    (member : region ∈ s.regions) : pfa ≤ region.1 ∧ region.1 + region.2 ≤ pfa + requiredBytes pageCount := by
  have reserve := requiredBytes_le pageCount
  have structure_ : sizeofPmapPfa = 264 := rfl
  have total := pfaSize_eq
  simp only [regions, List.cons_append, List.mem_cons, List.mem_append, List.mem_map, List.mem_range,
    List.not_mem_nil, or_false] at member
  rcases member with rfl | ⟨l, lt, rfl⟩ | rfl
  · rw [fresh.at_pfa]
    omega
  · have last := bitmapBytesBelow_mono pageCount (Nat.succ_le_of_lt lt)
    rw [← buddyBitmapRequiredBytes_eq, bitmapBytesBelow] at last
    rw [fresh.bitmap l lt, fresh.count]
    omega
  · rw [fresh.metadata, fresh.count, initMdsOffset]
    omega

/-- Giving a page a type that differs from the byte at its metadata changes the memory there. -/
theorem Fresh.overwrite (fresh : Fresh initMdsOffset pfa pageBase pageCount raw s) (nonempty : 1 ≤ pageCount)
    (baseLt : pageBase < 2 ^ 32) :
    ∃ (type : PmapPageType) (after : PfaImage initMdsOffset),
      applyMetadataRangeLocked pageBase 1 type.metadata s = .ok after ∧ after.mem s.metadata ≠ s.mem s.metadata := by
  have base : PfaStore.pageBase s = pageBase := fresh.base
  have count : PfaStore.pageCount s = pageCount := fresh.count
  have run (type : PmapPageType) : applyMetadataRangeLocked pageBase 1 type.metadata s =
      .ok (s.withMem (s.mem.memset (s.metadata + 0) type.metadata 1)) := by
    have zero : sub32 pageBase pageBase = 0 := by rw [sub32_of_le le_rfl baseLt, Nat.sub_self]
    have small : u64 (0 + 1) ≤ pageCount := nonempty
    rw [applyMetadataRangeLocked, base, count, zero, assert_of small, ok_bind, if_neg (Nat.lt_irrefl _), Nat.sub_self]
    rfl
  have written (type : PmapPageType) : s.mem.memset (s.metadata + 0) type.metadata 1 s.metadata = type.metadata :=
    memset_of_inside (Nat.le_refl _) (Nat.lt_succ_self _)
  by_cases zero : s.mem s.metadata = 0
  · exact ⟨.kernelText, _, run _, by rw [withMem_mem, written, zero]; decide⟩
  · exact ⟨.kernelData, _, run _, by rw [withMem_mem, written]; exact fun same => zero same.symm⟩

/-- Whatever the number of pages, the structures overlap, and giving the first page a type
overwrites a field or a bitmap. -/
theorem structures_overlap (raw : PfaImage initMdsOffset) (pfa pageBase pageCount : Nat) (nonempty : 1 ≤ pageCount)
    (countLt : pageCount < 2 ^ 32) (baseLt : pageBase < 2 ^ 32) (pos : 0 < pfa)
    (fits : pfa + requiredBytes pageCount ≤ 2 ^ 64) :
    ∃ s, create pfa pageBase pageCount raw = .ok s ∧ ¬s.regions.Pairwise Apart ∧
      ∃ (type : PmapPageType) (after : PfaImage initMdsOffset),
        applyMetadataRangeLocked pageBase 1 type.metadata s = .ok after ∧
        ∃ region ∈ s.regions.dropLast, ∃ a, InRegion a region ∧ after.mem a ≠ s.mem a := by
  have reserve := requiredBytes_le pageCount
  have size := pfaSize_eq
  have metadata : initMdsOffset pageCount = buddyBitmapRequiredBytes pageCount := rfl
  obtain ⟨s, run, fresh⟩ := create_spec raw pfa pageBase pageCount pos baseLt countLt (by omega) (by omega)
  obtain ⟨region, member, inside⟩ := fresh.overlap
  obtain ⟨type, after, applied, changed⟩ := fresh.overwrite nonempty baseLt
  exact ⟨s, run, fresh.not_apart nonempty, type, after, applied, region, member, _, inside, changed⟩

/-- Memory without content. -/
def blankImage : PfaImage initMdsOffset where
  mem := fun _ => 0
  pfa := 0
  physmapVmBase := 2 ^ 64 - 2 ^ 30

theorem structures_overlap_one_page :
    ∃ s, create 0xFFFFFFFFC0080000 0 1 blankImage = .ok s ∧ ¬s.regions.Pairwise Apart := by
  obtain ⟨s, run, overlaps, -⟩ := structures_overlap blankImage 0xFFFFFFFFC0080000 0 1 (by decide) (by decide)
    (by decide) (by decide) (by decide)
  exact ⟨s, run, overlaps⟩

/-- With all RAM below the MMIO range, the metadata of the first pages lies in a bitmap. -/
theorem full_ram_overlaps :
    ¬∀ s, create 0xFFFFFFFFC0080000 0 0x3F000 blankImage = .ok s → s.regions.Pairwise Apart := by
  intro apart
  obtain ⟨s, run, fresh⟩ := create_spec blankImage 0xFFFFFFFFC0080000 0 0x3F000
    (by decide) (by decide) (by decide) (by decide) (by decide)
  exact fresh.not_apart (by decide) (apart s run)

end Swink.PfaImage
