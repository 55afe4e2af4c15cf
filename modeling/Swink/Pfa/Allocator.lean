import Swink.Pfa.Store

namespace Swink

/-- `pmap_page_type_e`, stored in the low two bits of the one-byte `struct pmap_page_metadata`. -/
inductive PmapPageType
  | kernelData
  | kernelText
  | pageTable
  deriving DecidableEq, Repr

def PmapPageType.toBits : PmapPageType → BitVec 2
  | .kernelData => 0
  | .kernelText => 1
  | .pageTable => 2

/-- A metadata byte whose padding bits are zero. -/
def PmapPageType.metadata (type : PmapPageType) : BitVec 8 := type.toBits.setWidth 8

/-- The bit field `page_type` of a metadata byte. -/
def pageTypeOf (metadata : BitVec 8) : BitVec 2 := metadata.setWidth 2

/-- A `uint32_t` as `printf` shows it under `%d`. -/
def showInt32 (n : Nat) : String := toString (BitVec.ofNat 32 n).toInt

section
variable {σ : Type} [PfaStore σ]
open PfaStore

/-- Apply `metadata` to all page IDs in [base, base + page_count). -/
def applyMetadataRangeLocked (base count : Nat) (metadata : BitVec 8) (s : σ) : Except Fault σ := do
  assert (u64 (sub32 base (pageBase s) + count) ≤ pageCount s) "base - pfa->page_base + page_count <= pfa->page_count"
  -- the pointer `pfa->metadata + base - pfa->page_base`
  if base < pageBase s then .error (.undefined "pfa->metadata") else
  fillMetadata (base - pageBase s) count metadata s

/-- The `for` loop of `buddy_insert_range_freed_locked` from `free_i` on; every round
inserts at least one page, which bounds the rounds. -/
def buddyInsertRangeLoop (limit : Nat) : Nat → Nat → Option Nat → σ → Except Fault (Option Nat × σ)
  | 0, freeI, fe, s => if freeI < limit then .error .fuel else .ok (fe, s)
  | rounds + 1, freeI, fe, s =>
    if freeI < limit then do
      let level := min (maxBuddyLevelForPageAlignment freeI)
        (minBuddyLevelForSizeNoOverflow (shl32 (sub32 limit freeI) pageShift))
      assert (level < buddyLevels) "level >= 0 && level < BUDDY_LEVELS"
      assert (1 <<< level ≤ sub32 limit freeI) "1 << level <= limit - free_i"
      let fe := pmapPaToKva (physmapVmBase s) (shl32 freeI pageShift)
      let s ← listPushFront level fe s
      let s ← buddyBitmapSetBitLocked freeI level buddyBitFree s
      buddyInsertRangeLoop limit rounds (u32 (freeI + buddyLevelPageCount level)) (some fe) s
    else .ok (fe, s)

/-- Inserts the freed pages [base, base + page_count) without merging. -/
def buddyInsertRangeFreedLocked (base count : Nat) (s : σ) : Except Fault (Option Nat × σ) :=
  let limit := u32 (base + count)
  buddyInsertRangeLoop limit (limit - base) base none s

def pmapPfaInit (ramBase ramSize kernelTextBase kernelTextSize kernelDataBase kernelDataSize
    bootstrapPaReserved : Nat) (s : σ) : Except Fault σ := do
  let pageBase := u32 (ramBase >>> pageShift)
  let pageCount := sizeToPageCount (sub64 ramSize ramBase)
  let requiredBytes := requiredBytes pageCount
  let pfa := pmapPaToKva (physmapVmBase s) bootstrapPaReserved
  let bootstrapPaReserved := u64 (bootstrapPaReserved + requiredBytes)
  let s ← create pfa pageBase pageCount s
  let (_, s) ← buddyInsertRangeFreedLocked (paToPageId bootstrapPaReserved)
    (sizeToPageCount (sub64 (sub64 ramSize ramBase) bootstrapPaReserved)) s
  let s ← applyMetadataRangeLocked (u32 ramBase) (sizeToPageCount (sub64 bootstrapPaReserved ramBase))
    PmapPageType.kernelData.metadata s
  let s ← applyMetadataRangeLocked (paToPageId kernelDataBase) (sizeToPageCount kernelDataSize)
    PmapPageType.kernelData.metadata s
  applyMetadataRangeLocked (paToPageId kernelTextBase) (sizeToPageCount kernelTextSize)
    PmapPageType.kernelText.metadata s

/-- `pmap_pfa_init` up to where it marks the kernel image. -/
def initBlocks (ramBase ramSize bootstrapPaReserved : Nat) (s : σ) : Except Fault σ := do
  let pageCount := sizeToPageCount (sub64 ramSize ramBase)
  let reservedEnd := u64 (bootstrapPaReserved + requiredBytes pageCount)
  let s ← create (pmapPaToKva (physmapVmBase s) bootstrapPaReserved) (u32 (ramBase >>> pageShift)) pageCount s
  let (_, s) ← buddyInsertRangeFreedLocked (paToPageId reservedEnd)
    (sizeToPageCount (sub64 (sub64 ramSize ramBase) reservedEnd)) s
  applyMetadataRangeLocked (u32 ramBase) (sizeToPageCount (sub64 reservedEnd ramBase))
    PmapPageType.kernelData.metadata s

theorem pmapPfaInit_eq (ramBase ramSize textBase textSize dataBase dataSize reserved : Nat) (s : σ) :
    pmapPfaInit ramBase ramSize textBase textSize dataBase dataSize reserved s = (do
      let s ← initBlocks ramBase ramSize reserved s
      let s ← applyMetadataRangeLocked (paToPageId dataBase) (sizeToPageCount dataSize)
        PmapPageType.kernelData.metadata s
      applyMetadataRangeLocked (paToPageId textBase) (sizeToPageCount textSize)
        PmapPageType.kernelText.metadata s) := by
  simp only [pmapPfaInit, initBlocks, bind_assoc]

/-- The search loop of `pmap_pfa_alloc_contig_small_locked` over the remaining levels: the
entry found (0 for `NULL`), its physical address and its level. -/
def allocScan : Nat → Nat → σ → Except Fault (Nat × Nat × Nat)
  | 0, level, _ => .ok (0, physAddrInvalid, level)
  | rounds + 1, level, s => do
    if ← listEmpty level s then allocScan rounds (level + 1) s
    else
      let allocatedEntry ← listFront level s
      let allocatedElement ← pmapPhysmapKvaToPa (physmapVmBase s) allocatedEntry
      .ok (allocatedEntry, allocatedElement, level)

def pmapPfaAllocContigSmallLocked (size : Nat) (metadata : BitVec 8) (s : σ) : Except Fault (Nat × σ) := do
  let pageCount := sizeToPageCount size
  let startLevel := minBuddyLevelForSize size
  let (allocatedEntry, allocatedElement, level) ← allocScan (buddyLevels - startLevel) startLevel s
  if allocatedEntry = 0 then .ok (physAddrInvalid, s) else
  let s ← listRemove allocatedEntry s
  let s ← buddyBitmapSetBitLocked (paToPageId allocatedElement) level buddyBitAllocated s
  -- give back the part of the block that the request does not use
  let (_, s) ← buddyInsertRangeFreedLocked (u32 (paToPageId allocatedElement + pageCount))
    (sub32 (buddyLevelPageCount level) pageCount) s
  let s ← applyMetadataRangeLocked (paToPageId allocatedElement) pageCount metadata s
  .ok (allocatedElement, s)

def pmapPfaAllocContig (size : Nat) (metadata : BitVec 8) (s : σ) : Except Fault (Nat × σ) :=
  if size > pageSize <<< (buddyLevels - 1) then .ok (physAddrInvalid, s) else do
  let s ← synchsLockAcquire s
  let (allocation, s) ← pmapPfaAllocContigSmallLocked size metadata s
  .ok (allocation, synchsLockRelease s)

/-- The merge loop of `buddy_free_pages_locked` for one page: the block reached and its level. -/
def buddyMergeLoop : Nat → Nat → Nat → σ → Except Fault (Nat × Nat × σ)
  | 0, level, page, s => .ok (level, page, s)
  | rounds + 1, level, page, s => do
    let buddy := getBuddyPageIdForPage page level
    let bit ← buddyBitmapGetBitLocked buddy level s
    if bit = buddyBitAllocated then .ok (level, page, s) else
    let s ← buddyBitmapSetBitLocked buddy level buddyBitAllocated s
    let buddyFe ← getPfaFreeEntryForPage buddy s
    let s ← listRemove buddyFe s
    buddyMergeLoop rounds (level + 1) (getRootBuddyPageIdForPage page level) s

/-- One round of the page loop of `buddy_free_pages_locked`. -/
def buddyFreePageLocked (page : Nat) (s : σ) : Except Fault σ := do
  let (level, page, s) ← buddyMergeLoop (buddyLevels - 1) 0 page s
  let fe ← getPfaFreeEntryForPage page s
  let s ← listPushFront level fe s
  buddyBitmapSetBitLocked page level buddyBitFree s

/-- The page loop with `count` pages to go, at page `base + i`. -/
def buddyFreePagesLoop (base : Nat) : Nat → Nat → σ → Except Fault σ
  | 0, _, s => .ok s
  | count + 1, i, s => do
    let s ← buddyFreePageLocked (u32 (base + i)) s
    buddyFreePagesLoop base count (i + 1) s

def buddyFreePagesLocked (base count : Nat) (s : σ) : Except Fault σ := buddyFreePagesLoop base count 0 s

def pmapPfaFreeContig (addr size : Nat) (s : σ) : Except Fault σ := do
  let base := paToPageId addr
  let count := sizeToPageCount size
  let s ← synchsLockAcquire s
  let s ← buddyFreePagesLocked base count s
  .ok (synchsLockRelease s)

def mdsGetMetadataLocked (page : Nat) (s : σ) : Except Fault (BitVec 8) := do
  assert (sub32 page (pageBase s) < pageCount s) "page - pfa->page_base < pfa->page_count"
  metadataByte page s

def pmapPfaMdsGetMetadata (page : Nat) (s : σ) : Except Fault (BitVec 8 × σ) := do
  let s ← synchsLockAcquire s
  let metadata ← mdsGetMetadataLocked page s
  .ok (metadata, synchsLockRelease s)

/-- The loop of `pmap_pfa_mds_require_range_type` from `i` on: every round reads the metadata of `page`. -/
def requireRangeTypeLoop (page : Nat) (type : PmapPageType) : Nat → Nat → σ → Except Fault Unit
  | 0, _, _ => .ok ()
  | rounds + 1, i, s => do
    let pageI := u32 (sub32 page (pageBase s) + i)
    let metadata ← mdsGetMetadataLocked page s
    if pageTypeOf metadata ≠ type.toBits then
      .error (.panic ("Incorrect page type on page " ++ showInt32 pageI ++ " (was " ++
        showInt32 (pageTypeOf metadata).toNat ++ " but expected " ++ showInt32 type.toBits.toNat ++ ")"))
    else requireRangeTypeLoop page type rounds (i + 1) s

def pmapPfaMdsRequireRangeType (page count : Nat) (type : PmapPageType) (s : σ) : Except Fault σ := do
  assert (u32 (sub32 page (pageBase s) + count) < pageCount s) "page - pfa->page_base + count < pfa->page_count"
  let s ← synchsLockAcquire s
  requireRangeTypeLoop page type count 0 s
  .ok (synchsLockRelease s)

end

end Swink
