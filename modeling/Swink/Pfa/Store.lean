import Swink.Machine.Fault
import Swink.Pfa.Levels

namespace Swink

/-- What pmap_pfa.c reads and writes: the fields of `struct pmap_pfa`, the words of its
bitmaps, the bytes of its metadata store, and its buddy lists through list.c. -/
class PfaStore (σ : Type) where
  physmapVmBase : σ → Nat
  pageBase : σ → Nat
  pageCount : σ → Nat
  lockValue : σ → Nat
  setLockValue : Nat → σ → σ
  /-- `pfa = ...; pfa->page_base = ...; ...`, `list_init` of every level and the `memset` of the bitmaps -/
  create : (pfa pageBase pageCount : Nat) → σ → Except Fault σ
  /-- `pfa->buddy_bitmaps[level][idx]` -/
  bitmapWord : (level idx : Nat) → σ → Except Fault (BitVec 64)
  setBitmapWord : (level idx : Nat) → BitVec 64 → σ → Except Fault σ
  /-- the functions of list.c on `pfa->buddy_lists[level]` -/
  listEmpty : (level : Nat) → σ → Except Fault Bool
  listFront : (level : Nat) → σ → Except Fault Nat
  listPushFront : (level elem : Nat) → σ → Except Fault σ
  listRemove : (elem : Nat) → σ → Except Fault σ
  /-- `pfa->metadata[idx]`, and `memset` on a range of it -/
  metadataByte : (idx : Nat) → σ → Except Fault (BitVec 8)
  fillMetadata : (idx count : Nat) → BitVec 8 → σ → Except Fault σ

/-- `BUDDY_BIT_ALLCOATED` and `BUDDY_BIT_FREE`. -/
def buddyBitAllocated : Nat := 0
def buddyBitFree : Nat := 1

/-- Field offsets of `struct pmap_pfa` (LP64): the lock, `page_base` and `page_count` take four
bytes each, a `struct list` holds two nodes of two pointers. -/
def lockOffset : Nat := 0
def pageBaseOffset : Nat := 4
def pageCountOffset : Nat := 8
def buddyListsOffset : Nat := 16
def sizeofList : Nat := 32
def buddyBitmapsOffset : Nat := buddyListsOffset + buddyLevels * sizeofList
def metadataOffset : Nat := buddyBitmapsOffset + buddyLevels * 8
def sizeofPmapPfa : Nat := metadataOffset + 8

def buddyBitmapRequiredBytesForLevel (pageCount level : Nat) : Nat :=
  let pagesPerSlot := 64 <<< level
  let slots := roundUp pageCount pagesPerSlot / pagesPerSlot
  slots * 8

def buddyBitmapRequiredBytes (pageCount : Nat) : Nat :=
  (List.range buddyLevels).foldl (fun bytes level => bytes + buddyBitmapRequiredBytesForLevel pageCount level) 0

/-- The words that `buddy_bitmap_required_bytes_for_level` reserves for a level. -/
def bitmapWords (pageCount level : Nat) : Nat := buddyBitmapRequiredBytesForLevel pageCount level / 8

/-- `pfa_size`, `mds_size` and `required_bytes` of `pmap_pfa_init`. -/
def pfaSize : Nat := roundUp sizeofPmapPfa 8
def mdsSize (pageCount : Nat) : Nat := pageCount
def requiredBytes (pageCount : Nat) : Nat :=
  roundUp (pfaSize + buddyBitmapRequiredBytes pageCount + mdsSize pageCount) pageSize

def pmapPhysmapKvaToPa (physmapVmBase kva : Nat) : Except Fault Nat := do
  require (kva ≥ physmapVmBase) "kva >= physmap_vm_base"
  .ok (kva - physmapVmBase)

section
variable {σ : Type} [PfaStore σ]
open PfaStore

def buddyBitmapPageIndex (page level : Nat) (s : σ) : Nat :=
  let debasedPage := sub32 page (pageBase s)
  debasedPage >>> (6 + level)

def buddyBitmapPageOffset (page level : Nat) (s : σ) : Nat :=
  let debasedPage := sub32 page (pageBase s)
  (debasedPage >>> level) &&& ((1 <<< 6) - 1)

def buddyBitmapSetBitLocked (page level value : Nat) (s : σ) : Except Fault σ := do
  let idx := buddyBitmapPageIndex page level s
  let offset := buddyBitmapPageOffset page level s
  let binValue ← bitmapWord level idx s
  let binValue := binValue &&& ~~~(1#64 <<< offset)
  let binValue := binValue ||| (BitVec.ofNat 64 value <<< offset)
  setBitmapWord level idx binValue s

def buddyBitmapGetBitLocked (page level : Nat) (s : σ) : Except Fault Nat := do
  let idx := buddyBitmapPageIndex page level s
  let offset := buddyBitmapPageOffset page level s
  let binValue ← bitmapWord level idx s
  .ok ((binValue >>> offset) &&& 1#64).toNat

def getPfaFreeEntryForPage (page : Nat) (s : σ) : Except Fault Nat := do
  assert (sub32 page (pageBase s) < pageCount s) "page - pfa->page_base < pfa->page_count"
  .ok (pmapPaToKva (physmapVmBase s) (shl32 page pageShift))

def synchsLockAcquire (s : σ) : Except Fault σ :=
  if lockValue s = 0 then .error .spin else .ok (setLockValue (lockValue s - 1) s)

def synchsLockRelease (s : σ) : σ := setLockValue (u32 (lockValue s + 1)) s

end

theorem bitmapWords_eq (pageCount level : Nat) :
    bitmapWords pageCount level = (pageCount + (64 * 2 ^ level - 1)) / (64 * 2 ^ level) := by
  have positive : 0 < 64 * 2 ^ level := Nat.mul_pos (by omega) (Nat.two_pow_pos level)
  simp only [bitmapWords, buddyBitmapRequiredBytesForLevel, roundUp, Nat.shiftLeft_eq]
  rw [Nat.mul_div_cancel _ (by omega), Nat.mul_div_cancel _ positive, Nat.add_sub_assoc (by omega)]

/-- The words of a level have a bit for every block that starts below `pageCount`. -/
theorem lt_bitmapWords (level : Nat) {pageCount page : Nat} (managed : page < pageCount) :
    page / 2 ^ level < 64 * bitmapWords pageCount level := by
  have positive : 0 < 64 * 2 ^ level := Nat.mul_pos (by omega) (Nat.two_pow_pos level)
  have cover := Nat.div_add_mod' (pageCount + (64 * 2 ^ level - 1)) (64 * 2 ^ level)
  have small := Nat.mod_lt (pageCount + (64 * 2 ^ level - 1)) positive
  rw [Nat.div_lt_iff_lt_mul (Nat.two_pow_pos level), bitmapWords_eq]
  calc page < pageCount := managed
    _ ≤ (pageCount + (64 * 2 ^ level - 1)) / (64 * 2 ^ level) * (64 * 2 ^ level) := by omega
    _ = 64 * ((pageCount + (64 * 2 ^ level - 1)) / (64 * 2 ^ level)) * 2 ^ level := by ring

/-- The words of a level reach less than a word past the managed pages. -/
theorem bitmapWords_mul_lt (pageCount level : Nat) :
    64 * bitmapWords pageCount level * 2 ^ level < pageCount + 64 * 2 ^ level := by
  have positive : 0 < 64 * 2 ^ level := Nat.mul_pos (by omega) (Nat.two_pow_pos level)
  calc 64 * bitmapWords pageCount level * 2 ^ level
      = (pageCount + (64 * 2 ^ level - 1)) / (64 * 2 ^ level) * (64 * 2 ^ level) := by rw [bitmapWords_eq]; ring
    _ ≤ pageCount + (64 * 2 ^ level - 1) := Nat.div_mul_le_self ..
    _ < pageCount + 64 * 2 ^ level := by omega

end Swink
