import Swink.Machine.LinkedList
import Swink.Pfa.Allocator

namespace Swink

/-- The allocator in one address space: `struct pmap_pfa` at the address `pfa`, its bitmaps and its
metadata where the pointers in the structure say, and the list nodes at the start of free blocks.
`mdsOffset` is where initialisation puts the metadata, as an offset from `pfa`. -/
structure PfaImage (mdsOffset : Nat → Nat) where
  mem : Mem
  pfa : Nat
  physmapVmBase : Nat

namespace PfaImage
open Mem
variable {mdsOffset : Nat → Nat}

/-- `(vm_addr_t)(pfa) + bitmap_size`, the offset that `pmap_pfa_init` uses. -/
def initMdsOffset (pageCount : Nat) : Nat := buddyBitmapRequiredBytes pageCount

def withMem (s : PfaImage mdsOffset) (mem : Mem) : PfaImage mdsOffset := { s with mem := mem }

@[simp] theorem withMem_mem (s : PfaImage mdsOffset) (mem : Mem) : (s.withMem mem).mem = mem := rfl
@[simp] theorem withMem_pfa (s : PfaImage mdsOffset) (mem : Mem) : (s.withMem mem).pfa = s.pfa := rfl
@[simp] theorem withMem_physmapVmBase (s : PfaImage mdsOffset) (mem : Mem) :
    (s.withMem mem).physmapVmBase = s.physmapVmBase := rfl

def lockValue (s : PfaImage mdsOffset) : Nat := (s.mem.load32 (s.pfa + lockOffset)).toNat
def pageBase (s : PfaImage mdsOffset) : Nat := (s.mem.load32 (s.pfa + pageBaseOffset)).toNat
def pageCount (s : PfaImage mdsOffset) : Nat := (s.mem.load32 (s.pfa + pageCountOffset)).toNat

/-- `&pfa->buddy_lists[level]`. -/
def buddyList (level : Nat) (s : PfaImage mdsOffset) : Nat := s.pfa + buddyListsOffset + level * sizeofList

/-- `pfa->buddy_bitmaps[level]` and `pfa->metadata`. -/
def buddyBitmap (level : Nat) (s : PfaImage mdsOffset) : Nat := s.mem.ptr (s.pfa + buddyBitmapsOffset + level * 8)
def metadata (s : PfaImage mdsOffset) : Nat := s.mem.ptr (s.pfa + metadataOffset)

/-- The loop of `pmap_pfa_init` over the levels, from `level` and `bitmap_addr` on. -/
def initLevels (pfa pageCount : Nat) : (rounds level bitmapAddr : Nat) → Mem → Except Fault Mem
  | 0, _, _, mem => .ok mem
  | rounds + 1, level, bitmapAddr, mem => do
    let mem ← listInit (pfa + buddyListsOffset + level * sizeofList) mem
    let mem := mem.setPtr (pfa + buddyBitmapsOffset + level * 8) bitmapAddr
    initLevels pfa pageCount rounds (level + 1) (bitmapAddr + buddyBitmapRequiredBytesForLevel pageCount level) mem

def create (pfa pageBase pageCount : Nat) (s : PfaImage mdsOffset) : Except Fault (PfaImage mdsOffset) := do
  -- `synchs_lock_init`
  let mem := s.mem.store32 (pfa + lockOffset) 1
  let mem := mem.store32 (pfa + pageBaseOffset) (BitVec.ofNat 32 pageBase)
  let mem := mem.store32 (pfa + pageCountOffset) (BitVec.ofNat 32 pageCount)
  let mem := mem.setPtr (pfa + metadataOffset) (pfa + mdsOffset pageCount)
  let mem ← initLevels pfa pageCount buddyLevels 0 (pfa + pfaSize) mem
  let mem := mem.memset (mem.ptr (pfa + buddyBitmapsOffset)) 0 (buddyBitmapRequiredBytes pageCount)
  .ok { s with mem := mem, pfa := pfa }

instance : PfaStore (PfaImage mdsOffset) where
  physmapVmBase := PfaImage.physmapVmBase
  pageBase := PfaImage.pageBase
  pageCount := PfaImage.pageCount
  lockValue := PfaImage.lockValue
  setLockValue value s := s.withMem (s.mem.store32 (s.pfa + lockOffset) (BitVec.ofNat 32 value))
  create := PfaImage.create
  bitmapWord level idx s := .ok (s.mem.load64 (s.buddyBitmap level + idx * 8))
  setBitmapWord level idx word s := .ok (s.withMem (s.mem.store64 (s.buddyBitmap level + idx * 8) word))
  listEmpty level s := Mem.listEmpty (s.buddyList level) s.mem
  listFront level s := Mem.listFront (s.buddyList level) s.mem
  listPushFront level elem s := do
    let mem ← Mem.listPushFront (s.buddyList level) elem s.mem
    .ok (s.withMem mem)
  listRemove elem s := do
    let mem ← Mem.listRemove elem s.mem
    .ok (s.withMem mem)
  metadataByte idx s := .ok (s.mem (s.metadata + idx))
  fillMetadata idx count byte s := .ok (s.withMem (s.mem.memset (s.metadata + idx) byte count))

end PfaImage

end Swink
