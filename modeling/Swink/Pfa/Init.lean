import Swink.Pfa.Free

namespace Swink

namespace Pfa
open Blocks Dyadic

/-- A state whose lists and bitmaps are empty. -/
theorem create_holds {g : Geometry} {raw : Pfa} (same : raw.physmapVmBase = g.physmapVmBase)
    (linkable : ∀ p ∈ g.usable, raw.mayLink (g.node p) = true) :
    (raw.create 0 g.pageCount).Holds g fun _ _ => False where
  manages := ⟨same, rfl, rfl, linkable⟩
  managed := fun _ _ member => member.elim
  lists := ⟨fun _ _ => List.nodup_nil, fun _ _ _ => by simp [Pfa.create]⟩
  bits := fun _ _ _ _ => by simp [Pfa.create]

theorem requiredBytes_pos (pageCount : Nat) : 0 < requiredBytes pageCount := by
  have le : pfaSize + buddyBitmapRequiredBytes pageCount + mdsSize pageCount ≤ requiredBytes pageCount :=
    le_roundUp (by decide)
  have : pfaSize = 264 := rfl
  omega

/-- With RAM at address zero, `pmap_pfa_init` makes every page free that lies past the reserved
region and its own structures, and marks the pages below as kernel data. -/
theorem initBlocks_zero {g : Geometry} {raw : Pfa} {ramSize reserved first : Nat}
    (same : raw.physmapVmBase = g.physmapVmBase) (linkable : ∀ p ∈ g.usable, raw.mayLink (g.node p) = true)
    (ramLe : ramSize ≤ 2 ^ 32) (count : g.pageCount = sizeToPageCount ramSize)
    (endLe : reserved + requiredBytes g.pageCount ≤ ramSize)
    (endEq : reserved + requiredBytes g.pageCount = first * 4096) (within : Set.Ico first g.pageCount ⊆ g.usable) :
    ∃ built : Pfa, built.Ready g (Set.Ico first g.pageCount) ∧
      built.metadata = fillRange raw.metadata 0 first PmapPageType.kernelData.metadata ∧
      initBlocks 0 ramSize reserved raw = .ok built := by
  have positive := requiredBytes_pos g.pageCount
  have countEq : g.pageCount = (ramSize + 4095) / 4096 := count.trans (sizeToPageCount_eq (by omega))
  have countLe := g.pageCount_le
  have ram : sub64 ramSize 0 = ramSize := sub64_of_le (Nat.zero_le _) (by omega)
  have reservedEnd : u64 (reserved + requiredBytes g.pageCount) = first * 4096 := by
    rw [endEq]
    exact u64_of_lt (by omega)
  have firstPage : paToPageId (first * 4096) = first := paToPageId_mul (by omega)
  have rest : sizeToPageCount (sub64 ramSize (first * 4096)) = g.pageCount - first := by
    rw [sub64_of_le (by omega) (by omega), sizeToPageCount_eq (by omega)]
    omega
  have low : sizeToPageCount (sub64 (first * 4096) 0) = first := by
    rw [sub64_of_le (Nat.zero_le _) (by omega), sizeToPageCount_eq (by omega)]
    omega
  have limit : first + (g.pageCount - first) = g.pageCount := by omega
  obtain ⟨fe, filled, inserted, shape, holds⟩ := buddyInsertRangeFreedLocked_spec first (g.pageCount - first)
    (by omega) (by omega) (by rwa [limit]) (create_holds same linkable) (fun _ _ member => member.elim)
  rw [limit] at holds
  have coalesced : filled.Holds g (Maximal 5 (Set.Ico first g.pageCount)) :=
    holds.congr fun _ _ => iff_of_eq (false_or _)
  refine ⟨{ filled with metadata := fillRange filled.metadata 0 first PmapPageType.kernelData.metadata },
    ⟨coalesced.withMetadata _, by rw [shape]; rfl⟩, by rw [shape]; rfl, ?_⟩
  have base : u32 (0 >>> pageShift) = 0 := rfl
  have zero : u32 0 = 0 := rfl
  rw [initBlocks]
  simp only [base, zero, ram]
  rw [← count, reservedEnd, firstPage, rest, low]
  have created (place : Nat) : PfaStore.create place 0 g.pageCount raw = .ok (raw.create 0 g.pageCount) := rfl
  rw [created, ok_bind, inserted, ok_bind]
  exact applyMetadataRangeLocked_spec coalesced.manages (by omega) _

end Pfa

/-- The arguments of `pmap_pfa_init` for RAM at address zero: everything below the reserved
boundary is in use, the allocator's own structures follow it, and the physmap lies where
`pmap_vm_init` puts it, above address zero and without wrapping. -/
structure BootParams where
  ramSize : Nat
  kernelTextBase : Nat
  kernelTextSize : Nat
  kernelDataBase : Nat
  kernelDataSize : Nat
  bootstrapPaReserved : Nat
  physmapVmBase : Nat
  ramSize_lt : ramSize < 2 ^ 32
  reserved_dvd : 4096 ∣ bootstrapPaReserved
  reserved_le : bootstrapPaReserved + requiredBytes (sizeToPageCount ramSize) ≤ ramSize
  physmap_pos : 0 < physmapVmBase
  physmap_le : physmapVmBase + roundUp ramSize 4096 ≤ 2 ^ 64

namespace BootParams
open Pfa Blocks Dyadic
variable (b : BootParams)

def pageCount : Nat := sizeToPageCount b.ramSize

theorem pageCount_eq : b.pageCount = (b.ramSize + 4095) / 4096 :=
  sizeToPageCount_eq (by have := b.ramSize_lt; omega)

/-- The managed memory when list nodes may be written to the usable pages. -/
def geometry (usable : Set Nat) : Geometry where
  physmapVmBase := b.physmapVmBase
  pageCount := b.pageCount
  usable := usable
  physmap_pos := b.physmap_pos
  physmap_fits := by
    have := b.physmap_le
    rw [b.pageCount_eq]
    exact this
  pageCount_le := by
    have := b.ramSize_lt
    rw [b.pageCount_eq]
    omega

/-- End of the reserved region and of the allocator's own structures. -/
def reservedEnd : Nat := b.bootstrapPaReserved + requiredBytes b.pageCount

/-- The first page that is not reserved. -/
def firstFree : Nat := b.reservedEnd / 4096

theorem reservedEnd_eq : b.reservedEnd = b.firstFree * 4096 := by
  have aligned : 4096 ∣ b.reservedEnd := Nat.dvd_add b.reserved_dvd (roundUp_dvd ..)
  exact (Nat.div_mul_cancel aligned).symm

theorem reservedEnd_le : b.reservedEnd ≤ b.ramSize := b.reserved_le

theorem firstFree_pos : 0 < b.firstFree := by
  have step := requiredBytes_pos b.pageCount
  have := b.reservedEnd_eq
  unfold reservedEnd at this
  omega

theorem firstFree_le : b.firstFree ≤ b.pageCount := by
  have := b.reservedEnd_eq
  have := b.reservedEnd_le
  have := b.pageCount_eq
  omega

/-- `pmap_pfa_init` as it runs on memory of any content. -/
def boot (raw : Pfa) : Except Fault Pfa :=
  pmapPfaInit 0 b.ramSize b.kernelTextBase b.kernelTextSize b.kernelDataBase b.kernelDataSize
    b.bootstrapPaReserved { raw with physmapVmBase := b.physmapVmBase }

/-- The free pages after initialisation. -/
def initialFree : Set Nat := Set.Ico b.firstFree b.pageCount

/-- Memory that may take list nodes in all usable pages. -/
def Linkable (usable : Set Nat) (raw : Pfa) : Prop :=
  ∀ p ∈ usable, raw.mayLink ((b.geometry usable).node p) = true

/-- The buddy structures that initialisation builds. -/
theorem initBlocks_returns (raw : Pfa) {usable : Set Nat} (linkable : b.Linkable usable raw)
    (within : b.initialFree ⊆ usable) :
    ∃ built : Pfa, built.Ready (b.geometry usable) b.initialFree ∧
      built.metadata = fillRange raw.metadata 0 b.firstFree PmapPageType.kernelData.metadata ∧
      initBlocks 0 b.ramSize b.bootstrapPaReserved { raw with physmapVmBase := b.physmapVmBase } = .ok built := by
  let mapped : Pfa := { raw with physmapVmBase := b.physmapVmBase }
  have owned : ∀ p ∈ (b.geometry usable).usable, mapped.mayLink ((b.geometry usable).node p) = true := linkable
  exact initBlocks_zero rfl owned b.ramSize_lt.le rfl b.reservedEnd_le b.reservedEnd_eq within

/-- Writing metadata succeeds on managed pages only and keeps the blocks. -/
theorem applyMetadata_ready {s after : Pfa} {g : Geometry} {free : Set Nat} (ready : s.Ready g free)
    {base count : Nat} {byte : BitVec 8} (run : applyMetadataRangeLocked base count byte s = .ok after) :
    after.Ready g free := by
  obtain ⟨_, -, run⟩ := bind_eq_ok.mp run
  split at run
  · cases run
  · simp only [store_fillMetadata, fillMetadata] at run
    split at run
    · cases run
      exact ⟨ready.holds.withMetadata _, ready.unlocked⟩
    · cases run

/-- Whatever the kernel ranges are: if initialisation returns, every page that is not reserved
is free and coalesced. -/
theorem boot_ready {raw s : Pfa} {usable : Set Nat} (linkable : b.Linkable usable raw)
    (within : b.initialFree ⊆ usable) (run : b.boot raw = .ok s) : s.Ready (b.geometry usable) b.initialFree := by
  obtain ⟨built, ready, -, blocks⟩ := b.initBlocks_returns raw linkable within
  rw [boot, pmapPfaInit_eq, blocks, ok_bind] at run
  obtain ⟨middle, data, text⟩ := bind_eq_ok.mp run
  exact applyMetadata_ready (applyMetadata_ready ready data) text

/-- Initialisation returns when the kernel ranges lie inside RAM. -/
theorem boot_returns (raw : Pfa) (linkable : b.Linkable b.initialFree raw)
    (data : paToPageId b.kernelDataBase + sizeToPageCount b.kernelDataSize ≤ b.pageCount)
    (text : paToPageId b.kernelTextBase + sizeToPageCount b.kernelTextSize ≤ b.pageCount) :
    ∃ s, b.boot raw = .ok s := by
  obtain ⟨built, ready, -, blocks⟩ := b.initBlocks_returns raw linkable Set.Subset.rfl
  have geometryCount : (b.geometry b.initialFree).pageCount = b.pageCount := rfl
  rw [boot, pmapPfaInit_eq, blocks, ok_bind, applyMetadataRangeLocked_spec ready.holds.manages (geometryCount ▸ data),
    ok_bind, applyMetadataRangeLocked_spec (ready.holds.withMetadata _).manages (geometryCount ▸ text)]
  exact ⟨_, rfl⟩

end BootParams

end Swink
