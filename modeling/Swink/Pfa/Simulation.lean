import Swink.Lib.Refinement
import Swink.Pfa.Allocator

namespace Swink

open Refinement PfaStore

/-- Two ways to store the allocator that every access keeps related, as long as the access to the
first one is defined. -/
structure Simulates {σ τ : Type} [PfaStore σ] [PfaStore τ] (R : σ → τ → Prop) : Prop where
  physmapVmBase : ∀ {s t}, R s t → PfaStore.physmapVmBase s = PfaStore.physmapVmBase t
  pageBase : ∀ {s t}, R s t → PfaStore.pageBase s = PfaStore.pageBase t
  pageCount : ∀ {s t}, R s t → PfaStore.pageCount s = PfaStore.pageCount t
  lockValue : ∀ {s t}, R s t → PfaStore.lockValue s = PfaStore.lockValue t
  lockLt : ∀ {s t}, R s t → PfaStore.lockValue s < 2 ^ 32
  setLockValue : ∀ {s t}, R s t → ∀ value < 2 ^ 32,
    R (PfaStore.setLockValue value s) (PfaStore.setLockValue value t)
  bitmapWord : ∀ {s t}, R s t → ∀ level idx,
    Refines Eq (PfaStore.bitmapWord level idx s) (PfaStore.bitmapWord level idx t)
  setBitmapWord : ∀ {s t}, R s t → ∀ level idx word,
    Refines R (PfaStore.setBitmapWord level idx word s) (PfaStore.setBitmapWord level idx word t)
  listEmpty : ∀ {s t}, R s t → ∀ level, Refines Eq (PfaStore.listEmpty level s) (PfaStore.listEmpty level t)
  listFront : ∀ {s t}, R s t → ∀ level, Refines Eq (PfaStore.listFront level s) (PfaStore.listFront level t)
  listPushFront : ∀ {s t}, R s t → ∀ level elem,
    Refines R (PfaStore.listPushFront level elem s) (PfaStore.listPushFront level elem t)
  listRemove : ∀ {s t}, R s t → ∀ elem, Refines R (PfaStore.listRemove elem s) (PfaStore.listRemove elem t)
  fillMetadata : ∀ {s t}, R s t → ∀ idx count byte,
    Refines R (PfaStore.fillMetadata idx count byte s) (PfaStore.fillMetadata idx count byte t)

namespace Simulates
variable {σ τ : Type} [PfaStore σ] [PfaStore τ] {R : σ → τ → Prop} (sim : Simulates R)
include sim

theorem buddyBitmapSetBitLocked {s : σ} {t : τ} (related : R s t) (page level value : Nat) :
    Refines R (buddyBitmapSetBitLocked page level value s) (Swink.buddyBitmapSetBitLocked page level value t) := by
  simp only [Swink.buddyBitmapSetBitLocked, buddyBitmapPageIndex, buddyBitmapPageOffset, sim.pageBase related]
  refine (sim.bitmapWord related ..).bind fun word _ same => ?_
  subst same
  exact sim.setBitmapWord related ..

theorem buddyBitmapGetBitLocked {s : σ} {t : τ} (related : R s t) (page level : Nat) :
    Refines Eq (buddyBitmapGetBitLocked page level s) (Swink.buddyBitmapGetBitLocked page level t) := by
  simp only [Swink.buddyBitmapGetBitLocked, buddyBitmapPageIndex, buddyBitmapPageOffset, sim.pageBase related]
  refine (sim.bitmapWord related ..).bind fun word _ same => ?_
  subst same
  exact .refl _

theorem getPfaFreeEntryForPage {s : σ} {t : τ} (related : R s t) (page : Nat) :
    getPfaFreeEntryForPage page s = Swink.getPfaFreeEntryForPage page t := by
  simp only [Swink.getPfaFreeEntryForPage, sim.pageBase related, sim.pageCount related, sim.physmapVmBase related]

theorem synchsLockAcquire {s : σ} {t : τ} (related : R s t) :
    Refines R (synchsLockAcquire s) (Swink.synchsLockAcquire t) := by
  have small := sim.lockLt related
  simp only [Swink.synchsLockAcquire, sim.lockValue related] at small ⊢
  exact .ite (fun _ => .error ..) fun _ => .ok (sim.setLockValue related _ (by omega))

theorem synchsLockRelease {s : σ} {t : τ} (related : R s t) :
    R (synchsLockRelease s) (Swink.synchsLockRelease t) := by
  simp only [Swink.synchsLockRelease, sim.lockValue related]
  exact sim.setLockValue related _ (Nat.mod_lt _ (by decide))

theorem applyMetadataRangeLocked {s : σ} {t : τ} (related : R s t) (base count : Nat) (metadata : BitVec 8) :
    Refines R (applyMetadataRangeLocked base count metadata s)
      (Swink.applyMetadataRangeLocked base count metadata t) := by
  simp only [Swink.applyMetadataRangeLocked, sim.pageBase related, sim.pageCount related]
  refine (Refines.refl _).bind fun _ _ _ => ?_
  exact .ite (fun _ => .error ..) fun _ => sim.fillMetadata related ..

theorem buddyInsertRangeLoop (limit rounds : Nat) : ∀ {s : σ} {t : τ}, R s t → ∀ freeI fe,
    Refines (Both R) (buddyInsertRangeLoop limit rounds freeI fe s)
      (Swink.buddyInsertRangeLoop limit rounds freeI fe t) := by
  induction rounds with
  | zero =>
    intro s t related freeI fe
    exact .ite (fun _ => .error ..) fun _ => .ok ⟨rfl, related⟩
  | succ rounds ih =>
    intro s t related freeI fe
    simp only [Swink.buddyInsertRangeLoop, sim.physmapVmBase related]
    refine .ite (fun _ => ?_) fun _ => .ok ⟨rfl, related⟩
    refine (Refines.refl _).bind fun _ _ _ => (Refines.refl _).bind fun _ _ _ => ?_
    refine (sim.listPushFront related ..).bind fun s t related => ?_
    refine (sim.buddyBitmapSetBitLocked related ..).bind fun s t related => ?_
    exact ih related ..

theorem buddyInsertRangeFreedLocked {s : σ} {t : τ} (related : R s t) (base count : Nat) :
    Refines (Both R) (buddyInsertRangeFreedLocked base count s)
      (Swink.buddyInsertRangeFreedLocked base count t) := sim.buddyInsertRangeLoop _ _ related ..

theorem allocScan (rounds : Nat) : ∀ {s : σ} {t : τ}, R s t → ∀ level,
    Refines Eq (allocScan rounds level s) (Swink.allocScan rounds level t) := by
  induction rounds with
  | zero => exact fun _ _ => .refl _
  | succ rounds ih =>
    intro s t related level
    simp only [Swink.allocScan, sim.physmapVmBase related]
    refine (sim.listEmpty related level).bind fun empty _ same => ?_
    subst same
    refine .ite (fun _ => ih related _) fun _ => ?_
    refine (sim.listFront related level).bind fun front _ same => ?_
    subst same
    exact .refl _

theorem pmapPfaAllocContigSmallLocked {s : σ} {t : τ} (related : R s t) (size : Nat) (metadata : BitVec 8) :
    Refines (Both R) (pmapPfaAllocContigSmallLocked size metadata s)
      (Swink.pmapPfaAllocContigSmallLocked size metadata t) := by
  simp only [Swink.pmapPfaAllocContigSmallLocked]
  refine (sim.allocScan _ related _).bind fun found _ same => ?_
  subst same
  refine .ite (fun _ => .ok ⟨rfl, related⟩) fun _ => ?_
  refine (sim.listRemove related _).bind fun s t related => ?_
  refine (sim.buddyBitmapSetBitLocked related ..).bind fun s t related => ?_
  refine (sim.buddyInsertRangeFreedLocked related ..).bind fun inserted inserted' related => ?_
  refine (sim.applyMetadataRangeLocked related.2 ..).bind fun s t related => ?_
  exact .ok ⟨rfl, related⟩

theorem pmapPfaAllocContig {s : σ} {t : τ} (related : R s t) (size : Nat) (metadata : BitVec 8) :
    Refines (Both R) (pmapPfaAllocContig size metadata s) (Swink.pmapPfaAllocContig size metadata t) := by
  refine .ite (fun _ => .ok ⟨rfl, related⟩) fun _ => ?_
  refine (sim.synchsLockAcquire related).bind fun s t related => ?_
  refine (sim.pmapPfaAllocContigSmallLocked related ..).bind fun outcome outcome' same => ?_
  exact .ok ⟨same.1, sim.synchsLockRelease same.2⟩

theorem buddyMergeLoop (rounds : Nat) : ∀ {s : σ} {t : τ}, R s t → ∀ level page,
    Refines (Both (Both R)) (buddyMergeLoop rounds level page s) (Swink.buddyMergeLoop rounds level page t) := by
  induction rounds with
  | zero => exact fun related _ _ => .ok ⟨rfl, rfl, related⟩
  | succ rounds ih =>
    intro s t related level page
    simp only [Swink.buddyMergeLoop]
    refine (sim.buddyBitmapGetBitLocked related ..).bind fun bit _ same => ?_
    subst same
    refine .ite (fun _ => .ok ⟨rfl, rfl, related⟩) fun _ => ?_
    refine (sim.buddyBitmapSetBitLocked related ..).bind fun s t related => ?_
    rw [sim.getPfaFreeEntryForPage related]
    refine (Refines.refl _).bind fun fe _ same => ?_
    subst same
    refine (sim.listRemove related _).bind fun s t related => ?_
    exact ih related ..

theorem buddyFreePageLocked {s : σ} {t : τ} (related : R s t) (page : Nat) :
    Refines R (buddyFreePageLocked page s) (Swink.buddyFreePageLocked page t) := by
  simp only [Swink.buddyFreePageLocked]
  refine (sim.buddyMergeLoop _ related ..).bind ?_
  rintro ⟨level, page, s⟩ ⟨_, _, t⟩ ⟨rfl, rfl, related⟩
  simp only at related ⊢
  rw [sim.getPfaFreeEntryForPage related]
  refine (Refines.refl _).bind fun fe _ same => ?_
  subst same
  refine (sim.listPushFront related ..).bind fun s t related => ?_
  exact sim.buddyBitmapSetBitLocked related ..

theorem buddyFreePagesLoop (base count : Nat) : ∀ {s : σ} {t : τ}, R s t → ∀ i,
    Refines R (buddyFreePagesLoop base count i s) (Swink.buddyFreePagesLoop base count i t) := by
  induction count with
  | zero => exact fun related _ => .ok related
  | succ count ih =>
    intro s t related i
    exact (sim.buddyFreePageLocked related _).bind fun s t related => ih related _

theorem pmapPfaFreeContig {s : σ} {t : τ} (related : R s t) (addr size : Nat) :
    Refines R (pmapPfaFreeContig addr size s) (Swink.pmapPfaFreeContig addr size t) := by
  refine (sim.synchsLockAcquire related).bind fun s t related => ?_
  refine (sim.buddyFreePagesLoop _ _ related _).bind fun s t related => ?_
  exact .ok (sim.synchsLockRelease related)

/-- Initialisation keeps the relation from the point on where the structures are laid out. -/
theorem initBlocks {s : σ} {t : τ} (physmap : PfaStore.physmapVmBase s = PfaStore.physmapVmBase t)
    {ramBase ramSize reserved : Nat}
    (laidOut : Refines R
      (create (pmapPaToKva (PfaStore.physmapVmBase t) reserved) (u32 (ramBase >>> pageShift))
        (sizeToPageCount (sub64 ramSize ramBase)) s)
      (create (pmapPaToKva (PfaStore.physmapVmBase t) reserved) (u32 (ramBase >>> pageShift))
        (sizeToPageCount (sub64 ramSize ramBase)) t)) :
    Refines R (initBlocks ramBase ramSize reserved s) (Swink.initBlocks ramBase ramSize reserved t) := by
  simp only [Swink.initBlocks, physmap]
  refine laidOut.bind fun s t related => ?_
  refine (sim.buddyInsertRangeFreedLocked related ..).bind fun inserted inserted' related => ?_
  exact sim.applyMetadataRangeLocked related.2 ..

theorem pmapPfaInit {s : σ} {t : τ} {ramBase ramSize reserved : Nat} (textBase textSize dataBase dataSize : Nat)
    (built : Refines R (Swink.initBlocks ramBase ramSize reserved s) (Swink.initBlocks ramBase ramSize reserved t)) :
    Refines R (pmapPfaInit ramBase ramSize textBase textSize dataBase dataSize reserved s)
      (Swink.pmapPfaInit ramBase ramSize textBase textSize dataBase dataSize reserved t) := by
  rw [pmapPfaInit_eq, pmapPfaInit_eq]
  refine built.bind fun s t related => ?_
  refine (sim.applyMetadataRangeLocked related ..).bind fun s t related => ?_
  exact sim.applyMetadataRangeLocked related ..

end Simulates

end Swink
