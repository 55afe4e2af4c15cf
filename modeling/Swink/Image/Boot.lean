import Swink.Image.Depicts
import Swink.Pfa.Init

namespace Swink

/-- The metadata follows the bitmaps and fits into the bytes that initialisation reserves. -/
structure BootParams.Separate (b : BootParams) (mdsOffset : Nat → Nat) : Prop where
  mds_after : pfaSize + buddyBitmapRequiredBytes b.pageCount ≤ mdsOffset b.pageCount
  mds_fits : mdsOffset b.pageCount + b.pageCount ≤ requiredBytes b.pageCount

/-- Moreover the kernel image is inside RAM, so that initialisation returns. -/
structure BootParams.Placed (b : BootParams) (mdsOffset : Nat → Nat) : Prop extends b.Separate mdsOffset where
  data_inside : paToPageId b.kernelDataBase + sizeToPageCount b.kernelDataSize ≤ b.pageCount
  text_inside : paToPageId b.kernelTextBase + sizeToPageCount b.kernelTextSize ≤ b.pageCount

/-- `pmap_pa_to_kva(bootstrap_pa_reserved)`, where the allocator's structures start. -/
def BootParams.pfaAddr (b : BootParams) : Nat := b.physmapVmBase + b.bootstrapPaReserved

/-- The pages of the allocator's structures, which are managed pages. -/
def BootParams.ownPages (b : BootParams) : Set Nat := Set.Ico (b.bootstrapPaReserved / 4096) b.firstFree

/-- The managed pages that are none of its own. -/
def BootParams.releasable (b : BootParams) : Set Nat := Set.Iio b.pageCount \ b.ownPages

theorem BootParams.initialFree_subset (b : BootParams) : b.initialFree ⊆ b.releasable :=
  fun _ member => ⟨member.2, fun own => Nat.not_le_of_gt own.2 member.1⟩

/-- Memory that may take list nodes in the given pages only. -/
noncomputable def Pfa.guard (g : Geometry) (usable : Set Nat) (s : Pfa) : Pfa :=
  open Classical in
  { s with mayLink := fun a => decide (∃ p ∈ usable, p < g.pageCount ∧ a = g.node p) }

namespace PfaImage
open Mem Refinement
variable {mdsOffset : Nat → Nat} {b : BootParams}

/-- `pmap_pfa_init` as it runs on memory of any content. -/
def boot (b : BootParams) (raw : PfaImage mdsOffset) : Except Fault (PfaImage mdsOffset) :=
  pmapPfaInit 0 b.ramSize b.kernelTextBase b.kernelTextSize b.kernelDataBase b.kernelDataSize
    b.bootstrapPaReserved { raw with physmapVmBase := b.physmapVmBase }

/-- The allocator's structures share no byte with pages that are none of their own. -/
theorem site_of_releasable (separate : b.Separate mdsOffset) {usable : Set Nat} (within : usable ⊆ b.releasable) :
    Site mdsOffset (b.geometry usable) b.pfaAddr where
  pos := Nat.add_pos_left b.physmap_pos _
  fits := by
    have fits := (b.geometry usable).physmap_fits
    have endLe := b.reservedEnd_le
    have count := b.pageCount_eq
    have same : b.reservedEnd = b.bootstrapPaReserved + requiredBytes b.pageCount := rfl
    show b.physmapVmBase + b.bootstrapPaReserved + requiredBytes b.pageCount ≤ 2 ^ 64
    have fits : b.physmapVmBase + b.pageCount * 4096 ≤ 2 ^ 64 := fits
    omega
  mds_after := separate.mds_after
  mds_fits := separate.mds_fits
  nonempty := by
    have := b.firstFree_pos
    have := b.firstFree_le
    show 0 < b.pageCount
    omega
  apart p member _ := by
    have endEq := b.reservedEnd_eq
    have same : b.reservedEnd = b.bootstrapPaReserved + requiredBytes b.pageCount := rfl
    have aligned := Nat.div_mul_cancel b.reserved_dvd
    have foreign : p < b.bootstrapPaReserved / 4096 ∨ b.firstFree ≤ p := by
      by_contra own
      exact (within member).2 (Set.mem_Ico.mpr (by omega))
    show b.physmapVmBase + p * 4096 + 16 ≤ b.physmapVmBase + b.bootstrapPaReserved ∨
      b.physmapVmBase + b.bootstrapPaReserved + requiredBytes b.pageCount ≤ b.physmapVmBase + p * 4096
    omega

theorem site_of_unreserved (separate : b.Separate mdsOffset) {usable : Set Nat} (within : usable ⊆ b.initialFree) :
    Site mdsOffset (b.geometry usable) b.pfaAddr :=
  site_of_releasable separate (within.trans b.initialFree_subset)

/-- The state that freshly initialised memory depicts. -/
theorem Fresh.depicts {g : Geometry} {pfa : Nat} {raw image : PfaImage mdsOffset} (site : Site mdsOffset g pfa)
    (physmap : raw.physmapVmBase = g.physmapVmBase) (fresh : Fresh mdsOffset pfa 0 g.pageCount raw image) {start : Pfa}
    (same : start.physmapVmBase = g.physmapVmBase)
    (owns : ∀ a, start.mayLink a = true → ∃ p ∈ g.usable, p < g.pageCount ∧ a = g.node p)
    (bytes : ∀ idx < g.pageCount, start.metadata idx = raw.mem (pfa + mdsOffset g.pageCount + idx)) :
    Depicts g pfa raw.mem (start.create 0 g.pageCount) image where
  at_pfa := fresh.at_pfa
  physmap := ⟨same, fresh.physmap.trans physmap⟩
  count := rfl
  record := by
    have lock := fresh.lock
    have base := fresh.base
    have count := fresh.count
    have metadata := fresh.metadata
    unfold PfaImage.lockValue at lock
    unfold PfaImage.pageBase at base
    unfold PfaImage.pageCount at count
    unfold PfaImage.metadata at metadata
    rw [fresh.at_pfa] at lock base count metadata
    refine ⟨lock, base, count, fun level bound => ?_, metadata, fun level bound idx lt => ?_, fun idx lt => ?_⟩
    · rw [bitmapAt, ← pfaSize_eq, ← fresh.bitmap level bound, buddyBitmap, fresh.at_pfa]
      rfl
    · -- the words of the bitmaps are cleared
      have place := site.bitmaps_le bound
      have last := bitmapBytesBelow_mono g.pageCount (Nat.succ_le_of_lt bound)
      have total := buddyBitmapRequiredBytes_eq g.pageCount
      have size := pfaSize_eq
      have level_eq := requiredBytesForLevel_eq g.pageCount level
      rw [bitmapBytesBelow] at last
      unfold buddyLevels at total
      have zero : Agree (bitmapAt pfa g.pageCount level)
          (bitmapAt pfa g.pageCount level + bitmapWords g.pageCount level * 8)
          (fun _ => 0) image.mem := fun a above below =>
        fresh.cleared a (by omega) (by unfold bitmapAt at below; omega)
      rw [zero.load64 (by omega) (by omega)]
      simp [Mem.load64, ByteMemory.load, Pfa.create]
    · have after := site.mds_after
      rw [fresh.untouched _ (by omega)]
      exact (bytes idx lt).symm
  lists := by
    have inCells {level : Nat} (bound : level < 6) :
        listHead (listAt pfa level) ∈ cells g pfa ∧ listTail (listAt pfa level) ∈ cells g pfa :=
      ⟨Or.inl ⟨level, bound, Or.inl rfl⟩, Or.inl ⟨level, bound, Or.inr rfl⟩⟩
    have list (level : Nat) : image.buddyList level = listAt pfa level := by
      rw [buddyList, fresh.at_pfa]
      rfl
    refine ⟨fun level bound => ⟨?_, ?_⟩, fun level bound a member => ?_, fun level bound => ?_,
      fun level bound level' bound' different a member member' => ?_⟩
    · rw [← list, fresh.list_next level bound]
    · rw [← list, fresh.list_prev level bound]
    · rcases mem_whole.mp member with rfl | inside | rfl
      · exact (inCells bound).1
      · exact absurd inside List.not_mem_nil
      · exact (inCells bound).2
    · simp [whole, Pfa.create, listHead, listTail]
    · simp only [whole, Pfa.create, List.nil_append, List.mem_cons, List.not_mem_nil, or_false] at member member'
      unfold listHead listTail listAt at member member'
      omega
  owns := owns
  frame a outside _ := by
    have after := site.mds_after
    have fits := site.mds_fits
    exact fresh.untouched a (by omega)

theorem guard_owns (g : Geometry) (usable : Set Nat) (s : Pfa) (a : Nat) :
    (s.guard g usable).mayLink a = true ↔ ∃ p ∈ usable, p < g.pageCount ∧ a = g.node p := by
  classical
  exact decide_eq_true_iff

/-- Laying out the structures in memory depicts laying them out on some state. -/
theorem create_depicts {g : Geometry} {place : Nat} (site : Site mdsOffset g place) {raw : PfaImage mdsOffset}
    (physmap : raw.physmapVmBase = g.physmapVmBase) :
    ∃ start : Pfa, start.physmapVmBase = g.physmapVmBase ∧
      (∀ p ∈ g.usable, p < g.pageCount → start.mayLink (g.node p) = true) ∧
      Refines (fun (s : Pfa) (image : PfaImage mdsOffset) => Depicts g place raw.mem s image)
        (.ok (start.create 0 g.pageCount)) (create place 0 g.pageCount raw) := by
  have size := pfaSize_eq
  have reserve := requiredBytes_le g.pageCount
  have fits := site.fits
  have mdsFits := site.mds_fits
  have nonempty := site.nonempty
  have countLe := g.pageCount_le
  let blank : Pfa :=
    { physmapVmBase := g.physmapVmBase
      pageBase := 0
      pageCount := 0
      lock := 0
      buddyLists := fun _ => []
      buddyBitmaps := fun _ _ => 0
      metadata := fun idx => raw.mem (place + mdsOffset g.pageCount + idx)
      mayLink := fun _ => true }
  have owns := guard_owns g g.usable blank
  obtain ⟨image, run, fresh⟩ :=
    create_spec raw place 0 g.pageCount site.pos (by decide) (by omega) (by omega) (by omega)
  refine ⟨blank.guard g g.usable, rfl, fun p member managed => (owns _).mpr ⟨p, member, managed, rfl⟩, ?_⟩
  rw [run]
  exact .ok (fresh.depicts site physmap rfl (fun a may => (owns _).mp may) fun idx _ => rfl)

/-- A store in which the structures are laid out as on a state is initialised as the state is. -/
theorem initBlocks_refines {σ : Type} [PfaStore σ] {R : Pfa → σ → Prop} (sim : Simulates R) {start : Pfa} {raw : σ}
    (physmap : start.physmapVmBase = b.physmapVmBase) (same : PfaStore.physmapVmBase raw = b.physmapVmBase)
    (laidOut : Refines R (.ok (start.create 0 b.pageCount)) (PfaStore.create b.pfaAddr 0 b.pageCount raw)) :
    Refines R (initBlocks 0 b.ramSize b.bootstrapPaReserved { start with physmapVmBase := b.physmapVmBase })
      (initBlocks 0 b.ramSize b.bootstrapPaReserved raw) := by
  have fits := (b.geometry Set.univ).physmap_fits
  have reserved := b.reserved_le
  have ramLt := b.ramSize_lt
  have address : pmapPaToKva b.physmapVmBase b.bootstrapPaReserved = b.pfaAddr :=
    u64_of_lt (by
      have count := b.pageCount_eq
      have endLe := b.reservedEnd_le
      have sameEnd : b.reservedEnd = b.bootstrapPaReserved + requiredBytes b.pageCount := rfl
      have positive := requiredBytes_le b.pageCount
      have size := pfaSize_eq
      have fits : b.physmapVmBase + b.pageCount * 4096 ≤ 2 ^ 64 := fits
      omega)
  have base : u32 (0 >>> pageShift) = 0 := rfl
  have ram : sub64 b.ramSize 0 = b.ramSize := sub64_of_le (Nat.zero_le _) (by omega)
  have whole : { start with physmapVmBase := b.physmapVmBase } = start := by
    cases start
    subst physmap
    rfl
  rw [whole]
  refine sim.initBlocks (physmap.trans same.symm) ?_
  rw [same, ram, address, base]
  exact laidOut

/-- The structures in memory are laid out as on a state with the same metadata. -/
theorem layout_depicts (separate : b.Separate mdsOffset) {usable : Set Nat} (within : usable ⊆ b.releasable)
    (raw : PfaImage mdsOffset) :
    ∃ start : Pfa, start.physmapVmBase = b.physmapVmBase ∧ b.Linkable usable start ∧ Refines
      (fun (s : Pfa) (image : PfaImage mdsOffset) => Depicts (b.geometry usable) b.pfaAddr raw.mem s image)
      (.ok (start.create 0 b.pageCount)) (create b.pfaAddr 0 b.pageCount { raw with physmapVmBase := b.physmapVmBase }) := by
  obtain ⟨start, physmap, linkable, laidOut⟩ := create_depicts (site_of_releasable separate within)
    (show ({ raw with physmapVmBase := b.physmapVmBase } : PfaImage mdsOffset).physmapVmBase = b.physmapVmBase from rfl)
  exact ⟨start, physmap, fun p member => linkable p member (within member).1, laidOut⟩

/-- What initialisation builds in memory is what it builds on a state with the same metadata. -/
theorem initBlocks_depicts (separate : b.Separate mdsOffset) {usable : Set Nat} (within : usable ⊆ b.releasable)
    (raw : PfaImage mdsOffset) :
    ∃ start : Pfa, b.Linkable usable start ∧ Refines
      (fun (s : Pfa) (image : PfaImage mdsOffset) => Depicts (b.geometry usable) b.pfaAddr raw.mem s image)
      (initBlocks 0 b.ramSize b.bootstrapPaReserved { start with physmapVmBase := b.physmapVmBase })
      (initBlocks 0 b.ramSize b.bootstrapPaReserved { raw with physmapVmBase := b.physmapVmBase }) := by
  obtain ⟨start, physmap, linkable, laidOut⟩ := layout_depicts separate within raw
  exact ⟨start, linkable,
    initBlocks_refines (depicts_simulates (site_of_releasable separate within) raw.mem) physmap rfl laidOut⟩

theorem boot_depicts (placed : b.Placed mdsOffset) (raw : PfaImage mdsOffset) :
    ∃ start : Pfa, b.Linkable b.initialFree start ∧ Refines
      (fun (s : Pfa) (image : PfaImage mdsOffset) => Depicts (b.geometry b.initialFree) b.pfaAddr raw.mem s image)
      (b.boot start) (boot b raw) := by
  obtain ⟨start, linkable, built⟩ := initBlocks_depicts placed.toSeparate b.initialFree_subset raw
  have site := site_of_unreserved placed.toSeparate (Set.Subset.refl b.initialFree)
  exact ⟨start, linkable, (depicts_simulates site raw.mem).pmapPfaInit _ _ _ _ built⟩

end PfaImage

end Swink
