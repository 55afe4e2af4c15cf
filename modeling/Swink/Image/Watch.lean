import Swink.Image.Invariant

namespace Swink

/-- The allocator's memory under watch, with the number of pages that the structures were laid out
for. A bitmap word or a metadata entry that is not reserved, and the unlinking of anything but a node in
a managed page, stop the run. -/
structure WatchedPfa (mdsOffset : Nat → Nat) where
  image : PfaImage mdsOffset
  pages : Nat

namespace WatchedPfa
open PfaImage
variable {mdsOffset : Nat → Nat}

def withImage (t : WatchedPfa mdsOffset) (image : PfaImage mdsOffset) : WatchedPfa mdsOffset := { t with image := image }

/-- Whether `buddy_bitmap_required_bytes_for_level` reserves a word. -/
def reserves (t : WatchedPfa mdsOffset) (level idx : Nat) : Bool :=
  decide (level < buddyLevels) && decide (idx < bitmapWords t.pages level)

/-- Whether an address lies in a managed page. -/
def manages (t : WatchedPfa mdsOffset) (elem : Nat) : Bool :=
  decide (t.image.physmapVmBase ≤ elem) && decide (elem < t.image.physmapVmBase + t.pages * pageSize)

instance instPfaStore : PfaStore (WatchedPfa mdsOffset) where
  physmapVmBase t := PfaStore.physmapVmBase t.image
  pageBase t := PfaStore.pageBase t.image
  pageCount t := PfaStore.pageCount t.image
  lockValue t := PfaStore.lockValue t.image
  setLockValue value t := t.withImage (PfaStore.setLockValue value t.image)
  create pfa pageBase pageCount t := do
    let image ← PfaStore.create pfa pageBase pageCount t.image
    .ok ⟨image, pageCount⟩
  bitmapWord level idx t :=
    if t.reserves level idx then PfaStore.bitmapWord level idx t.image
    else .error (.undefined "pfa->buddy_bitmaps")
  setBitmapWord level idx word t :=
    if t.reserves level idx then do
      let image ← PfaStore.setBitmapWord level idx word t.image
      .ok (t.withImage image)
    else .error (.undefined "pfa->buddy_bitmaps")
  listEmpty level t := PfaStore.listEmpty level t.image
  listFront level t := PfaStore.listFront level t.image
  listPushFront level elem t := do
    let image ← PfaStore.listPushFront level elem t.image
    .ok (t.withImage image)
  listRemove elem t :=
    if t.manages elem then do
      let image ← PfaStore.listRemove elem t.image
      .ok (t.withImage image)
    else .error (.undefined "elem is in no managed page")
  metadataByte idx t :=
    if idx < t.pages then PfaStore.metadataByte idx t.image
    else .error (.undefined "pfa->metadata")
  fillMetadata idx count byte t :=
    if idx + count ≤ t.pages then do
      let image ← PfaStore.fillMetadata idx count byte t.image
      .ok (t.withImage image)
    else .error (.undefined "pfa->metadata")

end WatchedPfa

namespace PfaImage
open Mem Refinement Pfa Blocks Dyadic
variable {mdsOffset : Nat → Nat} {g : Geometry} {place : Nat} {start : Mem} {s : Pfa} {image : PfaImage mdsOffset}

/-- A node that can be unlinked is the node of a managed page. -/
theorem Depicts.linked_managed (depicts : Depicts g place start s image) {elem : Nat} (linked : s.linked elem = true) :
    ∃ p < g.pageCount, elem = g.node p := by
  obtain ⟨level, bound, member⟩ := linked_iff.mp linked
  have lists := depicts.lists
  rcases lists.nodes level bound elem (mem_whole.mpr (Or.inr (Or.inl member))) with
    ⟨l, lt, isHead | isTail⟩ | ⟨p, -, managed, isNode⟩
  · exact absurd isHead (lists.elem_ne bound member lt).1
  · exact absurd isTail (lists.elem_ne bound member lt).2
  · exact ⟨p, managed, isNode⟩

end PfaImage

namespace WatchedPfa
open PfaImage Refinement Pfa Blocks Dyadic

variable {g : Geometry} {place : Nat} {before : Mem} {s : Pfa} {t : WatchedPfa mdsOffset}

/-- The memory under watch depicts a state. -/
def Depicts (g : Geometry) (place : Nat) (before : Mem) (s : Pfa) (t : WatchedPfa mdsOffset) : Prop :=
  t.pages = g.pageCount ∧ PfaImage.Depicts g place before s t.image

/-- No watch stops an access that is defined on the state. -/
theorem depicts_simulates (site : Site mdsOffset g place) (before : Mem) :
    Simulates fun (s : Pfa) (t : WatchedPfa mdsOffset) => Depicts g place before s t where
  physmapVmBase related := (PfaImage.depicts_simulates site before).physmapVmBase related.2
  pageBase related := (PfaImage.depicts_simulates site before).pageBase related.2
  pageCount related := (PfaImage.depicts_simulates site before).pageCount related.2
  lockValue related := (PfaImage.depicts_simulates site before).lockValue related.2
  lockLt related := (PfaImage.depicts_simulates site before).lockLt related.2
  setLockValue related value small :=
    ⟨related.1, (PfaImage.depicts_simulates site before).setLockValue related.2 value small⟩
  bitmapWord {s t} related level idx := by
    have sim := PfaImage.depicts_simulates site before
    refine (sim.bitmapWord related.2 level idx).checked fun word run => ?_
    rw [store_bitmapWord, Pfa.bitmapWord] at run
    split at run
    · rename_i access
      rw [related.2.count] at access
      simpa [reserves, related.1] using access
    · cases run
  setBitmapWord {s t} related level idx word := by
    have sim := PfaImage.depicts_simulates site before
    refine ((sim.setBitmapWord related.2 level idx word).wrap t.withImage fun _ _ next => ⟨related.1, next⟩).checked
      fun after run => ?_
    rw [store_setBitmapWord, Pfa.setBitmapWord] at run
    split at run
    · rename_i access
      rw [related.2.count] at access
      simpa [reserves, related.1] using access
    · cases run
  listEmpty related := (PfaImage.depicts_simulates site before).listEmpty related.2
  listFront related := (PfaImage.depicts_simulates site before).listFront related.2
  listPushFront {s t} related level elem :=
    ((PfaImage.depicts_simulates site before).listPushFront related.2 level elem).wrap t.withImage
      fun _ _ next => ⟨related.1, next⟩
  listRemove {s t} related elem := by
    have sim := PfaImage.depicts_simulates site before
    refine ((sim.listRemove related.2 elem).wrap t.withImage fun _ _ next => ⟨related.1, next⟩).checked
      fun after run => ?_
    rw [store_listRemove, Pfa.listRemove] at run
    split at run
    · rename_i linked
      obtain ⟨p, managed, rfl⟩ := related.2.linked_managed linked
      simp only [manages, related.1, related.2.physmap.2, Geometry.node, pageSize_eq, Bool.and_eq_true, decide_eq_true_eq]
      omega
    · cases run
  fillMetadata {s t} related idx count byte := by
    have sim := PfaImage.depicts_simulates site before
    refine ((sim.fillMetadata related.2 idx count byte).wrap t.withImage fun _ _ next => ⟨related.1, next⟩).checked
      fun after run => ?_
    rw [store_fillMetadata, Pfa.fillMetadata] at run
    split at run
    · rename_i access
      rwa [related.2.count, ← related.1] at access
    · cases run

/-- Watching changes nothing: where no watch stops the run, the memory alone does the same. -/
theorem passive : Simulates fun (t : WatchedPfa mdsOffset) (image : PfaImage mdsOffset) => t.image = image where
  physmapVmBase same := by
    subst same
    rfl
  pageBase same := by
    subst same
    rfl
  pageCount same := by
    subst same
    rfl
  lockValue same := by
    subst same
    rfl
  lockLt {t _} _ := (t.image.mem.load32 (t.image.pfa + lockOffset)).isLt
  setLockValue same value _ := by
    subst same
    rfl
  bitmapWord {t _} same level idx := by
    subst same
    exact .unchecked (.refl _)
  setBitmapWord {t _} same level idx word := by
    subst same
    exact .unchecked (.unwrap _ (.refl _))
  listEmpty {t _} same level := by
    subst same
    exact .refl _
  listFront {t _} same level := by
    subst same
    exact .refl _
  listPushFront {t _} same level elem := by
    subst same
    exact .unwrap _ (.refl _)
  listRemove {t _} same elem := by
    subst same
    exact .unchecked (.unwrap _ (.refl _))
  fillMetadata {t _} same idx count byte := by
    subst same
    exact .unchecked (.unwrap _ (.refl _))

end WatchedPfa

end Swink
