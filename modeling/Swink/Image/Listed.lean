import Swink.Image.Boot
import Swink.Pfa.Coalesced
import Mathlib.Data.List.Perm.Subperm

namespace Swink.PfaImage
open Mem Refinement Pfa Blocks Dyadic
variable {mdsOffset : Nat → Nat} {b : BootParams}

/-- The buddy list of a level as a walk over the links finds it. -/
def listNodes (level : Nat) (image : PfaImage mdsOffset) : List Nat :=
  Links.walk image.mem.next (listTail (image.buddyList level)) (image.pageCount + 1) (listHead (image.buddyList level))

/-- The pages on the buddy list of a level, front first. -/
def pagesOn (level : Nat) (image : PfaImage mdsOffset) : List Nat :=
  (listNodes level image).map fun elem => paToPageId (elem - image.physmapVmBase)

/-- The pages covered by the blocks on the buddy lists. -/
def freePages (image : PfaImage mdsOffset) : Set Nat :=
  {q | ∃ level < buddyLevels, ∃ p ∈ image.pagesOn level, q ∈ block level p}

/-- The same pages in the order of the lists. -/
def freeList (image : PfaImage mdsOffset) : List Nat :=
  (List.range buddyLevels).flatMap fun level => (image.pagesOn level).flatMap fun p => List.range' p (2 ^ level)

theorem mem_freeList {q : Nat} {image : PfaImage mdsOffset} : q ∈ image.freeList ↔ q ∈ image.freePages := by
  simp [freeList, freePages, mem_block]

variable {g : Geometry} {pfa level page : Nat} {start : Mem} {s : Pfa} {free : Set Nat} {image : PfaImage mdsOffset}

theorem Depicts.listNodes_eq (site : Site mdsOffset g pfa) (depicts : Depicts g pfa start s image)
    (ready : s.Ready g free) (bound : level < 6) : listNodes level image = s.buddyLists level := by
  have holds := ready.holds
  have lists := depicts.lists
  have count : image.pageCount = g.pageCount :=
    ((depicts_simulates site start).pageCount depicts).symm.trans depicts.count
  have few : (s.buddyLists level).length ≤ g.pageCount := by
    have within : s.pagesOn level ⊆ List.range g.pageCount := fun p listed =>
      List.mem_range.mpr (holds.managed.page_lt ((holds.mem_pagesOn bound).mp listed))
    simpa [Pfa.pagesOn] using ((holds.nodup_pagesOn bound).subperm within).length_le
  have fresh : listTail (listAt pfa level) ∉ s.buddyLists level := by
    have nodup := (List.nodup_cons.mp (lists.nodup level bound)).2
    rw [List.nodup_append] at nodup
    exact fun member => nodup.2.2 _ member _ (List.mem_singleton_self _) rfl
  rw [listNodes, count, depicts.buddyList_eq]
  exact (lists.chain level bound).walk_eq fresh (Nat.lt_succ_of_le few)

theorem Depicts.pagesOn_eq (site : Site mdsOffset g pfa) (depicts : Depicts g pfa start s image)
    (ready : s.Ready g free) (bound : level < 6) : image.pagesOn level = s.pagesOn level := by
  have physmap : image.physmapVmBase = s.physmapVmBase := depicts.physmap.2.trans depicts.physmap.1.symm
  rw [PfaImage.pagesOn, depicts.listNodes_eq site ready bound, physmap]
  rfl

/-- A page is listed just if it starts a maximal block of free pages. -/
theorem Depicts.mem_pagesOn (site : Site mdsOffset g pfa) (depicts : Depicts g pfa start s image)
    (ready : s.Ready g free) (bound : level < 6) : page ∈ image.pagesOn level ↔ Maximal 5 free level page := by
  rw [depicts.pagesOn_eq site ready bound]
  exact ready.holds.mem_pagesOn bound

theorem Depicts.freePages_eq (site : Site mdsOffset g pfa) (depicts : Depicts g pfa start s image)
    (ready : s.Ready g free) : image.freePages = free := by
  ext q
  refine Iff.trans ?_ (Maximal.mem_iff 5).symm
  constructor
  · rintro ⟨level, bound, p, listed, inBlock⟩
    exact ⟨level, p, (depicts.mem_pagesOn site ready bound).mp listed, inBlock⟩
  · rintro ⟨level, p, maximal, inBlock⟩
    have bound : level < 6 := by
      have := maximal.1
      omega
    exact ⟨level, bound, p, (depicts.mem_pagesOn site ready bound).mpr maximal, inBlock⟩

end Swink.PfaImage
