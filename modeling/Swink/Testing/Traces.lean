import Swink.Image.Depicts
import Swink.Lists.At

namespace Swink.PfaImage
open Mem Refinement Links
variable {mdsOffset : Nat → Nat} {g : Geometry} {pfa : Nat} {start : Mem} {s : Pfa} {image : PfaImage mdsOffset}

/-- Some backward links are the old ones or point to nodes. -/
def Backed (cells watched : Set Nat) (mem mem' : Mem) : Prop :=
  ∀ a ∈ watched, mem'.prev a = mem.prev a ∨ mem'.prev a ∈ cells

theorem Backed.mono {cells watched watched' : Set Nat} {mem mem' : Mem} (backed : Backed cells watched mem mem')
    (fewer : watched' ⊆ watched) : Backed cells watched' mem mem' := fun a member => backed a (fewer member)

theorem Backed.trans {cells watched : Set Nat} {mem mem' mem'' : Mem} (first : Backed cells watched mem mem')
    (second : Backed cells watched mem' mem'') : Backed cells watched mem mem'' := by
  intro a member
  rcases second a member with same | node
  · rw [same]
    exact first a member
  · exact Or.inr node

/-- A new backward link is the only one that changes, or it is written to a second node. -/
theorem backed_update {cells : Set Nat} {mem mem' : Mem} {a b c d : Nat} (atB : b ∈ cells) (atD : d ∈ cells)
    (links : ∀ x ∈ cells, mem'.prev x = Function.update (Function.update mem.prev a b) c d x) :
    Backed cells cells mem mem' := by
  intro x member
  rw [links x member]
  by_cases second : x = c
  · subst second
    rw [Function.update_self]
    exact Or.inr atD
  · rw [Function.update_of_ne second]
    by_cases first : x = a
    · subst first
      rw [Function.update_self]
      exact Or.inr atB
    · rw [Function.update_of_ne first]
      exact Or.inl rfl

/-- `list_push_front` writes backward links that point to nodes. -/
theorem listPushFront_backed {count level elem : Nat} {cells : Set Nat} {list : Nat → Nat} {elems : Nat → List Nat}
    {mem mem' : Mem} (nodes : Cells cells) (lists : ListsAt count cells list elems mem) (bound : level < count)
    (atElem : elem ∈ cells) (fresh : elem ∉ whole (list level) (elems level))
    (run : listPushFront (list level) elem mem = .ok mem') : Backed cells cells mem mem' := by
  have begins := lists.begin_mem bound
  have atBegin := lists.nodes level bound _ begins
  have back := lists.prev_begin bound
  have headCell := lists.head_cell bound
  have notBegin : elem ≠ mem.next (listHead (list level)) := fun same => fresh (same ▸ begins)
  have listPos : list level ≠ 0 := Nat.pos_iff_ne_zero.mp (nodes.pos _ headCell)
  obtain ⟨linked, inserted, so⟩ := listInsert_spec nodes atBegin atElem (by rwa [back]) notBegin
  rw [listPushFront, listBegin, assert_of listPos, ok_bind, ok_bind, inserted] at run
  cases run
  exact backed_update (by rwa [back]) atElem so.prev_eq

/-- `list_remove` writes a backward link that points to a node. -/
theorem listRemove_backed {count level elem : Nat} {cells : Set Nat} {list : Nat → Nat} {elems : Nat → List Nat}
    {mem mem' : Mem} (nodes : Cells cells) (lists : ListsAt count cells list elems mem) (bound : level < count)
    (member : elem ∈ elems level) (run : listRemove elem mem = .ok mem') : Backed cells cells mem mem' := by
  obtain ⟨xs, ys, shape⟩ := List.append_of_mem member
  have chain := lists.chain level bound
  have nodup := lists.nodup level bound
  have cell := lists.nodes level bound
  rw [shape] at chain nodup
  obtain ⟨left, right⟩ := chain_append.mp chain
  have before := left.prev_last_mem
  have after : mem.next elem ∈ ys ++ [listTail (list level)] := right.next_first ▸ List.head_mem _
  have atPrev : mem.prev elem ∈ cells := cell _ (by
    rw [shape, whole_append]
    exact List.mem_append_left _ before)
  have atNext : mem.next elem ∈ cells := cell _ (by
    rw [shape, whole_append]
    exact List.mem_append_right _ (List.mem_cons_of_mem _ after))
  have different : mem.prev elem ≠ elem := by
    intro same
    rw [same] at before
    rw [whole_append, List.nodup_append] at nodup
    exact nodup.2.2 elem before elem (List.mem_cons_self ..) rfl
  obtain ⟨unlinked, removed, so⟩ := listRemove_spec nodes (cell _ (mem_whole.mpr (Or.inr (Or.inl member)))) atPrev
    atNext different
  rw [removed] at run
  cases run
  intro a inside
  rw [so.prev_eq a inside]
  by_cases same : a = mem.next elem
  · subst same
    rw [Function.update_self]
    exact Or.inr atPrev
  · rw [Function.update_of_ne same]
    exact Or.inl rfl

/-- The list nodes of usable pages. -/
def pageNodes (g : Geometry) : Set Nat := {a | ∃ p ∈ g.usable, p < g.pageCount ∧ a = g.node p}

theorem pageNodes_subset (g : Geometry) (pfa : Nat) : pageNodes g ⊆ cells g pfa := fun _ member => Or.inr member

/-- The memory is that of the state, and the first word of a usable page is still what it was in
`start` unless it is now a link to a node. -/
structure Traced (g : Geometry) (pfa : Nat) (start : Mem) (s : Pfa) (image : PfaImage mdsOffset) : Prop where
  depicts : Depicts g pfa start s image
  backed : Backed (cells g pfa) (pageNodes g) start image.mem

theorem Traced.begin (depicts : Depicts g pfa image.mem s image) : Traced g pfa image.mem s image :=
  ⟨depicts, fun _ _ => Or.inl rfl⟩

/-- A write to the allocator's fields, bitmaps or metadata is no write to a node. -/
theorem Traced.record (site : Site mdsOffset g pfa) (traced : Traced g pfa start s image) {s' : Pfa} {mem : Mem}
    (depicts : Depicts g pfa start s' (image.withMem mem))
    (outside : ∀ a, a < pfa ∨ pfa + 16 ≤ a ∧ a < pfa + 208 ∨ pfa + requiredBytes g.pageCount ≤ a → mem a = image.mem a) :
    Traced g pfa start s' (image.withMem mem) := by
  refine ⟨depicts, traced.backed.trans fun a member => Or.inl ?_⟩
  have place := site.cell_place (pageNodes_subset g pfa member)
  have size := size_le_requiredBytes g.pageCount
  have same : Agree a (a + 8) image.mem mem := fun x above below => outside x (by omega)
  rw [withMem_mem, prev, prev, ptr, ptr, same.load64 le_rfl le_rfl]

/-- A node that the allocator links is that of a usable page and on no list. -/
theorem Depicts.of_pushed (site : Site mdsOffset g pfa) (depicts : Depicts g pfa start s image) {after : Pfa}
    {level elem : Nat} (run : s.listPushFront level elem = .ok after) :
    level < 6 ∧ elem ∈ cells g pfa ∧ elem ∉ whole (listAt pfa level) (s.buddyLists level) := by
  unfold Pfa.listPushFront at run
  split at run
  · cases run
  split at run
  · cases run
  split at run
  · cases run
  split at run
  · cases run
  rename_i bound nonzero unlinked may
  have bound : level < 6 := not_not.mp bound
  obtain ⟨p, usable, managed, isNode⟩ := depicts.owns elem (not_not.mp may)
  refine ⟨bound, Or.inr ⟨p, usable, managed, isNode⟩, fun member => ?_⟩
  have size := size_le_requiredBytes g.pageCount
  have clear := site.apart p usable managed
  rcases mem_whole.mp member with isHead | linked | isTail
  · unfold listHead listAt at isHead
    omega
  · exact unlinked (Pfa.linked_iff.mpr ⟨level, bound, linked⟩)
  · unfold listTail listAt at isTail
    omega

/-- The allocator keeps track of the first words of usable pages. -/
theorem traced_simulates (site : Site mdsOffset g pfa) (start : Mem) :
    Simulates fun (s : Pfa) (image : PfaImage mdsOffset) => Traced g pfa start s image := by
  have sim := depicts_simulates site start
  refine ⟨fun traced => sim.physmapVmBase traced.depicts, fun traced => sim.pageBase traced.depicts,
    fun traced => sim.pageCount traced.depicts, fun traced => sim.lockValue traced.depicts,
    fun traced => sim.lockLt traced.depicts, fun {s image} traced value small => ?_,
    fun traced => sim.bitmapWord traced.depicts, fun {s image} traced level idx word => ⟨fun after run => ?_⟩,
    fun traced => sim.listEmpty traced.depicts, fun traced => sim.listFront traced.depicts,
    fun {s image} traced level elem => ⟨fun after run => ?_⟩, fun {s image} traced elem => ⟨fun after run => ?_⟩,
    fun {s image} traced idx count byte => ⟨fun after run => ?_⟩⟩
  · have size := size_le_requiredBytes g.pageCount
    have set := sim.setLockValue traced.depicts value small
    refine traced.record site set fun a outside => store32_of_outside ?_
    rw [traced.depicts.at_pfa]
    unfold lockOffset
    omega
  · obtain ⟨after', run', depicts⟩ := (sim.setBitmapWord traced.depicts level idx word).of_ok after run
    have access : level < buddyLevels ∧ idx < bitmapWords s.pageCount level := by
      by_contra no
      rw [Pfa.store_setBitmapWord, Pfa.setBitmapWord, if_neg no] at run
      cases run
    have place := site.bitmaps_le access.1
    have inWords := access.2
    rw [traced.depicts.count] at inWords
    have mdsFits := site.mds_fits
    cases run'
    refine ⟨_, rfl, traced.record site depicts fun a outside => store64_of_outside ?_⟩
    rw [traced.depicts.buddyBitmap_eq access.1]
    omega
  · obtain ⟨after', run', depicts⟩ := (sim.listPushFront traced.depicts level elem).of_ok after run
    obtain ⟨mem', pushed, result⟩ := bind_eq_ok.mp run'
    cases result
    rw [traced.depicts.buddyList_eq] at pushed
    obtain ⟨bound, atElem, fresh⟩ := traced.depicts.of_pushed site run
    exact ⟨_, run', depicts, traced.backed.trans
      ((listPushFront_backed site.cells_apart traced.depicts.lists bound atElem fresh pushed).mono (pageNodes_subset g pfa))⟩
  · obtain ⟨after', run', depicts⟩ := (sim.listRemove traced.depicts elem).of_ok after run
    obtain ⟨mem', removed, result⟩ := bind_eq_ok.mp run'
    cases result
    have linked : s.linked elem = true := by
      by_contra no
      rw [Pfa.store_listRemove, Pfa.listRemove, if_neg no] at run
      cases run
    obtain ⟨level, bound, member⟩ := Pfa.linked_iff.mp linked
    exact ⟨_, run', depicts, traced.backed.trans
      ((listRemove_backed site.cells_apart traced.depicts.lists bound member removed).mono (pageNodes_subset g pfa))⟩
  · obtain ⟨after', run', depicts⟩ := (sim.fillMetadata traced.depicts idx count byte).of_ok after run
    have inside : idx + count ≤ s.pageCount := by
      by_contra no
      rw [Pfa.store_fillMetadata, Pfa.fillMetadata, if_neg no] at run
      cases run
    have mdsFits := site.mds_fits
    have mdsAfter := site.mds_after
    have total := pfaSize_eq
    rw [traced.depicts.count] at inside
    cases run'
    refine ⟨_, rfl, traced.record site depicts fun a outside => memset_of_outside ?_⟩
    rw [traced.depicts.metadata_eq]
    omega

end Swink.PfaImage
