import Swink.Lists.Edit
import Swink.Testing.Outstanding

namespace Swink.TestPmapPfa
open PfaImage Mem Pfa Blocks Dyadic
variable {mdsOffset : Nat → Nat} {b : BootParams} {image : PfaImage mdsOffset} {base held usable : Set Nat} {past cnt : Int}
  {start mem mem' : Mem} {l : Nat} {pages : List Nat}

/-- The list node of a marked page, `&osp->elem`. -/
def elemAt (b : BootParams) (q : Nat) : Nat := b.physmapVmBase + q * 4096 + elemOffset

/-- The list on the stack shares no byte with the allocator's structures or the pages that are free
when the tests start. -/
structure Stack (b : BootParams) (base : Set Nat) (l : Nat) : Prop where
  pos : 0 < l
  fits : l + sizeofList ≤ 2 ^ 64
  own : l + sizeofList ≤ b.pfaAddr ∨ b.pfaAddr + requiredBytes b.pageCount ≤ l
  pages : ∀ q ∈ b.initialFree \ base,
    l + sizeofList ≤ b.physmapVmBase + q * 4096 ∨ b.physmapVmBase + q * 4096 + 4096 ≤ l

theorem page_fits {q : Nat} (member : q ∈ b.initialFree) :
    b.pfaAddr + requiredBytes b.pageCount ≤ b.physmapVmBase + q * 4096 ∧
      b.physmapVmBase + q * 4096 + 4096 ≤ 2 ^ 64 := by
  have reserved := member.1
  have managed := member.2
  have endEq := b.reservedEnd_eq
  have same : b.reservedEnd = b.bootstrapPaReserved + requiredBytes b.pageCount := rfl
  have start : b.pfaAddr = b.physmapVmBase + b.bootstrapPaReserved := rfl
  have fits : b.physmapVmBase + b.pageCount * 4096 ≤ 2 ^ 64 := (b.geometry b.initialFree).physmap_fits
  omega

/-- A node of the list is a sentinel on the stack or lies after the first word of a page. -/
theorem mem_nodes {a : Nat} (member : a ∈ whole l (pages.map (elemAt b))) :
    (a = l ∨ a = l + 16) ∨ ∃ q ∈ pages, a = b.physmapVmBase + q * 4096 + 8 := by
  rcases mem_whole.mp member with isHead | inside | isTail
  · exact Or.inl (Or.inl isHead)
  · obtain ⟨q, here, rfl⟩ := List.mem_map.mp inside
    exact Or.inr ⟨q, here, rfl⟩
  · exact Or.inl (Or.inr isTail)

theorem nodes_cells (stack : Stack b base l) (fresh : ∀ q ∈ pages, q ∈ b.initialFree \ base) :
    Cells {a | a ∈ whole l (pages.map (elemAt b))} := by
  have pos := stack.pos
  have fits : l + 32 ≤ 2 ^ 64 := stack.fits
  have place {q : Nat} (member : q ∈ pages) : l + 32 ≤ b.physmapVmBase + q * 4096 ∨ b.physmapVmBase + q * 4096 + 4096 ≤ l :=
    stack.pages q (fresh q member)
  refine ⟨fun a member => ?_, fun a member => ?_, fun a member a' member' different => ?_⟩
  · rcases mem_nodes member with onStack | ⟨q, -, rfl⟩ <;> omega
  · rcases mem_nodes member with onStack | ⟨q, inside, rfl⟩
    · omega
    · have := page_fits (fresh q inside).1
      omega
  · rcases mem_nodes member with onStack | ⟨q, inside, rfl⟩ <;> rcases mem_nodes member' with onStack' | ⟨q', inside', rfl⟩
    · omega
    · have := place inside'
      omega
    · have := place inside
      omega
    · omega

theorem nodes_nodup (stack : Stack b base l) (nodup : pages.Nodup) (fresh : ∀ q ∈ pages, q ∈ b.initialFree \ base) :
    (whole l (pages.map (elemAt b))).Nodup := by
  have apart {a : Nat} (member : a ∈ pages.map (elemAt b)) : a ≠ l ∧ a ≠ l + 16 := by
    obtain ⟨q, inside, rfl⟩ := List.mem_map.mp member
    have place : l + 32 ≤ b.physmapVmBase + q * 4096 ∨ b.physmapVmBase + q * 4096 + 4096 ≤ l :=
      stack.pages q (fresh q inside)
    unfold elemAt elemOffset
    omega
  have distinct : (pages.map (elemAt b)).Nodup := by
    refine nodup.map fun q q' same => ?_
    unfold elemAt at same
    omega
  refine List.nodup_cons.mpr ⟨fun member => ?_, List.nodup_append.mpr ⟨distinct, List.nodup_singleton _, ?_⟩⟩
  · rcases List.mem_append.mp member with inside | isTail
    · exact (apart inside).1 rfl
    · have := List.mem_singleton.mp isTail
      unfold listHead listTail at this
      omega
  · intro a inside a' isTail same
    rw [same, List.mem_singleton.mp isTail] at inside
    exact (apart inside).2 rfl

/-- The marks on pages are not in the nodes of the list. -/
theorem untouched_word (stack : Stack b base l) (untouched : Untouched {a | a ∈ whole l (pages.map (elemAt b))} mem mem')
    {q : Nat} (member : q ∈ b.initialFree \ base) :
    Agree (b.physmapVmBase + q * 4096) (b.physmapVmBase + q * 4096 + 8) mem mem' := by
  intro a lower upper
  have place : l + 32 ≤ b.physmapVmBase + q * 4096 ∨ b.physmapVmBase + q * 4096 + 4096 ≤ l := stack.pages q member
  refine untouched a fun c inside => ?_
  rcases mem_nodes inside with onStack | ⟨q', -, rfl⟩ <;> omega

/-- The nodes of the list are on the stack and in the pages. -/
theorem untouched_outside (untouched : Untouched {a | a ∈ whole l (pages.map (elemAt b))} mem mem') {a : Nat}
    (offStack : a < l ∨ l + sizeofList ≤ a) (offPages : a ∉ bytesOf b {q | q ∈ pages}) : mem' a = mem a := by
  have offStack : a < l ∨ l + 32 ≤ a := offStack
  refine untouched a fun c inside => ?_
  rcases mem_nodes inside with onStack | ⟨q, here, rfl⟩
  · omega
  · by_contra within
    exact offPages ⟨q, here, by omega, by omega⟩

/-- The allocator leaves the list on pages that are not its own alone. -/
theorem Kept.list (kept : Kept (b.geometry usable) b.pfaAddr mem mem') (stack : Stack b base l)
    (within : usable ⊆ b.initialFree \ base) (fresh : ∀ q ∈ pages, q ∈ b.initialFree \ base) (taken : ∀ q ∈ pages, q ∉ usable)
    (at_ : ListAt l (pages.map (elemAt b)) mem) : ListAt l (pages.map (elemAt b)) mem' := by
  have own : l + 32 ≤ b.pfaAddr ∨ b.pfaAddr + requiredBytes b.pageCount ≤ l := stack.own
  have count : (b.geometry usable).pageCount = b.pageCount := rfl
  refine at_.congr fun a member x above below => kept.frame x ?_ fun p usablePage _ => ?_
  · rw [count]
    rcases mem_nodes member with onStack | ⟨q, inside, rfl⟩
    · omega
    · have := page_fits (fresh q inside).1
      omega
  · show x < b.physmapVmBase + p * 4096 ∨ b.physmapVmBase + p * 4096 + 16 ≤ x
    rcases mem_nodes member with onStack | ⟨q, inside, rfl⟩
    · have place : l + 32 ≤ b.physmapVmBase + p * 4096 ∨ b.physmapVmBase + p * 4096 + 4096 ≤ l :=
        stack.pages p (within usablePage)
      omega
    · have different : q ≠ p := fun same => taken q inside (same ▸ usablePage)
      omega

/-- Writes of the tests to their list and to the pages they hold do not matter to the allocator. -/
theorem Holding.scribble (placed : b.Placed mdsOffset) (stack : Stack b base l)
    (holding : Holding b start base l past held image)
    (same : ∀ a, (a < l ∨ l + sizeofList ≤ a) → a ∉ bytesOf b (held \ base) → mem a = image.mem a)
    (unmarked : Unmarked b (b.initialFree \ base) past mem) : Holding b start base l past held (image.withMem mem) := by
  obtain ⟨w, mirrors⟩ := holding.mirrors
  have own : l + 32 ≤ b.pfaAddr ∨ b.pfaAddr + requiredBytes b.pageCount ≤ l := stack.own
  have size : sizeofList = 32 := rfl
  refine ⟨⟨w, mirrors.scribble placed (fun a lower upper => same a (by omega) ?_) fun p free a lower upper => same a ?_ ?_⟩,
    holding.base_le, unmarked, fun a out => (same a out.2.2 fun inside => out.2.1 ?_).trans (holding.outside a out)⟩
  · rintro ⟨q, member, above, -⟩
    have := page_fits (mirrors.owned member.1)
    omega
  · have place : l + 32 ≤ b.physmapVmBase + p * 4096 ∨ b.physmapVmBase + p * 4096 + 4096 ≤ l :=
      stack.pages p ⟨free.1, fun inBase => free.2 (holding.base_le inBase)⟩
    omega
  · rintro ⟨q, member, above, below⟩
    obtain rfl : p = q := by omega
    exact free.2 member.1
  · obtain ⟨q, member, range⟩ := inside
    exact ⟨q, ⟨mirrors.owned member.1, member.2⟩, range⟩

/-- During `oom_sweep` the pages on the list are those that the tests hold. -/
structure Collected (b : BootParams) (start : Mem) (base : Set Nat) (l : Nat) (cnt : Int) (pages : List Nat)
    (image : PfaImage mdsOffset) : Prop where
  holding : Holding b start base l cnt (base ∪ {q | q ∈ pages}) image
  list : ListAt l (pages.map (elemAt b)) image.mem
  nodup : pages.Nodup
  fresh : ∀ q ∈ pages, q ∈ b.initialFree \ base

theorem union_cons (base : Set Nat) (q : Nat) (pages : List Nat) :
    base ∪ {p | p ∈ pages} ∪ {q} = base ∪ {p | p ∈ q :: pages} := by
  ext p
  simp only [Set.mem_union, Set.mem_ofPred_eq, Set.mem_singleton_iff, List.mem_cons]
  tauto

/-- A page that the allocator hands out is unmarked; then it is marked and linked. -/
theorem Collected.push (placed : b.Placed mdsOffset) (above : AboveMarks b) (stack : Stack b base l) (pos : 0 < cnt)
    (small : cnt ≤ INT_MAX) (collected : Collected b start base l cnt pages image)
    (clean : Unmarked b (b.initialFree \ (base ∪ {q | q ∈ pages})) (cnt - 1) image.mem)
    (nonempty : (b.initialFree \ (base ∪ {q | q ∈ pages})).Nonempty) :
    ∃ q after mem, pmapPfaAllocContig pageSize pfaMetadata image = .ok (q * pageSize, after) ∧
      q * pageSize ≠ physAddrInvalid ∧ pmapPaToKva after.physmapVmBase (q * pageSize) = b.physmapVmBase + q * 4096 ∧
      after.mem.load64 (b.physmapVmBase + q * 4096) ≠ magicOf cnt ∧
      listPushFront l (elemAt b q) (after.mem.store64 (b.physmapVmBase + q * 4096) (magicOf cnt)) = .ok mem ∧
      Collected b start base l cnt (q :: pages) (after.withMem mem) ∧
      Unmarked b (b.initialFree \ (base ∪ {p | p ∈ q :: pages})) (cnt - 1) mem := by
  obtain ⟨w, mirrors⟩ := collected.holding.mirrors
  obtain ⟨q, free, s, run, ready⟩ := mirrors.ready.allocPage nonempty pfaMetadata
  have taken : pagesOf (q * pageSize) pageSize = {q} := pagesOf_page q
  rw [← taken] at ready
  obtain ⟨after, run', holding, kept⟩ := collected.holding.request placed above pos.le mirrors run
    (taken ▸ Set.singleton_subset_iff.mpr free) ready
  rw [taken, union_cons] at holding
  have new : q ∉ pages := fun member => free.2 (Or.inr member)
  have freshCons : ∀ p ∈ q :: pages, p ∈ b.initialFree \ base := by
    intro p member
    rcases List.mem_cons.mp member with rfl | member
    · exact ⟨free.1, fun inBase => free.2 (Or.inl inBase)⟩
    · exact collected.fresh p member
  have nodupCons : (q :: pages).Nodup := List.nodup_cons.mpr ⟨new, collected.nodup⟩
  have fits := page_fits free.1
  obtain ⟨w', mirrors'⟩ := holding.mirrors
  have physmap : after.physmapVmBase = b.physmapVmBase := mirrors'.depicts.physmap.2
  have within : b.initialFree \ (base ∪ {q | q ∈ pages}) ⊆ b.initialFree \ base :=
    Set.sdiff_subset_sdiff_right Set.subset_union_left
  have list := Kept.list kept stack within collected.fresh (fun p member outside => outside.2 (Or.inr member)) collected.list
  have cleanAfter : Unmarked b (b.initialFree \ (base ∪ {q | q ∈ pages})) (cnt - 1) after.mem :=
    clean.kept above (by omega) Set.sdiff_subset kept
  -- the mark is written to the page, then the page is linked
  have marked : ListAt l (pages.map (elemAt b)) (after.mem.store64 (b.physmapVmBase + q * 4096) (magicOf cnt)) := by
    refine list.congr fun a member => agree_store64 _ _ ?_
    have place : l + 32 ≤ b.physmapVmBase + q * 4096 ∨ b.physmapVmBase + q * 4096 + 4096 ≤ l :=
      stack.pages q (freshCons q (List.mem_cons_self ..))
    rcases mem_nodes member with onStack | ⟨p, inside, rfl⟩
    · omega
    · have different : p ≠ q := fun same => new (same ▸ inside)
      omega
  have perm := whole_perm l [] [elemAt b q] (pages.map (elemAt b))
  have cells := nodes_cells stack freshCons
  obtain ⟨mem, linked, list', untouched⟩ := marked.from_begin.insert (x := elemAt b q)
    ⟨cells.congr fun a member => perm.mem_iff.mpr member, perm.nodup_iff.mp (nodes_nodup stack nodupCons freshCons)⟩
  have untouched : Untouched {a | a ∈ whole l ((q :: pages).map (elemAt b))} _ mem := untouched
  have pushed : listPushFront l (elemAt b q) (after.mem.store64 (b.physmapVmBase + q * 4096) (magicOf cnt)) = .ok mem := by
    rw [Mem.listPushFront, marked.begin_eq, ok_bind]
    exact linked
  have word {p : Nat} (member : p ∈ b.initialFree \ base) (different : p ≠ q) :
      Agree (b.physmapVmBase + p * 4096) (b.physmapVmBase + p * 4096 + 8) after.mem mem := by
    intro a lower upper
    rw [untouched_word stack untouched member a lower upper]
    exact store64_of_outside (by omega)
  have mark : mem.load64 (b.physmapVmBase + q * 4096) = magicOf cnt := by
    rw [(untouched_word stack untouched (freshCons q (List.mem_cons_self ..))).load64 le_rfl le_rfl, load64_store64]
  refine ⟨q, after, mem, run', ?_, ?_, ?_, pushed, ⟨?_, list', nodupCons, freshCons⟩, ?_⟩
  · rw [pageSize_eq]
    unfold physAddrInvalid
    omega
  · rw [physmap, pageSize_eq, pmapPaToKva, u64_of_lt (by omega)]
  · exact cleanAfter q free cnt (by omega) small
  · refine holding.scribble placed stack (fun a offStack offPages => ?_) fun p member cnt' later small' => ?_
    · have offPages : a ∉ bytesOf b {p | p ∈ q :: pages} := by
        rintro ⟨p, inside, range⟩
        exact offPages ⟨p, ⟨Or.inr inside, (freshCons p inside).2⟩, range⟩
      rw [untouched_outside untouched offStack offPages]
      refine store64_of_outside ?_
      by_contra inWord
      exact offPages ⟨q, List.mem_cons_self .., by omega, by omega⟩
    · by_cases same : p = q
      · rw [same, mark]
        exact magicOf_ne pos.le later small'
      · rw [(word member same).load64 le_rfl le_rfl]
        exact holding.unmarked p member cnt' later small'
  · refine (cleanAfter.mono ?_ le_rfl).congr fun p member => word ⟨member.1, fun inBase => member.2 (Or.inl inBase)⟩
      fun same => member.2 (Or.inr (same ▸ List.mem_cons_self ..))
    rw [← union_cons]
    exact Set.sdiff_subset_sdiff_right Set.subset_union_left

/-- Taking the front page off the list and giving it back. -/
theorem Collected.pop (placed : b.Placed mdsOffset) (above : AboveMarks b) (stack : Stack b base l) (pos : 0 ≤ cnt) {q : Nat}
    (collected : Collected b start base l cnt (q :: pages) image) :
    listNext (elemAt b q) image.mem = .ok (cursor l (pages.map (elemAt b))) ∧
      ∃ mem after, listRemove (elemAt b q) image.mem = .ok mem ∧
        pmapPhysmapKvaToPa image.physmapVmBase (elemAt b q - elemOffset) = .ok (q * 4096) ∧
        pmapPfaFreeContig (q * 4096) pageSize (image.withMem mem) = .ok after ∧ Collected b start base l cnt pages after := by
  have first : q ∈ q :: pages := List.mem_cons_self ..
  have list : ListAt l ([] ++ elemAt b q :: pages.map (elemAt b)) image.mem := collected.list
  obtain ⟨new, nodup⟩ := List.nodup_cons.mp collected.nodup
  obtain ⟨w, mirrors⟩ := collected.holding.mirrors
  have physmap : image.physmapVmBase = b.physmapVmBase := mirrors.depicts.physmap.2
  have fits := page_fits (collected.fresh q first).1
  have taken : pagesOf (q * 4096) pageSize = {q} := by
    have page := pagesOf_page q
    rwa [pageSize_eq] at page ⊢
  obtain ⟨mem, removed, list', -, untouched⟩ := list.remove
  have untouched : Untouched {a | a ∈ whole l ((q :: pages).map (elemAt b))} image.mem mem := untouched
  have holding : Holding b start base l cnt (base ∪ {p | p ∈ q :: pages}) (image.withMem mem) := by
    refine collected.holding.scribble placed stack (fun a offStack offPages => untouched_outside untouched offStack ?_)
      (collected.holding.unmarked.congr fun p member => untouched_word stack untouched member)
    rintro ⟨p, inside, range⟩
    exact offPages ⟨p, ⟨Or.inr inside, (collected.fresh p inside).2⟩, range⟩
  obtain ⟨after, run, released, kept⟩ := holding.release placed above pos (show q * 4096 < 2 ^ 64 by omega)
    (show pageSize < 2 ^ 64 by decide) (by rw [taken]; exact Set.singleton_subset_iff.mpr (Or.inr first))
    (by rw [taken]; exact Set.disjoint_singleton_left.mpr (collected.fresh q first).2)
  have rest : (base ∪ {p | p ∈ q :: pages}) \ {q} = base ∪ {p | p ∈ pages} := by
    have outside : q ∉ base ∪ {p | p ∈ pages} := fun member => member.elim (collected.fresh q first).2 new
    rw [← union_cons, Set.union_sdiff_right, Set.sdiff_singleton_eq_self outside]
  have freshRest : ∀ p ∈ pages, p ∈ b.initialFree \ base := fun p member => collected.fresh p (List.mem_cons_of_mem _ member)
  refine ⟨list.next_eq, mem, after, removed, ?_, run, ⟨?_, ?_, nodup, freshRest⟩⟩
  · rw [physmap]
    exact (b.geometry b.initialFree).kvaToPa_node q
  · rwa [taken, rest] at released
  · refine Kept.list kept stack ?_ freshRest (fun p member => ?_) list'
    · refine Set.union_subset (Set.sdiff_subset_sdiff_right Set.subset_union_left) ?_
      rw [taken]
      exact Set.singleton_subset_iff.mpr (collected.fresh q first)
    · rintro (outside | given)
      · exact outside.2 (Or.inr (List.mem_cons_of_mem _ member))
      · rw [taken] at given
        exact new (Set.mem_singleton_iff.mp given ▸ member)

end Swink.TestPmapPfa
