import Swink.Machine.LinkedList

namespace Swink.Mem
open Links

/-- A list with its two sentinel nodes. -/
def whole (list : Nat) (elems : List Nat) : List Nat := listHead list :: (elems ++ [listTail list])

/-- Below `count`, the structures at `list` are doubly linked lists of the given elements that
share no node. -/
structure ListsAt (count : Nat) (cells : Set Nat) (list : Nat → Nat) (elems : Nat → List Nat) (mem : Mem) : Prop where
  chain : ∀ l < count, Chain mem.next mem.prev (listHead (list l)) (elems l) (listTail (list l))
  nodes : ∀ l < count, ∀ a ∈ whole (list l) (elems l), a ∈ cells
  nodup : ∀ l < count, (whole (list l) (elems l)).Nodup
  apart : ∀ l < count, ∀ l' < count, l ≠ l' → ∀ a ∈ whole (list l) (elems l), a ∉ whole (list l') (elems l')

variable {count : Nat} {cells : Set Nat} {list : Nat → Nat} {elems : Nat → List Nat} {mem mem' : Mem} {level elem : Nat}

theorem mem_whole {a l : Nat} {xs : List Nat} : a ∈ whole l xs ↔ a = listHead l ∨ a ∈ xs ∨ a = listTail l := by
  simp [whole]

/-- A list whose nodes keep their links is still there. -/
theorem ListsAt.chain_congr (lists : ListsAt count cells list elems mem) (bound : level < count)
    (forward : ∀ a ∈ whole (list level) (elems level), mem'.next a = mem.next a)
    (backward : ∀ a ∈ whole (list level) (elems level), mem'.prev a = mem.prev a) :
    Chain mem'.next mem'.prev (listHead (list level)) (elems level) (listTail (list level)) := by
  refine (lists.chain level bound).congr (fun a member => forward a ?_) fun a member =>
    backward a (List.mem_cons_of_mem _ member)
  rw [mem_whole]
  exact (List.mem_cons.mp member).imp_right Or.inl

/-- A list is still there when only nodes of another one, or of none, have changed their links. -/
theorem ListsAt.chain_elsewhere (lists : ListsAt count cells list elems mem) (bound : level < count) {l : Nat}
    (lt : l < count) (other : l ≠ level)
    (forward : ∀ a ∈ whole (list l) (elems l), a ∉ whole (list level) (elems level) → mem'.next a = mem.next a)
    (backward : ∀ a ∈ whole (list l) (elems l), a ∉ whole (list level) (elems level) → mem'.prev a = mem.prev a) :
    Chain mem'.next mem'.prev (listHead (list l)) (elems l) (listTail (list l)) :=
  lists.chain_congr lt (fun a member => forward a member (lists.apart l lt level bound other a member))
    fun a member => backward a member (lists.apart l lt level bound other a member)

/-- Memories with the same links in the nodes hold the same lists. -/
theorem ListsAt.congr (lists : ListsAt count cells list elems mem) (forward : ∀ a ∈ cells, mem'.next a = mem.next a)
    (backward : ∀ a ∈ cells, mem'.prev a = mem.prev a) : ListsAt count cells list elems mem' where
  chain l bound := lists.chain_congr bound (fun a member => forward a (lists.nodes l bound a member))
    fun a member => backward a (lists.nodes l bound a member)
  nodes := lists.nodes
  nodup := lists.nodup
  apart := lists.apart

/-- The first node after the head belongs to the list. -/
theorem ListsAt.begin_mem (lists : ListsAt count cells list elems mem) (bound : level < count) :
    mem.next (listHead (list level)) ∈ whole (list level) (elems level) := by
  rw [(lists.chain level bound).next_first]
  exact List.mem_cons_of_mem _ (List.head_mem _)

theorem ListsAt.prev_begin (lists : ListsAt count cells list elems mem) (bound : level < count) :
    mem.prev (mem.next (listHead (list level))) = listHead (list level) := by
  have chain := lists.chain level bound
  cases shape : elems level with
  | nil =>
    rw [shape] at chain
    rw [chain.1, chain.2]
  | cons x xs =>
    rw [shape] at chain
    rw [chain.1, chain.2.1]

theorem ListsAt.head_cell (lists : ListsAt count cells list elems mem) (bound : level < count) :
    listHead (list level) ∈ cells :=
  lists.nodes level bound _ (List.mem_cons_self ..)

/-- A listed element is none of the sentinels. -/
theorem ListsAt.elem_ne (lists : ListsAt count cells list elems mem) (bound : level < count)
    (member : elem ∈ elems level) {l : Nat} (lt : l < count) : elem ≠ listHead (list l) ∧ elem ≠ listTail (list l) := by
  have inWhole : elem ∈ whole (list level) (elems level) := mem_whole.mpr (Or.inr (Or.inl member))
  by_cases same : l = level
  · subst same
    obtain ⟨notHead, rest⟩ := List.nodup_cons.mp (lists.nodup l lt)
    rw [List.nodup_append] at rest
    refine ⟨fun isHead => notHead (isHead ▸ List.mem_append_left _ member), fun isTail => ?_⟩
    exact rest.2.2 elem member _ (List.mem_singleton_self _) isTail
  · have foreign := lists.apart level bound l lt (Ne.symm same) elem inWhole
    exact ⟨fun isHead => foreign (mem_whole.mpr (Or.inl isHead)),
      fun isTail => foreign (mem_whole.mpr (Or.inr (Or.inr isTail)))⟩

/-- A node of the lists with `elem` in front of one of them is an old one or `elem`. -/
theorem mem_whole_push {l a : Nat} (member : a ∈ whole (list l) (Function.update elems level (elem :: elems level) l)) :
    a ∈ whole (list l) (elems l) ∨ l = level ∧ a = elem := by
  by_cases same : l = level
  · subst same
    rw [Function.update_self, mem_whole, List.mem_cons] at member
    rw [mem_whole]
    rcases member with isHead | (isElem | inside) | isTail
    · exact Or.inl (Or.inl isHead)
    · exact Or.inr ⟨rfl, isElem⟩
    · exact Or.inl (Or.inr (Or.inl inside))
    · exact Or.inl (Or.inr (Or.inr isTail))
  · rw [Function.update_of_ne same] at member
    exact Or.inl member

theorem nodup_whole_push {l : Nat} {xs : List Nat} (nodup : (whole l xs).Nodup) (fresh : elem ∉ whole l xs) :
    (whole l (elem :: xs)).Nodup := by
  obtain ⟨headFresh, rest⟩ := List.nodup_cons.mp nodup
  refine List.nodup_cons.mpr ⟨fun member => ?_, List.nodup_cons.mpr ⟨fun member => ?_, rest⟩⟩
  · rcases List.mem_cons.mp member with isElem | inside
    · exact fresh (mem_whole.mpr (Or.inl isElem.symm))
    · exact headFresh inside
  · exact fresh (List.mem_cons_of_mem _ member)

/-- Lists that share no node share none with a fresh node in front of one of them. -/
theorem ListsAt.apart_push (lists : ListsAt count cells list elems mem)
    (fresh : ∀ l < count, elem ∉ whole (list l) (elems l)) {l l' a : Nat} (lt : l < count) (lt' : l' < count)
    (different : l ≠ l') (member : a ∈ whole (list l) (Function.update elems level (elem :: elems level) l)) :
    a ∉ whole (list l') (Function.update elems level (elem :: elems level) l') := by
  intro member'
  rcases mem_whole_push member with old | ⟨rfl, rfl⟩
  · rcases mem_whole_push member' with old' | ⟨rfl, rfl⟩
    · exact lists.apart l lt l' lt' different a old old'
    · exact fresh l lt old
  · rcases mem_whole_push member' with old' | ⟨same, -⟩
    · exact fresh l' lt' old'
    · exact different same.symm

/-- `list_push_front` of a fresh node. -/
theorem ListsAt.push_front (nodes : Cells cells) (lists : ListsAt count cells list elems mem) (bound : level < count)
    (atElem : elem ∈ cells) (fresh : ∀ l < count, elem ∉ whole (list l) (elems l)) :
    ∃ mem', listPushFront (list level) elem mem = .ok mem' ∧
      ListsAt count cells list (Function.update elems level (elem :: elems level)) mem' ∧ Untouched cells mem mem' := by
  have chain := lists.chain level bound
  have nodup := lists.nodup level bound
  have begins := lists.begin_mem bound
  have atBegin := lists.nodes level bound _ begins
  have back := lists.prev_begin bound
  have headCell := lists.head_cell bound
  have notBegin : elem ≠ mem.next (listHead (list level)) := fun same => fresh level bound (same ▸ begins)
  have notHead : elem ≠ listHead (list level) := fun same => fresh level bound (same ▸ List.mem_cons_self ..)
  obtain ⟨mem', run, linked⟩ := listInsert_spec nodes atBegin atElem (by rwa [back]) notBegin
  rw [back] at linked
  -- what the four links of the new memory are
  have nextHead : mem'.next (listHead (list level)) = elem := by
    rw [linked.next_eq _ headCell, Function.update_self]
  have nextElem : mem'.next elem = mem.next (listHead (list level)) := by
    rw [linked.next_eq _ atElem, Function.update_of_ne notHead, Function.update_self]
  have prevElem : mem'.prev elem = listHead (list level) := by
    rw [linked.prev_eq _ atElem, Function.update_of_ne notBegin, Function.update_self]
  have prevBegin : mem'.prev (mem.next (listHead (list level))) = elem := by
    rw [linked.prev_eq _ atBegin, Function.update_self]
  have keepNext {a : Nat} (cell : a ∈ cells) (other : a ≠ elem) (other' : a ≠ listHead (list level)) :
      mem'.next a = mem.next a := by
    rw [linked.next_eq a cell, Function.update_of_ne other', Function.update_of_ne other]
  have keepPrev {a : Nat} (cell : a ∈ cells) (other : a ≠ elem) (other' : a ≠ mem.next (listHead (list level))) :
      mem'.prev a = mem.prev a := by
    rw [linked.prev_eq a cell, Function.update_of_ne other', Function.update_of_ne other]
  have differs {l a : Nat} (lt : l < count) (member : a ∈ whole (list l) (elems l)) : a ≠ elem :=
    fun same => fresh l lt (same ▸ member)
  refine ⟨mem', ?_, ⟨fun l lt => ?_, fun l lt a => ?_, fun l lt => ?_, fun l lt l' lt' different a => ?_⟩,
    linked.untouched⟩
  · have listPos : list level ≠ 0 := Nat.pos_iff_ne_zero.mp (nodes.pos _ headCell)
    rw [listPushFront, listBegin, assert_of listPos]
    exact run
  · by_cases same : l = level
    · subst same
      rw [Function.update_self]
      have inner {a : Nat} (member : a ∈ elems l ++ [listTail (list l)]) : a ∈ whole (list l) (elems l) :=
        List.mem_cons_of_mem _ member
      refine chain.push_front (List.nodup_cons.mp nodup).2 nextHead nextElem (fun a member => ?_) prevElem prevBegin
        fun a member other => keepPrev (lists.nodes l lt a (inner member)) (differs lt (inner member)) other
      have member := inner (List.mem_append_left _ member)
      refine keepNext (lists.nodes l lt a member) (differs lt member) fun isHead => ?_
      exact (List.nodup_cons.mp nodup).1 (isHead ▸ List.mem_append_left _ ‹a ∈ elems l›)
    · rw [Function.update_of_ne same]
      refine lists.chain_elsewhere bound lt same (fun a member foreign => ?_) fun a member foreign => ?_
      · exact keepNext (lists.nodes l lt a member) (differs lt member)
          fun isHead => foreign (isHead ▸ List.mem_cons_self ..)
      · exact keepPrev (lists.nodes l lt a member) (differs lt member) fun isBegin => foreign (isBegin ▸ begins)
  · intro member
    rcases mem_whole_push member with old | ⟨-, rfl⟩
    · exact lists.nodes l lt a old
    · exact atElem
  · by_cases same : l = level
    · subst same
      rw [Function.update_self]
      exact nodup_whole_push nodup (fresh l lt)
    · rw [Function.update_of_ne same]
      exact lists.nodup l lt
  · exact lists.apart_push fresh lt lt' different

/-- `list_remove` of a node takes it off its list. -/
theorem ListsAt.remove (nodes : Cells cells) (lists : ListsAt count cells list elems mem) (bound : level < count)
    (member : elem ∈ elems level) :
    ∃ mem', listRemove elem mem = .ok mem' ∧
      ListsAt count cells list (fun l => (elems l).erase elem) mem' ∧ Untouched cells mem mem' := by
  obtain ⟨xs, ys, shape⟩ := List.append_of_mem member
  have chain := lists.chain level bound
  have nodup := lists.nodup level bound
  have inWhole : elem ∈ whole (list level) (elems level) := mem_whole.mpr (Or.inr (Or.inl member))
  have cell := lists.nodes level bound
  rw [shape] at chain
  have nodup' : (listHead (list level) :: (xs ++ elem :: (ys ++ [listTail (list level)]))).Nodup := by
    simpa [whole, shape] using nodup
  obtain ⟨left, right⟩ := chain_append.mp chain
  have before : mem.prev elem ∈ listHead (list level) :: xs := left.prev_last_mem
  have after : mem.next elem ∈ ys ++ [listTail (list level)] := right.next_first ▸ List.head_mem _
  have beforeWhole : mem.prev elem ∈ whole (list level) (elems level) := by
    rw [mem_whole, shape]
    rcases List.mem_cons.mp before with isHead | inside
    · exact Or.inl isHead
    · exact Or.inr (Or.inl (List.mem_append_left _ inside))
  have afterWhole : mem.next elem ∈ whole (list level) (elems level) := by
    rw [mem_whole, shape]
    rcases List.mem_append.mp after with inside | isTail
    · exact Or.inr (Or.inl (List.mem_append_right _ (List.mem_cons_of_mem _ inside)))
    · exact Or.inr (Or.inr (List.mem_singleton.mp isTail))
  have different : mem.prev elem ≠ elem := by
    intro same
    rw [same] at before
    rw [← List.cons_append, List.nodup_append] at nodup'
    exact nodup'.2.2 elem before elem (List.mem_cons_self ..) rfl
  obtain ⟨mem', run, linked⟩ := listRemove_spec nodes (cell _ inWhole) (cell _ beforeWhole) (cell _ afterWhole)
    different
  have joinNext : mem'.next (mem.prev elem) = mem.next elem := by
    rw [linked.next_eq _ (cell _ beforeWhole), Function.update_self]
  have joinPrev : mem'.prev (mem.next elem) = mem.prev elem := by
    rw [linked.prev_eq _ (cell _ afterWhole), Function.update_self]
  have keepNext {a : Nat} (inCells : a ∈ cells) (other : a ≠ mem.prev elem) : mem'.next a = mem.next a := by
    rw [linked.next_eq a inCells, Function.update_of_ne other]
  have keepPrev {a : Nat} (inCells : a ∈ cells) (other : a ≠ mem.next elem) : mem'.prev a = mem.prev a := by
    rw [linked.prev_eq a inCells, Function.update_of_ne other]
  have absent {l : Nat} (lt : l < count) (other : l ≠ level) : elem ∉ elems l := fun inside =>
    lists.apart level bound l lt (Ne.symm other) elem inWhole (mem_whole.mpr (Or.inr (Or.inl inside)))
  have erased : (elems level).erase elem = xs ++ ys := by
    have notLeft : elem ∉ xs := by
      intro inside
      rw [← List.cons_append, List.nodup_append] at nodup'
      exact nodup'.2.2 elem (List.mem_cons_of_mem _ inside) elem (List.mem_cons_self ..) rfl
    rw [shape, List.erase_append_right _ notLeft, List.erase_cons_head]
  have shrink {l a : Nat} (lessMember : a ∈ whole (list l) ((elems l).erase elem)) : a ∈ whole (list l) (elems l) := by
    rw [mem_whole] at lessMember ⊢
    exact lessMember.imp_right fun rest => rest.imp_left List.mem_of_mem_erase
  refine ⟨mem', run, ⟨fun l lt => ?_, fun l lt a lessMember => lists.nodes l lt a (shrink lessMember), fun l lt => ?_,
    fun l lt l' lt' other a inside inside' => lists.apart l lt l' lt' other a (shrink inside) (shrink inside')⟩,
    linked.untouched⟩
  · by_cases same : l = level
    · subst same
      rw [erased]
      have wider {a : Nat} (inside : a ∈ listHead (list l) :: (xs ++ (ys ++ [listTail (list l)]))) :
          a ∈ whole (list l) (elems l) := by
        rw [mem_whole, shape]
        simp only [List.mem_cons, List.mem_append, List.not_mem_nil, or_false] at inside ⊢
        rcases inside with isHead | inLeft | inRight | isTail
        · exact Or.inl isHead
        · exact Or.inr (Or.inl (Or.inl inLeft))
        · exact Or.inr (Or.inl (Or.inr (Or.inr inRight)))
        · exact Or.inr (Or.inr isTail)
      have front {a : Nat} (inside : a ∈ listHead (list l) :: (xs ++ ys)) :
          a ∈ listHead (list l) :: (xs ++ (ys ++ [listTail (list l)])) := by
        rw [← List.append_assoc, ← List.cons_append]
        exact List.mem_append_left _ inside
      exact chain.remove nodup' joinNext (fun a inside other => keepNext (cell a (wider (front inside))) other) joinPrev
        fun a inside other => keepPrev (cell a (wider (List.mem_cons_of_mem _ inside))) other
    · rw [List.erase_of_not_mem (absent lt same)]
      refine lists.chain_elsewhere bound lt same (fun a inside foreign => ?_) fun a inside foreign => ?_
      · exact keepNext (lists.nodes l lt a inside) fun isPrev => foreign (isPrev ▸ beforeWhole)
      · exact keepPrev (lists.nodes l lt a inside) fun isNext => foreign (isNext ▸ afterWhole)
  · refine (lists.nodup l lt).sublist ?_
    exact (List.erase_sublist.append_right _).cons_cons _

end Swink.Mem
