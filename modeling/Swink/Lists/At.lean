import Swink.Image.Lists
import Swink.Lib.Segments
import Swink.Lists.Ops

namespace Swink.Mem
open Links

/-- The structure at `list` is a list of the given elements: nodes that do not overlap, linked
both ways, with the outer links of the two sentinels null. -/
structure ListAt (list : Nat) (elems : List Nat) (mem : Mem) : Prop where
  cells : Cells {a | a ∈ whole list elems}
  nodup : (whole list elems).Nodup
  linked : Linked mem.next mem.prev (whole list elems)
  front : mem.prev (listHead list) = 0
  back : mem.next (listTail list) = 0

/-- The node at which the rest of a list begins, and the last one before it. -/
def cursor (list : Nat) (rest : List Nat) : Nat := rest.headD (listTail list)
def behind (list : Nat) (passed : List Nat) : Nat := passed.getLastD (listHead list)

variable {list x a b : Nat} {elems xs ys rest seg : List Nat} {mem mem' : Mem}

@[simp] theorem cursor_nil (list : Nat) : cursor list [] = listTail list := rfl
@[simp] theorem cursor_cons (list x : Nat) (rest : List Nat) : cursor list (x :: rest) = x := rfl

@[simp] theorem behind_concat (list x : Nat) (xs : List Nat) : behind list (xs ++ [x]) = x := by
  simp [behind]

theorem cursor_append (nonempty : seg ≠ []) (list : Nat) (ys : List Nat) :
    cursor list (seg ++ ys) = seg.head nonempty := by
  cases seg with
  | nil => exact absurd rfl nonempty
  | cons s seg => rfl

theorem behind_append (nonempty : seg ≠ []) (list : Nat) (xs : List Nat) :
    behind list (xs ++ seg) = seg.getLast nonempty := by
  rcases List.eq_nil_or_concat seg with rfl | ⟨init, last, rfl⟩
  · exact absurd rfl nonempty
  · simp [behind]

theorem front_split (list : Nat) (xs : List Nat) : ∃ pre, listHead list :: xs = pre ++ [behind list xs] := by
  rcases List.eq_nil_or_concat xs with rfl | ⟨init, last, rfl⟩
  · exact ⟨[], rfl⟩
  · exact ⟨listHead list :: init, by simp⟩

theorem back_split (list : Nat) (rest : List Nat) : ∃ post, rest ++ [listTail list] = cursor list rest :: post := by
  cases rest with
  | nil => exact ⟨[], rfl⟩
  | cons y ys => exact ⟨ys ++ [listTail list], rfl⟩

theorem whole_append (list : Nat) (xs ys : List Nat) :
    whole list (xs ++ ys) = listHead list :: xs ++ (ys ++ [listTail list]) := by simp [whole]

theorem mem_whole_append : a ∈ whole list (xs ++ ys) ↔ a = listHead list ∨ a ∈ xs ∨ a ∈ ys ∨ a = listTail list := by
  simp [whole]

theorem cursor_mem_whole (list : Nat) (xs rest : List Nat) : cursor list rest ∈ whole list (xs ++ rest) := by
  obtain ⟨post, shape⟩ := back_split list rest
  rw [whole_append, shape]
  simp

theorem behind_mem_whole (list : Nat) (xs rest : List Nat) : behind list xs ∈ whole list (xs ++ rest) := by
  obtain ⟨pre, shape⟩ := front_split list xs
  rw [whole_append, shape]
  simp

/-- Where a list falls apart into two, the two nodes at the joint point at each other. -/
theorem ListAt.joint (at_ : ListAt list (xs ++ rest) mem) :
    mem.next (behind list xs) = cursor list rest ∧ mem.prev (cursor list rest) = behind list xs := by
  obtain ⟨pre, front⟩ := front_split list xs
  obtain ⟨post, back⟩ := back_split list rest
  have linked := at_.linked
  rw [whole_append, front, back, List.append_assoc] at linked
  exact linked.neighbours

/-- A list cut at its beginning, at its end, and around one element. -/
theorem ListAt.from_begin (at_ : ListAt list elems mem) : ListAt list ([] ++ elems) mem := at_

theorem ListAt.to_end (at_ : ListAt list elems mem) : ListAt list (elems ++ []) mem := by rwa [List.append_nil]

theorem ListAt.around (at_ : ListAt list (xs ++ x :: ys) mem) : ListAt list (xs ++ ([x] ++ ys)) mem := at_

theorem ListAt.shift (at_ : ListAt list (xs ++ x :: ys) mem) : ListAt list ((xs ++ [x]) ++ ys) mem := by
  rwa [List.append_assoc]

theorem ListAt.regroup (at_ : ListAt list (xs ++ (seg ++ ys)) mem) : ListAt list ((xs ++ seg) ++ ys) mem := by
  rwa [List.append_assoc]

theorem ListAt.node_pos (at_ : ListAt list elems mem) (member : a ∈ whole list elems) : a ≠ 0 :=
  Nat.pos_iff_ne_zero.mp (at_.cells.pos a member)

theorem ListAt.list_ne_zero (at_ : ListAt list elems mem) : list ≠ 0 := at_.node_pos (List.mem_cons_self ..)

theorem ListAt.begin_eq (at_ : ListAt list elems mem) : listBegin list mem = .ok (cursor list elems) := by
  rw [listBegin, assert_of at_.list_ne_zero, ok_bind]
  exact congrArg Except.ok at_.from_begin.joint.1

theorem ListAt.end_eq (at_ : ListAt list elems mem) : listEnd list = .ok (listTail list) := by
  rw [listEnd, assert_of at_.list_ne_zero, ok_bind]

theorem ListAt.next_eq (at_ : ListAt list (xs ++ x :: rest) mem) : listNext x mem = .ok (cursor list rest) := by
  have joint := at_.shift.joint.1
  rw [behind_concat] at joint
  have here : x ≠ 0 := at_.node_pos (mem_whole_append.mpr (by simp))
  have there : mem.next x ≠ 0 := joint ▸ at_.shift.node_pos (cursor_mem_whole list (xs ++ [x]) rest)
  have valid : isHead x mem ∨ isInterior x mem := by
    by_cases first : mem.prev x = 0
    · exact Or.inl ⟨here, first, there⟩
    · exact Or.inr ⟨here, first, there⟩
  rw [listNext, assert_of valid, ok_bind, joint]

theorem ListAt.prev_ne_zero (at_ : ListAt list (xs ++ rest) mem) :
    cursor list rest ≠ 0 ∧ mem.prev (cursor list rest) ≠ 0 :=
  ⟨at_.node_pos (cursor_mem_whole list xs rest), at_.joint.2 ▸ at_.node_pos (behind_mem_whole list xs rest)⟩

/-- Every node but the head is an element or the tail, which is what insertion asks for. -/
theorem ListAt.interior_or_tail (at_ : ListAt list (xs ++ rest) mem) :
    isInterior (cursor list rest) mem ∨ isTail (cursor list rest) mem := by
  obtain ⟨here, before⟩ := at_.prev_ne_zero
  by_cases zero : mem.next (cursor list rest) = 0
  · exact Or.inr ⟨here, before, zero⟩
  · exact Or.inl ⟨here, before, zero⟩

theorem ListAt.prev_eq (at_ : ListAt list (xs ++ rest) mem) :
    listPrev (cursor list rest) mem = .ok (behind list xs) := by
  rw [listPrev, assert_of at_.interior_or_tail, ok_bind, at_.joint.2]

theorem ListAt.interior (at_ : ListAt list (xs ++ x :: rest) mem) : isInterior x mem := by
  obtain ⟨here, before⟩ := at_.prev_ne_zero
  have joint := at_.shift.joint.1
  rw [behind_concat] at joint
  exact ⟨here, before, joint ▸ at_.shift.node_pos (cursor_mem_whole list (xs ++ [x]) rest)⟩

/-- A cursor tells where it stands. -/
theorem ListAt.cursor_eq_tail (at_ : ListAt list (xs ++ rest) mem) : cursor list rest = listTail list ↔ rest = [] := by
  cases rest with
  | nil => simp
  | cons y ys =>
    have nodup := at_.nodup
    rw [whole_append] at nodup
    have fresh := (List.nodup_cons.mp (List.nodup_append.mp nodup).2.1).1
    refine ⟨fun same => absurd ?_ fresh, fun empty => by simp at empty⟩
    exact List.mem_append_right _ (List.mem_singleton.mpr same)

theorem ListAt.elem_ne_tail (at_ : ListAt list (xs ++ x :: rest) mem) : x ≠ listTail list := fun same =>
  absurd (at_.cursor_eq_tail.mp same) (by simp)

theorem ListAt.cursor_eq_cursor (at_ : ListAt list (xs ++ (seg ++ rest)) mem) :
    cursor list (seg ++ rest) = cursor list rest ↔ seg = [] := by
  cases seg with
  | nil => simp
  | cons s seg =>
    obtain ⟨post, shape⟩ := back_split list rest
    have nodup := at_.nodup
    rw [whole_append, List.append_assoc, shape] at nodup
    have fresh := (List.nodup_cons.mp (List.nodup_append.mp nodup).2.1).1
    refine ⟨fun same => absurd ?_ fresh, fun empty => by simp at empty⟩
    exact List.mem_append_right _ (List.mem_cons.mpr (Or.inl same))

theorem ListAt.empty_eq (at_ : ListAt list elems mem) : listEmpty list mem = .ok elems.isEmpty := by
  have same := at_.from_begin.cursor_eq_tail
  rw [listEmpty, at_.begin_eq, ok_bind, at_.end_eq, ok_bind]
  cases elems with
  | nil => simp
  | cons x rest => simpa using same

theorem ListAt.front_eq (at_ : ListAt list (x :: rest) mem) : listFront list mem = .ok x := by
  rw [listFront, at_.empty_eq, ok_bind, assert_of (by simp), ok_bind]
  exact congrArg Except.ok at_.from_begin.joint.1

theorem ListAt.back_eq (at_ : ListAt list (xs ++ [x]) mem) : listBack list mem = .ok x := by
  have joint := at_.to_end.joint.2
  rw [behind_concat, cursor_nil] at joint
  rw [listBack, at_.empty_eq, ok_bind, assert_of (by simp), ok_bind, joint]

/-- A list whose nodes keep their bytes is still there. -/
theorem ListAt.congr (at_ : ListAt list elems mem) (same : ∀ a ∈ whole list elems, Agree a (a + 16) mem mem') :
    ListAt list elems mem' := by
  have keepPrev {a : Nat} (member : a ∈ whole list elems) : mem'.prev a = mem.prev a :=
    congrArg BitVec.toNat ((same a member).load64 le_rfl (by omega))
  have keepNext {a : Nat} (member : a ∈ whole list elems) : mem'.next a = mem.next a :=
    congrArg BitVec.toNat ((same a member).load64 (by omega) (by omega))
  exact ⟨at_.cells, at_.nodup, at_.linked.elsewhere (fun a member => keepNext member) fun a member => keepPrev member,
    (keepPrev (by simp [whole])).trans at_.front, (keepNext (by simp [whole])).trans at_.back⟩

theorem ListAt.frame (at_ : ListAt list elems mem) {cells : Set Nat} (untouched : Untouched cells mem mem')
    (apart : ∀ a ∈ whole list elems, ∀ c ∈ cells, a + 16 ≤ c ∨ c + 16 ≤ a) : ListAt list elems mem' := by
  refine at_.congr fun a member x above below => untouched x fun c inside => ?_
  have := apart a member c inside
  omega

end Swink.Mem
