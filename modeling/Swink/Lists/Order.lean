import Swink.Lib.OrderedLists
import Swink.Lists.Sort

namespace Swink.Mem
open NaturalMerge Links

variable {list x a b : Nat} {elems xs ys rest seg : List Nat} {mem : Mem} {less : ListLessFunc}

theorem ListAt.behind_back (at_ : ListAt list elems mem) : mem.prev (listTail list) = behind list elems :=
  at_.to_end.joint.2

theorem Fresh.at_end (fresh : Fresh list elems [x]) : Fresh list (elems ++ []) [x] := by
  rwa [List.append_nil]

/-- `list_push_front` and `list_push_back` of a fresh element. -/
theorem ListAt.pushed_front (at_ : ListAt list elems mem) (fresh : Fresh list elems [x]) :
    ∃ mem', listPushFront list x mem = .ok mem' ∧ ListAt list (x :: elems) mem' ∧
      Untouched {a | a ∈ whole list (x :: elems)} mem mem' := by
  rw [listPushFront, at_.begin_eq, ok_bind]
  exact at_.from_begin.insert fresh

theorem ListAt.pushed_back (at_ : ListAt list elems mem) (fresh : Fresh list elems [x]) :
    ∃ mem', listPushBack list x mem = .ok mem' ∧ ListAt list (elems ++ [x]) mem' ∧
      Untouched {a | a ∈ whole list (elems ++ [x])} mem mem' := by
  rw [listPushBack, at_.end_eq, ok_bind]
  exact at_.to_end.insert fresh.at_end

theorem ListAt.popped_front (at_ : ListAt list (x :: elems) mem) :
    ∃ mem', listPopFront list mem = .ok (x, mem') ∧ ListAt list elems mem' ∧
      Untouched {a | a ∈ whole list (x :: elems)} mem mem' := by
  obtain ⟨mem', run, after, -, untouched⟩ := at_.from_begin.remove
  refine ⟨mem', ?_, after, untouched⟩
  rw [listPopFront, at_.front_eq, ok_bind, run, ok_bind]

theorem ListAt.popped_back (at_ : ListAt list (elems ++ [x]) mem) :
    ∃ mem', listPopBack list mem = .ok (x, mem') ∧ ListAt list elems mem' ∧
      Untouched {a | a ∈ whole list (elems ++ [x])} mem mem' := by
  obtain ⟨mem', run, after, -, untouched⟩ := at_.remove
  rw [List.append_nil] at after
  refine ⟨mem', ?_, after, untouched⟩
  rw [listPopBack, at_.back_eq, ok_bind, run, ok_bind]

/-- The loop of `list_size` counts the rest of the list, modulo the width of `size_t`. -/
theorem ListAt.size_loop (at_ : ListAt list (xs ++ rest) mem) {rounds count : Nat} (enough : rest.length < rounds)
    (fits : count + rest.length < 2 ^ 64) :
    sizeLoop list mem rounds (cursor list rest) count = .ok (count + rest.length) := by
  induction rest generalizing xs rounds count with
  | nil =>
    obtain ⟨rounds, rfl⟩ := Nat.exists_eq_succ_of_ne_zero (Nat.ne_of_gt enough)
    rw [sizeLoop, at_.end_eq, ok_bind, cursor_nil, if_pos rfl, List.length_nil, Nat.add_zero]
  | cons y rest ih =>
    obtain ⟨rounds, rfl⟩ := Nat.exists_eq_succ_of_ne_zero (by omega : rounds ≠ 0)
    simp only [List.length_cons] at enough fits ⊢
    rw [sizeLoop, at_.end_eq, ok_bind, cursor_cons, if_neg at_.elem_ne_tail, at_.next_eq, ok_bind,
      Nat.mod_eq_of_lt (by omega), ih at_.shift (by omega) (by omega), Nat.add_assoc, Nat.add_comm 1]

theorem ListAt.size_eq (at_ : ListAt list elems mem) {rounds : Nat} (enough : elems.length < rounds) :
    listSize rounds list mem = .ok elems.length := by
  have short := at_.length_lt
  rw [listSize, at_.begin_eq, ok_bind, at_.from_begin.size_loop enough (by omega), Nat.zero_add]

/-- The loop of `list_insert_ordered` stops before the first larger element. -/
theorem ListAt.insert_ordered_loop (at_ : ListAt list (xs ++ rest) mem) {rounds : Nat} (enough : rest.length < rounds) :
    insertOrderedLoop less list x mem rounds (cursor list rest) =
      .ok (cursor list (rest.dropWhile fun y => !less x y)) := by
  induction rest generalizing xs rounds with
  | nil =>
    obtain ⟨rounds, rfl⟩ := Nat.exists_eq_succ_of_ne_zero (Nat.ne_of_gt enough)
    rw [insertOrderedLoop, at_.end_eq, ok_bind, cursor_nil, if_pos rfl]
    rfl
  | cons y rest ih =>
    obtain ⟨rounds, rfl⟩ := Nat.exists_eq_succ_of_ne_zero (by omega : rounds ≠ 0)
    rw [insertOrderedLoop, at_.end_eq, ok_bind, cursor_cons, if_neg at_.elem_ne_tail]
    cases stop : less x y with
    | true => rw [if_pos rfl, List.dropWhile_cons_of_neg (by simp [stop]), cursor_cons]
    | false =>
      rw [if_neg (by simp), at_.next_eq, ok_bind, List.dropWhile_cons_of_pos (by simp [stop])]
      exact ih at_.shift (by simpa using enough)

variable (less) in
theorem ListAt.inserted_ordered (at_ : ListAt list elems mem) (fresh : Fresh list elems [x]) {rounds : Nat}
    (enough : elems.length < rounds) :
    ∃ mem', listInsertOrdered less rounds list x mem = .ok mem' ∧ ListAt list (insertOrdered less x elems) mem' ∧
      Untouched {a | a ∈ whole list (insertOrdered less x elems)} mem mem' := by
  have here : x ≠ 0 := Nat.pos_iff_ne_zero.mp (fresh.cells.pos x (by simp))
  rw [listInsertOrdered, assert_of at_.list_ne_zero, ok_bind, assert_of here, ok_bind, at_.begin_eq, ok_bind,
    at_.from_begin.insert_ordered_loop enough, ok_bind]
  refine ListAt.insert ?_ ?_
  · rwa [List.takeWhile_append_dropWhile]
  · rwa [List.takeWhile_append_dropWhile]

/-- The search of `list_max` and `list_min`. -/
theorem ListAt.extreme_loop {better : Nat → Nat → Bool} (at_ : ListAt list (xs ++ rest) mem) {rounds : Nat}
    (enough : rest.length < rounds) (found : Nat) :
    extremeLoop better list mem rounds found (cursor list rest) = .ok (best better found rest) := by
  induction rest generalizing xs rounds found with
  | nil =>
    obtain ⟨rounds, rfl⟩ := Nat.exists_eq_succ_of_ne_zero (Nat.ne_of_gt enough)
    rw [extremeLoop, at_.end_eq, ok_bind, cursor_nil, if_pos rfl, best]
  | cons y rest ih =>
    obtain ⟨rounds, rfl⟩ := Nat.exists_eq_succ_of_ne_zero (by omega : rounds ≠ 0)
    rw [extremeLoop, at_.end_eq, ok_bind, cursor_cons, if_neg at_.elem_ne_tail, at_.next_eq, ok_bind, best]
    exact ih at_.shift (by simpa using enough) _

theorem ListAt.extreme_eq {better : Nat → Nat → Bool} (at_ : ListAt list (x :: rest) mem) {rounds : Nat}
    (enough : rest.length < rounds) : listExtreme better rounds list mem = .ok (best better x rest) := by
  have here : ListAt list ([] ++ x :: rest) mem := at_
  rw [listExtreme, at_.begin_eq, ok_bind, at_.end_eq, ok_bind, cursor_cons, if_pos here.elem_ne_tail, here.next_eq,
    ok_bind, here.shift.extreme_loop enough]

theorem ListAt.extreme_nil {better : Nat → Nat → Bool} (at_ : ListAt list [] mem) (rounds : Nat) :
    listExtreme better rounds list mem = .ok (listTail list) := by
  rw [listExtreme, at_.begin_eq, ok_bind, at_.end_eq, ok_bind, cursor_nil, if_neg (by simp)]

theorem StrictWeak.flip (order : StrictWeak less) : StrictWeak fun a b => less b a :=
  ⟨fun a b lt => order.asymmetric b a lt, fun a b c ab bc => order.not_less_trans c b a bc ab⟩

/-- A list whose ties may go to the end of a second one, which is not there for `duplicates == NULL`. -/
structure Collecting (cells : Set Nat) (list duplicates : Nat) (elems found : List Nat) (mem : Mem) : Prop where
  nodes : Cells cells
  at_ : ListAt list elems mem
  inside : ∀ a ∈ whole list elems, a ∈ cells
  into : duplicates ≠ 0 → ListAt duplicates found mem ∧
    ∀ a ∈ whole duplicates found, a ∈ cells ∧ a ∉ whole list elems

variable {cells : Set Nat} {duplicates : Nat} {found : List Nat}

theorem Untouched.mono {mem mem' : Mem} {cells cells' : Set Nat} (untouched : Untouched cells mem mem')
    (sub : ∀ a ∈ cells, a ∈ cells') : Untouched cells' mem mem' :=
  fun a outside => untouched a fun c inside => outside c (sub c inside)

/-- One tie goes over. -/
theorem Collecting.move (state : Collecting cells list duplicates (xs ++ x :: ys) found mem) :
    ∃ mem₁ mem', listRemove x mem = .ok mem₁ ∧
      appendDuplicate duplicates x mem₁ = .ok mem' ∧
      Collecting cells list duplicates (xs ++ ys) (found ++ [x]) mem' ∧ Untouched cells mem mem' := by
  obtain ⟨mem₁, run, after, -, untouched⟩ := state.at_.remove
  have shrink {a : Nat} (member : a ∈ whole list (xs ++ ys)) : a ∈ whole list (xs ++ ([x] ++ ys)) :=
    mem_whole_of_append member
  have inX : x ∈ whole list (xs ++ x :: ys) := mem_whole_append.mpr (by simp)
  have absent : x ∉ whole list (xs ++ ys) := fun member =>
    (List.nodup_append.mp state.at_.around.fresh.nodup).2.2 x (by simp) x member rfl
  have all := untouched.mono state.inside
  by_cases null : duplicates = 0
  · refine ⟨mem₁, mem₁, run, if_neg (by simp [null]), ⟨state.nodes, after, fun a member => state.inside a (shrink member),
      fun some => absurd null some⟩, all⟩
  · obtain ⟨into, apart⟩ := state.into null
    have kept : ListAt duplicates found mem₁ := into.frame untouched fun a member c inside => by
      obtain ⟨inCells, foreign⟩ := apart a member
      exact state.nodes.apart a inCells c (state.inside c inside) fun same => foreign (same ▸ inside)
    have fresh : Fresh duplicates found [x] := by
      refine ⟨state.nodes.congr fun a member => ?_, List.nodup_cons.mpr ⟨fun member => (apart x member).2 inX, into.nodup⟩⟩
      rcases List.mem_cons.mp member with rfl | inDuplicates
      · exact state.inside _ inX
      · exact (apart a inDuplicates).1
    obtain ⟨mem', push, pushed, untouched'⟩ := kept.pushed_back fresh
    have grown {a : Nat} (member : a ∈ whole duplicates (found ++ [x])) : a = x ∨ a ∈ whole duplicates found := by
      have split := (whole_perm duplicates found [x] []).mem_iff.mp member
      rw [List.append_nil] at split
      exact List.mem_cons.mp split
    have grownCells (a : Nat) (member : a ∈ whole duplicates (found ++ [x])) : a ∈ cells := by
      rcases grown member with rfl | inDuplicates
      · exact state.inside _ inX
      · exact (apart a inDuplicates).1
    have disjoint (a : Nat) (member : a ∈ whole duplicates (found ++ [x])) : a ∉ whole list (xs ++ ys) := by
      rcases grown member with rfl | inDuplicates
      · exact absent
      · exact fun inList => (apart a inDuplicates).2 (shrink inList)
    refine ⟨mem₁, mem', run, by rw [appendDuplicate, if_pos null, push], ⟨state.nodes, after.frame untouched' fun a member c inside => ?_,
      fun a member => state.inside a (shrink member), fun _ => ⟨pushed, fun a member =>
        ⟨grownCells a member, disjoint a member⟩⟩⟩, all.trans (untouched'.mono grownCells)⟩
    exact state.nodes.apart a (state.inside a (shrink member)) c (grownCells c inside)
      fun same => disjoint c inside (same ▸ member)

theorem Collecting.from_begin (state : Collecting cells list duplicates elems found mem) :
    Collecting cells list duplicates ([] ++ elems) found mem := state

variable (less) in
/-- The loop of `list_unique`. -/
theorem Collecting.unique_loop {rounds : Nat} (state : Collecting cells list duplicates (xs ++ x :: rest) found mem)
    (enough : rest.length < rounds) :
    ∃ mem', uniqueLoop less list duplicates rounds x mem = .ok mem' ∧
      Collecting cells list duplicates (xs ++ firsts less x rest) (found ++ others less x rest) mem' ∧
      Untouched cells mem mem' := by
  induction rest generalizing xs x rounds found mem with
  | nil =>
    obtain ⟨rounds, rfl⟩ := Nat.exists_eq_succ_of_ne_zero (Nat.ne_of_gt enough)
    refine ⟨mem, ?_, by rwa [others, List.append_nil], fun _ _ => rfl⟩
    rw [uniqueLoop, state.at_.next_eq, ok_bind, state.at_.end_eq, ok_bind, cursor_nil, if_pos rfl]
  | cons y rest ih =>
    obtain ⟨rounds, rfl⟩ := Nat.exists_eq_succ_of_ne_zero (by omega : rounds ≠ 0)
    rw [List.length_cons] at enough
    rw [uniqueLoop, state.at_.next_eq, ok_bind, state.at_.end_eq, ok_bind, cursor_cons,
      if_neg state.at_.shift.elem_ne_tail, firsts, others]
    by_cases tied : less x y = false ∧ less y x = false
    · have shifted : Collecting cells list duplicates ((xs ++ [x]) ++ y :: rest) found mem := by
        rwa [List.append_assoc]
      obtain ⟨mem₁, mem₂, remove, push, moved, untouched⟩ := shifted.move
      rw [List.append_assoc] at moved
      obtain ⟨mem', run, after, untouched'⟩ := ih moved (Nat.lt_of_succ_lt_succ enough)
      refine ⟨mem', ?_, ?_, untouched.trans untouched'⟩
      · rw [if_pos (by simpa using tied), remove, ok_bind, push, ok_bind, run]
      · rw [if_pos tied, if_pos tied]
        rwa [List.append_assoc] at after
    · have shifted : Collecting cells list duplicates ((xs ++ [x]) ++ y :: rest) found mem := by
        rwa [List.append_assoc]
      obtain ⟨mem', run, after, untouched⟩ := ih shifted (Nat.lt_of_succ_lt_succ enough)
      refine ⟨mem', ?_, ?_, untouched⟩
      · rw [if_neg (by simpa using tied), run]
      · rw [if_neg tied, if_neg tied]
        rwa [List.append_assoc] at after

variable (less) in
/-- `list_unique` keeps the first of each row of ties and appends the others to `duplicates`. -/
theorem Collecting.unique {rounds : Nat} (state : Collecting cells list duplicates (x :: rest) found mem)
    (enough : rest.length < rounds) :
    ∃ mem', listUnique less rounds list duplicates mem = .ok mem' ∧
      Collecting cells list duplicates (firsts less x rest) (found ++ others less x rest) mem' ∧
      Untouched cells mem mem' := by
  obtain ⟨mem', run, after, untouched⟩ := Collecting.unique_loop less state.from_begin enough
  refine ⟨mem', ?_, after, untouched⟩
  rw [listUnique, assert_of state.at_.list_ne_zero, ok_bind, state.at_.empty_eq, ok_bind]
  simp only [List.isEmpty_cons, Bool.false_eq_true, if_false]
  rw [state.at_.begin_eq, ok_bind, cursor_cons, run]

end Swink.Mem
