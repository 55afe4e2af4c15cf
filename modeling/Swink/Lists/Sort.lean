import Mathlib.Data.List.Perm.Subperm
import Swink.Lib.NaturalMerge
import Swink.Lists.Edit

namespace Swink.Mem
open NaturalMerge

variable {list x y a b : Nat} {elems xs ys rest seg : List Nat} {mem : Mem} {less : ListLessFunc}

theorem ListAt.cursor_step (at_ : ListAt list (xs ++ x :: (seg ++ rest)) mem) :
    cursor list (seg ++ rest) = cursor list rest ↔ seg = [] := by
  exact at_.shift.cursor_eq_cursor

/-- The element after `x`, and the way back. -/
theorem ListAt.step (at_ : ListAt list (xs ++ x :: y :: rest) mem) :
    listNext x mem = .ok y ∧ listPrev y mem = .ok x := by
  refine ⟨at_.next_eq, ?_⟩
  have back := at_.shift.prev_eq
  rwa [behind_concat] at back

/-- `find_end_of_run` stops after the first ascending run. -/
theorem ListAt.find_end_loop (at_ : ListAt list (xs ++ x :: rest) mem) {rounds : Nat} (enough : rest.length < rounds) :
    findEndLoop less (listTail list) mem rounds x = .ok (cursor list (afterRun less x rest)) := by
  induction rest generalizing xs x rounds with
  | nil =>
    obtain ⟨rounds, rfl⟩ := Nat.exists_eq_succ_of_ne_zero (Nat.ne_of_gt enough)
    rw [findEndLoop, at_.next_eq, ok_bind, cursor_nil, if_pos rfl, afterRun, cursor_nil]
  | cons y rest ih =>
    obtain ⟨rounds, rfl⟩ := Nat.exists_eq_succ_of_ne_zero (by omega : rounds ≠ 0)
    obtain ⟨forward, back⟩ := at_.step
    rw [findEndLoop, forward, ok_bind, if_neg at_.shift.elem_ne_tail, back, ok_bind, afterRun]
    split
    · rfl
    · exact ih at_.shift (by simpa using enough)

theorem ListAt.find_end_of_run (at_ : ListAt list (xs ++ x :: rest) mem) {rounds : Nat} (enough : rest.length < rounds) :
    findEndOfRun less rounds x (listTail list) mem = .ok (cursor list (afterRun less x rest)) := by
  have here : x ≠ 0 := at_.interior.1
  have there : listTail list ≠ 0 := at_.node_pos (by simp [whole])
  rw [findEndOfRun, assert_of here, ok_bind, assert_of there, ok_bind, assert_of at_.elem_ne_tail, ok_bind,
    at_.find_end_loop enough]

/-- `is_sorted` accepts an ascending range. -/
theorem ListAt.is_sorted_loop (at_ : ListAt list (xs ++ x :: (seg ++ rest)) mem) {rounds : Nat}
    (ascending : Ascending less (x :: seg)) (enough : seg.length < rounds) :
    isSortedLoop less (cursor list rest) mem rounds x = .ok true := by
  induction seg generalizing xs x rounds with
  | nil =>
    obtain ⟨rounds, rfl⟩ := Nat.exists_eq_succ_of_ne_zero (Nat.ne_of_gt enough)
    rw [isSortedLoop, at_.next_eq, ok_bind, List.nil_append, if_pos rfl]
  | cons y seg ih =>
    obtain ⟨rounds, rfl⟩ := Nat.exists_eq_succ_of_ne_zero (by omega : rounds ≠ 0)
    obtain ⟨le, ascending⟩ := List.isChain_cons_cons.mp ascending
    have different : y ≠ cursor list rest := fun same => absurd (at_.cursor_step.mp same) (by simp)
    obtain ⟨forward, back⟩ := at_.step
    rw [isSortedLoop, forward, ok_bind, if_neg different, back, ok_bind, if_neg (by simp [le])]
    exact ih at_.shift ascending (by simpa using enough)

theorem ListAt.is_sorted (at_ : ListAt list (xs ++ (seg ++ rest)) mem) {rounds : Nat}
    (ascending : Ascending less seg) (enough : seg.length ≤ rounds) :
    isSorted less rounds (cursor list (seg ++ rest)) (cursor list rest) mem = .ok true := by
  cases seg with
  | nil => rw [isSorted, List.nil_append, if_neg (by simp)]
  | cons s seg =>
    have different : cursor list (s :: seg ++ rest) ≠ cursor list rest := fun same =>
      absurd (at_.cursor_eq_cursor.mp same) (by simp)
    rw [isSorted, if_pos different]
    exact at_.is_sorted_loop ascending enough

/-- Comparing the ends of two ranges. -/
theorem ListAt.both_ranges (at_ : ListAt list (xs ++ (ys ++ (seg ++ rest))) mem) :
    (cursor list (ys ++ (seg ++ rest)) ≠ cursor list (seg ++ rest) ∧ cursor list (seg ++ rest) ≠ cursor list rest) ↔
      ys ≠ [] ∧ seg ≠ [] := by
  rw [Ne, at_.cursor_eq_cursor, Ne, at_.regroup.cursor_eq_cursor]

/-- The loop of `inplace_merge` merges two neighbouring ranges by splicing single nodes. -/
theorem merge_loop_spec {rounds : Nat} :
    ∀ {left right passed : List Nat} {mem : Mem}, ListAt list (passed ++ (left ++ (right ++ rest))) mem →
    left.length + right.length < rounds →
    ∃ mem', mergeLoop less (cursor list rest) rounds (cursor list (left ++ (right ++ rest)))
        (cursor list (right ++ rest)) mem = .ok mem' ∧
      ListAt list (passed ++ (merged less left right ++ rest)) mem' ∧
      Untouched {a | a ∈ whole list (passed ++ (left ++ (right ++ rest)))} mem mem' := by
  induction rounds with
  | zero => exact fun _ enough => absurd enough (Nat.not_lt_zero _)
  | succ rounds ih =>
    intro left right passed mem at_ enough
    rw [mergeLoop]
    match left, right with
    | [], right =>
      rw [if_neg fun both => (at_.both_ranges.mp both).1 rfl, merged_nil_left]
      exact ⟨mem, rfl, at_, fun _ _ => rfl⟩
    | x :: left, [] =>
      rw [if_neg fun both => (at_.both_ranges.mp both).2 rfl, merged_nil_right]
      exact ⟨mem, rfl, at_, fun _ _ => rfl⟩
    | x :: left, y :: right =>
      simp only [List.length_cons] at enough
      rw [if_pos (at_.both_ranges.mpr (by simp))]
      cases order : less y x with
      | false =>
        rw [List.cons_append, List.cons_append, cursor_cons, cursor_cons, if_pos (by simp [order]),
          at_.next_eq, ok_bind, merged_of_not_less order]
        obtain ⟨mem', run, after, untouched⟩ := ih at_.shift
          (by simp only [List.length_cons]; omega)
        refine ⟨mem', run, ?_, ?_⟩
        · rwa [List.append_assoc] at after
        · rwa [List.append_assoc] at untouched
      | true =>
        have here : ListAt list ((passed ++ x :: left) ++ ([y] ++ (right ++ rest))) mem := by
          simpa using at_
        have split : (passed ++ x :: left) ++ (right ++ rest) = passed ++ (x :: left ++ (right ++ rest)) := by simp
        obtain ⟨spliced, run, at_', untouched⟩ := here.splice (by simp) split
        have forward : listNext y mem = .ok (cursor list (right ++ rest)) :=
          ListAt.next_eq (show ListAt list ((passed ++ x :: left) ++ y :: (right ++ rest)) mem from here)
        have back := ListAt.prev_eq (show ListAt list (((passed ++ x :: left) ++ [y]) ++ (right ++ rest)) mem from here.shift)
        rw [behind_concat] at back
        rw [List.cons_append, List.cons_append, cursor_cons, cursor_cons, if_neg (by simp [order]),
          forward, ok_bind, back, ok_bind]
        rw [List.head_cons, List.cons_append, cursor_cons] at run
        rw [run, ok_bind, merged_of_less order]
        obtain ⟨mem', run', after, untouched'⟩ := ih at_'.regroup
          (by simp only [List.length_cons]; omega)
        refine ⟨mem', run', by simpa using after, ?_⟩
        have same := whole_congr (moved_perm split [y]) list
        simp only [List.append_assoc, List.cons_append, List.nil_append] at untouched untouched' same ⊢
        rw [← same] at untouched'
        exact untouched.trans untouched'

/-- `inplace_merge` of two ascending ranges. -/
theorem ListAt.inplace_merge {left right passed : List Nat}
    (at_ : ListAt list (passed ++ (left ++ (right ++ rest))) mem) {rounds : Nat} (leftAscending : Ascending less left)
    (rightAscending : Ascending less right) (enough : left.length + right.length < rounds) :
    ∃ mem', inplaceMerge less rounds (cursor list (left ++ (right ++ rest))) (cursor list (right ++ rest))
        (cursor list rest) mem = .ok mem' ∧
      ListAt list (passed ++ (merged less left right ++ rest)) mem' ∧
      Untouched {a | a ∈ whole list (passed ++ (left ++ (right ++ rest)))} mem mem' := by
  have second : ListAt list ((passed ++ left) ++ (right ++ rest)) mem := by rwa [List.append_assoc]
  have third : ListAt list (((passed ++ left) ++ right) ++ rest) mem := by rwa [List.append_assoc]
  rw [inplaceMerge, assert_of at_.prev_ne_zero.1, ok_bind, assert_of second.prev_ne_zero.1, ok_bind,
    assert_of third.prev_ne_zero.1, ok_bind, at_.is_sorted leftAscending (by omega), ok_bind, assert_of rfl, ok_bind,
    second.is_sorted rightAscending (by omega), ok_bind, assert_of rfl, ok_bind]
  exact merge_loop_spec at_ enough

theorem Untouched.of_perm {elems elems' : List Nat} {mem mem' : Mem} (perm : elems.Perm elems')
    (untouched : Untouched {a | a ∈ whole list elems} mem mem') : Untouched {a | a ∈ whole list elems'} mem mem' := by
  rwa [← whole_congr perm]

/-- One pass over the rest of a list, when the runs that it counts do not overflow the counter. -/
theorem sort_pass_spec {rounds : Nat} (rest : List Nat) : ∀ {passed : List Nat} {passRounds count : Nat} {mem : Mem},
    ListAt list (passed ++ rest) mem → rest.length < passRounds → rest.length < rounds →
    count + passRuns less rest < 2 ^ 64 →
    ∃ mem', sortPass less rounds list passRounds (cursor list rest) count mem =
        .ok (count + passRuns less rest, mem') ∧
      ListAt list (passed ++ mergePass less rest) mem' ∧ Untouched {a | a ∈ whole list (passed ++ rest)} mem mem' := by
  induction rest using pass_induction less with
  | nil =>
    intro passed passRounds count mem at_ enough _ _
    obtain ⟨passRounds, rfl⟩ := Nat.exists_eq_succ_of_ne_zero (Nat.ne_of_gt enough)
    refine ⟨mem, ?_, by rwa [mergePass], fun _ _ => rfl⟩
    rw [sortPass, at_.end_eq, ok_bind, cursor_nil, if_pos rfl, passRuns, Nat.add_zero]
  | last a xs last =>
    intro passed passRounds count mem at_ enough some fits
    rw [passRuns_last less last] at fits ⊢
    obtain ⟨passRounds, rfl⟩ := Nat.exists_eq_succ_of_ne_zero (by omega : passRounds ≠ 0)
    refine ⟨mem, ?_, by rwa [mergePass_last less last], fun _ _ => rfl⟩
    rw [sortPass, at_.end_eq, ok_bind, cursor_cons, if_neg at_.elem_ne_tail,
      at_.find_end_of_run (Nat.lt_of_succ_lt some), ok_bind, last, cursor_nil, if_pos rfl, Nat.mod_eq_of_lt fits]
  | two a xs b ys following ih =>
    intro passed passRounds count mem at_ enough some fits
    rw [passRuns_two less following] at fits ⊢
    obtain ⟨passRounds, rfl⟩ := Nat.exists_eq_succ_of_ne_zero (by omega : passRounds ≠ 0)
    have shape := split_runs less following
    have firstLength := length_afterRun_le less a xs
    have secondLength := length_afterRun_le less b ys
    rw [following] at firstLength
    simp only [List.length_cons] at enough some firstLength
    have runsLength := congrArg List.length shape
    simp only [List.length_cons, List.length_append] at runsLength
    have parts : ListAt list (passed ++ (run less a xs ++ (run less b ys ++ afterRun less b ys))) mem := shape ▸ at_
    have second : ListAt list ((passed ++ run less a xs) ++ b :: ys) mem := by
      rwa [run_append_afterRun, ← List.append_assoc] at parts
    have room : (run less a xs).length + (run less b ys).length < rounds := by omega
    have left : (afterRun less b ys).length < passRounds := by omega
    have counted : count + 1 + passRuns less (afterRun less b ys) < 2 ^ 64 := by omega
    obtain ⟨mem₁, mergeRun, merged₁, untouched₁⟩ := parts.inplace_merge (ascending_run a xs)
      (ascending_run b ys) room
    rw [← List.append_assoc] at merged₁
    obtain ⟨mem₂, passRun, merged₂, untouched₂⟩ := ih merged₁ left (by omega)
      counted
    refine ⟨mem₂, ?_, ?_, ?_⟩
    · rw [← shape, run_append_afterRun, cursor_cons, cursor_cons] at mergeRun
      rw [sortPass, at_.end_eq, ok_bind, cursor_cons, if_neg at_.elem_ne_tail,
        at_.find_end_of_run (Nat.lt_of_succ_lt (by simpa using some)), ok_bind, following, cursor_cons,
        if_neg second.elem_ne_tail, second.find_end_of_run (by omega), ok_bind, mergeRun, ok_bind,
        Nat.mod_eq_of_lt (by omega), passRun, Nat.add_assoc, Nat.add_comm 1]
    · rwa [mergePass_two less following, ← List.append_assoc]
    · rw [← shape] at untouched₁
      refine untouched₁.trans (untouched₂.of_perm ?_)
      rw [shape, List.append_assoc, ← List.append_assoc (run less a xs)]
      exact (List.Perm.append_right _ (merged_perm less _ _)).append_left _

/-- An address space has no room for so many nodes that a counter of them could wrap. -/
theorem Cells.length_le {cells : Set Nat} (nodes : Cells cells) {l : List Nat} (sub : ∀ a ∈ l, a ∈ cells)
    (nodup : l.Nodup) : l.length ≤ 2 ^ 60 := by
  have distinct : (l.map (· / 16)).Nodup := by
    refine (List.nodup_map_iff_inj_on nodup).mpr fun a inA b inB same => ?_
    by_contra different
    have := nodes.apart a (sub a inA) b (sub b inB) different
    omega
  have bounded : l.map (· / 16) ⊆ List.range (2 ^ 60) := by
    intro q member
    obtain ⟨a, inA, rfl⟩ := List.mem_map.mp member
    have := nodes.fits a (sub a inA)
    exact List.mem_range.mpr (by omega)
  have short := (List.subperm_of_subset distinct bounded).length_le
  rwa [List.length_map, List.length_range] at short

theorem ListAt.length_lt (at_ : ListAt list elems mem) : elems.length < 2 ^ 64 := by
  have := at_.cells.length_le (fun a member => member) at_.nodup
  simp only [whole, List.length_cons, List.length_append] at this
  omega

/-- The passes of `list_sort`: one for every halving of the number of runs. -/
theorem sort_loop_spec (asymmetric : ∀ a b, less a b = true → less b a = false) {rounds passes : Nat} :
    ∀ {elems : List Nat} {mem : Mem}, ListAt list elems mem → elems.length < rounds → runs less elems ≤ 2 ^ passes →
    0 < passes →
    ∃ mem', sortLoop less rounds list passes mem = .ok mem' ∧ ListAt list (sort less passes elems) mem' ∧
      Untouched {a | a ∈ whole list elems} mem mem' := by
  induction passes with
  | zero => exact fun _ _ _ some_pass => absurd some_pass (Nat.lt_irrefl 0)
  | succ passes ih =>
    intro elems mem at_ enough few _
    have written := runs_mergePass_le asymmetric elems
    have counted := passRuns_eq less elems
    have bound := runs_le_length less elems
    have short := at_.length_lt
    rw [Nat.pow_succ] at few
    have zero : 0 + passRuns less elems < 2 ^ 64 := by omega
    obtain ⟨mem₁, run, merged₁, untouched₁⟩ := sort_pass_spec elems at_.from_begin enough
      enough zero
    rw [Nat.zero_add] at run
    rw [List.nil_append] at merged₁ untouched₁
    rw [sortLoop, at_.begin_eq, ok_bind, run, ok_bind, NaturalMerge.sort]
    dsimp only
    by_cases more : 1 < passRuns less elems
    · rw [if_pos more, if_pos more]
      have left : 0 < passes := by
        rcases Nat.eq_zero_or_pos passes with zero | pos
        · subst zero
          omega
        · exact pos
      have perm := mergePass_perm less elems
      obtain ⟨mem₂, run₂, merged₂, untouched₂⟩ := ih merged₁ (perm.length_eq ▸ enough) (by omega) left
      exact ⟨mem₂, run₂, merged₂, untouched₁.trans (untouched₂.of_perm perm)⟩
    · rw [if_neg more, if_neg more]
      exact ⟨mem₁, rfl, merged₁, untouched₁⟩

/-- `list_sort` runs the natural merge sort in place. -/
theorem ListAt.sort (at_ : ListAt list elems mem) (asymmetric : ∀ a b, less a b = true → less b a = false)
    {rounds : Nat} (enough : elems.length < rounds) :
    ∃ mem', listSort less rounds list mem = .ok mem' ∧ ListAt list (NaturalMerge.sort less rounds elems) mem' ∧
      Untouched {a | a ∈ whole list elems} mem mem' := by
  have bound := runs_le_length less elems
  have few : runs less elems ≤ 2 ^ rounds := by
    have := @Nat.lt_two_pow_self rounds
    omega
  have some_pass : 0 < rounds := by omega
  obtain ⟨mem', run, sorted, untouched⟩ := sort_loop_spec asymmetric at_ enough few some_pass
  refine ⟨mem', ?_, sorted, untouched⟩
  have ascending := ascending_sort asymmetric few some_pass
  have length := (sort_perm less rounds elems).length_eq
  have check := sorted.to_end.from_begin.is_sorted ascending (length ▸ Nat.le_of_lt enough)
  rw [List.append_nil, cursor_nil] at check
  rw [listSort, assert_of at_.list_ne_zero, ok_bind, run, ok_bind, sorted.begin_eq, ok_bind, sorted.end_eq, ok_bind,
    check, ok_bind, assert_of rfl, ok_bind]

/-- `list_sort` returns for every comparison that never holds both ways, with the nodes of the list
in an ascending order and nothing else touched. -/
theorem listSort_ascending (at_ : ListAt list elems mem) (asymmetric : ∀ a b, less a b = true → less b a = false)
    {rounds : Nat} (enough : elems.length < rounds) :
    ∃ mem' sorted, listSort less rounds list mem = .ok mem' ∧ ListAt list sorted mem' ∧ sorted.Perm elems ∧
      Ascending less sorted ∧ Untouched {a | a ∈ whole list elems} mem mem' := by
  obtain ⟨mem', run, sorted, untouched⟩ := at_.sort asymmetric enough
  have bound := runs_le_length less elems
  have := @Nat.lt_two_pow_self rounds
  exact ⟨mem', _, run, sorted, sort_perm less rounds elems, ascending_sort asymmetric (by omega) (by omega), untouched⟩

/-- Elements compared by a number that belongs to them. -/
theorem strictWeak_key (key : Nat → Nat) : StrictWeak fun a b : Nat => decide (key a < key b) := by
  refine ⟨fun a b lt => ?_, fun a b c ab bc => ?_⟩
  · simp only [decide_eq_true_eq, decide_eq_false_iff_not] at lt ⊢
    omega
  · simp only [decide_eq_false_iff_not] at ab bc ⊢
    omega

/-- Elements compared by their addresses. -/
theorem strictWeak_address : StrictWeak fun a b : Nat => decide (a < b) := strictWeak_key id

theorem listSort_ascending_pair : ∃ mem mem' sorted, ListAt 4096 [8208, 8192] mem ∧
    listSort (fun a b => decide (a < b)) 3 4096 mem = .ok mem' ∧ ListAt 4096 sorted mem' ∧
    sorted.Perm [8208, 8192] ∧ Ascending (fun a b => decide (a < b)) sorted ∧
    Untouched {a | a ∈ whole 4096 [8208, 8192]} mem mem' := by
  have perm : List.Perm [8192, 8208] [8208, 8192] := List.Perm.swap ..
  obtain ⟨mem, at_⟩ := exists_listAt (whole_congr perm 4096 ▸ pair_cells.1)
    (((perm.append_right _).cons _).nodup_iff.mp pair_cells.2)
  obtain ⟨mem', sorted, rest⟩ := listSort_ascending at_ strictWeak_address.asymmetric (show 2 < 3 by decide)
  exact ⟨mem, mem', sorted, at_, rest⟩

/-- With a strict weak order the sort is stable: the nodes end up as `List.mergeSort` arranges them. -/
theorem listSort_stable (at_ : ListAt list elems mem) (order : StrictWeak less) {rounds : Nat}
    (enough : elems.length < rounds) :
    ∃ mem', listSort less rounds list mem = .ok mem' ∧ ListAt list (elems.mergeSort fun a b => !less b a) mem' ∧
      Untouched {a | a ∈ whole list elems} mem mem' := by
  obtain ⟨mem', run, sorted, untouched⟩ := at_.sort order.asymmetric enough
  have bound := runs_le_length less elems
  have big := @Nat.lt_two_pow_self rounds
  have distinct : elems.Nodup := (List.nodup_append.mp (List.nodup_cons.mp at_.nodup).2).1
  rw [sort_eq_mergeSort order distinct (by omega) (by omega)] at sorted
  exact ⟨mem', run, sorted, untouched⟩

theorem triple_cells : Cells {a | a ∈ whole 4096 [8224, 8208, 8192]} ∧ (whole 4096 [8224, 8208, 8192]).Nodup := by
  refine ⟨⟨fun a member => ?_, fun a member => ?_, fun a member b member' different => ?_⟩, by decide⟩
  all_goals simp only [whole, listHead, listTail, Set.mem_ofPred_eq, List.mem_cons, List.cons_append, List.nil_append,
    List.not_mem_nil, or_false] at *
  all_goals omega

/-- The two nodes that are tied stay in their order. -/
theorem listSort_stable_triple : ∃ mem mem', ListAt 4096 [8224, 8208, 8192] mem ∧
    listSort (fun a b => decide (a / 32 < b / 32)) 4 4096 mem = .ok mem' ∧ ListAt 4096 [8208, 8192, 8224] mem' ∧
    Untouched {a | a ∈ whole 4096 [8224, 8208, 8192]} mem mem' := by
  obtain ⟨mem, at_⟩ := exists_listAt triple_cells.1 triple_cells.2
  obtain ⟨mem', run, sorted, untouched⟩ := listSort_stable at_ (strictWeak_key (· / 32)) (show 3 < 4 by decide)
  have arranged : ([8224, 8208, 8192].mergeSort fun a b : Nat => !decide (b / 32 < a / 32)) = [8208, 8192, 8224] := by
    simp [List.mergeSort, List.MergeSort.Internal.splitInTwo]
  rw [arranged] at sorted
  exact ⟨mem, mem', at_, run, sorted, untouched⟩

end Swink.Mem
