import Swink.Lists.Edit

namespace Swink.Mem
open Links

variable {list x a b : Nat} {elems xs ys rest : List Nat} {mem mem' : Mem} {cells : Set Nat} {next prev : Nat → Nat}

theorem ptr_lt (mem : Mem) (a : Nat) : mem.ptr a < 2 ^ 64 := (mem.load64 a).isLt

/-- Exchanging the two links of one node. -/
theorem Relinked.swap_links (nodes : Cells cells) (so : Relinked cells mem mem' next prev) (member : x ∈ cells) :
    Relinked cells mem (mem'.swap x (x + 8)) (Function.update next x (prev x)) (Function.update prev x (next x)) := by
  have one := so.setPrev nodes member (ptr_lt mem' (x + 8))
  have two := one.setNext nodes member (ptr_lt mem' x)
  rw [show mem'.ptr x = prev x from so.prev_eq x member, show mem'.ptr (x + 8) = next x from so.next_eq x member] at two
  have same : mem'.swap x (x + 8) = (mem'.setPrev x (next x)).setNext x (prev x) := by
    rw [← so.prev_eq x member, ← so.next_eq x member]
    rfl
  rwa [same]

/-- Exchanging a forward link of one node with a backward link of another. -/
theorem Relinked.swap_across (nodes : Cells cells) (so : Relinked cells mem mem' next prev) (inA : a ∈ cells)
    (inB : b ∈ cells) :
    Relinked cells mem (mem'.swap (a + 8) b) (Function.update next a (prev b)) (Function.update prev b (next a)) ∧
      Relinked cells mem (mem'.swap b (a + 8)) (Function.update next a (prev b)) (Function.update prev b (next a)) := by
  have forward : Relinked cells mem ((mem'.setNext a (prev b)).setPrev b (next a)) _ _ :=
    (so.setNext nodes inA (so.prev_eq b inB ▸ ptr_lt mem' b)).setPrev nodes inB
      (so.next_eq a inA ▸ ptr_lt mem' (a + 8))
  have backward : Relinked cells mem ((mem'.setPrev b (next a)).setNext a (prev b)) _ _ :=
    (so.setPrev nodes inB (so.next_eq a inA ▸ ptr_lt mem' (a + 8))).setNext nodes inA
      (so.prev_eq b inB ▸ ptr_lt mem' b)
  rw [← so.prev_eq b inB, ← so.next_eq a inA] at forward backward ⊢
  exact ⟨forward, backward⟩

/-- The links while `list_reverse` has turned round the nodes `xs`. -/
def turned (xs : List Nat) (one other : Nat → Nat) (a : Nat) : Nat := if a ∈ xs then other a else one a

theorem turned_concat (xs : List Nat) (one other : Nat → Nat) (fresh : x ∉ xs) (a : Nat) :
    turned (xs ++ [x]) one other a =
      Function.update (turned xs one other) x (turned xs other one x) a := by
  by_cases same : a = x
  · subst same
    rw [Function.update_self, turned, turned, if_pos (by simp), if_neg fresh]
  · rw [Function.update_of_ne same]
    simp [turned, same]

theorem Relinked.congr (so : Relinked cells mem mem' next prev) {next' prev' : Nat → Nat}
    (sameNext : ∀ a, next' a = next a) (samePrev : ∀ a, prev' a = prev a) : Relinked cells mem mem' next' prev' :=
  ⟨fun a member => (so.next_eq a member).trans (sameNext a).symm,
    fun a member => (so.prev_eq a member).trans (samePrev a).symm, so.untouched⟩

theorem ListAt.not_mem_passed (at_ : ListAt list (xs ++ x :: rest) mem) : x ∉ xs := fun member => by
  have nodup := at_.nodup
  rw [whole_append] at nodup
  exact (List.nodup_append.mp nodup).2.2 x (List.mem_cons_of_mem _ member) x (by simp) rfl

/-- The loop turns round node after node, going on by what was the forward link. -/
theorem reverse_loop_spec {rounds : Nat} (at_ : ListAt list (xs ++ rest) mem) (enough : rest.length < rounds)
    (so : Relinked {a | a ∈ whole list (xs ++ rest)} mem mem' (turned xs mem.next mem.prev)
      (turned xs mem.prev mem.next)) :
    ∃ mem'', reverseLoop list rounds (cursor list rest) mem' = .ok mem'' ∧
      Relinked {a | a ∈ whole list (xs ++ rest)} mem mem'' (turned (xs ++ rest) mem.next mem.prev)
        (turned (xs ++ rest) mem.prev mem.next) := by
  induction rest generalizing xs rounds mem' with
  | nil =>
    obtain ⟨rounds, rfl⟩ := Nat.exists_eq_succ_of_ne_zero (Nat.ne_of_gt enough)
    rw [reverseLoop, at_.end_eq, ok_bind, cursor_nil, if_pos rfl, List.append_nil]
    rw [List.append_nil] at so
    exact ⟨mem', rfl, so⟩
  | cons y rest ih =>
    obtain ⟨rounds, rfl⟩ := Nat.exists_eq_succ_of_ne_zero (by omega : rounds ≠ 0)
    have fresh := at_.not_mem_passed
    have member : y ∈ whole list (xs ++ y :: rest) := mem_whole_append.mpr (by simp)
    have after := at_.shift.joint.1
    rw [behind_concat] at after
    have step := (so.swap_links at_.cells member).congr (turned_concat xs mem.next mem.prev fresh)
      (turned_concat xs mem.prev mem.next fresh)
    have onward : (mem'.swap y (y + 8)).prev y = cursor list rest := by
      rw [step.prev_eq y member, turned, if_pos (by simp), after]
    rw [reverseLoop, at_.end_eq, ok_bind, cursor_cons, if_neg at_.elem_ne_tail]
    dsimp only
    rw [onward]
    have shape : xs ++ y :: rest = (xs ++ [y]) ++ rest := by simp
    rw [shape] at step ⊢
    exact ih at_.shift (Nat.lt_of_succ_lt_succ enough) step

/-- The links of a list with elements, from sentinel to sentinel. -/
theorem ListAt.between (at_ : ListAt list elems mem) (nonempty : elems ≠ []) :
    (mem.next (listHead list) = elems.head nonempty ∧ mem.prev (elems.head nonempty) = listHead list) ∧
      Linked mem.next mem.prev elems ∧
      mem.next (elems.getLast nonempty) = listTail list ∧ mem.prev (listTail list) = elems.getLast nonempty := by
  have linked : Linked mem.next mem.prev ([] ++ listHead list :: (elems ++ listTail list :: [])) := at_.linked
  obtain ⟨-, joined, inner, joined', -⟩ := (linked_between nonempty).mp linked
  exact ⟨joined, inner, joined'⟩

/-- A list whose links are turned round, once its ends are too, is the reversed list. -/
theorem ListAt.turned_round (at_ : ListAt list elems mem) (nonempty : elems ≠ [])
    (forward : ∀ a ∈ whole list elems, mem'.next a = Function.update (Function.update (turned elems mem.next mem.prev)
      (listHead list) (elems.getLast nonempty)) (elems.head nonempty) (listTail list) a)
    (backward : ∀ a ∈ whole list elems, mem'.prev a = Function.update (Function.update (turned elems mem.prev mem.next)
      (listTail list) (elems.head nonempty)) (elems.getLast nonempty) (listHead list) a) :
    ListAt list elems.reverse mem' := by
  have first := List.head_mem nonempty
  have last := List.getLast_mem nonempty
  have inner (a : Nat) (member : a ∈ elems) : a ≠ listHead list ∧ a ≠ listTail list := by
    obtain ⟨headFresh, rest⟩ := List.nodup_cons.mp at_.nodup
    refine ⟨fun isHead => headFresh (isHead ▸ List.mem_append_left _ member), fun isTail => ?_⟩
    exact (List.nodup_append.mp rest).2.2 a member _ (List.mem_singleton_self _) isTail
  have ends : listHead list ≠ listTail list := by
    unfold listHead listTail
    omega
  have headOut : listHead list ∉ elems := fun member => (inner _ member).1 rfl
  have tailOut : listTail list ∉ elems := fun member => (inner _ member).2 rfl
  have nodup : elems.Nodup := (List.nodup_append.mp (List.nodup_cons.mp at_.nodup).2).1
  have inHead : listHead list ∈ whole list elems := List.mem_cons_self ..
  have inTail : listTail list ∈ whole list elems := mem_whole.mpr (Or.inr (Or.inr rfl))
  have inWhole {a : Nat} (member : a ∈ elems) : a ∈ whole list elems := mem_whole.mpr (Or.inr (Or.inl member))
  have perm := List.reverse_perm elems
  have wholePerm : (whole list elems.reverse).Perm (whole list elems) := (perm.append_right _).cons _
  have links := (at_.between nonempty).2.1
  refine ⟨by rw [whole_congr perm]; exact at_.cells, wholePerm.nodup_iff.mpr at_.nodup, ?_, ?_, ?_⟩
  · show Linked mem'.next mem'.prev ([] ++ listHead list :: (elems.reverse ++ listTail list :: []))
    refine (linked_between (List.reverse_ne_nil_iff.mpr nonempty)).mpr ⟨List.isChain_singleton _, ⟨?_, ?_⟩, ?_,
      ⟨?_, ?_⟩, List.isChain_singleton _⟩
    · rw [forward _ inHead, Function.update_of_ne (inner _ first).1.symm, Function.update_self, List.head_reverse]
    · rw [List.head_reverse, backward _ (inWhole last), Function.update_self]
    · have turnedLinks : Linked mem'.prev mem'.next elems := by
        refine links.congr (fun a member => ?_) fun a member => ?_
        · have inElems := List.dropLast_subset _ member
          rw [backward a (inWhole inElems), Function.update_of_ne (dropLast_ne_getLast nodup nonempty member),
            Function.update_of_ne (inner a inElems).2, turned, if_pos inElems]
        · have inElems := List.mem_of_mem_tail member
          rw [forward a (inWhole inElems), Function.update_of_ne (tail_ne_head nodup nonempty member),
            Function.update_of_ne (inner a inElems).1, turned, if_pos inElems]
      exact List.isChain_reverse.mpr (turnedLinks.imp fun _ _ both => both.symm)
    · rw [List.getLast_reverse, forward _ (inWhole first), Function.update_self]
    · rw [List.getLast_reverse, backward _ inTail, Function.update_of_ne (inner _ last).2.symm, Function.update_self]
  · rw [backward _ inHead, Function.update_of_ne (inner _ last).1.symm, Function.update_of_ne ends, turned,
      if_neg headOut, at_.front]
  · rw [forward _ inTail, Function.update_of_ne (inner _ first).2.symm, Function.update_of_ne ends.symm, turned,
      if_neg tailOut, at_.back]

/-- `list_reverse` reverses the list in place. -/
theorem ListAt.reversed {rounds : Nat} (at_ : ListAt list elems mem) (enough : elems.length < rounds) :
    ∃ mem', listReverse rounds list mem = .ok mem' ∧ ListAt list elems.reverse mem' ∧
      Untouched {a | a ∈ whole list elems} mem mem' := by
  by_cases empty : elems = []
  · subst empty
    refine ⟨mem, ?_, at_, fun _ _ => rfl⟩
    rw [listReverse, at_.empty_eq, ok_bind]
    rfl
  · have start : Relinked {a | a ∈ whole list ([] ++ elems)} mem mem (turned [] mem.next mem.prev)
        (turned [] mem.prev mem.next) :=
      (Relinked.refl _ mem).congr (fun a => by simp [turned]) fun a => by simp [turned]
    obtain ⟨mem₁, run, so⟩ := reverse_loop_spec at_.from_begin enough start
    rw [List.nil_append] at so
    have inHead : listHead list ∈ whole list elems := List.mem_cons_self ..
    have inTail : listTail list ∈ whole list elems := mem_whole.mpr (Or.inr (Or.inr rfl))
    have first := List.head_mem empty
    have last := List.getLast_mem empty
    have inWhole {a : Nat} (member : a ∈ elems) : a ∈ whole list elems := mem_whole.mpr (Or.inr (Or.inl member))
    obtain ⟨⟨afterHead, beforeFirst⟩, -, afterLast, beforeTail⟩ := at_.between empty
    obtain ⟨headFresh, rest⟩ := List.nodup_cons.mp at_.nodup
    have headOut : listHead list ∉ elems := fun member => headFresh (List.mem_append_left _ member)
    have tailOut : listTail list ∉ elems := fun member =>
      (List.nodup_append.mp rest).2.2 _ member _ (List.mem_singleton_self _) rfl
    -- `swap(&list->head.next, &list->tail.prev)`
    have second := (so.swap_across at_.cells inHead inTail).1
    rw [turned, if_neg tailOut, beforeTail, turned, if_neg headOut, afterHead] at second
    -- `swap(&list->head.next->prev, &list->tail.prev->next)`
    have third := (second.swap_across at_.cells (inWhole first) (inWhole last)).2
    have lastOut : elems.getLast empty ≠ listTail list := fun same => tailOut (same ▸ last)
    have firstOut : elems.head empty ≠ listHead list := fun same => headOut (same ▸ first)
    rw [Function.update_of_ne lastOut, turned, if_pos last, afterLast, Function.update_of_ne firstOut, turned,
      if_pos first, beforeFirst] at third
    refine ⟨_, ?_, at_.turned_round empty third.next_eq third.prev_eq, third.untouched⟩
    have toLast : (mem₁.swap (listHead list + 8) (listTail list)).next (listHead list) = elems.getLast empty := by
      rw [second.next_eq _ inHead, Function.update_self]
    have toFirst : (mem₁.swap (listHead list + 8) (listTail list)).prev (listTail list) = elems.head empty := by
      rw [second.prev_eq _ inTail, Function.update_self]
    rw [listReverse, at_.empty_eq, ok_bind]
    simp only [List.isEmpty_iff, empty, if_false]
    rw [at_.begin_eq, ok_bind, run, ok_bind, toLast, toFirst]

end Swink.Mem
