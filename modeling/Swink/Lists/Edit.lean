import Swink.Lists.At

namespace Swink.Mem
open Links

variable {list x a b : Nat} {elems xs ys rest seg : List Nat} {mem mem' : Mem} {cells : Set Nat}

/-- Nodes that may be linked into a list. -/
structure Fresh (list : Nat) (elems seg : List Nat) : Prop where
  cells : Cells {a | a ∈ seg ++ whole list elems}
  nodup : (seg ++ whole list elems).Nodup

theorem whole_split (list : Nat) (xs ys : List Nat) :
    ∃ pre post, ∀ seg, whole list (xs ++ (seg ++ ys)) = pre ++ behind list xs :: (seg ++ cursor list ys :: post) := by
  obtain ⟨pre, front⟩ := front_split list xs
  obtain ⟨post, back⟩ := back_split list ys
  refine ⟨pre, post, fun seg => ?_⟩
  rw [whole_append, front, List.append_assoc, List.append_assoc, back]
  rfl

theorem mem_whole_of_append (member : a ∈ whole list (xs ++ ys)) : a ∈ whole list (xs ++ (seg ++ ys)) := by
  rw [mem_whole_append] at member ⊢
  rw [List.mem_append]
  tauto

theorem mem_whole_seg (member : a ∈ seg) : a ∈ whole list (xs ++ (seg ++ ys)) := by
  rw [mem_whole_append, List.mem_append]
  exact Or.inr (Or.inr (Or.inl (Or.inl member)))

theorem whole_perm (list : Nat) (xs seg ys : List Nat) :
    (whole list (xs ++ (seg ++ ys))).Perm (seg ++ whole list (xs ++ ys)) := by
  simp only [whole, List.append_assoc]
  refine (List.Perm.cons _ ?_).trans List.perm_middle.symm
  rw [← List.append_assoc xs, ← List.append_assoc seg xs]
  exact List.perm_append_comm.append_right _

theorem Cells.congr (nodes : Cells cells) {cells' : Set Nat} (sub : ∀ a ∈ cells', a ∈ cells) : Cells cells' :=
  ⟨fun a member => nodes.pos a (sub a member), fun a member => nodes.fits a (sub a member),
    fun a member b member' => nodes.apart a (sub a member) b (sub b member')⟩

/-- The tail is no element and not the head, and neither is the node behind any part. -/
theorem ListAt.ends (at_ : ListAt list (xs ++ ys) mem) :
    behind list xs ≠ listTail list ∧ cursor list ys ≠ listHead list := by
  obtain ⟨pre, front⟩ := front_split list xs
  obtain ⟨post, back⟩ := back_split list ys
  have nodup := at_.nodup
  rw [whole_append] at nodup
  have apart := (List.nodup_append.mp nodup).2.2
  refine ⟨apart _ ?_ _ (by simp), (apart _ (List.mem_cons_self ..) _ ?_).symm⟩
  · rw [front]
    simp
  · rw [back]
    simp

/-- Joining the neighbours of a segment takes it off its list. -/
theorem ListAt.unlink (at_ : ListAt list (xs ++ (seg ++ ys)) mem) (nonempty : seg ≠ [])
    (forward : ∀ a ∈ whole list (xs ++ (seg ++ ys)),
      mem'.next a = Function.update mem.next (behind list xs) (cursor list ys) a)
    (backward : ∀ a ∈ whole list (xs ++ (seg ++ ys)),
      mem'.prev a = Function.update mem.prev (cursor list ys) (behind list xs) a) :
    ListAt list (xs ++ ys) mem' ∧ Linked mem'.next mem'.prev seg := by
  obtain ⟨pre, post, shape⟩ := whole_split list xs ys
  have linked := at_.linked
  have nodup := at_.nodup
  rw [shape] at linked nodup
  obtain ⟨joined, inner⟩ := linked.unlink nonempty nodup
  have bare := shape []
  rw [List.nil_append, List.nil_append] at bare
  rw [← bare] at joined
  have ends := at_.regroup.ends
  have ends' := at_.ends
  refine ⟨⟨at_.cells.congr fun a member => mem_whole_of_append member, ?_, ?_, ?_, ?_⟩, ?_⟩
  · exact ((whole_perm list xs seg ys).nodup_iff.mp at_.nodup).of_append_right
  · exact joined.elsewhere (fun a member => forward a (mem_whole_of_append member))
      fun a member => backward a (mem_whole_of_append member)
  · rw [backward _ (by simp [whole]), Function.update_of_ne ends.2.symm, at_.front]
  · rw [forward _ (by simp [whole]), Function.update_of_ne ends'.1.symm, at_.back]
  · exact inner.elsewhere (fun a member => forward a (mem_whole_seg member))
      fun a member => backward a (mem_whole_seg member)

/-- Four links put a fresh segment into a list. -/
theorem ListAt.link (at_ : ListAt list (xs ++ ys) mem) (nonempty : seg ≠ []) (inner : Linked mem.next mem.prev seg)
    (fresh : Fresh list (xs ++ ys) seg)
    (forward : ∀ a ∈ whole list (xs ++ (seg ++ ys)), mem'.next a = Function.update
      (Function.update mem.next (seg.getLast nonempty) (cursor list ys)) (behind list xs) (seg.head nonempty) a)
    (backward : ∀ a ∈ whole list (xs ++ (seg ++ ys)), mem'.prev a = Function.update
      (Function.update mem.prev (seg.head nonempty) (behind list xs)) (cursor list ys) (seg.getLast nonempty) a) :
    ListAt list (xs ++ (seg ++ ys)) mem' := by
  obtain ⟨pre, post, shape⟩ := whole_split list xs ys
  have nodup := (whole_perm list xs seg ys).nodup_iff.mpr fresh.nodup
  have linked := at_.linked
  have bare := shape []
  rw [List.nil_append, List.nil_append] at bare
  rw [bare] at linked
  have joined := linked.link nonempty inner (shape seg ▸ nodup)
  rw [← shape] at joined
  have apart := (List.nodup_append.mp fresh.nodup).2.2
  have ends := at_.ends
  refine ⟨fresh.cells.congr fun a member => (whole_perm list xs seg ys).mem_iff.mp member, nodup,
    joined.elsewhere forward backward, ?_, ?_⟩
  · rw [backward _ (by simp [whole]), Function.update_of_ne ends.2.symm,
      Function.update_of_ne (apart _ (List.head_mem nonempty) _ (by simp [whole])).symm, at_.front]
  · rw [forward _ (by simp [whole]), Function.update_of_ne ends.1.symm,
      Function.update_of_ne (apart _ (List.getLast_mem nonempty) _ (by simp [whole])).symm, at_.back]

theorem Cells.small (nodes : Cells cells) (member : a ∈ cells) : a < 2 ^ 64 := by
  have := nodes.fits a member
  omega

/-- `list_init` makes an empty list of whatever the two sentinels held. -/
theorem listInit_at (nodes : Cells {a | a ∈ whole list []}) (mem : Mem) :
    ∃ mem', listInit list mem = .ok mem' ∧ ListAt list [] mem' ∧ Untouched {a | a ∈ whole list []} mem mem' := by
  have inHead : listHead list ∈ whole list [] := List.mem_cons_self ..
  have inTail : listTail list ∈ whole list [] := mem_whole.mpr (Or.inr (Or.inr rfl))
  have different : listHead list ≠ listTail list := by
    unfold listHead listTail
    omega
  have one := (Relinked.refl {a | a ∈ whole list []} mem).setPrev nodes inHead (Nat.two_pow_pos 64)
  have two := one.setNext nodes inHead (nodes.small inTail)
  have three := two.setPrev nodes inTail (nodes.small inHead)
  have four := three.setNext nodes inTail (Nat.two_pow_pos 64)
  refine ⟨_, ?_, ⟨nodes, ?_, ?_, ?_, ?_⟩, four.untouched⟩
  · rw [listInit, assert_of (show list ≠ 0 from Nat.pos_iff_ne_zero.mp (nodes.pos _ inHead)), ok_bind]
  · simp [whole, different]
  · refine List.isChain_pair.mpr ⟨?_, ?_⟩
    · rw [four.next_eq _ inHead, Function.update_of_ne different, Function.update_self]
    · rw [four.prev_eq _ inTail, Function.update_self]
  · rw [four.prev_eq _ inHead, Function.update_of_ne different, Function.update_self]
  · rw [four.next_eq _ inTail, Function.update_self]

/-- `list_insert` puts a fresh element before the cursor. -/
theorem ListAt.insert (at_ : ListAt list (xs ++ ys) mem) (fresh : Fresh list (xs ++ ys) [x]) :
    ∃ mem', listInsert (cursor list ys) x mem = .ok mem' ∧ ListAt list (xs ++ x :: ys) mem' ∧
      Untouched {a | a ∈ whole list (xs ++ x :: ys)} mem mem' := by
  have inCells {a : Nat} : a ∈ whole list (xs ++ x :: ys) ↔ a ∈ [x] ++ whole list (xs ++ ys) :=
    (whole_perm list xs [x] ys).mem_iff
  have nodes : Cells {a | a ∈ whole list (xs ++ x :: ys)} := fresh.cells.congr fun a member => inCells.mp member
  have joint := at_.joint
  have different : x ≠ cursor list ys :=
    (List.nodup_append.mp fresh.nodup).2.2 x (by simp) _ (cursor_mem_whole list xs ys)
  have atBefore : cursor list ys ∈ whole list (xs ++ x :: ys) :=
    inCells.mpr (List.mem_append_right _ (cursor_mem_whole list xs ys))
  have atPrev : behind list xs ∈ whole list (xs ++ x :: ys) := behind_mem_whole list xs (x :: ys)
  obtain ⟨mem', run, linked⟩ := listInsert_spec nodes atBefore (inCells.mpr (by simp)) (joint.2 ▸ atPrev) different
  rw [joint.2] at linked
  exact ⟨mem', run, at_.link (List.cons_ne_nil x []) (List.isChain_singleton x) fresh linked.next_eq linked.prev_eq,
    linked.untouched⟩

/-- Every layout of nodes can be linked up. -/
theorem exists_listAt (nodes : Cells {a | a ∈ whole list elems}) (nodup : (whole list elems).Nodup) :
    ∃ mem, ListAt list elems mem := by
  induction elems with
  | nil =>
    obtain ⟨mem, -, at_, -⟩ := listInit_at nodes fun _ => 0
    exact ⟨mem, at_⟩
  | cons x elems ih =>
    have perm := whole_perm list [] [x] elems
    have all := perm.nodup_iff.mp nodup
    have sub (a : Nat) (member : a ∈ whole list ([] ++ elems)) : a ∈ whole list ([] ++ ([x] ++ elems)) :=
      mem_whole_of_append member
    obtain ⟨mem, at_⟩ := ih (nodes.congr sub) all.of_append_right
    have fresh : Fresh list ([] ++ elems) [x] := ⟨nodes.congr fun a member => perm.mem_iff.mpr member, all⟩
    obtain ⟨mem', -, at', -⟩ := at_.from_begin.insert fresh
    exact ⟨mem', at'⟩

/-- The list at 4096 with the elements at 8192 and 8208. -/
theorem pair_cells : Cells {a | a ∈ whole 4096 [8192, 8208]} ∧ (whole 4096 [8192, 8208]).Nodup := by
  refine ⟨⟨fun a member => ?_, fun a member => ?_, fun a member b member' different => ?_⟩, by decide⟩
  all_goals simp only [whole, listHead, listTail, Set.mem_ofPred_eq, List.mem_cons, List.cons_append, List.nil_append,
    List.not_mem_nil, or_false] at *
  all_goals omega

/-- `list_remove` takes an element off its list. -/
theorem ListAt.remove (at_ : ListAt list (xs ++ x :: ys) mem) :
    ∃ mem', listRemove x mem = .ok mem' ∧ ListAt list (xs ++ ys) mem' ∧ mem'.next x = cursor list ys ∧
      Untouched {a | a ∈ whole list (xs ++ x :: ys)} mem mem' := by
  have before := at_.joint.2
  have after := at_.shift.joint
  rw [behind_concat] at after
  rw [cursor_cons] at before
  have inX : x ∈ whole list (xs ++ x :: ys) := mem_whole_append.mpr (by simp)
  have inBefore := behind_mem_whole list xs (x :: ys)
  have inAfter : cursor list ys ∈ whole list (xs ++ x :: ys) := by
    have member := cursor_mem_whole list (xs ++ [x]) ys
    rwa [List.append_assoc] at member
  have different : behind list xs ≠ x := by
    obtain ⟨pre, post, shape⟩ := whole_split list xs ys
    have nodup := at_.nodup
    rw [show x :: ys = [x] ++ ys from rfl, shape [x]] at nodup
    have fresh := (List.nodup_cons.mp (List.nodup_append.mp nodup).2.1).1
    exact fun same => fresh (by simp [same])
  obtain ⟨mem', run, linked⟩ := listRemove_spec at_.cells inX (before ▸ inBefore) (after.1 ▸ inAfter)
    (before ▸ different)
  rw [before, after.1] at linked
  refine ⟨mem', run, (at_.around.unlink (List.cons_ne_nil x []) linked.next_eq linked.prev_eq).1, ?_, linked.untouched⟩
  rw [linked.next_eq x inX, Function.update_of_ne different.symm, after.1]

/-- The two halves of `list_splice`: a range leaves its list and enters another. -/
def unlinkRange (first last : Nat) (mem : Mem) : Mem :=
  let mem := mem.setNext (mem.prev first) (mem.next last)
  mem.setPrev (mem.next last) (mem.prev first)

def linkRange (before first last : Nat) (mem : Mem) : Mem :=
  let mem := mem.setPrev first (mem.prev before)
  let mem := mem.setNext last before
  let mem := mem.setNext (mem.prev before) first
  mem.setPrev before last

theorem listSplice_of {before first last past : Nat} (valid : isInterior before mem ∨ isTail before mem)
    (different : first ≠ past) (endsAt : listPrev past mem = .ok last) (inFirst : isInterior first mem)
    (inLast : isInterior last mem) :
    listSplice before first past mem = .ok (linkRange before first last (unlinkRange first last mem)) := by
  rw [listSplice, assert_of valid, ok_bind, if_neg different, endsAt, ok_bind, assert_of inFirst, ok_bind,
    assert_of inLast, ok_bind]
  rfl

theorem ListAt.unlinkRange (at_ : ListAt list (xs ++ (seg ++ ys)) mem) (nonempty : seg ≠ []) :
    ListAt list (xs ++ ys) (unlinkRange (seg.head nonempty) (seg.getLast nonempty) mem) ∧
      Linked (Mem.unlinkRange (seg.head nonempty) (seg.getLast nonempty) mem).next
        (Mem.unlinkRange (seg.head nonempty) (seg.getLast nonempty) mem).prev seg ∧
      Untouched {a | a ∈ whole list (xs ++ (seg ++ ys))} mem
        (Mem.unlinkRange (seg.head nonempty) (seg.getLast nonempty) mem) := by
  have before := at_.joint.2
  rw [cursor_append nonempty] at before
  have after := at_.regroup.joint
  rw [behind_append nonempty] at after
  have atBefore := behind_mem_whole list xs (seg ++ ys)
  have atAfter : cursor list ys ∈ whole list (xs ++ (seg ++ ys)) := by
    rw [← List.append_assoc]
    exact cursor_mem_whole list (xs ++ seg) ys
  have atLast : seg.getLast nonempty ∈ whole list (xs ++ (seg ++ ys)) := mem_whole_seg (List.getLast_mem nonempty)
  have atFirst : seg.head nonempty ∈ whole list (xs ++ (seg ++ ys)) := mem_whole_seg (List.head_mem nonempty)
  have different : seg.getLast nonempty ≠ behind list xs := by
    obtain ⟨pre, post, shape⟩ := whole_split list xs ys
    have nodup := at_.nodup
    rw [shape] at nodup
    have fresh := (List.nodup_cons.mp (List.nodup_append.mp nodup).2.1).1
    exact fun same => fresh (List.mem_append_left _ (same ▸ List.getLast_mem nonempty))
  have one := (Relinked.refl {a | a ∈ whole list (xs ++ (seg ++ ys))} mem).setNext at_.cells atBefore
    (at_.cells.small atAfter)
  -- the second store reads `last->next` and `first->prev` again
  have keptNext : (mem.setNext (behind list xs) (cursor list ys)).next (seg.getLast nonempty) = cursor list ys := by
    rw [one.next_eq _ atLast, Function.update_of_ne different, after.1]
  have keptPrev : (mem.setNext (behind list xs) (cursor list ys)).prev (seg.head nonempty) = behind list xs :=
    (one.prev_eq _ atFirst).trans before
  have two := one.setPrev at_.cells atAfter (at_.cells.small atBefore)
  have reads : Mem.unlinkRange (seg.head nonempty) (seg.getLast nonempty) mem =
      (mem.setNext (behind list xs) (cursor list ys)).setPrev (cursor list ys) (behind list xs) := by
    unfold Mem.unlinkRange
    simp only [before, after.1, keptNext, keptPrev]
  rw [reads]
  obtain ⟨left, inner⟩ := at_.unlink nonempty two.next_eq two.prev_eq
  exact ⟨left, inner, two.untouched⟩

theorem ListAt.linkRange (at_ : ListAt list (xs ++ ys) mem) (nonempty : seg ≠ [])
    (inner : Linked mem.next mem.prev seg) (fresh : Fresh list (xs ++ ys) seg) :
    ListAt list (xs ++ (seg ++ ys)) (linkRange (cursor list ys) (seg.head nonempty) (seg.getLast nonempty) mem) ∧
      Untouched {a | a ∈ whole list (xs ++ (seg ++ ys))} mem
        (Mem.linkRange (cursor list ys) (seg.head nonempty) (seg.getLast nonempty) mem) := by
  have nodes : Cells {a | a ∈ whole list (xs ++ (seg ++ ys))} :=
    fresh.cells.congr fun a member => (whole_perm list xs seg ys).mem_iff.mp member
  have joint := at_.joint
  have atBefore : cursor list ys ∈ whole list (xs ++ (seg ++ ys)) :=
    mem_whole_of_append (cursor_mem_whole list xs ys)
  have atPrev := behind_mem_whole list xs (seg ++ ys)
  have atLast : seg.getLast nonempty ∈ whole list (xs ++ (seg ++ ys)) := mem_whole_seg (List.getLast_mem nonempty)
  have atFirst : seg.head nonempty ∈ whole list (xs ++ (seg ++ ys)) := mem_whole_seg (List.head_mem nonempty)
  have different : cursor list ys ≠ seg.head nonempty :=
    ((List.nodup_append.mp fresh.nodup).2.2 _ (List.head_mem nonempty) _ (cursor_mem_whole list xs ys)).symm
  have one := (Relinked.refl {a | a ∈ whole list (xs ++ (seg ++ ys))} mem).setPrev nodes atFirst (nodes.small atPrev)
  have two := one.setNext nodes atLast (nodes.small atBefore)
  have kept : ((mem.setPrev (seg.head nonempty) (behind list xs)).setNext (seg.getLast nonempty)
      (cursor list ys)).prev (cursor list ys) = behind list xs := by
    rw [two.prev_eq _ atBefore, Function.update_of_ne different, joint.2]
  have three := two.setNext nodes atPrev (nodes.small atFirst)
  have four := three.setPrev nodes atBefore (nodes.small atLast)
  have reads : Mem.linkRange (cursor list ys) (seg.head nonempty) (seg.getLast nonempty) mem =
      (((mem.setPrev (seg.head nonempty) (behind list xs)).setNext (seg.getLast nonempty) (cursor list ys)).setNext
        (behind list xs) (seg.head nonempty)).setPrev (cursor list ys) (seg.getLast nonempty) := by
    unfold Mem.linkRange
    simp only [joint.2, kept]
  rw [reads]
  exact ⟨at_.link nonempty inner fresh four.next_eq four.prev_eq, four.untouched⟩

theorem ListAt.interior_mem (at_ : ListAt list elems mem) (member : x ∈ elems) : isInterior x mem := by
  obtain ⟨xs, ys, rfl⟩ := List.append_of_mem member
  exact at_.interior

/-- What `list_splice` does to a proper range: the two halves, one after the other. -/
theorem ListAt.splice_run (at_ : ListAt list (xs ++ (seg ++ ys)) mem) (nonempty : seg ≠ []) {before : Nat}
    (valid : isInterior before mem ∨ isTail before mem) :
    listSplice before (seg.head nonempty) (cursor list ys) mem = .ok (Mem.linkRange before (seg.head nonempty)
      (seg.getLast nonempty) (Mem.unlinkRange (seg.head nonempty) (seg.getLast nonempty) mem)) := by
  have ends := at_.regroup.prev_eq
  rw [behind_append nonempty] at ends
  have different : seg.head nonempty ≠ cursor list ys := by
    rw [← cursor_append nonempty list ys]
    exact fun same => nonempty (at_.cursor_eq_cursor.mp same)
  have inner {a : Nat} (member : a ∈ seg) : isInterior a mem := at_.interior_mem (by simp [member])
  exact listSplice_of valid different ends (inner (List.head_mem nonempty)) (inner (List.getLast_mem nonempty))

theorem ListAt.fresh (at_ : ListAt list (xs ++ (seg ++ ys)) mem) : Fresh list (xs ++ ys) seg :=
  ⟨at_.cells.congr fun _ member => (whole_perm list xs seg ys).mem_iff.mpr member,
    (whole_perm list xs seg ys).nodup_iff.mp at_.nodup⟩

/-- Any cursor of a list may be inserted before. -/
theorem ListAt.valid_of (at_ : ListAt list elems mem) {vs : List Nat} (sub : ∀ a ∈ vs, a ∈ elems) :
    isInterior (cursor list vs) mem ∨ isTail (cursor list vs) mem := by
  cases vs with
  | nil => exact at_.to_end.interior_or_tail
  | cons v vs => exact Or.inl (at_.interior_mem (sub v (List.mem_cons_self ..)))

/-- The nodes of a list are the same in every arrangement. -/
theorem whole_congr {elems' : List Nat} (perm : elems.Perm elems') (list : Nat) :
    {a | a ∈ whole list elems} = {a | a ∈ whole list elems'} := by
  ext a
  exact ((perm.append_right _).cons _).mem_iff

theorem moved_perm {us vs : List Nat} (split : xs ++ ys = us ++ vs) (seg : List Nat) :
    (xs ++ (seg ++ ys)).Perm (us ++ (seg ++ vs)) := by
  have front (l r : List Nat) : (l ++ (seg ++ r)).Perm (seg ++ (l ++ r)) := by
    rw [← List.append_assoc, ← List.append_assoc]
    exact List.perm_append_comm.append_right r
  exact (front xs ys).trans (split ▸ (front us vs).symm)

/-- `list_splice` moves a range to another place of its list. -/
theorem ListAt.splice (at_ : ListAt list (xs ++ (seg ++ ys)) mem) (nonempty : seg ≠ []) {us vs : List Nat}
    (split : xs ++ ys = us ++ vs) :
    ∃ mem', listSplice (cursor list vs) (seg.head nonempty) (cursor list ys) mem = .ok mem' ∧
      ListAt list (us ++ (seg ++ vs)) mem' ∧ Untouched {a | a ∈ whole list (xs ++ (seg ++ ys))} mem mem' := by
  have sub (a : Nat) (member : a ∈ vs) : a ∈ xs ++ (seg ++ ys) := by
    have inBoth : a ∈ xs ++ ys := split ▸ List.mem_append_right us member
    simp only [List.mem_append] at inBoth ⊢
    tauto
  obtain ⟨left, inner, untouched⟩ := at_.unlinkRange nonempty
  have fresh := at_.fresh
  rw [split] at left fresh
  obtain ⟨joined, untouched'⟩ := left.linkRange nonempty inner fresh
  refine ⟨_, at_.splice_run nonempty (at_.valid_of sub), joined, untouched.trans ?_⟩
  rwa [whole_congr (moved_perm split seg)]

/-- `list_splice` moves a range into another list. -/
theorem ListAt.splice_into {target : Nat} {us vs : List Nat} (at_ : ListAt list (xs ++ (seg ++ ys)) mem)
    (into : ListAt target (us ++ vs) mem) (nonempty : seg ≠ [])
    (nodes : Cells {a | a ∈ whole list (xs ++ (seg ++ ys)) ∨ a ∈ whole target (us ++ vs)})
    (apart : ∀ a ∈ whole list (xs ++ (seg ++ ys)), a ∉ whole target (us ++ vs)) :
    ∃ mem', listSplice (cursor target vs) (seg.head nonempty) (cursor list ys) mem = .ok mem' ∧
      ListAt list (xs ++ ys) mem' ∧ ListAt target (us ++ (seg ++ vs)) mem' ∧
      Untouched {a | a ∈ whole list (xs ++ (seg ++ ys)) ∨ a ∈ whole target (us ++ vs)} mem mem' := by
  obtain ⟨left, inner, untouched⟩ := at_.unlinkRange nonempty
  have differs {a b : Nat} (inList : a ∈ whole list (xs ++ (seg ++ ys))) (inTarget : b ∈ whole target (us ++ vs)) :
      a + 16 ≤ b ∨ b + 16 ≤ a :=
    nodes.apart a (Or.inl inList) b (Or.inr inTarget) fun same => apart a inList (same ▸ inTarget)
  have kept : ListAt target (us ++ vs) (Mem.unlinkRange (seg.head nonempty) (seg.getLast nonempty) mem) :=
    into.frame untouched fun a member c inside => (differs inside member).symm
  have fresh : Fresh target (us ++ vs) seg := by
    refine ⟨nodes.congr fun a member => ?_, List.nodup_append.mpr ⟨?_, into.nodup, fun a member b member' => ?_⟩⟩
    · exact (List.mem_append.mp member).imp_left mem_whole_seg
    · exact (List.nodup_append.mp at_.fresh.nodup).1
    · exact fun same => apart a (mem_whole_seg member) (same ▸ member')
  obtain ⟨joined, untouched'⟩ := kept.linkRange nonempty inner fresh
  have members {a : Nat} (member : a ∈ whole target (us ++ (seg ++ vs))) : a ∈ seg ∨ a ∈ whole target (us ++ vs) :=
    List.mem_append.mp ((whole_perm target us seg vs).mem_iff.mp member)
  refine ⟨_, at_.splice_run nonempty into.interior_or_tail, left.frame untouched' fun a member c inside => ?_, joined,
    fun a outside => ?_⟩
  · rcases members inside with inSeg | inTarget
    · refine at_.cells.apart a (mem_whole_of_append member) c (mem_whole_seg inSeg) ?_
      exact ((List.nodup_append.mp at_.fresh.nodup).2.2 c inSeg a member).symm
    · exact differs (mem_whole_of_append member) inTarget
  · rw [untouched' a fun c inside => outside c ((members inside).imp_left mem_whole_seg),
      untouched a fun c inside => outside c (Or.inl inside)]

end Swink.Mem
