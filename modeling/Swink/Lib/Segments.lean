import Mathlib.Data.List.Chain
import Mathlib.Logic.Function.Basic
import Swink.Lib.Links

namespace Links

variable {α : Type} {next prev next' prev' : α → α} {xs ys seg : List α} {a b first last : α}

/-- Neighbours in a list of nodes point at each other. -/
def Linked (next prev : α → α) (xs : List α) : Prop := xs.IsChain fun a b => next a = b ∧ prev b = a

/-- Links matter forward from all but the last node and backward from all but the first. -/
theorem Linked.congr (linked : Linked next prev xs) (forward : ∀ a ∈ xs.dropLast, next' a = next a)
    (backward : ∀ a ∈ xs.tail, prev' a = prev a) : Linked next' prev' xs := by
  induction xs with
  | nil => exact List.isChain_nil
  | cons x xs ih =>
    cases xs with
    | nil => exact List.isChain_singleton x
    | cons y ys =>
      obtain ⟨⟨after, before⟩, rest⟩ := List.isChain_cons_cons.mp linked
      refine List.isChain_cons_cons.mpr ⟨⟨?_, ?_⟩, ih rest (fun a member => ?_) fun a member => ?_⟩
      · rw [forward x (by simp), after]
      · rw [backward y (by simp), before]
      · exact forward a (by simpa using Or.inr member)
      · exact backward a (List.mem_cons_of_mem _ member)

/-- The nodes of a list tell their links. -/
theorem Linked.determined (linked : Linked next prev xs) (linked' : Linked next' prev' xs) :
    (∀ a ∈ xs.dropLast, next' a = next a) ∧ ∀ a ∈ xs.tail, prev' a = prev a := by
  induction xs with
  | nil => simp
  | cons x xs ih =>
    cases xs with
    | nil => simp
    | cons y ys =>
      obtain ⟨⟨after, before⟩, rest⟩ := List.isChain_cons_cons.mp linked
      obtain ⟨⟨after', before'⟩, rest'⟩ := List.isChain_cons_cons.mp linked'
      obtain ⟨forward, backward⟩ := ih rest rest'
      refine ⟨fun a member => ?_, fun a member => ?_⟩
      · rw [List.dropLast_cons_of_ne_nil (by simp)] at member
        rcases List.mem_cons.mp member with rfl | later
        · rw [after, after']
        · exact forward a later
      · rcases List.mem_cons.mp member with rfl | later
        · rw [before, before']
        · exact backward a later

/-- The links of a segment between `a` and `b`. -/
theorem linked_between (nonempty : seg ≠ []) : Linked next prev (xs ++ a :: (seg ++ b :: ys)) ↔
    Linked next prev (xs ++ [a]) ∧ (next a = seg.head nonempty ∧ prev (seg.head nonempty) = a) ∧
      Linked next prev seg ∧ (next (seg.getLast nonempty) = b ∧ prev b = seg.getLast nonempty) ∧
        Linked next prev (b :: ys) := by
  unfold Linked
  have right : (seg ++ b :: ys).IsChain (fun a b => next a = b ∧ prev b = a) ↔ seg.IsChain _ ∧
      (b :: ys).IsChain _ ∧ _ := List.isChain_append
  rw [List.isChain_split (c := a), List.isChain_cons, right]
  simp only [List.head?_append_of_ne_nil _ nonempty, List.head?_eq_some_head nonempty,
    List.getLast?_eq_some_getLast nonempty, List.head?_cons, Option.mem_some_iff, forall_eq']
  tauto

/-- The node after `a`, and the node before `b`. -/
theorem Linked.neighbours (linked : Linked next prev (xs ++ a :: b :: ys)) : next a = b ∧ prev b = a :=
  (List.isChain_append_cons_cons.mp linked).2.1

theorem Linked.halves (linked : Linked next prev (xs ++ a :: b :: ys)) :
    Linked next prev (xs ++ [a]) ∧ Linked next prev (b :: ys) :=
  ⟨(List.isChain_append_cons_cons.mp linked).1, (List.isChain_append_cons_cons.mp linked).2.2⟩

theorem dropLast_ne_getLast (nodup : seg.Nodup) (nonempty : seg ≠ []) {c : α} (member : c ∈ seg.dropLast) :
    c ≠ seg.getLast nonempty := by
  rw [← List.dropLast_append_getLast nonempty, List.nodup_append] at nodup
  exact nodup.2.2 c member _ (List.mem_singleton_self _)

theorem tail_ne_head (nodup : seg.Nodup) (nonempty : seg ≠ []) {c : α} (member : c ∈ seg.tail) :
    c ≠ seg.head nonempty := by
  rw [← List.cons_head_tail nonempty, List.nodup_cons] at nodup
  exact fun same => nodup.1 (same ▸ member)

/-- Nodes elsewhere keep their links. -/
theorem Linked.elsewhere (linked : Linked next prev xs) {f g : α → α} (forward : ∀ a ∈ xs, f a = next a)
    (backward : ∀ a ∈ xs, g a = prev a) : Linked f g xs :=
  linked.congr (fun a member => forward a (List.dropLast_subset _ member))
    fun a member => backward a (List.mem_of_mem_tail member)

variable [DecidableEq α]

/-- Two links take a segment out. -/
theorem Linked.unlink (nonempty : seg ≠ []) (linked : Linked next prev (xs ++ a :: (seg ++ b :: ys)))
    (nodup : (xs ++ a :: (seg ++ b :: ys)).Nodup) :
    Linked (Function.update next a b) (Function.update prev b a) (xs ++ a :: b :: ys) ∧
      Linked (Function.update next a b) (Function.update prev b a) seg := by
  obtain ⟨left, -, inner, -, right⟩ := (linked_between nonempty).mp linked
  simp only [List.nodup_append, List.nodup_cons, List.mem_cons, List.mem_append] at nodup
  have keepNext {c : α} (other : c ≠ a) : Function.update next a b c = next c := Function.update_of_ne other _ _
  have keepPrev {c : α} (other : c ≠ b) : Function.update prev b a c = prev c := Function.update_of_ne other _ _
  refine ⟨List.isChain_append_cons_cons.mpr ⟨left.congr (fun c member => ?_) fun c member => ?_,
    ⟨Function.update_self .., Function.update_self ..⟩, right.congr (fun c member => ?_) fun c member => ?_⟩,
    inner.congr (fun c member => ?_) fun c member => ?_⟩
  · rw [List.dropLast_concat] at member
    exact keepNext (nodup.2.2 c member a (Or.inl rfl))
  · refine keepPrev ?_
    rintro rfl
    rcases List.mem_append.mp (List.mem_of_mem_tail member) with inLeft | isFirst
    · exact nodup.2.2 c inLeft c (by simp) rfl
    · exact nodup.2.1.1 (by simp [List.mem_singleton.mp isFirst])
  · refine keepNext ?_
    rintro rfl
    exact nodup.2.1.1 (Or.inr (List.mem_cons.mp (List.dropLast_subset _ member)))
  · refine keepPrev ?_
    rintro rfl
    exact nodup.2.1.2.2.1.1 member
  · refine keepNext ?_
    rintro rfl
    exact nodup.2.1.1 (Or.inl (List.dropLast_subset _ member))
  · exact keepPrev (nodup.2.1.2.2.2 c (List.mem_of_mem_tail member) b (by simp))

/-- Four links put a segment in. -/
theorem Linked.link (nonempty : seg ≠ []) (linked : Linked next prev (xs ++ a :: b :: ys))
    (inner : Linked next prev seg) (nodup : (xs ++ a :: (seg ++ b :: ys)).Nodup) :
    Linked (Function.update (Function.update next (seg.getLast nonempty) b) a (seg.head nonempty))
      (Function.update (Function.update prev (seg.head nonempty) a) b (seg.getLast nonempty))
      (xs ++ a :: (seg ++ b :: ys)) := by
  obtain ⟨left, right⟩ := linked.halves
  simp only [List.nodup_append, List.nodup_cons, List.mem_cons, List.mem_append] at nodup
  have first := List.head_mem nonempty
  have last := List.getLast_mem nonempty
  have keepNext {c : α} (other : c ≠ a) (other' : c ≠ seg.getLast nonempty) :
      Function.update (Function.update next (seg.getLast nonempty) b) a (seg.head nonempty) c = next c := by
    rw [Function.update_of_ne other, Function.update_of_ne other']
  have keepPrev {c : α} (other : c ≠ b) (other' : c ≠ seg.head nonempty) :
      Function.update (Function.update prev (seg.head nonempty) a) b (seg.getLast nonempty) c = prev c := by
    rw [Function.update_of_ne other, Function.update_of_ne other']
  have notA {c : α} (member : c ∈ seg) : c ≠ a := by
    rintro rfl
    exact nodup.2.1.1 (Or.inl member)
  have notB {c : α} (member : c ∈ seg) : c ≠ b := nodup.2.1.2.2.2 c member b (Or.inl rfl)
  refine (linked_between nonempty).mpr ⟨left.congr (fun c member => ?_) fun c member => ?_,
    ⟨Function.update_self .., ?_⟩, inner.congr (fun c member => ?_) fun c member => ?_,
    ⟨?_, Function.update_self ..⟩, right.congr (fun c member => ?_) fun c member => ?_⟩
  · rw [List.dropLast_concat] at member
    exact keepNext (nodup.2.2 c member a (Or.inl rfl)) (nodup.2.2 c member _ (by simp [last]))
  · have inLeft : c ∈ xs ∨ c = a := by simpa using List.mem_of_mem_tail member
    have notRight (d : α) (later : d ∈ seg ∨ d = b) : c ≠ d := by
      rcases inLeft with inner | rfl
      · exact nodup.2.2 c inner d (by rcases later with inSeg | rfl <;> simp [*])
      · rintro rfl
        exact nodup.2.1.1 (by rcases later with inSeg | rfl <;> simp [*])
    exact keepPrev (notRight b (Or.inr rfl)) (notRight _ (Or.inl first))
  · rw [Function.update_of_ne (notB first), Function.update_self]
  · exact keepNext (notA (List.dropLast_subset _ member)) (dropLast_ne_getLast nodup.2.1.2.1 nonempty member)
  · exact keepPrev (notB (List.mem_of_mem_tail member)) (tail_ne_head nodup.2.1.2.1 nonempty member)
  · rw [Function.update_of_ne (notA last), Function.update_self]
  · have inRight := List.mem_cons.mp (List.dropLast_subset _ member)
    refine keepNext ?_ ?_
    · rintro rfl
      exact nodup.2.1.1 (Or.inr inRight)
    · exact fun same => nodup.2.1.2.2.2 _ last c inRight same.symm
  · refine keepPrev ?_ fun same => nodup.2.1.2.2.2 _ first c (Or.inr member) same.symm
    rintro rfl
    exact nodup.2.1.2.2.1.1 member

end Links
