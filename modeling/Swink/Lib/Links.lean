import Mathlib.Data.List.Basic
import Mathlib.Data.List.Nodup

namespace Links

variable {α : Type} {next prev next' prev' : α → α} {first last x : α} {xs ys : List α}

/-- The nodes `xs` lie between `first` and `last` on a doubly linked list. -/
def Chain (next prev : α → α) : α → List α → α → Prop
  | first, [], last => next first = last ∧ prev last = first
  | first, x :: xs, last => next first = x ∧ prev x = first ∧ Chain next prev x xs last

/-- A chain only depends on the forward links of all but its last node and on the backward links
of all but its first. -/
theorem Chain.congr (chain : Chain next prev first xs last) (forward : ∀ a ∈ first :: xs, next' a = next a)
    (backward : ∀ a ∈ xs ++ [last], prev' a = prev a) : Chain next' prev' first xs last := by
  induction xs generalizing first with
  | nil =>
    rw [Chain] at chain ⊢
    rw [forward first (by simp), backward last (by simp)]
    exact chain
  | cons x xs ih =>
    obtain ⟨after, before, rest⟩ := chain
    refine ⟨by rw [forward first (by simp), after], by rw [backward x (by simp), before], ih rest ?_ ?_⟩
    · exact fun a member => forward a (List.mem_cons_of_mem _ member)
    · exact fun a member => backward a (List.mem_cons_of_mem _ member)

theorem chain_append : Chain next prev first (xs ++ x :: ys) last ↔
    Chain next prev first xs x ∧ Chain next prev x ys last := by
  induction xs generalizing first with
  | nil => simp [Chain, and_assoc]
  | cons y xs ih => simp [Chain, ih, and_assoc]

/-- The node after `first`. -/
theorem Chain.next_first (chain : Chain next prev first xs last) : next first = (xs ++ [last]).head (by simp) := by
  cases xs with
  | nil => exact chain.1
  | cons x xs => exact chain.1

/-- The node before `last`. -/
theorem Chain.prev_last_mem (chain : Chain next prev first xs last) : prev last ∈ first :: xs := by
  induction xs generalizing first with
  | nil => exact chain.2 ▸ List.mem_cons_self ..
  | cons x xs ih => exact List.mem_cons_of_mem _ (ih chain.2.2)

/-- Walking forward from `first` visits the nodes in order. -/
def walk [DecidableEq α] (next : α → α) (last : α) : Nat → α → List α
  | 0, _ => []
  | steps + 1, a => if next a = last then [] else next a :: walk next last steps (next a)

theorem Chain.walk_eq [DecidableEq α] (chain : Chain next prev first xs last) (fresh : last ∉ xs) {steps : Nat}
    (enough : xs.length < steps) : walk next last steps first = xs := by
  induction xs generalizing first steps with
  | nil =>
    obtain ⟨steps, rfl⟩ := Nat.exists_eq_succ_of_ne_zero (Nat.pos_iff_ne_zero.mp enough)
    rw [walk, if_pos chain.1]
  | cons x xs ih =>
    obtain ⟨steps, rfl⟩ := Nat.exists_eq_succ_of_ne_zero (by omega : steps ≠ 0)
    have different : next first ≠ last := by
      rw [chain.1]
      exact fun same => fresh (same ▸ List.mem_cons_self ..)
    rw [walk, if_neg different, chain.1,
      ih chain.2.2 (fun member => fresh (List.mem_cons_of_mem _ member)) (by simpa using enough)]

/-- Linking a fresh node in front. -/
theorem Chain.push_front (chain : Chain next prev first xs last) (nodup : (xs ++ [last]).Nodup)
    (toNew : next' first = x) (fromNew : next' x = next first) (keepNext : ∀ a ∈ xs, next' a = next a)
    (newBack : prev' x = first) (oldBack : prev' (next first) = x)
    (keepPrev : ∀ a ∈ xs ++ [last], a ≠ next first → prev' a = prev a) :
    Chain next' prev' first (x :: xs) last := by
  refine ⟨toNew, newBack, ?_⟩
  cases xs with
  | nil =>
    have same := chain.1
    exact ⟨fromNew.trans same, same ▸ oldBack⟩
  | cons y ys =>
    have same := chain.1
    refine ⟨fromNew.trans same, same ▸ oldBack, chain.2.2.congr keepNext fun a member => ?_⟩
    refine keepPrev a (List.mem_cons_of_mem _ member) ?_
    rw [same]
    rintro rfl
    exact (List.nodup_cons.mp nodup).1 member

/-- The chain up to a node leads to another node once the last link is redirected. -/
theorem Chain.redirect (chain : Chain next prev first xs x) (nodup : (first :: xs).Nodup) {target : α}
    (toTarget : next' (prev x) = target) (keepNext : ∀ a ∈ first :: xs, a ≠ prev x → next' a = next a)
    (back : prev' target = prev x) (keepPrev : ∀ a ∈ xs, prev' a = prev a) :
    Chain next' prev' first xs target := by
  induction xs generalizing first with
  | nil =>
    obtain ⟨-, before⟩ := chain
    exact ⟨before ▸ toTarget, before ▸ back⟩
  | cons y ys ih =>
    obtain ⟨after, before, rest⟩ := chain
    have different : first ≠ prev x := fun same => (List.nodup_cons.mp nodup).1 (same ▸ rest.prev_last_mem)
    refine ⟨by rw [keepNext first (by simp) different, after], by rw [keepPrev y (by simp), before], ?_⟩
    exact ih rest (List.nodup_cons.mp nodup).2 (fun a member => keepNext a (List.mem_cons_of_mem _ member))
      fun a member => keepPrev a (List.mem_cons_of_mem _ member)

/-- Unlinking a node joins its neighbours. -/
theorem Chain.remove (chain : Chain next prev first (xs ++ x :: ys) last)
    (nodup : (first :: (xs ++ x :: (ys ++ [last]))).Nodup)
    (join : next' (prev x) = next x) (keepNext : ∀ a ∈ first :: (xs ++ ys), a ≠ prev x → next' a = next a)
    (joinBack : prev' (next x) = prev x) (keepPrev : ∀ a ∈ xs ++ (ys ++ [last]), a ≠ next x → prev' a = prev a) :
    Chain next' prev' first (xs ++ ys) last := by
  obtain ⟨left, right⟩ := chain_append.mp chain
  have before := left.prev_last_mem
  rw [← List.cons_append, List.nodup_append] at nodup
  obtain ⟨leftNodup, rightNodup, apart⟩ := nodup
  -- the node after `x` lies to the right of the chain up to `x`
  have passed : next x ∈ ys ++ [last] := right.next_first ▸ List.head_mem _
  have keepLeft (a : α) (member : a ∈ xs) : prev' a = prev a :=
    keepPrev a (List.mem_append_left _ member) fun same =>
      apart a (List.mem_cons_of_mem _ member) a (List.mem_cons_of_mem _ (same ▸ passed)) rfl
  have reached : Chain next' prev' first xs (next x) := by
    refine left.redirect leftNodup join (fun a member => keepNext a ?_) joinBack keepLeft
    rcases List.mem_cons.mp member with rfl | inside
    · exact List.mem_cons_self ..
    · exact List.mem_cons_of_mem _ (List.mem_append_left _ inside)
  cases ys with
  | nil =>
    rw [right.1] at reached
    rwa [List.append_nil]
  | cons y ys =>
    obtain ⟨after, -, rest⟩ := right
    rw [after] at reached
    refine chain_append.mpr ⟨reached, rest.congr (fun a member => ?_) fun a member => ?_⟩
    · refine keepNext a (List.mem_cons_of_mem _ (List.mem_append_right _ member)) ?_
      rintro rfl
      exact apart _ before _ (List.mem_cons_of_mem _ (List.mem_append_left _ member)) rfl
    · refine keepPrev a (List.mem_append_right _ (List.mem_cons_of_mem _ member)) ?_
      rw [after]
      rintro rfl
      exact (List.nodup_cons.mp (List.nodup_cons.mp rightNodup).2).1 member

end Links
