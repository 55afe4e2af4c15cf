import Mathlib.Data.List.TakeWhile
import Swink.Lib.NaturalMerge

namespace NaturalMerge

variable {α : Type} {less : α → α → Bool} {a b x : α} {xs ys : List α}

/-- Inserting before the first larger element. -/
def insertOrdered (less : α → α → Bool) (x : α) (xs : List α) : List α :=
  xs.takeWhile (fun y => !less x y) ++ x :: xs.dropWhile fun y => !less x y

theorem insertOrdered_perm (x : α) (xs : List α) : (insertOrdered less x xs).Perm (x :: xs) := by
  refine List.perm_middle.trans (List.Perm.cons x ?_)
  rw [List.takeWhile_append_dropWhile]

theorem sublist_insertOrdered (x : α) (xs : List α) : List.Sublist xs (insertOrdered less x xs) := by
  conv => lhs; rw [← List.takeWhile_append_dropWhile (p := fun y => !less x y) (l := xs)]
  exact (List.Sublist.refl _).append (List.sublist_cons_self ..)

/-- In an ordered list, what follows the place of insertion is larger. -/
theorem less_of_mem_dropWhile (order : StrictWeak less) (sorted : xs.Pairwise fun a b => less b a = false)
    (member : b ∈ xs.dropWhile fun y => !less x y) : less x b = true := by
  induction xs with
  | nil => simp at member
  | cons y ys ih =>
    obtain ⟨least, rest⟩ := List.pairwise_cons.mp sorted
    cases stop : less x y with
    | false =>
      rw [List.dropWhile_cons_of_pos (by simp [stop])] at member
      exact ih rest member
    | true =>
      rw [List.dropWhile_cons_of_neg (by simp [stop])] at member
      rcases List.mem_cons.mp member with rfl | later
      · exact stop
      · cases order' : less x b with
        | true => rfl
        | false => exact absurd (order.not_less_trans y b x (least b later) order') (by simp [stop])

theorem not_less_of_mem_takeWhile (member : b ∈ xs.takeWhile fun y => !less x y) : less x b = false := by
  simpa using List.mem_takeWhile_imp member

theorem pairwise_insertOrdered (order : StrictWeak less) (sorted : xs.Pairwise fun a b => less b a = false) :
    (insertOrdered less x xs).Pairwise fun a b => less b a = false := by
  have whole := sorted
  rw [← List.takeWhile_append_dropWhile (p := fun y => !less x y) (l := xs), List.pairwise_append] at whole
  obtain ⟨front, back, across⟩ := whole
  have larger (b : α) (member : b ∈ xs.dropWhile fun y => !less x y) : less b x = false :=
    order.asymmetric x b (less_of_mem_dropWhile order sorted member)
  refine List.pairwise_append.mpr ⟨front, List.pairwise_cons.mpr ⟨larger, back⟩, fun a inFront b member => ?_⟩
  rcases List.mem_cons.mp member with rfl | later
  · exact not_less_of_mem_takeWhile inFront
  · exact across a inFront b later

/-- The new element goes behind those that it is not smaller than. -/
theorem pair_sublist_insertOrdered (order : StrictWeak less) (sorted : xs.Pairwise fun a b => less b a = false)
    (member : a ∈ xs) (le : less x a = false) : List.Sublist [a, x] (insertOrdered less x xs) := by
  rw [← List.takeWhile_append_dropWhile (p := fun y => !less x y) (l := xs)] at member
  rcases List.mem_append.mp member with front | back
  · exact (List.singleton_sublist.mpr front).append (List.singleton_sublist.mpr (List.mem_cons_self ..))
  · exact absurd (less_of_mem_dropWhile order sorted back) (by simp [le])

/-- Inserting elements one by one. -/
def insertAll (less : α → α → Bool) : List α → List α → List α
  | sorted, [] => sorted
  | sorted, x :: xs => insertAll less (insertOrdered less x sorted) xs

theorem insertAll_perm (xs sorted : List α) : (insertAll less sorted xs).Perm (sorted ++ xs) := by
  induction xs generalizing sorted with
  | nil => simp [insertAll]
  | cons x xs ih => exact (ih _).trans (((insertOrdered_perm x sorted).append_right xs).trans List.perm_middle.symm)

theorem pairwise_insertAll (order : StrictWeak less) {sorted : List α} (start : sorted.Pairwise fun a b => less b a = false) :
    (insertAll less sorted xs).Pairwise fun a b => less b a = false := by
  induction xs generalizing sorted with
  | nil => exact start
  | cons x xs ih => exact ih (pairwise_insertOrdered order start)

theorem sublist_insertAll (xs sorted : List α) : List.Sublist sorted (insertAll less sorted xs) := by
  induction xs generalizing sorted with
  | nil => exact List.Sublist.refl _
  | cons x xs ih => exact (sublist_insertOrdered x sorted).trans (ih _)

/-- Two elements inserted one after the other keep their order unless the second is smaller. -/
theorem pair_sublist_insertAll (order : StrictWeak less) (le : less b a = false) {sorted : List α}
    (start : sorted.Pairwise fun a b => less b a = false) (pair : a ∈ sorted ∧ b ∈ xs ∨ List.Sublist [a, b] xs) :
    List.Sublist [a, b] (insertAll less sorted xs) := by
  induction xs generalizing sorted with
  | nil => simp at pair
  | cons x xs ih =>
    have next := pairwise_insertOrdered (x := x) order start
    have kept {c : α} (member : c ∈ sorted) : c ∈ insertOrdered less x sorted :=
      (sublist_insertOrdered x sorted).subset member
    rcases pair with ⟨inA, inB⟩ | pair
    · rcases List.mem_cons.mp inB with rfl | later
      · exact (pair_sublist_insertOrdered order start inA le).trans (sublist_insertAll xs _)
      · exact ih next (Or.inl ⟨kept inA, later⟩)
    · rcases List.sublist_cons_iff.mp pair with later | ⟨tail, shape, inner⟩
      · exact ih next (Or.inr later)
      · obtain ⟨rfl, rfl⟩ := List.cons.inj shape
        refine ih next (Or.inl ⟨?_, List.singleton_sublist.mp inner⟩)
        exact (insertOrdered_perm a sorted).mem_iff.mpr (List.mem_cons_self ..)

/-- Insertion one by one and merge sort arrange distinct elements alike. -/
theorem insertAll_eq_mergeSort (order : StrictWeak less) (distinct : xs.Nodup) :
    insertAll less [] xs = xs.mergeSort fun a b => !less b a :=
  eq_of_stable distinct (insertAll_perm xs []) (List.mergeSort_perm xs _)
    (pairwise_stable distinct (insertAll_perm xs []) (pairwise_insertAll order List.Pairwise.nil)
      fun _ _ le pair => pair_sublist_insertAll order le List.Pairwise.nil (Or.inr pair))
    (pairwise_mergeSort_stable order distinct)

/-- Neither of two elements is smaller. -/
def Tied (less : α → α → Bool) (a b : α) : Prop := less a b = false ∧ less b a = false

/-- The first of each row of tied neighbours, and the others. -/
def firsts (less : α → α → Bool) : α → List α → List α
  | a, [] => [a]
  | a, b :: xs => if less a b = false ∧ less b a = false then firsts less a xs else a :: firsts less b xs

def others (less : α → α → Bool) : α → List α → List α
  | _, [] => []
  | a, b :: xs => if less a b = false ∧ less b a = false then b :: others less a xs else others less b xs

theorem firsts_others_perm (a : α) (xs : List α) : (firsts less a xs ++ others less a xs).Perm (a :: xs) := by
  induction xs generalizing a with
  | nil => simp [firsts, others]
  | cons b xs ih =>
    rw [firsts, others]
    split
    · refine List.perm_middle.trans (((ih a).cons b).trans (List.Perm.swap a b xs))
    · exact (ih b).cons a

variable (less) in
theorem firsts_eq_cons (a : α) (xs : List α) : ∃ rest, firsts less a xs = a :: rest := by
  induction xs with
  | nil => exact ⟨[], rfl⟩
  | cons b xs ih =>
    rw [firsts]
    split
    · exact ih
    · exact ⟨_, rfl⟩

theorem firsts_sublist (a : α) (xs : List α) : List.Sublist (firsts less a xs) (a :: xs) := by
  induction xs generalizing a with
  | nil => exact List.Sublist.refl _
  | cons b xs ih =>
    rw [firsts]
    split
    · exact (ih a).trans ((List.sublist_cons_self b xs).cons_cons a)
    · exact (ih b).cons_cons a

/-- Each of the others is tied with one of the firsts before it. -/
theorem exists_first {xs : List α} (member : b ∈ others less a xs) :
    ∃ k ∈ firsts less a xs, Tied less k b ∧ List.Sublist [k, b] (a :: xs) := by
  induction xs generalizing a with
  | nil => simp [others] at member
  | cons c xs ih =>
    rw [firsts]
    rw [others] at member
    split at member
    next tied =>
      rw [if_pos tied]
      rcases List.mem_cons.mp member with rfl | later
      · obtain ⟨rest, shape⟩ := firsts_eq_cons less a xs
        exact ⟨a, shape ▸ List.mem_cons_self .., tied, pair_sublist_cons (List.mem_cons_self ..)⟩
      · obtain ⟨k, first, tied', pair⟩ := ih later
        exact ⟨k, first, tied', pair.trans ((List.sublist_cons_self c xs).cons_cons a)⟩
    next free =>
      rw [if_neg free]
      obtain ⟨k, first, tied', pair⟩ := ih member
      exact ⟨k, List.mem_cons_of_mem _ first, tied', pair.cons a⟩

theorem StrictWeak.trans (order : StrictWeak less) {c : α} (ab : less a b = true) (bc : less b c = true) :
    less a c = true := by
  cases ac : less a c with
  | true => rfl
  | false => exact absurd (order.not_less_trans c a b ac (order.asymmetric a b ab)) (by simp [bc])

/-- The firsts of an ordered list are strictly ascending. -/
theorem firsts_strict (order : StrictWeak less) (sorted : (a :: xs).Pairwise fun a b => less b a = false) :
    (firsts less a xs).Pairwise fun a b => less a b = true := by
  have trans : Trans (fun a b => less a b = true) (fun a b => less a b = true) (fun a b => less a b = true) :=
    ⟨fun ab bc => order.trans ab bc⟩
  refine List.isChain_iff_pairwise.mp ?_
  induction xs generalizing a with
  | nil => exact List.isChain_singleton a
  | cons b xs ih =>
    obtain ⟨least, rest⟩ := List.pairwise_cons.mp sorted
    rw [firsts]
    split
    next => exact ih (sorted.sublist ((List.sublist_cons_self b xs).cons_cons a))
    next free =>
      obtain ⟨tail, shape⟩ := firsts_eq_cons less b xs
      have inner := ih rest
      rw [shape] at inner ⊢
      have le := least b (List.mem_cons_self ..)
      refine List.isChain_cons_cons.mpr ⟨(Bool.eq_false_or_eq_true _).resolve_right fun tie => free ⟨tie, le⟩, inner⟩

/-- The element that a search for something better ends with. -/
def best (better : α → α → Bool) : α → List α → α
  | b, [] => b
  | b, e :: es => best better (if better b e then e else b) es

/-- It beats every earlier element and is beaten by none. -/
theorem best_spec (order : StrictWeak less) (b : α) (es : List α) :
    ∃ pre post, b :: es = pre ++ best less b es :: post ∧ (∀ x ∈ pre, less x (best less b es) = true) ∧
      ∀ x ∈ b :: es, less (best less b es) x = false := by
  have irreflexive (a : α) : less a a = false := by
    cases aa : less a a with
    | false => rfl
    | true => exact absurd (order.asymmetric a a aa) (by simp [aa])
  induction es generalizing b with
  | nil => exact ⟨[], [], rfl, by simp, by simp [best, irreflexive]⟩
  | cons e es ih =>
    rw [best]
    cases beaten : less b e with
    | true =>
      obtain ⟨pre, post, shape, earlier, least⟩ := ih e
      rw [if_pos rfl]
      have worse : less b (best less e es) = true := by
        cases order' : less b (best less e es) with
        | true => rfl
        | false =>
          exact absurd (order.not_less_trans e _ b (least e (List.mem_cons_self ..)) order') (by simp [beaten])
      refine ⟨b :: pre, post, by rw [shape, List.cons_append], fun x member => ?_, fun x member => ?_⟩
      · rcases List.mem_cons.mp member with rfl | inner
        · exact worse
        · exact earlier x inner
      · rcases List.mem_cons.mp member with rfl | inner
        · exact order.asymmetric _ _ worse
        · exact least x inner
    | false =>
      obtain ⟨pre, post, shape, earlier, least⟩ := ih b
      rw [if_neg (by simp)]
      have fine : less (best less b es) e = false :=
        order.not_less_trans e b _ beaten (least b (List.mem_cons_self ..))
      have all (x : α) (member : x ∈ b :: e :: es) : less (best less b es) x = false := by
        rcases List.mem_cons.mp member with rfl | inner
        · exact least x (List.mem_cons_self ..)
        · rcases List.mem_cons.mp inner with rfl | later
          · exact fine
          · exact least x (List.mem_cons_of_mem _ later)
      cases pre with
      | nil =>
        obtain ⟨same, rest⟩ := List.cons.inj shape
        exact ⟨[], e :: es, by rw [← same, List.nil_append], by simp, all⟩
      | cons c pre =>
        obtain ⟨rfl, rest⟩ := List.cons.inj shape
        refine ⟨b :: e :: pre, post, congrArg (b :: e :: ·) rest, fun x member => ?_, all⟩
        rcases List.mem_cons.mp member with rfl | inner
        · exact earlier x (List.mem_cons_self ..)
        · rcases List.mem_cons.mp inner with rfl | later
          · have first := earlier b (List.mem_cons_self ..)
            cases order' : less x (best less b es) with
            | true => rfl
            | false => exact absurd (order.not_less_trans _ x b order' beaten) (by simp [first])
          · exact earlier x (List.mem_cons_of_mem _ later)

end NaturalMerge
