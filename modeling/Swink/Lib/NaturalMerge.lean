import Mathlib.Algebra.GroupWithZero.Nat
import Mathlib.Data.List.Chain
import Mathlib.Data.List.Nodup

namespace NaturalMerge

variable {α : Type} (less : α → α → Bool)

/-- The first ascending run of a list that starts with `a`, and what follows it. -/
def run : α → List α → List α
  | a, [] => [a]
  | a, b :: xs => if less b a then [a] else a :: run b xs

def afterRun : α → List α → List α
  | _, [] => []
  | a, b :: xs => if less b a then b :: xs else afterRun b xs

/-- How many ascending runs a list falls into. -/
def runs : List α → Nat
  | [] => 0
  | [_] => 1
  | a :: b :: xs => if less b a then runs (b :: xs) + 1 else runs (b :: xs)

/-- The elements of the right list go first only where they are smaller. -/
def merged (xs ys : List α) : List α := xs.merge ys fun a b => !less b a

theorem run_append_afterRun (a : α) (xs : List α) : run less a xs ++ afterRun less a xs = a :: xs := by
  induction xs generalizing a with
  | nil => rfl
  | cons b xs ih =>
    rw [run, afterRun]
    split
    · rfl
    · rw [List.cons_append, ih b]

theorem length_afterRun_le (a : α) (xs : List α) : (afterRun less a xs).length ≤ xs.length := by
  induction xs generalizing a with
  | nil => exact Nat.le_refl _
  | cons b xs ih =>
    rw [afterRun]
    split
    · exact Nat.le_refl _
    · exact Nat.le_succ_of_le (ih b)

theorem run_ne_nil (a : α) (xs : List α) : run less a xs ≠ [] := by
  cases xs with
  | nil => simp [run]
  | cons b xs =>
    rw [run]
    split <;> simp

theorem head_run (a : α) (xs : List α) : (run less a xs).head (run_ne_nil less a xs) = a := by
  cases xs with
  | nil => rfl
  | cons b xs => unfold run; split <;> rfl

/-- One pass merges the runs two by two. -/
def mergePass : List α → List α
  | [] => []
  | a :: xs =>
    match _following : afterRun less a xs with
    | [] => run less a xs
    | b :: ys => merged less (run less a xs) (run less b ys) ++ mergePass (afterRun less b ys)
termination_by xs => xs.length
decreasing_by
  have first := length_afterRun_le less a xs
  have second := length_afterRun_le less b ys
  simp_all
  omega

/-- How many runs one pass writes. -/
def passRuns : List α → Nat
  | [] => 0
  | a :: xs =>
    match _following : afterRun less a xs with
    | [] => 1
    | b :: ys => passRuns (afterRun less b ys) + 1
termination_by xs => xs.length
decreasing_by
  have first := length_afterRun_le less a xs
  have second := length_afterRun_le less b ys
  simp_all
  omega

theorem mergePass_last {a : α} {xs : List α} (last : afterRun less a xs = []) : mergePass less (a :: xs) = a :: xs := by
  have joined := run_append_afterRun less a xs
  rw [last, List.append_nil] at joined
  rw [mergePass]
  split
  · exact joined
  · simp_all

theorem mergePass_two {a b : α} {xs ys : List α} (following : afterRun less a xs = b :: ys) :
    mergePass less (a :: xs) = merged less (run less a xs) (run less b ys) ++ mergePass less (afterRun less b ys) := by
  rw [mergePass]
  split <;> simp_all

theorem passRuns_last {a : α} {xs : List α} (last : afterRun less a xs = []) : passRuns less (a :: xs) = 1 := by
  rw [passRuns]
  split <;> simp_all

theorem passRuns_two {a b : α} {xs ys : List α} (following : afterRun less a xs = b :: ys) :
    passRuns less (a :: xs) = passRuns less (afterRun less b ys) + 1 := by
  rw [passRuns]
  split <;> simp_all

/-- Induction over the pairs of runs that one pass merges. -/
theorem pass_induction {motive : List α → Prop} (nil : motive [])
    (last : ∀ a xs, afterRun less a xs = [] → motive (a :: xs))
    (two : ∀ a xs b ys, afterRun less a xs = b :: ys → motive (afterRun less b ys) → motive (a :: xs))
    (xs : List α) : motive xs := by
  induction length : xs.length using Nat.strong_induction_on generalizing xs with
  | h n ih =>
    cases xs with
    | nil => exact nil
    | cons a xs =>
      cases following : afterRun less a xs with
      | nil => exact last a xs following
      | cons b ys =>
        have first := length_afterRun_le less a xs
        have second := length_afterRun_le less b ys
        rw [following] at first
        simp only [List.length_cons] at first length
        exact two a xs b ys following (ih _ (by omega) _ rfl)

theorem merged_perm (xs ys : List α) : (merged less xs ys).Perm (xs ++ ys) := List.merge_perm_append _

/-- The two runs and the rest of a list. -/
theorem split_runs {a b : α} {xs ys : List α} (following : afterRun less a xs = b :: ys) :
    a :: xs = run less a xs ++ (run less b ys ++ afterRun less b ys) := by
  rw [run_append_afterRun less b ys, ← following, run_append_afterRun]

theorem mergePass_perm (xs : List α) : (mergePass less xs).Perm xs := by
  induction xs using pass_induction less with
  | nil => rw [mergePass]
  | last a xs last => rw [mergePass_last less last]
  | two a xs b ys following ih =>
    rw [mergePass_two less following]
    conv => rhs; rw [split_runs less following, ← List.append_assoc]
    exact (merged_perm less _ _).append ih

/-- No element is smaller than the one before it. -/
def Ascending (xs : List α) : Prop := xs.IsChain fun a b => less b a = false

variable {less} {xs ys : List α}

theorem ascending_run (a : α) (xs : List α) : Ascending less (run less a xs) := by
  induction xs generalizing a with
  | nil => exact List.isChain_singleton a
  | cons b xs ih =>
    rw [run]
    split
    next => exact List.isChain_singleton a
    next le =>
      refine List.isChain_cons.mpr ⟨fun c first => ?_, ih b⟩
      rw [List.head?_eq_some_head (run_ne_nil less b xs), head_run, Option.mem_some_iff] at first
      rw [← first]
      simpa using le

theorem runs_cons_afterRun (a : α) (xs : List α) : runs less (a :: xs) = runs less (afterRun less a xs) + 1 := by
  induction xs generalizing a with
  | nil => rfl
  | cons b xs ih =>
    rw [runs, afterRun]
    split
    · rfl
    · exact ih b

variable (less) in
theorem runs_pos (a : α) (xs : List α) : 0 < runs less (a :: xs) := by
  rw [runs_cons_afterRun]
  exact Nat.succ_pos _

theorem runs_of_ascending (ascending : Ascending less xs) : runs less xs ≤ 1 := by
  induction xs with
  | nil => exact Nat.zero_le _
  | cons a xs ih =>
    cases xs with
    | nil => exact Nat.le_refl _
    | cons b xs =>
      obtain ⟨le, rest⟩ := List.isChain_cons_cons.mp ascending
      rw [runs, if_neg (by simp [le])]
      exact ih rest

theorem ascending_of_runs (few : runs less xs ≤ 1) : Ascending less xs := by
  induction xs with
  | nil => exact List.isChain_nil
  | cons a xs ih =>
    cases xs with
    | nil => exact List.isChain_singleton a
    | cons b xs =>
      rw [runs] at few
      split at few
      next =>
        have := runs_pos less b xs
        omega
      next le => exact List.isChain_cons_cons.mpr ⟨by simpa using le, ih few⟩

variable (less) in
/-- Two lists fall into as many runs as both together, or one fewer where they join. -/
theorem runs_append_le (xs ys : List α) : runs less (xs ++ ys) ≤ runs less xs + runs less ys := by
  induction xs with
  | nil => simp [runs]
  | cons a xs ih =>
    cases xs with
    | nil =>
      cases ys with
      | nil => simp [runs]
      | cons b ys =>
        simp only [List.cons_append, List.nil_append, runs]
        split <;> omega
    | cons b xs =>
      simp only [List.cons_append, runs] at ih ⊢
      split <;> omega

variable (less) in
theorem runs_le_length (xs : List α) : runs less xs ≤ xs.length := by
  induction xs with
  | nil => exact Nat.le_refl _
  | cons a xs ih =>
    cases xs with
    | nil => exact Nat.le_refl _
    | cons b xs =>
      simp only [runs, List.length_cons] at ih ⊢
      split <;> omega

variable (less) in
/-- A pass writes one run for every two. -/
theorem passRuns_eq (xs : List α) : passRuns less xs = (runs less xs + 1) / 2 := by
  induction xs using pass_induction less with
  | nil => rw [passRuns, runs]
  | last a xs last =>
    rw [passRuns_last less last, runs_cons_afterRun, last, runs]
  | two a xs b ys following ih =>
    rw [passRuns_two less following, ih, runs_cons_afterRun a xs, following, runs_cons_afterRun b ys]
    omega

theorem merged_nil_left (ys : List α) : merged less [] ys = ys := List.nil_merge ..

theorem merged_nil_right (xs : List α) : merged less xs [] = xs := List.merge_right ..

theorem merged_of_not_less {x y : α} (le : less y x = false) :
    merged less (x :: xs) (y :: ys) = x :: merged less xs (y :: ys) := by
  rw [merged, List.cons_merge_cons, if_pos (by simp [le]), merged]

theorem merged_of_less {x y : α} (lt : less y x = true) :
    merged less (x :: xs) (y :: ys) = y :: merged less (x :: xs) ys := by
  rw [merged, List.cons_merge_cons, if_neg (by simp [lt]), merged]

/-- What the first element of a merge is. -/
theorem head_merged {c : α} (first : c ∈ (merged less xs ys).head?) : c ∈ xs.head? ∨ c ∈ ys.head? := by
  cases xs with
  | nil => exact Or.inr (by rwa [merged_nil_left] at first)
  | cons x xs =>
    cases ys with
    | nil => exact Or.inl (by rwa [merged_nil_right] at first)
    | cons y ys =>
      cases order : less y x with
      | false => exact Or.inl (by rwa [merged_of_not_less order] at first)
      | true => exact Or.inr (by rwa [merged_of_less order] at first)

/-- Merging two ascending lists gives one, for any comparison that never holds both ways. -/
theorem Ascending.merged (asymmetric : ∀ a b, less a b = true → less b a = false) :
    ∀ {xs ys : List α}, Ascending less xs → Ascending less ys → Ascending less (merged less xs ys)
  | [], ys, _, right => by rwa [merged_nil_left]
  | x :: xs, [], left, _ => by rwa [merged_nil_right]
  | x :: xs, y :: ys, left, right => by
    obtain ⟨leftHead, leftTail⟩ := List.isChain_cons.mp left
    obtain ⟨rightHead, rightTail⟩ := List.isChain_cons.mp right
    cases order : less y x with
    | false =>
      rw [merged_of_not_less order]
      refine List.isChain_cons.mpr ⟨fun c first => ?_, Ascending.merged asymmetric leftTail right⟩
      rcases head_merged first with inLeft | inRight
      · exact leftHead c inLeft
      · rw [List.head?_cons, Option.mem_some_iff] at inRight
        rwa [← inRight]
    | true =>
      rw [merged_of_less order]
      refine List.isChain_cons.mpr ⟨fun c first => ?_, Ascending.merged asymmetric left rightTail⟩
      rcases head_merged first with inLeft | inRight
      · rw [List.head?_cons, Option.mem_some_iff] at inLeft
        rw [← inLeft]
        exact asymmetric y x order
      · exact rightHead c inRight
termination_by xs ys => xs.length + ys.length

/-- The runs of the output are no more than those that the pass counted. -/
theorem runs_mergePass_le (asymmetric : ∀ a b, less a b = true → less b a = false) (xs : List α) :
    runs less (mergePass less xs) ≤ passRuns less xs := by
  induction xs using pass_induction less with
  | nil =>
    rw [mergePass]
    exact Nat.zero_le _
  | last a xs last =>
    rw [mergePass_last less last, passRuns_last less last, runs_cons_afterRun, last]
    exact Nat.le_refl _
  | two a xs b ys following ih =>
    rw [mergePass_two less following, passRuns_two less following]
    have joined := runs_append_le less (NaturalMerge.merged less (run less a xs) (run less b ys))
      (mergePass less (afterRun less b ys))
    have single := runs_of_ascending (Ascending.merged asymmetric (ascending_run a xs) (ascending_run b ys))
    omega

/-- Passes until one has written a single run. -/
def sort (less : α → α → Bool) : Nat → List α → List α
  | 0, xs => xs
  | passes + 1, xs =>
    if 1 < passRuns less xs then sort less passes (mergePass less xs) else mergePass less xs

variable (less) in
theorem sort_perm (passes : Nat) (xs : List α) : (sort less passes xs).Perm xs := by
  induction passes generalizing xs with
  | zero => exact List.Perm.refl _
  | succ passes ih =>
    rw [sort]
    split
    · exact (ih _).trans (mergePass_perm less xs)
    · exact mergePass_perm less xs

/-- Every pass halves the number of runs, so that logarithmically many are enough. -/
theorem ascending_sort (asymmetric : ∀ a b, less a b = true → less b a = false) {passes : Nat} {xs : List α}
    (enough : runs less xs ≤ 2 ^ passes) (some_pass : 0 < passes) : Ascending less (sort less passes xs) := by
  induction passes generalizing xs with
  | zero => exact absurd some_pass (Nat.lt_irrefl 0)
  | succ passes ih =>
    have written := runs_mergePass_le asymmetric xs
    have counted := passRuns_eq less xs
    rw [Nat.pow_succ] at enough
    rw [sort]
    split
    next more =>
      have left : 0 < passes := by
        rcases Nat.eq_zero_or_pos passes with zero | pos
        · subst zero
          omega
        · exact pos
      exact ih (by omega) left
    next single => exact ascending_of_runs (by omega)

/-- Comparisons by a strict weak order. -/
structure StrictWeak (less : α → α → Bool) : Prop where
  asymmetric : ∀ a b, less a b = true → less b a = false
  not_less_trans : ∀ a b c, less b a = false → less c b = false → less c a = false

theorem StrictWeak.pairwise (order : StrictWeak less) (ascending : Ascending less xs) :
    xs.Pairwise fun a b => less b a = false := by
  have : Trans (fun a b => less b a = false) (fun a b => less b a = false) (fun a b => less b a = false) :=
    ⟨fun {a b c} ab bc => order.not_less_trans a b c ab bc⟩
  exact List.isChain_iff_pairwise.mp ascending

theorem sublist_merged_left : ∀ xs ys : List α, List.Sublist xs (merged less xs ys)
  | [], ys => List.nil_sublist _
  | x :: xs, [] => by rw [merged_nil_right]
  | x :: xs, y :: ys => by
    cases order : less y x with
    | false =>
      rw [merged_of_not_less order]
      exact (sublist_merged_left xs (y :: ys)).cons_cons x
    | true =>
      rw [merged_of_less order]
      exact (sublist_merged_left (x :: xs) ys).cons y
termination_by xs ys => xs.length + ys.length

theorem sublist_merged_right : ∀ xs ys : List α, List.Sublist ys (merged less xs ys)
  | [], ys => by rw [merged_nil_left]
  | x :: xs, [] => List.nil_sublist _
  | x :: xs, y :: ys => by
    cases order : less y x with
    | false =>
      rw [merged_of_not_less order]
      exact (sublist_merged_right xs (y :: ys)).cons x
    | true =>
      rw [merged_of_less order]
      exact (sublist_merged_right (x :: xs) ys).cons_cons y
termination_by xs ys => xs.length + ys.length

theorem pair_sublist_cons {a b : α} (member : b ∈ xs) : List.Sublist [a, b] (a :: xs) :=
  (List.singleton_sublist.mpr member).cons_cons a

/-- An element of the left list stays before those of the right one that are not smaller. -/
theorem pair_sublist_merged (order : StrictWeak less) {a b : α} (le : less b a = false) :
    ∀ {xs ys : List α}, Ascending less xs → a ∈ xs → b ∈ ys → List.Sublist [a, b] (merged less xs ys)
  | x :: xs, y :: ys, left, inLeft, inRight => by
    have sorted := List.pairwise_cons.mp (order.pairwise left)
    cases first : less y x with
    | false =>
      rw [merged_of_not_less first]
      rcases List.mem_cons.mp inLeft with rfl | later
      · exact pair_sublist_cons (List.mem_merge.mpr (Or.inr inRight))
      · exact (pair_sublist_merged order le (List.isChain_cons.mp left).2 later inRight).cons x
    | true =>
      rw [merged_of_less first]
      rcases List.mem_cons.mp inRight with rfl | later
      · -- the right list cannot pass `a` with an element that is not smaller
        have passed : less b x = false := by
          rcases List.mem_cons.mp inLeft with rfl | inner
          · exact le
          · exact order.not_less_trans x a b (sorted.1 a inner) le
        exact absurd first (by simp [passed])
      · exact (pair_sublist_merged order le left inLeft later).cons y
termination_by xs ys => xs.length + ys.length

/-- A pair in a joined list lies in one part, or across both. -/
theorem pair_sublist_append {a b : α} (pair : List.Sublist [a, b] (xs ++ ys)) :
    List.Sublist [a, b] xs ∨ (a ∈ xs ∧ b ∈ ys) ∨ List.Sublist [a, b] ys := by
  obtain ⟨left, right, joined, inLeft, inRight⟩ := List.sublist_append_iff.mp pair
  match left, joined with
  | [], joined => exact Or.inr (Or.inr (joined ▸ inRight))
  | [c], joined =>
    obtain ⟨rfl, rfl⟩ := List.cons.inj joined
    exact Or.inr (Or.inl ⟨List.singleton_sublist.mp inLeft, List.singleton_sublist.mp inRight⟩)
  | [c, d], joined =>
    obtain ⟨rfl, rest⟩ := List.cons.inj joined
    obtain ⟨rfl, -⟩ := List.cons.inj rest
    exact Or.inl inLeft

theorem pair_sublist_mergePass (order : StrictWeak less) {a b : α} (le : less b a = false)
    (pair : List.Sublist [a, b] xs) : List.Sublist [a, b] (mergePass less xs) := by
  induction xs using pass_induction less with
  | nil => exact absurd pair (by simp)
  | last c xs last => rwa [mergePass_last less last]
  | two c xs d ys following ih =>
    rw [split_runs less following, ← List.append_assoc] at pair
    rw [mergePass_two less following]
    rcases pair_sublist_append pair with inRuns | ⟨inRuns, after⟩ | after
    · refine List.Sublist.trans ?_ (List.sublist_append_left _ _)
      rcases pair_sublist_append inRuns with inFirst | ⟨inFirst, inSecond⟩ | inSecond
      · exact inFirst.trans (sublist_merged_left _ _)
      · exact pair_sublist_merged order le (ascending_run c xs) inFirst inSecond
      · exact inSecond.trans (sublist_merged_right _ _)
    · have early := (merged_perm less _ _).mem_iff.mpr inRuns
      have late := (mergePass_perm less _).mem_iff.mpr after
      exact (List.singleton_sublist.mpr early).append (List.singleton_sublist.mpr late)
    · exact (ih after).trans (List.sublist_append_right _ _)

theorem pair_sublist_sort (order : StrictWeak less) {a b : α} (le : less b a = false) (passes : Nat)
    (pair : List.Sublist [a, b] xs) : List.Sublist [a, b] (sort less passes xs) := by
  induction passes generalizing xs with
  | zero => exact pair
  | succ passes ih =>
    rw [sort]
    split
    · exact ih (pair_sublist_mergePass order le pair)
    · exact pair_sublist_mergePass order le pair

/-- Two distinct elements of a list stand in one order. -/
theorem pair_sublist_or {a b : α} (inA : a ∈ xs) (inB : b ∈ xs) (different : a ≠ b) :
    List.Sublist [a, b] xs ∨ List.Sublist [b, a] xs := by
  induction xs with
  | nil => exact absurd inA List.not_mem_nil
  | cons c xs ih =>
    rcases List.mem_cons.mp inA with rfl | laterA
    · exact Or.inl (pair_sublist_cons ((List.mem_cons.mp inB).resolve_left (Ne.symm different)))
    · rcases List.mem_cons.mp inB with rfl | laterB
      · exact Or.inr (pair_sublist_cons laterA)
      · exact (ih laterA laterB).imp (List.Sublist.cons c) (List.Sublist.cons c)

/-- Not in both orders, where no element occurs twice. -/
theorem not_pair_sublist {a b : α} (nodup : xs.Nodup) (pair : List.Sublist [a, b] xs) : ¬List.Sublist [b, a] xs := by
  induction xs with
  | nil => exact absurd pair (by simp)
  | cons c xs ih =>
    intro other
    obtain ⟨fresh, rest⟩ := List.nodup_cons.mp nodup
    rcases List.sublist_cons_iff.mp pair with later | ⟨tail, shape, -⟩
    · rcases List.sublist_cons_iff.mp other with later' | ⟨tail', shape', -⟩
      · exact ih rest later later'
      · obtain ⟨rfl, -⟩ := List.cons.inj shape'
        exact fresh (later.subset (by simp))
    · obtain ⟨rfl, -⟩ := List.cons.inj shape
      rcases List.sublist_cons_iff.mp other with later' | ⟨tail', shape', inner⟩
      · exact fresh (later'.subset (by simp))
      · obtain ⟨rfl, rfl⟩ := List.cons.inj shape'
        exact fresh (inner.subset (by simp))

/-- A stable ascending arrangement is ordered by the comparison, ties by the order of the given list. -/
theorem pairwise_stable {sorted : List α} (distinct : xs.Nodup) (perm : sorted.Perm xs)
    (ascending : sorted.Pairwise fun a b => less b a = false)
    (stable : ∀ a b, less b a = false → List.Sublist [a, b] xs → List.Sublist [a, b] sorted) :
    sorted.Pairwise fun a b => less b a = false ∧ (List.Sublist [a, b] xs ∨ less a b = true) := by
  have distinct' := perm.nodup_iff.mpr distinct
  refine List.pairwise_iff_forall_sublist.mpr fun {a b} pair => ?_
  have le := List.pairwise_iff_forall_sublist.mp ascending pair
  refine ⟨le, ?_⟩
  have inA : a ∈ xs := perm.mem_iff.mp (pair.subset (by simp))
  have inB : b ∈ xs := perm.mem_iff.mp (pair.subset (by simp))
  have different : a ≠ b := by
    rintro rfl
    exact not_pair_sublist distinct' pair pair
  rcases pair_sublist_or inA inB different with kept | swapped
  · exact Or.inl kept
  · refine Or.inr ((Bool.eq_false_or_eq_true _).resolve_right fun tie => ?_)
    exact not_pair_sublist distinct' pair (stable b a tie swapped)

/-- There is one stable ascending arrangement of distinct elements. -/
theorem eq_of_stable {sorted sorted' : List α} (distinct : xs.Nodup) (perm : sorted.Perm xs) (perm' : sorted'.Perm xs)
    (stable : sorted.Pairwise fun a b => less b a = false ∧ (List.Sublist [a, b] xs ∨ less a b = true))
    (stable' : sorted'.Pairwise fun a b => less b a = false ∧ (List.Sublist [a, b] xs ∨ less a b = true)) :
    sorted = sorted' := by
  refine List.Perm.eq_of_pairwise (fun a b _ _ one other => ?_) stable stable' (perm.trans perm'.symm)
  have pair := one.2.resolve_right (by simp [other.1])
  exact absurd (other.2.resolve_right (by simp [one.1])) (not_pair_sublist distinct pair)

/-- `List.mergeSort` arranges distinct elements by the comparison, ties in the order given. -/
theorem pairwise_mergeSort_stable (order : StrictWeak less) (distinct : xs.Nodup) :
    (xs.mergeSort fun a b => !less b a).Pairwise fun a b =>
      less b a = false ∧ (List.Sublist [a, b] xs ∨ less a b = true) := by
  have trans (a b c : α) (ab : (!less b a) = true) (bc : (!less c b) = true) : (!less c a) = true := by
    simp only [Bool.not_eq_true'] at ab bc ⊢
    exact order.not_less_trans a b c ab bc
  have total (a b : α) : ((!less b a) || !less a b) = true := by
    cases forward : less a b with
    | false => simp
    | true => simp [order.asymmetric a b forward]
  refine pairwise_stable distinct (List.mergeSort_perm xs _) ?_ fun a b le pair => ?_
  · exact (List.pairwise_mergeSort trans total xs).imp fun le => by simpa using le
  · exact List.pair_sublist_mergeSort trans total (by simp [le]) pair

/-- With enough passes the natural merge sort computes what `List.mergeSort` does. -/
theorem sort_eq_mergeSort (order : StrictWeak less) (distinct : xs.Nodup) {passes : Nat}
    (enough : runs less xs ≤ 2 ^ passes) (some_pass : 0 < passes) :
    sort less passes xs = xs.mergeSort fun a b => !less b a :=
  eq_of_stable distinct (sort_perm less passes xs) (List.mergeSort_perm xs _)
    (pairwise_stable distinct (sort_perm less passes xs)
      (order.pairwise (ascending_sort order.asymmetric enough some_pass))
      fun _ _ le pair => pair_sublist_sort order le passes pair)
    (pairwise_mergeSort_stable order distinct)

end NaturalMerge
