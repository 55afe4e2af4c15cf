import Mathlib.Data.List.TakeWhile
import Mathlib.Tactic.Common

namespace Tokens

variable {β : Type} {stop : β → Bool} {text skip token rest : List β} {d : β}

/-- The next token of a text, and what is left behind the delimiter that ends it. -/
def next (stop : β → Bool) (text : List β) : Option (List β × List β) :=
  match text.dropWhile stop with
  | [] => none
  | c :: rest => some ((c :: rest).takeWhile (!stop ·), ((c :: rest).dropWhile (!stop ·)).tail)

/-- What is left after a request for a token. -/
def left (found : Option (List β × List β)) : List β := (found.map Prod.snd).getD []

/-- What a run of requests for tokens gives, where each has delimiters of its own. -/
def nexts : List (β → Bool) → List β → List (Option (List β))
  | [], _ => []
  | stop :: stops, text => (next stop text).map Prod.fst :: nexts stops (left (next stop text))

/-- The parts of a text between the delimiters, without the empty ones. -/
def pieces (stop : β → Bool) (text : List β) : List (List β) := (text.splitOnP stop).filter (!·.isEmpty)

/-- A text is delimiters only, or it has a token, with nothing behind it or with a delimiter and the rest. -/
inductive Shape (stop : β → Bool) : List β → Prop
  | none {text : List β} (delimiters : ∀ c ∈ text, stop c = true) : Shape stop text
  | last {skip token : List β} (delimiters : ∀ c ∈ skip, stop c = true) (free : ∀ c ∈ token, stop c = false)
      (nonempty : token ≠ []) : Shape stop (skip ++ token)
  | cut {skip token rest : List β} {d : β} (delimiters : ∀ c ∈ skip, stop c = true) (free : ∀ c ∈ token, stop c = false)
      (nonempty : token ≠ []) (ends : stop d = true) : Shape stop (skip ++ (token ++ d :: rest))

theorem shape (stop : β → Bool) (text : List β) : Shape stop text := by
  have split : text.takeWhile stop ++ text.dropWhile stop = text := List.takeWhile_append_dropWhile
  have delimiters : ∀ c ∈ text.takeWhile stop, stop c = true := fun c member => List.mem_takeWhile_imp member
  cases found : text.dropWhile stop with
  | nil =>
    rw [found, List.append_nil] at split
    exact .none (split ▸ delimiters)
  | cons c more =>
    have free : ∀ x ∈ (c :: more).takeWhile (!stop ·), stop x = false := fun x member => by
      simpa using List.mem_takeWhile_imp member
    have first : stop c = false := by
      have head := List.head_dropWhile_not stop (show text.dropWhile stop ≠ [] by simp [found])
      simpa [found] using head
    have nonempty : (c :: more).takeWhile (!stop ·) ≠ [] := by simp [first]
    have parts : (c :: more).takeWhile (!stop ·) ++ (c :: more).dropWhile (!stop ·) = c :: more :=
      List.takeWhile_append_dropWhile
    cases behind : (c :: more).dropWhile (!stop ·) with
    | nil =>
      rw [behind, List.append_nil] at parts
      rw [← split, found, ← parts]
      exact .last delimiters free nonempty
    | cons d rest =>
      have ends : stop d = true := by
        have head := List.head_dropWhile_not (!stop ·) (show (c :: more).dropWhile (!stop ·) ≠ [] by simp [behind])
        simpa [behind] using head
      rw [← split, found, ← parts, behind]
      exact .cut delimiters free nonempty ends

theorem dropWhile_skip (delimiters : ∀ c ∈ skip, stop c = true) (text : List β) :
    (skip ++ text).dropWhile stop = text.dropWhile stop := List.dropWhile_append_of_pos delimiters

theorem next_none (delimiters : ∀ c ∈ text, stop c = true) : next stop text = none := by
  rw [next, List.dropWhile_eq_nil_iff.mpr delimiters]

/-- A token starts behind the first delimiters. -/
theorem next_skip (delimiters : ∀ c ∈ skip, stop c = true) (free : ∀ c ∈ token, stop c = false) (nonempty : token ≠ [])
    (rest : List β) : next stop (skip ++ (token ++ rest)) =
      some (token ++ rest.takeWhile (!stop ·), (rest.dropWhile (!stop ·)).tail) := by
  have free' : ∀ c ∈ token, (!stop c) = true := fun c member => by simp [free c member]
  obtain ⟨c, more, rfl⟩ := List.exists_cons_of_ne_nil nonempty
  have first : stop c = false := free c (List.mem_cons_self ..)
  rw [next, dropWhile_skip delimiters, List.cons_append, List.dropWhile_cons_of_neg (by simp [first])]
  simp only [← List.cons_append]
  rw [List.takeWhile_append_of_pos free', List.dropWhile_append_of_pos free']

theorem next_last (delimiters : ∀ c ∈ skip, stop c = true) (free : ∀ c ∈ token, stop c = false) (nonempty : token ≠ []) :
    next stop (skip ++ token) = some (token, []) := by
  have run := next_skip delimiters free nonempty []
  simpa using run

theorem next_cut (delimiters : ∀ c ∈ skip, stop c = true) (free : ∀ c ∈ token, stop c = false) (nonempty : token ≠ [])
    (ends : stop d = true) : next stop (skip ++ (token ++ d :: rest)) = some (token, rest) := by
  rw [next_skip delimiters free nonempty, List.takeWhile_cons_of_neg (by simp [ends]),
    List.dropWhile_cons_of_neg (by simp [ends]), List.append_nil, List.tail_cons]

theorem pieces_skip (delimiters : ∀ c ∈ skip, stop c = true) (text : List β) :
    pieces stop (skip ++ text) = pieces stop text := by
  induction skip with
  | nil => rfl
  | cons c skip ih =>
    have first : stop c = true := delimiters c (List.mem_cons_self ..)
    rw [← ih fun x member => delimiters x (List.mem_cons_of_mem _ member), pieces, List.cons_append, List.splitOnP_cons_eq_if_modifyHead]
    simp [first, pieces]

theorem pieces_none (delimiters : ∀ c ∈ text, stop c = true) : pieces stop text = [] := by
  have all := pieces_skip delimiters []
  rw [List.append_nil] at all
  rw [all]
  simp [pieces]

theorem pieces_last (delimiters : ∀ c ∈ skip, stop c = true) (free : ∀ c ∈ token, stop c = false) (nonempty : token ≠ []) :
    pieces stop (skip ++ token) = [token] := by
  rw [pieces_skip delimiters, pieces, List.splitOnP_eq_singleton free]
  simp [nonempty]

theorem pieces_cut (delimiters : ∀ c ∈ skip, stop c = true) (free : ∀ c ∈ token, stop c = false) (nonempty : token ≠ [])
    (ends : stop d = true) : pieces stop (skip ++ (token ++ d :: rest)) = token :: pieces stop rest := by
  rw [pieces_skip delimiters, pieces, List.splitOnP_append_cons_of_forall_mem free d ends]
  simp [nonempty, pieces]

/-- Asking for tokens with the same delimiters until there is none gives the pieces. -/
theorem pieces_of_next (stop : β → Bool) (text : List β) :
    (next stop text = none ∧ pieces stop text = []) ∨ ∃ token rest, next stop text = some (token, rest) ∧
      pieces stop text = token :: pieces stop rest ∧ rest.length < text.length := by
  cases shape stop text with
  | none delimiters => exact Or.inl ⟨next_none delimiters, pieces_none delimiters⟩
  | @last skip token delimiters free nonempty =>
    have long := List.length_pos_iff.mpr nonempty
    refine Or.inr ⟨token, [], next_last delimiters free nonempty, ?_, ?_⟩
    · rw [pieces_last delimiters free nonempty]
      rfl
    · rw [List.length_append, List.length_nil]
      omega
  | @cut skip token rest d delimiters free nonempty ends =>
    refine Or.inr ⟨token, rest, next_cut delimiters free nonempty ends, pieces_cut delimiters free nonempty ends, ?_⟩
    rw [List.length_append, List.length_append, List.length_cons]
    omega

end Tokens
