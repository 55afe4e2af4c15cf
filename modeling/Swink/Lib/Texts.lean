import Mathlib.Data.List.TakeWhile
import Swink.Lib.Spans

/-- The text at an address: the values up to the first one that ends it. -/
inductive Text {β : Type} (null : β) (mem : Nat → β) : Nat → List β → Prop
  | nil {p : Nat} (ends : mem p = null) : Text null mem p []
  | cons {p : Nat} {c : β} {text : List β} (here : mem p = c) (nonzero : c ≠ null) (rest : Text null mem (p + 1) text) :
    Text null mem p (c :: text)

namespace Text

variable {β : Type} {null : β} {mem mem' : Nat → β} {p q a i : Nat} {text text' front : List β} {c : β}

theorem ends (holds : Text null mem p text) : mem (p + text.length) = null := by
  induction holds with
  | nil ends => exact ends
  | @cons p c text here nonzero rest ih =>
    rw [List.length_cons, show p + (text.length + 1) = p + 1 + text.length by omega]
    exact ih

theorem nonzero (holds : Text null mem p text) : ∀ c ∈ text, c ≠ null := by
  induction holds with
  | nil ends => simp
  | cons here nonzero rest ih =>
    intro c member
    rcases List.mem_cons.mp member with rfl | member
    · exact nonzero
    · exact ih c member

theorem read (holds : Text null mem p text) : Spans.read mem p text.length = text := by
  induction holds with
  | nil ends => rfl
  | @cons p c text here nonzero rest ih => rw [List.length_cons, Spans.read_cons, here, ih]

theorem getElem (holds : Text null mem p text) (inside : i < text.length) : mem (p + i) = text[i] := by
  have read : (Spans.read mem p text.length)[i]? = some (mem (p + i)) := Spans.getElem?_read inside
  rw [holds.read, List.getElem?_eq_getElem inside] at read
  exact (Option.some.inj read).symm

/-- Values that do not end it, with one behind them that does. -/
theorem of_read (same : Spans.read mem p text.length = text) (nonzero : ∀ c ∈ text, c ≠ null)
    (ends : mem (p + text.length) = null) : Text null mem p text := by
  induction text generalizing p with
  | nil => exact .nil ends
  | cons c text ih =>
    rw [List.length_cons, Spans.read_cons] at same
    obtain ⟨here, rest⟩ := List.cons.inj same
    refine .cons here (nonzero c (List.mem_cons_self ..)) (ih rest (fun c member => nonzero c (List.mem_cons_of_mem _ member)) ?_)
    rwa [List.length_cons, show p + (text.length + 1) = p + 1 + text.length by omega] at ends

theorem congr (holds : Text null mem p text) (same : ∀ a, p ≤ a → a ≤ p + text.length → mem' a = mem a) : Text null mem' p text :=
  of_read ((Spans.read_congr fun i inside => same (p + i) (by omega) (by omega)).trans holds.read) holds.nonzero
    ((same _ (by omega) le_rfl).trans holds.ends)

/-- The rest of a text is a text. -/
theorem rest_of_append (holds : Text null mem p (front ++ text)) : Text null mem (p + front.length) text := by
  induction front generalizing p with
  | nil => exact holds
  | cons c front ih =>
    cases holds with
    | cons here nonzero rest =>
      rw [List.length_cons, show p + (front.length + 1) = p + 1 + front.length by omega]
      exact ih rest

/-- An end behind the front of a text cuts it off there. -/
theorem cut (holds : Text null mem p (front ++ text)) : Text null (Function.update mem (p + front.length) null) p front := by
  have other : ∀ i < front.length, Function.update mem (p + front.length) null (p + i) = mem (p + i) :=
    fun i inside => Function.update_of_ne (by omega) ..
  have whole := holds.read
  rw [List.length_append, Spans.read_append] at whole
  refine of_read ?_ (fun c member => holds.nonzero c (List.mem_append_left _ member)) (Function.update_self ..)
  rw [Spans.read_congr other]
  exact (List.append_inj whole Spans.length_read).1

/-- Writing a text with its end. -/
theorem of_write (nonzero : ∀ c ∈ text, c ≠ null) : Text null (Spans.write mem p (text ++ [null])) p text := by
  refine of_read ?_ nonzero ?_
  · have all : Spans.read (Spans.write mem p (text ++ [null])) p (text ++ [null]).length = text ++ [null] := Spans.read_write
    rw [List.length_append, List.length_singleton, Spans.read_append] at all
    exact (List.append_inj all Spans.length_read).1
  · rw [Spans.write_of_inside (by simp), List.getElem_append_right (by simp)]
    simp

/-- Writing a text behind another one. -/
theorem append_write (holds : Text null mem p front) (nonzero : ∀ c ∈ text, c ≠ null) :
    Text null (Spans.write mem (p + front.length) (text ++ [null])) p (front ++ text) := by
  induction holds with
  | nil ends => exact of_write nonzero
  | @cons p c front here nonzero' rest ih =>
    rw [List.length_cons, show p + (front.length + 1) = p + 1 + front.length by omega]
    exact .cons ((Spans.write_of_outside (Or.inl (by omega))).trans here) nonzero' ih

end Text
