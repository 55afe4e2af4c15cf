import Mathlib.Data.Nat.Basic
import Mathlib.Tactic.Common

namespace Swink.Records

universe u
variable {κ : Type u} (size : κ → Nat) (entry : Nat → Option (Option κ))

/-- Reads the records from a position on up to the end mark: each record with its position, and the
position of the mark. An entry is outside the data, the end mark or the header of a record. -/
def walk : Nat → Nat → Option (List (Nat × κ) × Nat)
  | 0, _ => none
  | rounds + 1, pos =>
    match entry pos with
    | none => none
    | some none => some ([], pos)
    | some (some header) => do
      let (rest, last) ← walk rounds (pos + size header)
      some ((pos, header) :: rest, last)

/-- The records that lie one after the other between two positions. -/
inductive Laid : Nat → List (Nat × κ) → Nat → Prop
  | done (pos : Nat) : Laid pos [] pos
  | next {pos last : Nat} {header : κ} {rest : List (Nat × κ)} (here : entry pos = some (some header))
      (later : Laid (pos + size header) rest last) : Laid pos ((pos, header) :: rest) last

variable {size} {entry} {entry' : Nat → Option (Option κ)} {pos last : Nat} {records : List (Nat × κ)}

/-- The reader finds the records that were laid out up to the mark. -/
theorem Laid.walk_eq (laid : Laid size entry pos records last) (mark : entry last = some none) {rounds : Nat}
    (enough : records.length < rounds) : walk size entry rounds pos = some (records, last) := by
  induction laid generalizing rounds with
  | done pos =>
    obtain ⟨rounds, rfl⟩ := Nat.exists_eq_succ_of_ne_zero (Nat.ne_of_gt enough)
    simp only [walk, mark]
  | @next pos last header rest here later ih =>
    obtain ⟨rounds, rfl⟩ := Nat.exists_eq_succ_of_ne_zero (Nat.ne_of_gt (Nat.zero_lt_of_lt enough))
    rw [List.length_cons] at enough
    have found := ih mark (show rest.length < rounds by omega)
    simp only [walk, here, found, Option.bind_eq_bind, Option.bind_some]

theorem Laid.le (laid : Laid size entry pos records last) : pos ≤ last := by
  induction laid with
  | done pos => exact le_rfl
  | next here later ih => exact Nat.le_trans (Nat.le_add_right ..) ih

/-- Every record lies between the ends of the layout. -/
theorem Laid.within (laid : Laid size entry pos records last) {start : Nat} {header : κ}
    (member : (start, header) ∈ records) : pos ≤ start ∧ start + size header ≤ last := by
  induction laid with
  | done pos => simp at member
  | next here later ih =>
    rcases List.mem_cons.mp member with first | member
    · cases first
      exact ⟨le_rfl, later.le⟩
    · exact ⟨Nat.le_trans (Nat.le_add_right ..) (ih member).1, (ih member).2⟩

/-- One more record at the end. -/
theorem Laid.snoc (laid : Laid size entry pos records last) {header : κ} (here : entry last = some (some header)) :
    Laid size entry pos (records ++ [(last, header)]) (last + size header) := by
  induction laid with
  | done pos => exact .next here (.done _)
  | next first later ih => exact .next first (ih here)

/-- A layout depends on the headers of its records only. -/
theorem Laid.congr (laid : Laid size entry pos records last)
    (same : ∀ start header, (start, header) ∈ records → entry' start = entry start) :
    Laid size entry' pos records last := by
  induction laid with
  | done pos => exact .done pos
  | next here later ih =>
    exact .next ((same _ _ (.head _)).trans here) (ih fun start header member => same start header (.tail _ member))

/-- Two records are the same or one ends before the other starts. -/
theorem Laid.apart (laid : Laid size entry pos records last) {start start' : Nat} {header header' : κ}
    (member : (start, header) ∈ records) (member' : (start', header') ∈ records) :
    (start, header) = (start', header') ∨ start + size header ≤ start' ∨ start' + size header' ≤ start := by
  induction laid with
  | done pos => simp at member
  | next here later ih =>
    rcases List.mem_cons.mp member with first | inRest
    · rcases List.mem_cons.mp member' with first' | inRest'
      · exact Or.inl (first.trans first'.symm)
      · cases first
        exact Or.inr (Or.inl (later.within inRest').1)
    · rcases List.mem_cons.mp member' with first' | inRest'
      · cases first'
        exact Or.inr (Or.inr (later.within inRest).1)
      · exact ih inRest inRest'

/-- Records that take a word each or more are no more than there are words. -/
theorem Laid.length_le (laid : Laid size entry pos records last) (positive : ∀ header, 0 < size header) :
    pos + records.length ≤ last := by
  induction laid with
  | done pos => exact le_rfl
  | @next pos last header rest here later ih =>
    have := positive header
    rw [List.length_cons]
    omega

end Swink.Records
