/-- A program that asks an outside party questions, and ends with a result or an error. -/
inductive Dialogue (E Q A α : Type) : Type
  | done (result : α)
  | fail (error : E)
  | ask (question : Q) (rest : A → Dialogue E Q A α)

namespace Dialogue
variable {E Q A α β : Type}

def bind : Dialogue E Q A α → (α → Dialogue E Q A β) → Dialogue E Q A β
  | done result, next => next result
  | fail error, _ => fail error
  | ask question rest, next => ask question fun answer => (rest answer).bind next

instance : Monad (Dialogue E Q A) where
  pure := done
  bind := bind

/-- A step that asks nothing. -/
def lift : Except E α → Dialogue E Q A α
  | .ok result => done result
  | .error error => fail error

@[simp] theorem lift_ok (result : α) : (lift (.ok result) : Dialogue E Q A α) = done result := rfl

@[simp] theorem done_bind (result : α) (next : α → Dialogue E Q A β) : (done result >>= next) = next result := rfl

/-- The questions and answers of one run of a program, with how it ends. -/
inductive Plays : Dialogue E Q A α → List (Q × A) → Except E α → Prop
  | done (result : α) : Plays (done result) [] (.ok result)
  | fail (error : E) : Plays (fail error) [] (.error error)
  | ask {question : Q} {rest : A → Dialogue E Q A α} {answer : A} {log : List (Q × A)} {outcome : Except E α}
      (later : Plays (rest answer) log outcome) : Plays (ask question rest) ((question, answer) :: log) outcome

/-- As long as all answers relate to their questions as they should, the program does not fail, and
what has been said and the result are as they should be. -/
def Meets (fair : Q → A → Prop) (post : List (Q × A) → α → Prop) : Dialogue E Q A α → List (Q × A) → Prop
  | done result, said => post said result
  | fail _, _ => False
  | ask question rest, said => ∀ answer, fair question answer → (rest answer).Meets fair post (said ++ [(question, answer)])

variable {fair : Q → A → Prop} {post : List (Q × A) → α → Prop} {d : Dialogue E Q A α} {said log : List (Q × A)}

theorem Meets.mono (meets : d.Meets fair post said) {post' : List (Q × A) → α → Prop}
    (weaker : ∀ said result, post said result → post' said result) : d.Meets fair post' said := by
  induction d generalizing said with
  | done result => exact weaker said result meets
  | fail error => exact meets
  | ask question rest ih => exact fun answer related => ih answer (meets answer related)

theorem Meets.ask {question : Q} {rest : A → Dialogue E Q A α}
    (meets : ∀ answer, fair question answer → (rest answer).Meets fair post (said ++ [(question, answer)])) :
    (ask question rest).Meets fair post said := meets

/-- One program after the other. -/
theorem Meets.bind {next : α → Dialogue E Q A β} {post : List (Q × A) → β → Prop}
    (meets : d.Meets fair (fun said result => (next result).Meets fair post said) said) :
    (d >>= next).Meets fair post said := by
  show (d.bind next).Meets fair post said
  induction d generalizing said with
  | done result => exact meets
  | fail error => exact meets
  | ask question rest ih => exact fun answer related => ih answer (meets answer related)

/-- What a program meets holds of all its runs. -/
theorem Meets.holds (meets : d.Meets fair post said) {outcome : Except E α} (plays : d.Plays log outcome)
    (answers : ∀ entry ∈ log, fair entry.1 entry.2) : ∃ result, outcome = .ok result ∧ post (said ++ log) result := by
  induction plays generalizing said with
  | done result => exact ⟨result, rfl, by rwa [List.append_nil]⟩
  | fail error => exact meets.elim
  | @ask question rest answer log outcome later ih =>
    obtain ⟨result, same, holds⟩ := ih (meets answer (answers _ (List.mem_cons_self ..)))
      fun entry member => answers entry (List.mem_cons_of_mem _ member)
    exact ⟨result, same, by rwa [List.append_assoc] at holds⟩

end Dialogue
