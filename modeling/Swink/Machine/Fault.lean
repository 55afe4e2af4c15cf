namespace Swink

/-- The ways in which a call of the kernel does not return a value. -/
inductive Fault
  /-- `panic`, also through a failed `ASSERT` or `REQUIRE`, with its message -/
  | panic (message : String)
  /-- an access the C program does not define: past an array, or a list node used twice -/
  | undefined (access : String)
  /-- a spin lock that nobody will release -/
  | spin
  /-- a loop bound of the model that was too small -/
  | fuel
  deriving DecidableEq, Repr

@[simp] theorem ok_bind {ε α β : Type} (a : α) (f : α → Except ε β) : (Except.ok a >>= f) = f a := rfl

@[simp] theorem error_bind {ε α β : Type} (e : ε) (f : α → Except ε β) :
    ((Except.error e : Except ε α) >>= f) = Except.error e := rfl

theorem bind_eq_ok {ε α β : Type} {x : Except ε α} {f : α → Except ε β} {b : β} :
    x >>= f = Except.ok b ↔ ∃ a, x = Except.ok a ∧ f a = Except.ok b := by
  cases x with
  | error e => simp
  | ok a => simp

/-- Whether a computation returns a value that passes a test. -/
def returns {ε α : Type} (x : Except ε α) (test : α → Bool) : Bool :=
  match x with
  | .ok a => test a
  | .error _ => false

theorem of_returns {ε α : Type} (x : Except ε α) (test : α → Bool) (passes : returns x test = true) :
    ∃ a, x = .ok a ∧ test a = true := by
  cases x with
  | ok a => exact ⟨a, rfl, passes⟩
  | error e => cases passes

/-- The `ASSERT` macro of assert.h. -/
def assert (condition : Prop) [Decidable condition] (text : String) : Except Fault Unit :=
  if condition then .ok () else .error (.panic ("Assertion failed: " ++ text))

/-- The `REQUIRE` macro of assert.h. -/
def require (condition : Prop) [Decidable condition] (text : String) : Except Fault Unit :=
  if condition then .ok () else .error (.panic ("Requirement failed: " ++ text))

theorem assert_of {condition : Prop} [Decidable condition] (holds : condition) (text : String) :
    assert condition text = .ok () := if_pos holds

theorem require_of {condition : Prop} [Decidable condition] (holds : condition) (text : String) :
    require condition text = .ok () := if_pos holds

end Swink
