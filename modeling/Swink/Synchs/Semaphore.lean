import Swink.Machine.Word
import Mathlib.Logic.Function.Basic
import Mathlib.Logic.Relation

namespace Swink

/-- Where a thread stands in synchs.c: in no call, or before its next atomic operation, with the
local variables it holds there. -/
inductive SynchsPc
  | outside
  /-- before the `__atomic_load_n` of `synchs_semaphore_down` -/
  | load
  /-- before its `__atomic_compare_exchange` -/
  | exchange (value newValue : Nat)
  /-- before the `__atomic_add_fetch` of `synchs_semaphore_up` -/
  | add
  deriving DecidableEq, Repr

/-- A thread enters a call or executes the atomic operation it stands before. -/
inductive SynchsEvent (Thread : Type)
  | down (t : Thread)
  | up (t : Thread)
  | load (t : Thread)
  /-- a weak exchange may fail although the values agree -/
  | exchange (t : Thread) (spurious : Bool)
  | add (t : Thread)

/-- `struct synchs_semaphore` with the threads that use it and the number of calls completed. -/
structure SynchsSemaphore (Thread : Type) where
  value : Nat
  pc : Thread → SynchsPc
  downs : Nat
  ups : Nat

namespace SynchsSemaphore
variable {Thread : Type}

/-- `synchs_semaphore_init`. -/
def init (value : Nat) : SynchsSemaphore Thread := ⟨value, fun _ => .outside, 0, 0⟩

/-- What every thread holds between its load and its exchange, however stale it is. -/
structure Loaded (s : SynchsSemaphore Thread) : Prop where
  small : s.value < 2 ^ 32
  locals : ∀ t value newValue, s.pc t = .exchange value newValue → newValue + 1 = value ∧ value < 2 ^ 32

theorem Loaded.init {v : Nat} (small : v < 2 ^ 32) :
    (SynchsSemaphore.init v : SynchsSemaphore Thread).Loaded := ⟨small, nofun⟩

theorem Loaded.withValue {s : SynchsSemaphore Thread} (loaded : s.Loaded) {value : Nat} (small : value < 2 ^ 32)
    (downs ups : Nat) :
    ({ s with value := value, downs := downs, ups := ups } : SynchsSemaphore Thread).Loaded := ⟨small, loaded.locals⟩

variable [DecidableEq Thread]

def move (t : Thread) (pc : SynchsPc) (s : SynchsSemaphore Thread) : SynchsSemaphore Thread :=
  { s with pc := Function.update s.pc t pc }

/-- The state after an event, `none` when the thread does not stand there. -/
def next (s : SynchsSemaphore Thread) : SynchsEvent Thread → Option (SynchsSemaphore Thread)
  | .down t => if s.pc t = .outside then some (s.move t .load) else none
  | .up t => if s.pc t = .outside then some (s.move t .add) else none
  | .load t =>
    if s.pc t = .load then
      let value := s.value
      if value = 0 then some s else some (s.move t (.exchange value (sub32 value 1)))
    else none
  | .exchange t spurious =>
    match s.pc t with
    | .exchange value newValue =>
      if s.value = value ∧ spurious = false then
        some { s.move t .outside with value := newValue, downs := s.downs + 1 }
      else some (s.move t .load)
    | _ => none
  | .add t =>
    if s.pc t = .add then some { s.move t .outside with value := u32 (s.value + 1), ups := s.ups + 1 } else none

/-- One step of any thread. -/
def Step (s s' : SynchsSemaphore Thread) : Prop := ∃ event, s.next event = some s'

variable {s s' : SynchsSemaphore Thread} {t u : Thread} {pc : SynchsPc} {spurious : Bool} {v : Nat}

@[simp] theorem move_value : (s.move t pc).value = s.value := rfl
@[simp] theorem move_downs : (s.move t pc).downs = s.downs := rfl
@[simp] theorem move_ups : (s.move t pc).ups = s.ups := rfl
@[simp] theorem move_pc_self : (s.move t pc).pc t = pc := Function.update_self ..

theorem move_pc_of_ne (other : u ≠ t) : (s.move t pc).pc u = s.pc u := Function.update_of_ne other ..

theorem next_down : s.next (.down t) = some s' ↔ s.pc t = .outside ∧ s' = s.move t .load := by
  simp [next, eq_comm]

theorem next_up : s.next (.up t) = some s' ↔ s.pc t = .outside ∧ s' = s.move t .add := by
  simp [next, eq_comm]

/-- A load that finds no slot leaves everything as it is. -/
theorem next_load : s.next (.load t) = some s' ↔
    s.pc t = .load ∧ (s.value = 0 ∧ s' = s ∨
      s.value ≠ 0 ∧ s' = s.move t (.exchange s.value (sub32 s.value 1))) := by
  by_cases here : s.pc t = .load
  · by_cases empty : s.value = 0 <;> simp [next, here, empty, eq_comm]
  · simp [next, here]

theorem next_exchange : s.next (.exchange t spurious) = some s' ↔ ∃ value newValue,
    s.pc t = .exchange value newValue ∧
      (s.value = value ∧ s' = { s.move t .outside with value := newValue, downs := s.downs + 1 } ∧ spurious = false ∨
        ¬(s.value = value ∧ spurious = false) ∧ s' = s.move t .load) := by
  cases here : s.pc t with
  | exchange value newValue =>
    by_cases success : s.value = value ∧ spurious = false
    · simp [next, here, success, eq_comm]
    · simp only [next, here, if_neg success, Option.some.injEq]
      constructor
      · rintro rfl
        exact ⟨value, newValue, rfl, Or.inr ⟨success, rfl⟩⟩
      · rintro ⟨_, _, same, ⟨agree, -, notSpurious⟩ | ⟨-, rfl⟩⟩
        · cases same
          exact absurd ⟨agree, notSpurious⟩ success
        · rfl
  | outside => simp [next, here]
  | load => simp [next, here]
  | add => simp [next, here]

theorem next_add : s.next (.add t) = some s' ↔
    s.pc t = .add ∧ s' = { s.move t .outside with value := u32 (s.value + 1), ups := s.ups + 1 } := by
  simp [next, eq_comm]

/-- A thread that moves keeps the invariant if it holds a value that was there. -/
theorem Loaded.move (loaded : s.Loaded)
    (own : ∀ value newValue, pc = .exchange value newValue → newValue + 1 = value ∧ value < 2 ^ 32) :
    (s.move t pc).Loaded where
  small := loaded.small
  locals u value newValue at_ := by
    by_cases same : u = t
    · subst same
      rw [move_pc_self] at at_
      exact own value newValue at_
    · rw [move_pc_of_ne same] at at_
      exact loaded.locals u value newValue at_

/-- Every event is a step inside a call or an atomic down or up of the value. -/
theorem Loaded.step (loaded : s.Loaded) {event : SynchsEvent Thread} (step : s.next event = some s') :
    s'.Loaded ∧
      (s'.value = s.value ∧ s'.downs = s.downs ∧ s'.ups = s.ups ∨
        s.value = s'.value + 1 ∧ s'.downs = s.downs + 1 ∧ s'.ups = s.ups ∨
        s'.value = u32 (s.value + 1) ∧ s'.downs = s.downs ∧ s'.ups = s.ups + 1) := by
  cases event with
  | down t =>
    obtain ⟨-, rfl⟩ := next_down.mp step
    exact ⟨loaded.move nofun, Or.inl ⟨rfl, rfl, rfl⟩⟩
  | up t =>
    obtain ⟨-, rfl⟩ := next_up.mp step
    exact ⟨loaded.move nofun, Or.inl ⟨rfl, rfl, rfl⟩⟩
  | load t =>
    obtain ⟨-, ⟨-, rfl⟩ | ⟨nonzero, rfl⟩⟩ := next_load.mp step
    · exact ⟨loaded, Or.inl ⟨rfl, rfl, rfl⟩⟩
    · refine ⟨loaded.move fun value newValue same => ?_, Or.inl ⟨rfl, rfl, rfl⟩⟩
      cases same
      have positive := Nat.pos_of_ne_zero nonzero
      rw [sub32_of_le positive loaded.small]
      exact ⟨Nat.sub_add_cancel positive, loaded.small⟩
  | exchange t spurious =>
    obtain ⟨value, newValue, here, ⟨agree, rfl, -⟩ | ⟨-, rfl⟩⟩ := next_exchange.mp step
    · obtain ⟨less, small⟩ := loaded.locals t value newValue here
      have moved : (s.move t .outside).Loaded := loaded.move nofun
      refine ⟨moved.withValue (by omega) .., Or.inr (Or.inl ⟨?_, rfl, rfl⟩)⟩
      exact agree.trans less.symm
    · exact ⟨loaded.move nofun, Or.inl ⟨rfl, rfl, rfl⟩⟩
  | add t =>
    obtain ⟨-, rfl⟩ := next_add.mp step
    have moved : (s.move t .outside).Loaded := loaded.move nofun
    exact ⟨moved.withValue (Nat.mod_lt _ (by decide)) .., Or.inr (Or.inr ⟨rfl, rfl, rfl⟩)⟩

theorem Loaded.run (loaded : s.Loaded) (run : Relation.ReflTransGen Step s s') : s'.Loaded := by
  induction run with
  | refl => exact loaded
  | tail _ step ih =>
    obtain ⟨event, step⟩ := step
    exact (ih.step step).1

/-- As long as the ups do not exceed the range of the value, none of them wraps. -/
theorem Loaded.account (loaded : s.Loaded) (start : s.value + s.downs = v + s.ups)
    (run : Relation.ReflTransGen Step s s') (bound : v + s'.ups < 2 ^ 32) : s'.value + s'.downs = v + s'.ups := by
  induction run with
  | refl => exact start
  | tail before step ih =>
    obtain ⟨event, step⟩ := step
    rcases ((loaded.run before).step step).2 with ⟨value, downs, ups⟩ | ⟨value, downs, ups⟩ | ⟨value, downs, ups⟩
    · have := ih (by omega)
      omega
    · have := ih (by omega)
      omega
    · have earlier := ih (by omega)
      rw [u32_of_lt (by omega)] at value
      omega

end SynchsSemaphore

end Swink
