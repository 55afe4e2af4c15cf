import Swink.Synchs.Semaphore

namespace Swink

/-- `struct synchs_lock` with the threads between `synchs_lock_acquire` and `synchs_lock_release`. -/
structure SynchsLock (Thread : Type) where
  semaphore : SynchsSemaphore Thread
  inside : Thread → Bool

/-- What a lock is for: it has an owner or none, and only the owner gives it back. -/
inductive OwnerStep {Thread : Type} : Option Thread → Option Thread → Prop
  | acquire (t : Thread) : OwnerStep none (some t)
  | release (t : Thread) : OwnerStep (some t) none

namespace SynchsLock
variable {Thread : Type}

/-- `synchs_lock_init`. -/
def init : SynchsLock Thread := ⟨.init 1, fun _ => false⟩

/-- The lock has the given owner. -/
structure Owned (l : SynchsLock Thread) (owner : Option Thread) : Prop where
  loaded : l.semaphore.Loaded
  value : l.semaphore.value = if owner = none then 1 else 0
  inside : ∀ t, l.inside t = true ↔ owner = some t
  releasing : ∀ t, l.semaphore.pc t = .add → owner = some t

theorem Owned.init : (init : SynchsLock Thread).Owned none where
  loaded := .init (by decide)
  value := rfl
  inside t := by simp [SynchsLock.init]
  releasing t := nofun

variable [DecidableEq Thread]

/-- A thread releases only a lock that it has acquired. It is inside from its exchange to its add. -/
def next (l : SynchsLock Thread) : SynchsEvent Thread → Option (SynchsLock Thread)
  | .down t => (l.semaphore.next (.down t)).map fun s => ⟨s, l.inside⟩
  | .load t => (l.semaphore.next (.load t)).map fun s => ⟨s, l.inside⟩
  | .exchange t spurious => (l.semaphore.next (.exchange t spurious)).map fun s =>
      ⟨s, if s.pc t = .outside then Function.update l.inside t true else l.inside⟩
  | .up t => if l.inside t then (l.semaphore.next (.up t)).map fun s => ⟨s, l.inside⟩ else none
  | .add t => (l.semaphore.next (.add t)).map fun s => ⟨s, Function.update l.inside t false⟩

def Step (l l' : SynchsLock Thread) : Prop := ∃ event, l.next event = some l'

variable {l l' : SynchsLock Thread} {owner : Option Thread} {t : Thread} {pc : SynchsPc}

/-- A thread that moves on inside a call keeps the owner. -/
theorem Owned.move (owned : l.Owned owner) (loaded : (l.semaphore.move t pc).Loaded)
    (own : pc = .add → owner = some t) : (⟨l.semaphore.move t pc, l.inside⟩ : SynchsLock Thread).Owned owner where
  loaded := loaded
  value := owned.value
  inside := owned.inside
  releasing u at_ := by
    by_cases same : u = t
    · subst same
      exact own ((SynchsSemaphore.move_pc_self (s := l.semaphore)).symm.trans at_)
    · exact owned.releasing u ((SynchsSemaphore.move_pc_of_ne same).symm.trans at_)

/-- A thread that has left the exchange or the add, as the new owner or the last one. -/
theorem Owned.transfer (owned : l.Owned owner) {owner' : Option Thread} {s : SynchsSemaphore Thread} (loaded : s.Loaded)
    (moved : s.pc = Function.update l.semaphore.pc t .outside) (value : s.value = if owner' = none then 1 else 0)
    {inside : Thread → Bool} (members : ∀ u, inside u = true ↔ owner' = some u)
    (alone : ∀ u, u ≠ t → owner ≠ some u) : (⟨s, inside⟩ : SynchsLock Thread).Owned owner' where
  loaded := loaded
  value := value
  inside := members
  releasing u at_ := by
    have at_ : s.pc u = .add := at_
    rw [moved] at at_
    by_cases same : u = t
    · subst same
      rw [Function.update_self] at at_
      cases at_
    · rw [Function.update_of_ne same] at at_
      exact absurd (owned.releasing u at_) (alone u same)

/-- Every step of the threads is none, an acquisition or a release of the abstract lock. -/
theorem Owned.step (owned : l.Owned owner) {event : SynchsEvent Thread} (step : l.next event = some l') :
    ∃ owner', l'.Owned owner' ∧ (owner' = owner ∨ OwnerStep owner owner') := by
  cases event with
  | down t =>
    obtain ⟨s, inner, rfl⟩ := Option.map_eq_some_iff.mp step
    have loaded := (owned.loaded.step inner).1
    obtain ⟨-, rfl⟩ := SynchsSemaphore.next_down.mp inner
    exact ⟨owner, owned.move loaded nofun, Or.inl rfl⟩
  | load t =>
    obtain ⟨s, inner, rfl⟩ := Option.map_eq_some_iff.mp step
    have loaded := (owned.loaded.step inner).1
    obtain ⟨-, ⟨-, rfl⟩ | ⟨-, rfl⟩⟩ := SynchsSemaphore.next_load.mp inner
    · exact ⟨owner, owned, Or.inl rfl⟩
    · exact ⟨owner, owned.move loaded nofun, Or.inl rfl⟩
  | up t =>
    simp only [next] at step
    split at step
    · rename_i holds
      obtain ⟨s, inner, rfl⟩ := Option.map_eq_some_iff.mp step
      have loaded := (owned.loaded.step inner).1
      obtain ⟨-, rfl⟩ := SynchsSemaphore.next_up.mp inner
      exact ⟨owner, owned.move loaded fun _ => (owned.inside t).mp holds, Or.inl rfl⟩
    · cases step
  | exchange t spurious =>
    obtain ⟨s, inner, rfl⟩ := Option.map_eq_some_iff.mp step
    have loaded := (owned.loaded.step inner).1
    obtain ⟨value, newValue, here, ⟨agree, rfl, -⟩ | ⟨-, rfl⟩⟩ := SynchsSemaphore.next_exchange.mp inner
    · -- the value was not zero, so the lock was free
      obtain ⟨less, -⟩ := owned.loaded.locals t value newValue here
      have count := owned.value
      have free : owner = none := by
        by_contra taken
        rw [if_neg taken] at count
        omega
      subst free
      rw [if_pos rfl] at count
      have left : (l.semaphore.move t .outside).pc t = .outside := SynchsSemaphore.move_pc_self
      refine ⟨some t, owned.transfer (t := t) loaded rfl ?_ (fun u => ?_) (fun u _ => nofun), Or.inr (.acquire t)⟩
      · show newValue = 0
        omega
      · rw [if_pos left]
        by_cases same : u = t
        · subst same
          simp
        · have other : l.inside u ≠ true := fun holds => nomatch (owned.inside u).mp holds
          simp [Function.update_of_ne same, other, Ne.symm same]
    · have stays : (l.semaphore.move t .load).pc t ≠ .outside := by
        rw [SynchsSemaphore.move_pc_self]
        exact nofun
      rw [if_neg stays]
      exact ⟨owner, owned.move loaded nofun, Or.inl rfl⟩
  | add t =>
    obtain ⟨s, inner, rfl⟩ := Option.map_eq_some_iff.mp step
    have loaded := (owned.loaded.step inner).1
    obtain ⟨here, rfl⟩ := SynchsSemaphore.next_add.mp inner
    have mine := owned.releasing t here
    have count := owned.value
    subst mine
    refine ⟨none, owned.transfer (t := t) loaded rfl ?_ (fun u => ?_) (fun u other same => ?_), Or.inr (.release t)⟩
    · show u32 (l.semaphore.value + 1) = 1
      rw [count]
      rfl
    · by_cases same : u = t
      · subst same
        simp
      · have other : l.inside u ≠ true := fun holds => same (Option.some.inj ((owned.inside u).mp holds)).symm
        simp [Function.update_of_ne same, other]
    · exact other (Option.some.inj same).symm

theorem Owned.run (owned : l.Owned owner) (run : Relation.ReflTransGen Step l l') : ∃ owner', l'.Owned owner' := by
  induction run with
  | refl => exact ⟨owner, owned⟩
  | tail _ step ih =>
    obtain ⟨_, before⟩ := ih
    obtain ⟨event, step⟩ := step
    obtain ⟨owner', after, -⟩ := before.step step
    exact ⟨owner', after⟩

end SynchsLock

/-- Downs and ups are accounted for in every interleaving that does not overflow the value, and a
lock that only its holder releases has at most one holder. -/
theorem semaphore_and_lock_account {Thread : Type} [DecidableEq Thread] :
    (∀ (v : Nat) (s : SynchsSemaphore Thread), Relation.ReflTransGen SynchsSemaphore.Step (.init v) s →
      v + s.ups < 2 ^ 32 → s.value + s.downs = v + s.ups ∧
        ∀ t value newValue, s.pc t = .exchange value newValue → newValue + 1 = value) ∧
    ∀ l : SynchsLock Thread, Relation.ReflTransGen SynchsLock.Step .init l →
      (∀ t u, l.inside t = true → l.inside u = true → t = u) ∧ (l.semaphore.value = 0 ∨ l.semaphore.value = 1) := by
  constructor
  · intro v s run bound
    have loaded : (SynchsSemaphore.init v : SynchsSemaphore Thread).Loaded := .init (by omega)
    exact ⟨loaded.account rfl run bound, fun t value newValue here => ((loaded.run run).locals t value newValue here).1⟩
  · intro l run
    obtain ⟨owner, owned⟩ := SynchsLock.Owned.init.run run
    refine ⟨fun t u holds holds' => ?_, ?_⟩
    · have same := ((owned.inside t).mp holds).symm.trans ((owned.inside u).mp holds')
      exact Option.some.inj same
    · have count := owned.value
      split at count
      · exact Or.inr count
      · exact Or.inl count

/-- Two threads load the same value, one of them gets the slot and gives it back before the other
exchanges; at a lock only one of them gets in, and the other waits. -/
theorem semaphore_and_lock_account_sample :
    (∃ s : SynchsSemaphore Bool, Relation.ReflTransGen SynchsSemaphore.Step (.init 1) s ∧ s.downs = 2 ∧ s.ups = 1 ∧
      s.value + s.downs = 1 + s.ups) ∧
    ∃ l : SynchsLock Bool, Relation.ReflTransGen SynchsLock.Step .init l ∧ l.inside true = true ∧
      l.semaphore.pc false = .load ∧ l.inside false = false := by
  have run : Relation.ReflTransGen SynchsSemaphore.Step (SynchsSemaphore.init 1 : SynchsSemaphore Bool) _ :=
    .tail (.tail (.tail (.tail (.tail (.tail (.tail (.tail .refl
      ⟨.down true, rfl⟩) ⟨.down false, rfl⟩) ⟨.load true, rfl⟩) ⟨.load false, rfl⟩) ⟨.exchange true false, rfl⟩)
      ⟨.up true, rfl⟩) ⟨.add true, rfl⟩) ⟨.exchange false false, rfl⟩
  have entered : Relation.ReflTransGen SynchsLock.Step (SynchsLock.init : SynchsLock Bool) _ :=
    .tail (.tail (.tail (.tail (.tail (.tail .refl
      ⟨.down true, rfl⟩) ⟨.down false, rfl⟩) ⟨.load true, rfl⟩) ⟨.load false, rfl⟩) ⟨.exchange true false, rfl⟩)
      ⟨.exchange false false, rfl⟩
  refine ⟨⟨_, run, rfl, rfl, (semaphore_and_lock_account.1 1 _ run (by decide)).1⟩, _, entered, rfl, rfl, ?_⟩
  by_contra inside
  exact absurd ((semaphore_and_lock_account.2 _ entered).1 true false rfl (Bool.eq_true_of_not_eq_false inside)) (by decide)

end Swink
