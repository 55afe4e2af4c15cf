import Swink.Vm.Tables
import Mathlib.Logic.Function.Basic
import Mathlib.Order.Basic

namespace Swink

/-- The tables of an address space: the root, the second-level table of an L1 index, and the
third-level table of an L1 and L2 index taken together. -/
inductive Table
  | root
  | middle (i : Nat)
  | last (x : Nat)
  deriving DecidableEq

namespace Table

/-- The table that an entry of a first- or second-level table points to. -/
def child : Table → Nat → Table
  | root, k => middle k
  | middle i, k => last (i * 512 + k)
  | last x, _ => last x

def Inner : Table → Prop
  | last _ => False
  | _ => True

end Table

/-- The contents of the three levels of tables: `l1` by L1 index, `l2` by L1 and L2 index, `l3` by
page number. -/
@[ext] structure Space where
  l1 : Nat → BitVec 64
  l2 : Nat → BitVec 64
  l3 : Nat → BitVec 64

namespace Space
open Table

/-- The address space of a zero-filled root. -/
def empty : Space := ⟨fun _ => 0, fun _ => 0, fun _ => 0⟩

def entry (s : Space) : Table → Nat → BitVec 64
  | root, k => s.l1 k
  | middle i, k => s.l2 (i * 512 + k)
  | last x, k => s.l3 (x * 512 + k)

def setEntry (s : Space) : Table → Nat → BitVec 64 → Space
  | root, k, pte => { s with l1 := Function.update s.l1 k pte }
  | middle i, k, pte => { s with l2 := Function.update s.l2 (i * 512 + k) pte }
  | last x, k, pte => { s with l3 := Function.update s.l3 (x * 512 + k) pte }

/-- A table is there when the entries on the way to it are valid. -/
def Live (s : Space) : Table → Prop
  | root => True
  | middle i => i < 512 ∧ Valid (s.l1 i)
  | last x => x < 512 * 512 ∧ Valid (s.l1 (x / 512)) ∧ Valid (s.l2 x)

def address (base : Nat) (s : Space) : Table → Nat
  | root => base
  | middle i => pteToPhysAddr (s.l1 i)
  | last x => pteToPhysAddr (s.l2 x)

/-- The entries of missing tables are zero. -/
def Tidy (s : Space) : Prop := ∀ t, ¬s.Live t → ∀ k < 512, s.entry t k = 0

variable {s : Space} {t t' : Table} {k k' base : Nat} {pte : BitVec 64}

theorem entry_setEntry (lt : k < 512) (lt' : k' < 512) :
    (s.setEntry t k pte).entry t' k' = if t' = t ∧ k' = k then pte else s.entry t' k' := by
  cases t <;> cases t' <;> simp only [setEntry, entry, Function.update_apply, reduceCtorEq, false_and, if_false,
    true_and, middle.injEq, last.injEq]
  all_goals
    congr 1
    apply propext
    omega

/-- A fresh table entry adds the table it points to. -/
theorem live_setEntry (tidy : s.Tidy) (live : s.Live t) (inner : t.Inner) (lt : k < 512)
    (fresh : ¬Valid (s.entry t k)) (valid : Valid pte) (t' : Table) :
    (s.setEntry t k pte).Live t' ↔ s.Live t' ∨ t' = t.child k := by
  cases t with
  | last x => exact inner.elim
  | root =>
    cases t' with
    | root => exact iff_of_true trivial (Or.inl trivial)
    | middle i =>
      by_cases same : i = k
      · subst same
        exact iff_of_true ⟨lt, by simpa [setEntry] using valid⟩ (Or.inr rfl)
      · simp [Live, setEntry, child, same]
    | last x =>
      by_cases same : x / 512 = k
      · have gone : ¬Valid (s.l2 x) := by
          have zero := tidy (middle k) (fun l => fresh l.2) (x % 512) (Nat.mod_lt x (by decide))
          have number : k * 512 + x % 512 = x := by omega
          rw [entry, number] at zero
          rw [zero]
          exact not_valid_zero
        refine iff_of_false (fun l => gone l.2.2) ?_
        rintro (l | same)
        · exact gone l.2.2
        · cases same
      · simp [Live, setEntry, child, Function.update_of_ne same]
  | middle i =>
    cases t' with
    | root => exact iff_of_true trivial (Or.inl trivial)
    | middle j => simp [Live, setEntry, child]
    | last x =>
      by_cases same : x = i * 512 + k
      · subst same
        have index : (i * 512 + k) / 512 = i := by omega
        refine iff_of_true ⟨?_, ?_, by simpa [setEntry] using valid⟩ (Or.inr rfl)
        · have := live.1
          omega
        · rw [index]
          exact live.2
      · simp [Live, setEntry, child, same]

theorem address_setEntry (inner : t.Inner) (other : t' ≠ t.child k) :
    (s.setEntry t k pte).address base t' = s.address base t' := by
  cases t with
  | last x => exact inner.elim
  | root =>
    cases t' with
    | root => rfl
    | last x => rfl
    | middle i =>
      have different : i ≠ k := fun same => other (same ▸ rfl)
      simp only [address, setEntry, Function.update_of_ne different]
  | middle i =>
    cases t' with
    | root => rfl
    | middle j => rfl
    | last x =>
      have different : x ≠ i * 512 + k := fun same => other (same ▸ rfl)
      simp only [address, setEntry, Function.update_of_ne different]

theorem address_setEntry_child (inner : t.Inner) :
    (s.setEntry t k pte).address base (t.child k) = pteToPhysAddr pte := by
  cases t with
  | last x => exact inner.elim
  | root => simp only [child, address, setEntry, Function.update_self]
  | middle i => simp only [child, address, setEntry, Function.update_self]

theorem ne_child (inner : t.Inner) : t ≠ t.child k := by
  cases t with
  | last x => exact inner.elim
  | root => exact nofun
  | middle i => exact nofun

/-- The table an entry of a live table points to is there just if the entry is valid. -/
theorem live_child (live : s.Live t) (inner : t.Inner) (lt : k < 512) :
    s.Live (t.child k) ↔ Valid (s.entry t k) := by
  cases t with
  | last x => exact inner.elim
  | root => exact and_iff_right lt
  | middle i =>
    have index : (i * 512 + k) / 512 = i := by omega
    have bound : i * 512 + k < 512 * 512 := by
      have := live.1
      omega
    simp only [Live, child, entry, index]
    exact ⟨fun l => l.2.2, fun valid => ⟨bound, live.2, valid⟩⟩

theorem address_child (inner : t.Inner) : s.address base (t.child k) = pteToPhysAddr (s.entry t k) := by
  cases t with
  | last x => exact inner.elim
  | root => rfl
  | middle i => rfl

/-- Writing an entry of a last-level table moves no table. -/
theorem live_setLast (x : Nat) : (s.setEntry (last x) k pte).Live t' ↔ s.Live t' := by
  cases t' <;> exact Iff.rfl

theorem address_setLast (x : Nat) : (s.setEntry (last x) k pte).address base t' = s.address base t' := by
  cases t' <;> rfl

end Space

/-- The memory holds the tables of an address space, on pages of their own between `lower` and the
arena pointer. -/
structure Holds (base lower ap : Nat) (s : Space) (mem : Mem) : Prop where
  entries : ∀ t, s.Live t → ∀ k < 512, mem.load64 (s.address base t + k * 8) = s.entry t k
  inside : ∀ t, s.Live t → lower ≤ s.address base t ∧ s.address base t + 4096 ≤ ap ∧ 4096 ∣ s.address base t
  distinct : ∀ t t', s.Live t → s.Live t' → s.address base t = s.address base t' → t = t'
  tables : ∀ t k, s.Live t → t.Inner → k < 512 → Valid (s.entry t k) → IsTable (s.entry t k)
  tidy : s.Tidy

namespace Holds
open Table Mem
variable {base lower ap : Nat} {s : Space} {mem : Mem} {t t' : Table} {k k' : Nat} {pte : BitVec 64}

/-- Entries of different tables, or different entries of one table, do not overlap. -/
theorem entries_apart (holds : Holds base lower ap s mem) (live : s.Live t) (live' : s.Live t') (lt : k < 512)
    (lt' : k' < 512) (different : ¬(t' = t ∧ k' = k)) :
    s.address base t' + k' * 8 + 8 ≤ s.address base t + k * 8 ∨
      s.address base t + k * 8 + 8 ≤ s.address base t' + k' * 8 := by
  obtain ⟨-, -, a, aligned⟩ := holds.inside t live
  obtain ⟨-, -, a', aligned'⟩ := holds.inside t' live'
  by_cases same : t' = t
  · subst same
    have : k' ≠ k := fun eq => different ⟨rfl, eq⟩
    omega
  · have apart : s.address base t' ≠ s.address base t := fun eq => same (holds.distinct _ _ live' live eq)
    rw [aligned, aligned'] at apart ⊢
    omega

/-- Writing a page entry. -/
theorem setLast (holds : Holds base lower ap s mem) {x : Nat} (live : s.Live (last x)) (lt : k < 512)
    (pte : BitVec 64) :
    Holds base lower ap (s.setEntry (last x) k pte) (mem.store64 (s.address base (last x) + k * 8) pte) where
  entries t' live' k' lt' := by
    rw [Space.live_setLast] at live'
    rw [Space.address_setLast, Space.entry_setEntry lt lt']
    split
    · rename_i same
      obtain ⟨rfl, rfl⟩ := same
      exact load64_store64 ..
    · rename_i different
      rw [load64_store64_of_apart (holds.entries_apart live live' lt lt' different)]
      exact holds.entries t' live' k' lt'
  inside t' live' := by
    rw [Space.address_setLast]
    exact holds.inside t' ((Space.live_setLast x).mp live')
  distinct t₁ t₂ live₁ live₂ same := by
    rw [Space.address_setLast, Space.address_setLast] at same
    exact holds.distinct t₁ t₂ ((Space.live_setLast x).mp live₁) ((Space.live_setLast x).mp live₂) same
  tables t' k' live' inner lt' valid := by
    have other : ¬(t' = last x ∧ k' = k) := by
      rintro ⟨rfl, -⟩
      exact inner
    rw [Space.entry_setEntry lt lt', if_neg other] at valid ⊢
    exact holds.tables t' k' ((Space.live_setLast x).mp live') inner lt' valid
  tidy t' gone k' lt' := by
    rw [Space.live_setLast] at gone
    have other : ¬(t' = last x ∧ k' = k) := by
      rintro ⟨rfl, -⟩
      exact gone live
    rw [Space.entry_setEntry lt lt', if_neg other]
    exact holds.tidy t' gone k' lt'

/-- Linking a zero-filled page from the arena as a new table. -/
theorem link (holds : Holds base lower ap s mem) (live : s.Live t) (inner : t.Inner) (lt : k < 512)
    (fresh : ¬Valid (s.entry t k)) (valid : Valid pte) (table : IsTable pte) (target : pteToPhysAddr pte = ap)
    (aligned : 4096 ∣ ap) :
    Holds base lower (ap + 4096) (s.setEntry t k pte)
      ((mem.memset ap 0 4096).store64 (s.address base t + k * 8) pte) := by
  have alive := Space.live_setEntry holds.tidy live inner lt fresh valid
  have childGone : ¬s.Live (t.child k) := fun l => fresh ((Space.live_child live inner lt).mp l)
  have place := holds.inside t live
  have childAddress : (s.setEntry t k pte).address base (t.child k) = ap := by
    rw [Space.address_setEntry_child inner, target]
  have keeps {t' : Table} (live' : s.Live t') : (s.setEntry t k pte).address base t' = s.address base t' :=
    Space.address_setEntry inner fun same => childGone (same ▸ live')
  have baseLe : lower ≤ ap := by omega
  refine ⟨fun t' live' k' lt' => ?_, fun t' live' => ?_, fun t₁ t₂ live₁ live₂ same => ?_,
    fun t' k' live' inner' lt' valid' => ?_, fun t' gone k' lt' => ?_⟩
  · rw [Space.entry_setEntry lt lt']
    rcases (alive t').mp live' with old | rfl
    · have place' := holds.inside t' old
      rw [keeps old]
      split
      · rename_i same
        obtain ⟨rfl, rfl⟩ := same
        exact load64_store64 ..
      · rename_i different
        have untouched : Agree (s.address base t' + k' * 8) (s.address base t' + k' * 8 + 8) mem
            (mem.memset ap 0 4096) :=
          agree_memset (by omega)
        rw [load64_store64_of_apart (holds.entries_apart live old lt lt' different), untouched.load64 le_rfl le_rfl]
        exact holds.entries t' old k' lt'
    · have other : ¬(t.child k = t ∧ k' = k) := fun same => Space.ne_child inner same.1.symm
      rw [if_neg other, childAddress, load64_store64_of_apart (by omega), load64_memset_zero (by omega) (by omega)]
      exact (holds.tidy _ childGone k' lt').symm
  · rcases (alive t').mp live' with old | rfl
    · have place' := holds.inside t' old
      rw [keeps old]
      omega
    · rw [childAddress]
      omega
  · rcases (alive t₁).mp live₁ with old₁ | rfl
    · rcases (alive t₂).mp live₂ with old₂ | rfl
      · rw [keeps old₁, keeps old₂] at same
        exact holds.distinct t₁ t₂ old₁ old₂ same
      · have := holds.inside t₁ old₁
        rw [keeps old₁, childAddress] at same
        omega
    · rcases (alive t₂).mp live₂ with old₂ | rfl
      · have := holds.inside t₂ old₂
        rw [keeps old₂, childAddress] at same
        omega
      · rfl
  · rw [Space.entry_setEntry lt lt'] at valid' ⊢
    split
    · exact table
    · rename_i different
      rw [if_neg different] at valid'
      rcases (alive t').mp live' with old | rfl
      · exact holds.tables t' k' old inner' lt' valid'
      · rw [holds.tidy _ childGone k' lt'] at valid'
        exact absurd valid' not_valid_zero
  · have other : ¬(t' = t ∧ k' = k) := by
      rintro ⟨rfl, -⟩
      exact gone ((alive t').mpr (Or.inl live))
    rw [Space.entry_setEntry lt lt', if_neg other]
    exact holds.tidy t' (fun l => gone ((alive t').mpr (Or.inl l))) k' lt'

end Holds

end Swink
