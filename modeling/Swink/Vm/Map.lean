import Swink.Vm.Space
import Mathlib.Data.Set.Card
import Mathlib.Data.Finset.Range

namespace Swink
open Table Mem

/-- Every table is entered through the template for kernel tables. -/
def Space.KernTables (s : Space) : Prop :=
  ∀ t k, s.Live t → t.Inner → k < 512 → Valid (s.entry t k) → ∃ oa, s.entry t k = pteOf pteTemplateTableKernOnly oa

open Classical in
/-- Number of second- and third-level tables. -/
noncomputable def Space.count (s : Space) : Nat :=
  ((Finset.range 512).filter fun i => s.Live (middle i)).card +
    ((Finset.range (512 * 512)).filter fun x => s.Live (last x)).card

/-- The tables on the way to the pages of a set. -/
def OnTheWay (pages : Set Nat) (t : Table) : Prop :=
  ∃ n ∈ pages, t = middle (n / 512 / 512) ∨ t = last (n / 512)

/-- The tables grow by tables on the way to the given pages, out of the arena and nothing else. -/
structure Grows (base lower : Nat) (pages : Set Nat) (s : Space) (a : Arena) (s' : Space) (a' : Arena) : Prop where
  holds : Holds base lower a'.allocationPtr s' a'.mem
  aligned : 4096 ∣ a'.allocationPtr
  le : a.allocationPtr ≤ a'.allocationPtr
  kept : ∀ t, s.Live t → s'.Live t ∧ s'.address base t = s.address base t
  linked : ∀ t k, s.Live t → t.Inner → k < 512 → Valid (s.entry t k) → s'.entry t k = s.entry t k
  fresh : ∀ t, s'.Live t → s.Live t ∨ OnTheWay pages t
  kern : s.KernTables → s'.KernTables
  counted : a'.allocationPtr + 4096 * s.count = a.allocationPtr + 4096 * s'.count
  frame : ∀ x, x < lower ∨ a'.allocationPtr ≤ x → a'.mem x = a.mem x

variable {base lower : Nat} {pages pages' : Set Nat} {s s' s'' : Space} {a a' a'' : Arena} {t : Table} {k : Nat}

theorem Grows.refl (holds : Holds base lower a.allocationPtr s a.mem) (aligned : 4096 ∣ a.allocationPtr) :
    Grows base lower pages s a s a :=
  ⟨holds, aligned, le_rfl, fun _ live => ⟨live, rfl⟩, fun _ _ _ _ _ _ => rfl, fun _ live => Or.inl live, id, rfl,
    fun _ _ => rfl⟩

theorem Grows.trans (first : Grows base lower pages s a s' a') (second : Grows base lower pages s' a' s'' a'') :
    Grows base lower pages s a s'' a'' where
  holds := second.holds
  aligned := second.aligned
  le := first.le.trans second.le
  kept t live := by
    obtain ⟨live', same⟩ := first.kept t live
    obtain ⟨live'', same'⟩ := second.kept t live'
    exact ⟨live'', same'.trans same⟩
  linked t k live inner lt valid := by
    have same := first.linked t k live inner lt valid
    rw [second.linked t k (first.kept t live).1 inner lt (same ▸ valid), same]
  fresh t live := (second.fresh t live).elim (first.fresh t) Or.inr
  kern tables := second.kern (first.kern tables)
  counted := by
    have := first.counted
    have := second.counted
    omega
  frame x outside := by
    have := second.le
    rw [second.frame x outside, first.frame x (by omega)]

theorem Grows.mono (grows : Grows base lower pages s a s' a') (subset : pages ⊆ pages') :
    Grows base lower pages' s a s' a' :=
  { grows with fresh := fun t live => (grows.fresh t live).imp_right fun ⟨n, member, way⟩ => ⟨n, subset member, way⟩ }

theorem kernTableOnly_isTable : IsTable pteTemplateTableKernOnly := by decide

/-- The tables of an address space. -/
def Space.tables (s : Space) : Set Table := {t | s.Live t}

theorem Space.tables_eq (s : Space) : s.tables =
    insert root (middle '' {i | i < 512 ∧ s.Live (middle i)} ∪ last '' {x | x < 512 * 512 ∧ s.Live (last x)}) := by
  ext t
  cases t with
  | root => exact iff_of_true trivial (Set.mem_insert ..)
  | middle i => simpa [Space.tables] using fun live : s.Live (middle i) => live.1
  | last x => simpa [Space.tables] using fun live : s.Live (last x) => live.1

theorem Space.tables_finite (s : Space) : s.tables.Finite := by
  rw [Space.tables_eq]
  have middles : {i | i < 512 ∧ s.Live (middle i)}.Finite := (Set.finite_lt_nat 512).subset fun i => And.left
  have lasts : {x | x < 512 * 512 ∧ s.Live (last x)}.Finite := (Set.finite_lt_nat (512 * 512)).subset fun x => And.left
  exact ((middles.image _).union (lasts.image _)).insert root

/-- The count leaves out the root. -/
theorem Space.ncard_tables (s : Space) : s.tables.ncard = s.count + 1 := by
  classical
  have middles : {i | i < 512 ∧ s.Live (middle i)} = ↑((Finset.range 512).filter fun i => s.Live (middle i)) := by
    ext i
    simp
  have lasts : {x | x < 512 * 512 ∧ s.Live (last x)} =
      ↑((Finset.range (512 * 512)).filter fun x => s.Live (last x)) := by
    ext x
    simp
  have apart : Disjoint (middle '' {i | i < 512 ∧ s.Live (middle i)})
      (last '' {x | x < 512 * 512 ∧ s.Live (last x)}) := by
    rw [Set.disjoint_left]
    rintro _ ⟨i, -, rfl⟩ ⟨x, -, same⟩
    cases same
  have finite := s.tables_finite
  rw [Space.tables_eq] at finite ⊢
  have finite := finite.subset (Set.subset_insert ..)
  rw [Set.ncard_insert_of_notMem (by simp) finite,
    Set.ncard_union_eq apart (finite.subset Set.subset_union_left) (finite.subset Set.subset_union_right),
    Set.ncard_image_of_injective _ fun _ _ => middle.inj, Set.ncard_image_of_injective _ fun _ _ => last.inj,
    middles, lasts, Set.ncard_coe_finset, Set.ncard_coe_finset, Space.count]

/-- A new table is one table more. -/
theorem Space.count_setEntry (tidy : s.Tidy) (live : s.Live t) (inner : t.Inner) (lt : k < 512)
    (fresh : ¬Valid (s.entry t k)) {pte : BitVec 64} (valid : Valid pte) :
    (s.setEntry t k pte).count = s.count + 1 := by
  have gone : t.child k ∉ s.tables := fun l => fresh ((Space.live_child live inner lt).mp l)
  have tables : (s.setEntry t k pte).tables = insert (t.child k) s.tables := by
    ext t'
    exact (Space.live_setEntry tidy live inner lt fresh valid t').trans or_comm
  have size := (s.setEntry t k pte).ncard_tables
  rw [tables, Set.ncard_insert_of_notMem gone s.tables_finite, Space.ncard_tables] at size
  omega

/-- A lookup returns the table the entry points to, and links a zero-filled one if there is none. -/
theorem tableLookupAllocating_spec (holds : Holds base lower a.allocationPtr s a.mem) (aligned : 4096 ∣ a.allocationPtr)
    (room : ¬s.Live (t.child k) → a.allocationPtr + 4096 ≤ 2 ^ 47) (live : s.Live t) (inner : t.Inner) (lt : k < 512)
    (way : OnTheWay pages (t.child k)) :
    ∃ s' a', tableLookupAllocating (s.address base t) k pteTemplateTableKernOnly a = (s'.address base (t.child k), a') ∧
      Grows base lower pages s a s' a' ∧ s'.Live (t.child k) ∧ s'.l3 = s.l3 := by
  have entry := holds.entries t live k lt
  by_cases valid : Valid (s.entry t k)
  · refine ⟨s, a, ?_, .refl holds aligned, (Space.live_child live inner lt).mpr valid, rfl⟩
    have child := (Space.live_child live inner lt).mpr valid
    have place := holds.inside _ child
    rw [Space.address_child inner] at place
    have found : pteToPhysAddr (s.entry t k) ≠ physAddrInvalid := by
      unfold physAddrInvalid
      omega
    simp only [tableLookupAllocating, entry, if_pos found, Space.address_child inner]
  · have gone : ¬s.Live (t.child k) := fun l => valid ((Space.live_child live inner lt).mp l)
    have room := room gone
    have invalid : pteToPhysAddr (s.entry t k) = physAddrInvalid := if_pos valid
    have next : u64 (a.allocationPtr + pageSize) = a.allocationPtr + 4096 := by
      rw [pageSize_eq, u64_of_lt (by omega)]
    have target := template_tableKernOnly.pteToPhysAddr_pteOf _ aligned (show a.allocationPtr < 2 ^ 47 by omega)
    have isValid := template_tableKernOnly.pteOf_valid a.allocationPtr
    have linked := holds.link live inner lt valid isValid (Template.pteOf_table kernTableOnly_isTable _) target aligned
    have alive := Space.live_setEntry holds.tidy live inner lt valid isValid
    refine ⟨s.setEntry t k (pteOf pteTemplateTableKernOnly a.allocationPtr), ⟨a.allocationPtr + 4096, _⟩, ?_,
      ⟨linked, Nat.dvd_add aligned (dvd_refl _), Nat.le_add_right .., fun t' old => ⟨(alive t').mpr (Or.inl old), ?_⟩,
        fun t' k' old inner' lt' valid' => ?_, fun t' l => ?_, fun tables t' k' l inner' lt' valid' => ?_, ?_,
        fun x outside => ?_⟩,
      (alive _).mpr (Or.inr rfl), ?_⟩
    · simp only [tableLookupAllocating, entry, invalid, ne_eq, not_true_eq_false, if_false, allocationPtrPageAlloc,
        next, Space.address_setEntry_child inner, target]
      rfl
    · exact Space.address_setEntry inner fun same => gone (same ▸ old)
    · rw [Space.entry_setEntry lt lt']
      refine if_neg ?_
      rintro ⟨rfl, rfl⟩
      exact valid valid'
    · rcases (alive t').mp l with old | rfl
      · exact Or.inl old
      · exact Or.inr way
    · rw [Space.entry_setEntry lt lt'] at valid' ⊢
      split
      · exact ⟨_, rfl⟩
      · rename_i different
        rw [if_neg different] at valid'
        rcases (alive t').mp l with old | rfl
        · exact tables t' k' old inner' lt' valid'
        · rw [holds.tidy _ gone k' lt'] at valid'
          exact absurd valid' not_valid_zero
    · show a.allocationPtr + 4096 + 4096 * s.count = _
      rw [Space.count_setEntry holds.tidy live inner lt valid isValid]
      omega
    · have place := holds.inside t live
      have outside : x < lower ∨ a.allocationPtr + 4096 ≤ x := outside
      show (Mem.store64 _ _ _) x = _
      rw [store64_of_outside (by omega), memset_of_outside (by omega)]
    · cases t with
      | last x => exact inner.elim
      | root => rfl
      | middle i => rfl

end Swink
