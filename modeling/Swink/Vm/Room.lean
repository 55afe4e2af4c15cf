import Swink.Vm.Map

namespace Swink
open Table

variable {base lower n : Nat} {pages pages' : Set Nat} {s s' : Space} {a a' : Arena} {t : Table}

/-- The tables on the way to the given pages that are not there yet. -/
def Space.missing (s : Space) (pages : Set Nat) : Set Table := {t | OnTheWay pages t ∧ ¬s.Live t}

theorem onTheWay_subset (pages : Set Nat) :
    {t | OnTheWay pages t} ⊆ (fun n => middle (n / 512 / 512)) '' pages ∪ (fun n => last (n / 512)) '' pages := by
  rintro t ⟨n, member, rfl | rfl⟩
  · exact Or.inl ⟨n, member, rfl⟩
  · exact Or.inr ⟨n, member, rfl⟩

theorem onTheWay_finite (finite : pages.Finite) : {t | OnTheWay pages t}.Finite :=
  ((finite.image _).union (finite.image _)).subset (onTheWay_subset pages)

theorem OnTheWay.mono (way : OnTheWay pages t) (subset : pages ⊆ pages') : OnTheWay pages' t := by
  obtain ⟨n, member, way⟩ := way
  exact ⟨n, subset member, way⟩

/-- A page needs two tables at most. -/
theorem ncard_onTheWay_le (finite : pages.Finite) : {t | OnTheWay pages t}.ncard ≤ 2 * pages.ncard := by
  have both := (finite.image fun n => middle (n / 512 / 512)).union (finite.image fun n => last (n / 512))
  have middles := Set.ncard_image_le (f := fun n => middle (n / 512 / 512)) finite
  have lasts := Set.ncard_image_le (f := fun n => last (n / 512)) finite
  have union := (Set.ncard_le_ncard (onTheWay_subset pages) both).trans (Set.ncard_union_le ..)
  omega

theorem Space.missing_finite (s : Space) (finite : pages.Finite) : (s.missing pages).Finite :=
  (onTheWay_finite finite).subset fun _ => And.left

/-- The arena pays for the tables that are new. -/
theorem Grows.allocationPtr_eq (grows : Grows base lower pages s a s' a') :
    a'.allocationPtr = a.allocationPtr + 4096 * (s'.tables \ s.tables).ncard := by
  have kept : s.tables ⊆ s'.tables := fun t live => (grows.kept t live).1
  have difference := Set.ncard_sdiff_add_ncard_of_subset kept s'.tables_finite
  have counted := grows.counted
  rw [Space.ncard_tables, Space.ncard_tables] at difference
  omega

theorem Grows.new_subset (grows : Grows base lower pages s a s' a') : s'.tables \ s.tables ⊆ s.missing pages :=
  fun t new => ⟨(grows.fresh t new.1).resolve_left new.2, new.2⟩

theorem Grows.allocationPtr_le (grows : Grows base lower pages s a s' a') (finite : pages.Finite) :
    a'.allocationPtr ≤ a.allocationPtr + 8192 * pages.ncard := by
  have onTheWay : s'.tables \ s.tables ⊆ {t | OnTheWay pages t} := fun t new => (grows.new_subset new).1
  have bound := (Set.ncard_le_ncard onTheWay (onTheWay_finite finite)).trans (ncard_onTheWay_le finite)
  have := grows.allocationPtr_eq
  omega

/-- The arena stays in the physical addresses that an entry can hold, whatever tables the pages need. -/
def Room (pages : Set Nat) (s : Space) (a : Arena) : Prop :=
  a.allocationPtr + 4096 * (s.missing pages).ncard ≤ 2 ^ 47

theorem Room.of_le (finite : pages.Finite) (le : a.allocationPtr + 8192 * pages.ncard ≤ 2 ^ 47) : Room pages s a := by
  have subset : s.missing pages ⊆ {t | OnTheWay pages t} := fun _ => And.left
  have bound := (Set.ncard_le_ncard subset (onTheWay_finite finite)).trans (ncard_onTheWay_le finite)
  unfold Room
  omega

theorem Room.mono (room : Room pages' s a) (finite : pages'.Finite) (subset : pages ⊆ pages') : Room pages s a := by
  have fewer : s.missing pages ⊆ s.missing pages' := fun t needed => ⟨needed.1.mono subset, needed.2⟩
  have le := Set.ncard_le_ncard fewer (s.missing_finite finite)
  unfold Room at room ⊢
  omega

/-- There is room for a table that is needed. -/
theorem Room.next (room : Room pages s a) (finite : pages.Finite) (way : OnTheWay pages t) (gone : ¬s.Live t) :
    a.allocationPtr + 4096 ≤ 2 ^ 47 := by
  have some : 0 < (s.missing pages).ncard := (Set.ncard_pos (s.missing_finite finite)).mpr ⟨t, way, gone⟩
  unfold Room at room
  omega

/-- What the new tables take was set aside for them. -/
theorem Room.grows (room : Room pages s a) (finite : pages.Finite) (grows : Grows base lower pages s a s' a') :
    Room pages s' a' := by
  have before : s'.missing pages ∪ (s'.tables \ s.tables) ⊆ s.missing pages := by
    rintro t (needed | new)
    · exact ⟨needed.1, fun live => needed.2 (grows.kept t live).1⟩
    · exact grows.new_subset new
  have apart : Disjoint (s'.missing pages) (s'.tables \ s.tables) :=
    Set.disjoint_left.mpr fun t needed new => needed.2 new.1
  have total := Set.ncard_union_eq apart (s'.missing_finite finite) (s'.tables_finite.subset Set.sdiff_subset)
  have le := Set.ncard_le_ncard before (s.missing_finite finite)
  have := grows.allocationPtr_eq
  unfold Room at room ⊢
  omega

end Swink
