import Swink.Vm.Room
import Mathlib.Order.Interval.Set.Nat

namespace Swink
open Table Mem

/-- A cached table pointer is either unknown or right. -/
def Cached (base : Nat) (s : Space) (t : Table) (cache : Nat) : Prop :=
  cache = physAddrInvalid ∨ s.Live t ∧ cache = s.address base t

variable {base lower cache oa n : Nat} {pages : Set Nat} {s s' : Space} {a a' : Arena} {t : Table} {k : Nat}
  {template : BitVec 64}

theorem Cached.mono (cached : Cached base s t cache) (grows : Grows base lower pages s a s' a') :
    Cached base s' t cache := by
  rcases cached with unknown | ⟨live, rfl⟩
  · exact Or.inl unknown
  · obtain ⟨live', same⟩ := grows.kept t live
    exact Or.inr ⟨live', same.symm⟩

/-- Writing a page entry keeps all tables. -/
theorem Grows.setLast (holds : Holds base lower a.allocationPtr s a.mem) (aligned : 4096 ∣ a.allocationPtr)
    {x : Nat} (live : s.Live (last x)) (lt : k < 512) (pte : BitVec 64) :
    Grows base lower pages s a (s.setEntry (last x) k pte)
      ⟨a.allocationPtr, a.mem.store64 (s.address base (last x) + k * 8) pte⟩ where
  holds := holds.setLast live lt pte
  aligned := aligned
  le := le_rfl
  kept t alive := ⟨(Space.live_setLast x).mpr alive, Space.address_setLast x⟩
  linked t k' alive inner lt' valid := by
    rw [Space.entry_setEntry lt lt']
    refine if_neg ?_
    rintro ⟨rfl, -⟩
    exact inner
  fresh t alive := Or.inl ((Space.live_setLast x).mp alive)
  kern tables t k' alive inner lt' valid := by
    have other : ¬(t = last x ∧ k' = k) := by
      rintro ⟨rfl, -⟩
      exact inner
    rw [Space.entry_setEntry lt lt', if_neg other] at valid ⊢
    exact tables t k' ((Space.live_setLast x).mp alive) inner lt' valid
  counted := rfl
  frame y outside := by
    have place := holds.inside _ live
    have outside : y < lower ∨ a.allocationPtr ≤ y := outside
    exact store64_of_outside (by omega)

/-- A table pointer that is looked up unless it is cached. -/
theorem cachedLookup_spec (holds : Holds base lower a.allocationPtr s a.mem) (aligned : 4096 ∣ a.allocationPtr)
    (room : ¬s.Live (t.child k) → a.allocationPtr + 4096 ≤ 2 ^ 47) (live : s.Live t) (inner : t.Inner) (lt : k < 512)
    (way : OnTheWay pages (t.child k)) (cached : Cached base s (t.child k) cache) :
    ∃ s' a', (if cache = physAddrInvalid then tableLookupAllocating (s.address base t) k pteTemplateTableKernOnly a
        else (cache, a)) = (s'.address base (t.child k), a') ∧
      Grows base lower pages s a s' a' ∧ s'.Live (t.child k) ∧ s'.l3 = s.l3 := by
  by_cases unknown : cache = physAddrInvalid
  · rw [if_pos unknown]
    exact tableLookupAllocating_spec holds aligned room live inner lt way
  · obtain ⟨alive, rfl⟩ := cached.resolve_left unknown
    exact ⟨s, a, if_neg unknown, .refl holds aligned, alive, rfl⟩

/-- The two lookups complete the chain of tables to the entry of a page. -/
theorem pageTables_spec (holds : Holds base lower a.allocationPtr s a.mem) (aligned : 4096 ∣ a.allocationPtr)
    (room : Room {n} s a) (bound : n < 512 * 512 * 512) {l2 l3 : Nat}
    (cached₂ : Cached base s (middle (n / 512 / 512)) l2) (cached₃ : Cached base s (last (n / 512)) l3) :
    ∃ s' a', pageTables base l2 l3 (n / 512 / 512) (n / 512 % 512) a =
        (s'.address base (middle (n / 512 / 512)), s'.address base (last (n / 512)), a') ∧
      Grows base lower {n} s a s' a' ∧ s'.Live (last (n / 512)) ∧ s'.l3 = s.l3 := by
  have split : n / 512 / 512 * 512 + n / 512 % 512 = n / 512 := by omega
  have isMiddle : root.child (n / 512 / 512) = middle (n / 512 / 512) := rfl
  have isLast : (middle (n / 512 / 512)).child (n / 512 % 512) = last (n / 512) := congrArg last split
  have way₂ : OnTheWay {n} (root.child (n / 512 / 512)) := ⟨n, Set.mem_singleton n, Or.inl isMiddle⟩
  have way₃ : OnTheWay {n} ((middle (n / 512 / 512)).child (n / 512 % 512)) :=
    ⟨n, Set.mem_singleton n, Or.inr isLast⟩
  have finite := Set.finite_singleton n
  obtain ⟨s₂, a₂, found₂, grows₂, live₂, same₂⟩ := cachedLookup_spec (t := root) holds aligned
    (room.next finite way₂) trivial trivial (by omega) way₂ cached₂
  rw [isMiddle] at found₂ live₂
  obtain ⟨s₃, a₃, found₃, grows₃, live₃, same₃⟩ := cachedLookup_spec grows₂.holds grows₂.aligned
    ((room.grows finite grows₂).next finite way₃) live₂ trivial (Nat.mod_lt _ (by decide)) way₃
    (isLast ▸ cached₃.mono grows₂)
  rw [isLast] at found₃ live₃
  refine ⟨s₃, a₃, ?_, grows₂.trans grows₃, live₃, same₃.trans same₂⟩
  rw [(grows₃.kept _ live₂).2, pageTables]
  dsimp only
  rw [show (if l2 = physAddrInvalid then tableLookupAllocating base (n / 512 / 512) pteTemplateTableKernOnly a
    else (l2, a)) = _ from found₂]
  dsimp only
  rw [show (if l3 = physAddrInvalid then tableLookupAllocating (s₂.address base (middle (n / 512 / 512)))
    (n / 512 % 512) pteTemplateTableKernOnly a₂ else (l3, a₂)) = _ from found₃]

theorem Space.live_middle {x : Nat} (live : s.Live (last x)) : s.Live (middle (x / 512)) :=
  ⟨Nat.div_lt_of_lt_mul live.1, live.2.1⟩

/-- A valid entry is in a table that is there. -/
theorem Holds.live_of_valid {mem : Mem} {ap : Nat} (holds : Holds base lower ap s mem) (valid : Valid (s.l3 n)) :
    s.Live (last (n / 512)) := by
  by_contra gone
  have zero := holds.tidy _ gone (n % 512) (Nat.mod_lt n (by decide))
  rw [Space.entry, Nat.div_add_mod' n 512] at zero
  rw [zero] at valid
  exact not_valid_zero valid

/-- Nothing is new on the way to a page whose tables are there. -/
theorem Grows.of_live (grows : Grows base lower {n} s a s' a') (live : s.Live (last (n / 512))) :
    Grows base lower ∅ s a s' a' := by
  refine { grows with fresh := fun t alive => Or.inl ?_ }
  rcases grows.fresh t alive with old | ⟨m, same, way⟩
  · exact old
  · obtain rfl := Set.mem_singleton_iff.mp same
    rcases way with rfl | rfl
    · exact Space.live_middle live
    · exact live

/-- The pages from `first` up to `limit` are mapped to `phys`, nothing else is. -/
structure Mapped (base lower first limit : Nat) (phys : Nat → Nat) (template : BitVec 64) (s : Space) (a : Arena)
    (s' : Space) (a' : Arena) : Prop where
  grows : Grows base lower (Set.Ico first limit) s a s' a'
  live : ∀ n, first ≤ n → n < limit → s'.Live (last (n / 512))
  leaves : ∀ n, s'.l3 n = if first ≤ n ∧ n < limit then pteOf template (phys n) else s.l3 n

/-- A page and then those that follow it. -/
theorem Mapped.cons {limit : Nat} {phys : Nat → Nat} {s₁ : Space} {a₁ : Arena}
    (grows : Grows base lower {n} s a s₁ a₁) (live : s₁.Live (last (n / 512)))
    (leaves : s₁.l3 = Function.update s.l3 n (pteOf template (phys n))) (here : n < limit)
    (rest : Mapped base lower (n + 1) limit phys template s₁ a₁ s' a') :
    Mapped base lower n limit phys template s a s' a' where
  grows := by
    refine (grows.mono fun m same => ?_).trans (rest.grows.mono fun m inside => ?_)
    · obtain rfl := Set.mem_singleton_iff.mp same
      exact ⟨le_rfl, here⟩
    · exact ⟨Nat.le_of_succ_le inside.1, inside.2⟩
  live m above below := by
    rcases Nat.eq_or_lt_of_le above with rfl | after
    · exact (rest.grows.kept _ live).1
    · exact rest.live m after below
  leaves m := by
    rw [rest.leaves]
    by_cases same : m = n
    · subst same
      rw [if_neg (by omega), if_pos ⟨le_rfl, here⟩, leaves, Function.update_self]
    · rw [leaves, Function.update_of_ne same]
      congr 1
      apply propext
      omega

/-- The indices that the loop keeps are those of the page it is at. -/
theorem indices_eq {l1I l2I l3I : Nat} (lt₂ : l2I < 512) (lt₃ : l3I < 512)
    (position : (l1I * 512 + l2I) * 512 + l3I = n) :
    l1I = n / 512 / 512 ∧ l2I = n / 512 % 512 ∧ l3I = n % 512 ∧ l1I * 512 + l2I = n / 512 := by
  omega

/-- How far a run gets: to the end of the range, or to a panic at an entry in use or at the end of the
last table. -/
def Stopped (limit reached : Nat) (s : Space) : Option Fault → Prop
  | none => reached = limit
  | some fault => (∃ message, fault = .panic message) ∧ reached < limit ∧
      (reached = 512 * 512 * 512 ∨ Valid (s.l3 reached))

/-- A run of the loop from page `first` on maps free entries up to where it stops. -/
structure Ran (base lower first limit reached : Nat) (phys : Nat → Nat) (template : BitVec 64) (s : Space) (a : Arena)
    (s' : Space) (run : Option Fault × Arena) : Prop where
  mapped : Mapped base lower first reached phys template s a s' run.2
  le : first ≤ reached
  inside : reached ≤ 512 * 512 * 512
  free : ∀ m, first ≤ m → m < reached → ¬Valid (s.l3 m)
  stopped : Stopped limit reached s run.1

theorem Stopped.of_eq {limit reached : Nat} {fault : Option Fault} (stopped : Stopped limit reached s' fault)
    (same : s'.l3 reached = s.l3 reached) : Stopped limit reached s fault := by
  cases fault with
  | none => exact stopped
  | some fault => exact ⟨stopped.1, stopped.2.1, stopped.2.2.imp_right fun valid => same ▸ valid⟩

/-- A page and then those that follow it. -/
theorem Ran.cons {limit reached : Nat} {phys : Nat → Nat} {s₁ : Space} {a₁ : Arena} {run : Option Fault × Arena}
    (grows : Grows base lower {n} s a s₁ a₁) (live : s₁.Live (last (n / 512)))
    (leaves : s₁.l3 = Function.update s.l3 n (pteOf template (phys n))) (unmapped : ¬Valid (s.l3 n))
    (rest : Ran base lower (n + 1) limit reached phys template s₁ a₁ s' run) :
    Ran base lower n limit reached phys template s a s' run where
  mapped := .cons grows live leaves rest.le rest.mapped
  le := Nat.le_of_succ_le rest.le
  inside := rest.inside
  free m above below := by
    rcases Nat.eq_or_lt_of_le above with rfl | after
    · exact unmapped
    · have free := rest.free m after below
      rwa [leaves, Function.update_of_ne (by omega)] at free
  stopped := by
    have := rest.le
    exact rest.stopped.of_eq (by rw [leaves, Function.update_of_ne (by omega)])

/-- A run that stops before it maps a page. -/
theorem Ran.stop {limit : Nat} {phys : Nat → Nat} {run : Option Fault × Arena} (grows : Grows base lower ∅ s a s' run.2)
    (leaves : s'.l3 = s.l3) (inside : n ≤ 512 * 512 * 512) (stopped : Stopped limit n s run.1) :
    Ran base lower n limit n phys template s a s' run where
  mapped := ⟨grows.mono (Set.empty_subset _), fun m _ _ => by omega, fun m => by rw [if_neg (by omega), leaves]⟩
  le := le_rfl
  inside := inside
  free m _ _ := by omega
  stopped := stopped

/-- The pages of a range that the tables cover. -/
def rangePages (first limit : Nat) : Set Nat := Set.Ico first (min limit (512 * 512 * 512))

theorem rangePages_finite (first limit : Nat) : (rangePages first limit).Finite := Set.finite_Ico ..

theorem ncard_rangePages_le (first count : Nat) : (rangePages first (first + count)).ncard ≤ count := by
  have subset : rangePages first (first + count) ⊆ Set.Ico first (first + count) :=
    Set.Ico_subset_Ico_right (min_le_left ..)
  have le := Set.ncard_le_ncard subset (Set.finite_Ico ..)
  rwa [Set.ncard_Ico_nat, Nat.add_sub_cancel_left] at le

/-- A page is written into its table, and the pointers of the round stay right. -/
theorem writePage_spec (template : BitVec 64) (oa : Nat) {s₁ : Space} {a₁ : Arena}
    (grows : Grows base lower {n} s a s₁ a₁) (live : s₁.Live (last (n / 512))) (same : s₁.l3 = s.l3) :
    ∃ s₂, Grows base lower {n} s a s₂
        ⟨a₁.allocationPtr, a₁.mem.store64 (s₁.address base (last (n / 512)) + n % 512 * 8) (pteOf template oa)⟩ ∧
      s₂.Live (last (n / 512)) ∧ s₂.l3 = Function.update s.l3 n (pteOf template oa) ∧
      Cached base s₂ (middle (n / 512 / 512)) (s₁.address base (middle (n / 512 / 512))) ∧
      Cached base s₂ (last (n / 512)) (s₁.address base (last (n / 512))) := by
  have written : Grows base lower {n} s₁ a₁ _ _ :=
    .setLast grows.holds grows.aligned live (Nat.mod_lt n (by decide)) (pteOf template oa)
  refine ⟨_, grows.trans written, (written.kept _ live).1, ?_, ?_, ?_⟩
  · rw [Space.setEntry, Nat.div_add_mod' n 512, same]
  · exact Cached.mono (Or.inr ⟨Space.live_middle live, rfl⟩) written
  · exact Cached.mono (Or.inr ⟨live, rfl⟩) written

theorem mapRun_spec (pageI : Nat) {rounds pageCount first physBase l2 l3 l1I l2I l3I : Nat}
    (holds : Holds base lower a.allocationPtr s a.mem) (aligned : 4096 ∣ a.allocationPtr)
    (room : Room (rangePages (first + pageI) (first + pageCount)) s a) (total : pageI + rounds = pageCount)
    (bound : first + pageI ≤ 512 * 512 * 512) (more : first + pageI = 512 * 512 * 512 → rounds = 0)
    (lt₂ : l2I < 512) (lt₃ : l3I < 512) (position : (l1I * 512 + l2I) * 512 + l3I = first + pageI)
    (cached₂ : Cached base s (middle l1I) l2) (cached₃ : Cached base s (last (l1I * 512 + l2I)) l3) :
    ∃ s' reached, Ran base lower (first + pageI) (first + pageCount) reached
      (fun n => physBase + (n - first) * pageSize) template s a s'
      (mapRun base template physBase pageCount rounds pageI l2 l3 l1I l2I l3I a) := by
  induction rounds generalizing pageI l2 l3 l1I l2I l3I s a with
  | zero => exact ⟨s, _, .stop (.refl holds aligned) rfl bound (show first + pageI = first + pageCount by omega)⟩
  | succ rounds ih =>
    have here : first + pageI < 512 * 512 * 512 := by omega
    have member : first + pageI ∈ rangePages (first + pageI) (first + pageCount) :=
      ⟨le_rfl, lt_min (by omega) here⟩
    have finite := rangePages_finite (first + pageI) (first + pageCount)
    have subset := Set.singleton_subset_iff.mpr member
    obtain ⟨index₁, index₂, index₃, index⟩ := indices_eq lt₂ lt₃ position
    rw [index₁] at cached₂
    rw [index] at cached₃
    obtain ⟨s₁, a₁, found, grows₁, live₁, same₁⟩ := pageTables_spec holds aligned (room.mono finite subset) here
      cached₂ cached₃
    have entry : a₁.mem.load64 (s₁.address base (last ((first + pageI) / 512)) + (first + pageI) % 512 * 8) =
        s.l3 (first + pageI) := by
      rw [grows₁.holds.entries _ live₁ _ (Nat.mod_lt _ (by decide)), Space.entry, Nat.div_add_mod', same₁]
    obtain ⟨s₂, grows, live, leaves, known₂, known₃⟩ :=
      writePage_spec template (physBase + pageI * pageSize) grows₁ live₁ same₁
    rw [← index₁, ← index₂, ← index] at found
    rw [← index₃, ← index] at entry grows
    rw [← index₁] at known₂
    rw [← index] at known₃
    rw [mapRun, found]
    dsimp only
    rw [entry]
    by_cases inUse : Valid (s.l3 (first + pageI))
    · -- the assertion: the tables were there, so the lookups have changed nothing
      rw [if_pos (show s.l3 (first + pageI) &&& pteValid ≠ pteInvalid from inUse)]
      exact ⟨s₁, _, .stop (grows₁.of_live (holds.live_of_valid inUse)) same₁ bound
        ⟨⟨_, rfl⟩, by omega, Or.inr inUse⟩⟩
    · rw [if_neg (show ¬s.l3 (first + pageI) &&& pteValid ≠ pteInvalid from inUse)]
      generalize (⟨a₁.allocationPtr, _⟩ : Arena) = a₂ at grows ⊢
      have leaves : s₂.l3 =
          Function.update s.l3 (first + pageI) (pteOf template (physBase + (first + pageI - first) * pageSize)) := by
        rw [leaves, Nat.add_sub_cancel_left]
      have roomAfter : Room (rangePages (first + (pageI + 1)) (first + pageCount)) s₂ a₂ :=
        (room.grows finite (grows.mono subset)).mono finite (Set.Ico_subset_Ico_left (Nat.le_succ _))
      -- the pages that follow, from whatever caches and indices the round ends with
      have finish {l2' l3' l1I' l2I' l3I' : Nat} (lt₂' : l2I' < 512) (lt₃' : l3I' < 512)
          (more' : first + (pageI + 1) = 512 * 512 * 512 → rounds = 0)
          (position' : (l1I' * 512 + l2I') * 512 + l3I' = first + (pageI + 1))
          (cached₂' : Cached base s₂ (middle l1I') l2') (cached₃' : Cached base s₂ (last (l1I' * 512 + l2I')) l3') :
          ∃ s' reached, Ran base lower (first + pageI) (first + pageCount) reached
            (fun n => physBase + (n - first) * pageSize) template s a s'
            (mapRun base template physBase pageCount rounds (pageI + 1) l2' l3' l1I' l2I' l3I' a₂) := by
        obtain ⟨s', reached, ran⟩ := ih (pageI + 1) grows.holds grows.aligned roomAfter (by omega) here more' lt₂'
          lt₃' position' cached₂' cached₃'
        exact ⟨s', reached, .cons grows live leaves inUse ran⟩
      rw [pageEntryCount_eq]
      by_cases wrap₃ : l3I + 1 ≥ 512
      · rw [if_pos wrap₃]
        by_cases wrap₂ : l2I + 1 ≥ 512
        · rw [if_pos wrap₂]
          by_cases wrap₁ : l1I + 1 ≥ 512 ∧ pageI + 1 < pageCount
          · rw [if_pos wrap₁]
            have stopped : Stopped (first + pageCount) (first + (pageI + 1)) s₂
                (some (.panic "l1 idx rolled over with future mapping operations?")) :=
              ⟨⟨_, rfl⟩, by omega, Or.inl (by omega)⟩
            exact ⟨s₂, _, .cons grows live leaves inUse (.stop (.refl grows.holds grows.aligned) rfl here stopped)⟩
          · rw [if_neg wrap₁]
            exact finish (by omega) (by omega) (by omega) (Eq.symm (by omega)) (Or.inl rfl) (Or.inl rfl)
        · rw [if_neg wrap₂]
          exact finish (by omega) (by omega) (by omega) (Eq.symm (by omega)) known₂ (Or.inl rfl)
      · rw [if_neg wrap₃]
        exact finish lt₂ (by omega) (by omega) (Eq.symm (by omega)) known₂ known₃

/-- A call runs from the page of its base address on, whatever tables the range shares with earlier ranges. -/
theorem vmInitMapContiguousRun_spec (template : BitVec 64) (physBase : Nat) {first vmBase pageCount : Nat}
    (holds : Holds base lower a.allocationPtr s a.mem) (aligned : 4096 ∣ a.allocationPtr)
    (room : Room (rangePages first (first + pageCount)) s a) (number : pageNumber vmBase = first) :
    ∃ s' reached, Ran base lower first (first + pageCount) reached (fun n => physBase + (n - first) * pageSize) template
      s a s' (vmInitMapContiguousRun base template vmBase physBase pageCount a) := by
  have small : first < 512 * 512 * 512 := number ▸ Nat.mod_lt _ (by decide)
  have indices := vaToPhysIndexes_eq vmBase
  rw [number] at indices
  have position : (first / 512 / 512 * 512 + first / 512 % 512) * 512 + first % 512 = first := by omega
  rw [vmInitMapContiguousRun, indices]
  exact mapRun_spec 0 holds aligned room (Nat.zero_add _) small.le (fun last => absurd last small.ne)
    (Nat.mod_lt _ (by decide)) (Nat.mod_lt _ (by decide)) position (Or.inl rfl) (Or.inl rfl)

/-- Free entries up to the end of the range are all mapped. -/
theorem Ran.finished {first limit reached : Nat} {phys : Nat → Nat} {run : Option Fault × Arena}
    (ran : Ran base lower first limit reached phys template s a s' run) (bound : limit ≤ 512 * 512 * 512)
    (unmapped : ∀ m, first ≤ m → m < limit → ¬Valid (s.l3 m)) : run.1 = none ∧ reached = limit := by
  have stopped := ran.stopped
  rcases ran with ⟨-, le, -, -, -⟩
  cases fault : run.1 with
  | none =>
    rw [fault] at stopped
    exact ⟨rfl, stopped⟩
  | some why =>
    rw [fault] at stopped
    obtain ⟨-, below, last | inUse⟩ := stopped
    · omega
    · exact absurd inUse (unmapped reached le below)

/-- An entry in use, or a range that goes on after the last table, is met with a panic. -/
theorem Ran.panics {first limit reached : Nat} {phys : Nat → Nat} {run : Option Fault × Arena}
    (ran : Ran base lower first limit reached phys template s a s' run)
    (stuck : 512 * 512 * 512 < limit ∨ ∃ m, first ≤ m ∧ m < limit ∧ Valid (s.l3 m)) :
    ∃ message, run.1 = some (.panic message) := by
  have stopped := ran.stopped
  cases fault : run.1 with
  | none =>
    rw [fault] at stopped
    obtain rfl : reached = limit := stopped
    rcases stuck with beyond | ⟨m, above, below, inUse⟩
    · exact absurd ran.inside (Nat.not_le.mpr beyond)
    · exact absurd inUse (ran.free m above below)
  | some why =>
    rw [fault] at stopped
    obtain ⟨⟨message, rfl⟩, -⟩ := stopped
    exact ⟨message, rfl⟩

/-- A range of free entries is mapped without a panic, whatever tables it shares with earlier ranges. -/
theorem vmInitMapContiguous_spec (template : BitVec 64) (physBase : Nat) {first vmBase pageCount : Nat}
    (holds : Holds base lower a.allocationPtr s a.mem) (aligned : 4096 ∣ a.allocationPtr)
    (room : a.allocationPtr + pageCount * 8192 ≤ 2 ^ 47) (number : pageNumber vmBase = first)
    (bound : first + pageCount ≤ 512 * 512 * 512)
    (unmapped : ∀ n, first ≤ n → n < first + pageCount → ¬Valid (s.l3 n)) :
    ∃ s' a', vmInitMapContiguous base template vmBase physBase pageCount a = .ok a' ∧
      Mapped base lower first (first + pageCount) (fun n => physBase + (n - first) * pageSize) template s a s' a' ∧
      a'.allocationPtr ≤ a.allocationPtr + pageCount * 8192 := by
  have size := ncard_rangePages_le first pageCount
  have enough : Room (rangePages first (first + pageCount)) s a := .of_le (rangePages_finite ..) (by omega)
  obtain ⟨s', reached, ran⟩ := vmInitMapContiguousRun_spec template physBase holds aligned enough number
  obtain ⟨noFault, rfl⟩ := ran.finished bound unmapped
  have mapped := ran.mapped
  have le := mapped.grows.allocationPtr_le (Set.finite_Ico first (first + pageCount))
  rw [vmInitMapContiguous_eq]
  generalize vmInitMapContiguousRun base template vmBase physBase pageCount a = run at noFault mapped le
  obtain ⟨fault, a'⟩ := run
  obtain rfl : fault = none := noFault
  have le : a'.allocationPtr ≤ a.allocationPtr + 8192 * (Set.Ico first (first + pageCount)).ncard := le
  rw [Set.ncard_Ico_nat, Nat.add_sub_cancel_left] at le
  exact ⟨s', a', rfl, mapped, by omega⟩

/-- What a walk finds for a page. -/
def Space.find (s : Space) (n : Nat) : Walk :=
  if ¬Valid (s.l3 n) then .invalid
  else if ¬IsTable (s.l3 n) then .reserved (s.l3 n) else .page (s.l1 (n / 512 / 512)) (s.l2 (n / 512)) (s.l3 n)

/-- A walk finds what the address space has for the page of the address. -/
theorem Holds.walk_find {mem : Mem} {ap : Nat} (holds : Holds base lower ap s mem) (va : Nat) :
    walk mem base va = s.find (pageNumber va) := by
  have bound : pageNumber va < 512 * 512 * 512 := Nat.mod_lt _ (by decide)
  have indices := vaToPhysIndexes_eq va
  generalize pageNumber va = n at *
  have number₂ : n / 512 / 512 * 512 + n / 512 % 512 = n / 512 := by omega
  have number₃ : n / 512 * 512 + n % 512 = n := Nat.div_add_mod' n 512
  have index₁ : n / 512 / 512 < 512 := by omega
  have index₂ : n / 512 % 512 < 512 := Nat.mod_lt _ (by decide)
  have index₃ : n % 512 < 512 := Nat.mod_lt _ (by decide)
  have invalid (gone : ¬s.Live (last (n / 512))) : s.find n = .invalid :=
    if_pos fun valid => gone (holds.live_of_valid valid)
  have entry₁ := holds.entries root trivial _ index₁
  simp only [Space.address, Space.entry] at entry₁
  rw [walk, indices]
  dsimp only
  rw [entry₁]
  by_cases valid₁ : Valid (s.l1 (n / 512 / 512))
  · have live₂ : s.Live (middle (n / 512 / 512)) := ⟨index₁, valid₁⟩
    have entry₂ := holds.entries _ live₂ _ index₂
    simp only [Space.address, Space.entry, number₂] at entry₂
    have table₁ : IsTable (s.l1 (n / 512 / 512)) := holds.tables root _ trivial trivial index₁ valid₁
    rw [if_neg (not_not_intro valid₁), if_neg (not_not_intro table₁), entry₂]
    by_cases valid₂ : Valid (s.l2 (n / 512))
    · have live₃ : s.Live (last (n / 512)) := ⟨by omega, valid₁, valid₂⟩
      have entry₃ := holds.entries _ live₃ _ index₃
      simp only [Space.address, Space.entry, number₃] at entry₃
      have table₂ := holds.tables _ (n / 512 % 512) live₂ trivial index₂
      simp only [Space.entry, number₂] at table₂
      rw [if_neg (not_not_intro valid₂), if_neg (not_not_intro (table₂ valid₂)), entry₃, Space.find]
    · rw [if_pos valid₂, invalid fun l => valid₂ l.2.2]
  · rw [if_pos valid₁, invalid fun l => valid₁ l.2.1]

/-- The same for an address whose entry, if it is valid, is that of a page. -/
theorem Holds.walk_eq {mem : Mem} {ap : Nat} (holds : Holds base lower ap s mem) (va : Nat)
    (isPage : Valid (s.l3 (pageNumber va)) → IsTable (s.l3 (pageNumber va))) :
    walk mem base va = if Valid (s.l3 (pageNumber va)) then
      .page (s.l1 (pageNumber va / 512 / 512)) (s.l2 (pageNumber va / 512)) (s.l3 (pageNumber va)) else .invalid := by
  rw [holds.walk_find, Space.find]
  by_cases valid : Valid (s.l3 (pageNumber va))
  · rw [if_neg (not_not_intro valid), if_neg (not_not_intro (isPage valid)), if_pos valid]
  · rw [if_pos valid, if_neg valid]

end Swink
