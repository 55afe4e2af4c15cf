import Swink.Vm.KernelSpace
import Swink.Vm.TableTree

namespace Swink
open Table

/-- The entry of the last level that a walk gets to. -/
def Walk.leaf : Walk → Option (BitVec 64)
  | page _ _ l3 => some l3
  | reserved pte => some pte
  | _ => none

/-- An entry of a table is on the way to a page, or the entry of the page itself. -/
def Table.Through : Table → Nat → Nat → Prop
  | root, k, n => n / 512 / 512 = k
  | middle i, k, n => n / 512 = i * 512 + k
  | last x, k, n => n = x * 512 + k

variable {base lower first limit vmBase physBase pageCount n : Nat} {phys : Nat → Nat} {template : BitVec 64}
  {s s' : Space} {a a' : Arena} {t : Table} {k : Nat}

theorem Space.leaf_find (s : Space) (n : Nat) : (s.find n).leaf = if Valid (s.l3 n) then some (s.l3 n) else none := by
  by_cases valid : Valid (s.l3 n)
  · rw [Space.find, if_neg (not_not_intro valid), if_pos valid]
    split <;> rfl
  · rw [Space.find, if_pos valid, if_neg valid]
    rfl

theorem Space.find_eq_invalid : s.find n = .invalid ↔ ¬Valid (s.l3 n) := by
  unfold Space.find
  split
  · rename_i invalid
    exact iff_of_true rfl invalid
  · rename_i valid
    refine iff_of_false ?_ valid
    split <;> exact nofun

/-- A page whose entry stays has the same walk: no table on its way is replaced. -/
theorem Grows.find_eq {pages : Set Nat} {ap : Nat} {mem : Mem} (grows : Grows base lower pages s a s' a')
    (holds : Holds base lower ap s mem) (same : s'.l3 n = s.l3 n) : s'.find n = s.find n := by
  by_cases valid : Valid (s.l3 n)
  · have live := holds.live_of_valid valid
    have number : n / 512 / 512 * 512 + n / 512 % 512 = n / 512 := Nat.div_add_mod' ..
    have same₁ := grows.linked root (n / 512 / 512) trivial trivial (Nat.div_lt_of_lt_mul live.1) live.2.1
    have same₂ := grows.linked (middle (n / 512 / 512)) (n / 512 % 512) (Space.live_middle live) trivial
      (Nat.mod_lt _ (by decide)) (by rw [Space.entry, number]; exact live.2.2)
    simp only [Space.entry, number] at same₁ same₂
    rw [Space.find, Space.find, same, same₁, same₂]
  · rw [Space.find_eq_invalid.mpr valid, Space.find_eq_invalid.mpr (same ▸ valid)]

/-- An entry of a new table is valid only on the way to a page that was mapped. -/
theorem Mapped.unused {ap : Nat} {mem : Mem} (mapped : Mapped base lower first limit phys template s a s' a')
    (holds : Holds base lower ap s mem) (live : s'.Live t) (new : ¬s.Live t) (lt : k < 512)
    (unused : ∀ n, first ≤ n → n < limit → ¬t.Through k n) : ¬Valid (s'.entry t k) := by
  intro valid
  cases t with
  | root => exact new trivial
  | middle i =>
    have below := (Space.live_child live trivial lt).mpr valid
    have index : (i * 512 + k) / 512 = i := (middle_index lt).1
    rcases mapped.grows.fresh _ below with old | ⟨n, ⟨above, upper⟩, way | way⟩
    · have old := Space.live_middle old
      rw [index] at old
      exact new old
    · cases way
    · exact unused n above upper (last.inj way).symm
  | last x =>
    have free := mapped.leaves (x * 512 + k)
    rw [if_neg fun inside => unused _ inside.1 inside.2 rfl] at free
    rw [Space.entry, free] at valid
    have old := holds.live_of_valid valid
    rw [(middle_index lt).1] at old
    exact new old

/-- A kernel address in terms of its page. -/
theorem kernelPage_eq {va : Nat} (kernel : vmKernelBaseAddress ≤ va) (top : va < 2 ^ 64) :
    va / 4096 * 4096 = vmKernelBaseAddress + pageNumber va * 4096 ∧ pageNumber va < 512 * 512 * 512 := by
  have base : vmKernelBaseAddress = 0xffffff8000000000 := rfl
  unfold pageNumber
  omega

/-- What a call of `vm_init_map_contiguous` that returns has done: the pages of the range have the entries of
their physical pages, no other address of the kernel's 512 GB is translated in another way, and the tree has
grown by tables from the arena without entries of their own. -/
structure MapsExactly (base : Nat) (template : BitVec 64) (vmBase physBase pageCount : Nat) (a a' : Arena) : Prop where
  leaves : ∀ i < pageCount, ∀ va, vmBase + i * pageSize ≤ va → va < vmBase + (i + 1) * pageSize →
    (walk a'.mem base va).leaf = some (template ||| BitVec.ofNat 64 (physBase + i * pageSize))
  others : ∀ va, vmKernelBaseAddress ≤ va → va < 2 ^ 64 → va < vmBase ∨ vmBase + pageCount * pageSize ≤ va →
    walk a'.mem base va = walk a.mem base va
  tree : WellFormedTree base a'.allocationPtr a'.mem
  arena : a'.allocationPtr =
    a.allocationPtr + pageSize * ((Space.ofMem a'.mem base).tables \ (Space.ofMem a.mem base).tables).ncard
  unused : ∀ t ∈ (Space.ofMem a'.mem base).tables \ (Space.ofMem a.mem base).tables, ∀ k < 512,
    (∀ i < pageCount, ¬t.Through k (pageNumber (vmBase + i * pageSize))) →
      ¬Valid (a'.mem.load64 ((Space.ofMem a'.mem base).address base t + k * 8))

theorem MapsExactly.of_mapped (tree : WellFormedTree base a.allocationPtr a.mem) (isTemplate : Template template)
    (kernel : vmKernelBaseAddress ≤ vmBase) (top : vmBase < 2 ^ 64) (vmAligned : 4096 ∣ vmBase)
    (physAligned : 4096 ∣ physBase) (physRange : physBase + pageCount * pageSize ≤ 2 ^ 47)
    (range : vmBase + pageCount * pageSize ≤ 2 ^ 64) (number : pageNumber vmBase = first)
    (mapped : Mapped base 0 first (first + pageCount) (fun n => physBase + (n - first) * pageSize) template
      (Space.ofMem a.mem base) a s' a') :
    MapsExactly base template vmBase physBase pageCount a a' := by
  have holds := tree.holds
  have holds' := mapped.grows.holds
  have tables : (Space.ofMem a'.mem base).tables = s'.tables := Set.ext fun t => holds'.ofMem_live t
  obtain ⟨start, small⟩ := kernelPage_eq kernel top
  have base_eq : vmKernelBaseAddress = 0xffffff8000000000 := rfl
  rw [number] at start small
  rw [pageSize_eq] at physRange range
  have inRange {va : Nat} (above : vmBase ≤ va) (below : va < vmBase + pageCount * 4096) :
      pageNumber va = first + (va - vmBase) / 4096 := by
    obtain ⟨here, -⟩ := kernelPage_eq (kernel.trans above) (by omega : va < 2 ^ 64)
    omega
  refine ⟨fun i lt va above below => ?_, fun va kernel' top' outside => ?_, ?_, ?_, fun t new k lt unused => ?_⟩
  · rw [pageSize_eq] at above below
    have upper : va < vmBase + pageCount * 4096 :=
      below.trans_le (Nat.add_le_add_left (Nat.mul_le_mul_right 4096 lt) vmBase)
    have page : pageNumber va = first + i := (inRange (by omega) upper).trans (by omega)
    have limit : physBase + i * 4096 < 2 ^ 47 := by omega
    have aligned : 4096 ∣ physBase + i * 4096 := Nat.dvd_add physAligned (Nat.dvd_mul_left ..)
    have leaf := mapped.leaves (first + i)
    rw [if_pos (by omega), Nat.add_sub_cancel_left, pageSize_eq] at leaf
    rw [holds'.walk_find, page, Space.leaf_find, leaf, if_pos (isTemplate.pteOf_valid _), pteOf, pageSize_eq,
      outputAddressToPte_of_aligned aligned limit]
  · obtain ⟨here, -⟩ := kernelPage_eq kernel' top'
    rw [pageSize_eq] at outside
    rw [holds'.walk_find, holds.walk_find]
    refine mapped.grows.find_eq holds ?_
    rw [mapped.leaves, if_neg (by omega)]
  · exact holds'.wellFormedTree tree.base_dvd mapped.grows.aligned
  · rw [tables, pageSize_eq]
    exact mapped.grows.allocationPtr_eq
  · rw [tables] at new
    rw [holds'.ofMem_address new.1, holds'.entries t new.1 k lt]
    refine mapped.unused holds new.1 new.2 lt fun n above below through => ?_
    refine unused (n - first) (by omega) ?_
    rw [pageSize_eq, inRange (by omega) (by omega), Nat.add_sub_cancel_left, Nat.mul_div_cancel _ (by decide),
      Nat.add_sub_cancel' above]
    exact through

/-- A call leaves every entry in use as it was, also when it panics. -/
theorem Ran.leaf_kept {reached : Nat} {run : Option Fault × Arena} {pte : BitVec 64}
    (ran : Ran base lower first limit reached phys template s a s' run) (used : (s.find n).leaf = some pte) :
    (s'.find n).leaf = some pte := by
  rw [Space.leaf_find] at used ⊢
  have valid : Valid (s.l3 n) := by
    by_contra invalid
    rw [if_neg invalid] at used
    cases used
  have same : s'.l3 n = s.l3 n := by
    rw [ran.mapped.leaves n]
    exact if_neg fun inside => ran.free n inside.1 inside.2 valid
  rw [same]
  exact used

/-- A call on a well-formed tree maps exactly its range. If an entry of the range is in use, or the range goes on
after the last table, it panics, and what was mapped before is mapped as before. -/
theorem maps_exactly_its_range (tree : WellFormedTree base a.allocationPtr a.mem) (isTemplate : Template template)
    (kernel : vmKernelBaseAddress ≤ vmBase) (top : vmBase < 2 ^ 64) (vmAligned : 4096 ∣ vmBase)
    (room : Room (rangePages (pageNumber vmBase) (pageNumber vmBase + pageCount)) (Space.ofMem a.mem base) a) :
    (4096 ∣ physBase → physBase + pageCount * pageSize ≤ 2 ^ 47 → vmBase + pageCount * pageSize ≤ 2 ^ 64 →
      (∀ i < pageCount, walk a.mem base (vmBase + i * pageSize) = .invalid) →
      ∃ a', vmInitMapContiguous base template vmBase physBase pageCount a = .ok a' ∧
        MapsExactly base template vmBase physBase pageCount a a') ∧
    ((∃ i < pageCount, vmBase + i * pageSize < 2 ^ 64 ∧ walk a.mem base (vmBase + i * pageSize) ≠ .invalid) ∨
        2 ^ 64 < vmBase + pageCount * pageSize →
      ∃ message a', vmInitMapContiguous base template vmBase physBase pageCount a = .error (.panic message) ∧
        vmInitMapContiguousRun base template vmBase physBase pageCount a = (some (.panic message), a') ∧
        ∀ va pte, (walk a.mem base va).leaf = some pte → (walk a'.mem base va).leaf = some pte) := by
  have holds := tree.holds
  obtain ⟨start, small⟩ := kernelPage_eq kernel top
  have base_eq : vmKernelBaseAddress = 0xffffff8000000000 := rfl
  have page {i : Nat} (below : vmBase + i * 4096 < 2 ^ 64) :
      pageNumber (vmBase + i * 4096) = pageNumber vmBase + i := by
    obtain ⟨here, -⟩ := kernelPage_eq (kernel.trans (Nat.le_add_right ..)) below
    omega
  obtain ⟨s', reached, ran⟩ := vmInitMapContiguousRun_spec template physBase holds tree.ap_dvd room rfl
  rw [vmInitMapContiguous_eq, pageSize_eq]
  refine ⟨fun physAligned physRange range unmapped => ?_, fun stuck => ?_⟩
  · have free : ∀ n, pageNumber vmBase ≤ n → n < pageNumber vmBase + pageCount →
        ¬Valid ((Space.ofMem a.mem base).l3 n) := by
      intro n above below
      have invalid := unmapped (n - pageNumber vmBase) (by omega)
      rw [holds.walk_find, page (by omega), Nat.add_sub_cancel' above] at invalid
      exact Space.find_eq_invalid.mp invalid
    obtain ⟨noFault, rfl⟩ := ran.finished (by omega) free
    have mapped := ran.mapped
    generalize vmInitMapContiguousRun base template vmBase physBase pageCount a = run at noFault mapped
    obtain ⟨fault, a'⟩ := run
    obtain rfl : fault = none := noFault
    exact ⟨a', rfl, .of_mapped tree isTemplate kernel top vmAligned physAligned physRange range rfl mapped⟩
  · obtain ⟨message, panics⟩ := ran.panics (by
      rcases stuck with ⟨i, lt, below, inUse⟩ | beyond
      · rw [holds.walk_find, page below, ne_eq, Space.find_eq_invalid, not_not] at inUse
        exact Or.inr ⟨_, Nat.le_add_right .., Nat.add_lt_add_left lt _, inUse⟩
      · exact Or.inl (by omega))
    have kept {n : Nat} {pte : BitVec 64} (used : ((Space.ofMem a.mem base).find n).leaf = some pte) :
        (s'.find n).leaf = some pte := ran.leaf_kept used
    have holds' := ran.mapped.grows.holds
    generalize vmInitMapContiguousRun base template vmBase physBase pageCount a = run at panics holds'
    obtain ⟨fault, a'⟩ := run
    obtain rfl : fault = some (.panic message) := panics
    refine ⟨message, a', rfl, rfl, fun va pte used => ?_⟩
    rw [holds.walk_find] at used
    rw [holds'.walk_find]
    exact kept used

/-- Two pages, the second of which is the first one of the next table. -/
theorem maps_exactly_its_range_sample :
    (∃ a', vmInitMapContiguous 0x1000 pteTemplatePageNormalKernRw 0xffffff80001ff000 0x8000 2
        ⟨0x2000, Mem.memset (fun _ => 0xAA) 0x1000 0 4096⟩ = .ok a' ∧
      MapsExactly 0x1000 pteTemplatePageNormalKernRw 0xffffff80001ff000 0x8000 2
        ⟨0x2000, Mem.memset (fun _ => 0xAA) 0x1000 0 4096⟩ a') ∧
    ∃ message a', vmInitMapContiguous 0x1000 pteTemplatePageNormalKernRw 0xfffffffffffff000 0x8000 2
        ⟨0x2000, Mem.memset (fun _ => 0xAA) 0x1000 0 4096⟩ = .error (.panic message) ∧
      vmInitMapContiguousRun 0x1000 pteTemplatePageNormalKernRw 0xfffffffffffff000 0x8000 2
        ⟨0x2000, Mem.memset (fun _ => 0xAA) 0x1000 0 4096⟩ = (some (.panic message), a') ∧
      ∀ va pte, (walk (Mem.memset (fun _ => 0xAA) 0x1000 0 4096) 0x1000 va).leaf = some pte →
        (walk a'.mem 0x1000 va).leaf = some pte := by
  have holds := Holds.empty (show 4096 ∣ 0x1000 by decide) fun _ => 0xAA
  have tree : WellFormedTree 0x1000 0x2000 (Mem.memset (fun _ => 0xAA) 0x1000 0 4096) :=
    holds.wellFormedTree (by decide) (by decide)
  have room (first : Nat) {count : Nat} (small : count ≤ 2) (s : Space) (mem : Mem) :
      Room (rangePages first (first + count)) s ⟨0x2000, mem⟩ := by
    have size := ncard_rangePages_le first count
    exact .of_le (rangePages_finite ..) (show 0x2000 + _ ≤ 2 ^ 47 by omega)
  have unmapped (va : Nat) : walk (Mem.memset (fun _ => 0xAA) 0x1000 0 4096) 0x1000 va = .invalid := by
    rw [holds.walk_find]
    exact Space.find_eq_invalid.mpr not_valid_zero
  exact ⟨(maps_exactly_its_range tree template_normalKernRw (by decide) (by decide) (by decide)
      (room _ (by decide) _ _)).1 (by decide) (by decide) (by decide) fun _ _ => unmapped _,
    (maps_exactly_its_range tree template_normalKernRw (by decide) (by decide) (by decide)
      (room _ (by decide) _ _)).2 (Or.inr (by decide))⟩

end Swink
