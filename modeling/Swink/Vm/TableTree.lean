import Swink.Vm.MapRange

namespace Swink
open Table

/-- The tables that the memory holds at `base`, with zeros where there is no table. -/
def Space.ofMem (mem : Mem) (base : Nat) : Space :=
  let l1 i := mem.load64 (base + i * 8)
  let l2 x :=
    if x / 512 < 512 ∧ Valid (l1 (x / 512)) then mem.load64 (pteToPhysAddr (l1 (x / 512)) + x % 512 * 8) else 0
  let l3 n :=
    if n / 512 < 512 * 512 ∧ Valid (l1 (n / 512 / 512)) ∧ Valid (l2 (n / 512)) then
      mem.load64 (pteToPhysAddr (l2 (n / 512)) + n % 512 * 8)
    else 0
  ⟨l1, l2, l3⟩

/-- A tree of tables in memory: valid entries of the first two levels are table entries, and all tables are
on pages of their own below the arena pointer. -/
structure WellFormedTree (base ap : Nat) (mem : Mem) : Prop where
  base_dvd : 4096 ∣ base
  ap_dvd : 4096 ∣ ap
  tables : ∀ t k, (Space.ofMem mem base).Live t → t.Inner → k < 512 → Valid ((Space.ofMem mem base).entry t k) →
    IsTable ((Space.ofMem mem base).entry t k)
  below : ∀ t, (Space.ofMem mem base).Live t → (Space.ofMem mem base).address base t < ap
  distinct : ∀ t t', (Space.ofMem mem base).Live t → (Space.ofMem mem base).Live t' →
    (Space.ofMem mem base).address base t = (Space.ofMem mem base).address base t' → t = t'

/-- The output address of an entry is that of a page. -/
theorem pteToPhysAddr_dvd {pte : BitVec 64} (valid : Valid pte) : 4096 ∣ pteToPhysAddr pte := by
  have low : outputAddressMask.toNat % 2 ^ 12 = 0 := by decide
  rw [pteToPhysAddr, if_neg (not_not_intro valid), BitVec.ushiftRight_zero, BitVec.toNat_and]
  apply Nat.dvd_of_mod_eq_zero
  rw [show 4096 = 2 ^ 12 from rfl, Nat.and_mod_two_pow, low, Nat.and_zero]

variable {base lower ap : Nat} {mem : Mem} {s : Space} {t : Table} {k : Nat}

theorem middle_index {i : Nat} (lt : k < 512) : (i * 512 + k) / 512 = i ∧ (i * 512 + k) % 512 = k := by
  omega

theorem Space.ofMem_tidy (mem : Mem) (base : Nat) : (Space.ofMem mem base).Tidy := by
  intro t gone k lt
  cases t with
  | root => exact absurd trivial gone
  | middle i =>
    obtain ⟨index, -⟩ := middle_index (i := i) lt
    refine if_neg fun there => gone ?_
    rwa [index] at there
  | last x =>
    obtain ⟨index, -⟩ := middle_index (i := x) lt
    refine if_neg fun there => gone ?_
    rwa [index] at there

theorem Space.ofMem_entry (live : (Space.ofMem mem base).Live t) (lt : k < 512) :
    mem.load64 ((Space.ofMem mem base).address base t + k * 8) = (Space.ofMem mem base).entry t k := by
  cases t with
  | root => rfl
  | middle i =>
    obtain ⟨index, offset⟩ := middle_index (i := i) lt
    refine Eq.symm ((if_pos ?_).trans ?_)
    · rw [index]
      exact live
    · rw [index, offset]
      rfl
  | last x =>
    obtain ⟨index, offset⟩ := middle_index (i := x) lt
    refine Eq.symm ((if_pos ?_).trans ?_)
    · rw [index]
      exact live
    · rw [index, offset]
      rfl

theorem WellFormedTree.address_dvd (tree : WellFormedTree base ap mem) (live : (Space.ofMem mem base).Live t) :
    4096 ∣ (Space.ofMem mem base).address base t := by
  cases t with
  | root => exact tree.base_dvd
  | middle i => exact pteToPhysAddr_dvd live.2
  | last x => exact pteToPhysAddr_dvd live.2.2

/-- A tree in memory is the address space that is read from it. -/
theorem WellFormedTree.holds (tree : WellFormedTree base ap mem) : Holds base 0 ap (Space.ofMem mem base) mem where
  entries t live k lt := Space.ofMem_entry live lt
  inside t live := by
    have dvd := tree.address_dvd live
    have below := tree.below t live
    have := tree.ap_dvd
    exact ⟨Nat.zero_le _, by omega, dvd⟩
  distinct := tree.distinct
  tables := tree.tables
  tidy := Space.ofMem_tidy mem base

namespace Holds
variable (holds : Holds base lower ap s mem)
include holds

theorem ofMem_l1 {i : Nat} (bound : i < 512) : (Space.ofMem mem base).l1 i = s.l1 i :=
  holds.entries root trivial i bound

theorem ofMem_l2 {x : Nat} (bound : x < 512 * 512) : (Space.ofMem mem base).l2 x = s.l2 x := by
  have same : mem.load64 (base + x / 512 * 8) = s.l1 (x / 512) := holds.ofMem_l1 (Nat.div_lt_of_lt_mul bound)
  have index : x % 512 < 512 := Nat.mod_lt x (by decide)
  have number : x / 512 * 512 + x % 512 = x := Nat.div_add_mod' x 512
  simp only [Space.ofMem, same]
  split
  · rename_i live
    have entry := holds.entries (middle (x / 512)) live _ index
    rwa [Space.entry, number] at entry
  · rename_i gone
    have zero := holds.tidy (middle (x / 512)) gone _ index
    rw [Space.entry, number] at zero
    exact zero.symm

theorem ofMem_live (t : Table) : (Space.ofMem mem base).Live t ↔ s.Live t := by
  cases t with
  | root => exact Iff.rfl
  | middle i => exact and_congr_right fun bound => by rw [holds.ofMem_l1 bound]
  | last x =>
    refine and_congr_right fun bound => ?_
    rw [holds.ofMem_l1 (Nat.div_lt_of_lt_mul bound), holds.ofMem_l2 bound]

theorem ofMem_address (live : s.Live t) : (Space.ofMem mem base).address base t = s.address base t := by
  cases t with
  | root => rfl
  | middle i => exact congrArg pteToPhysAddr (holds.ofMem_l1 live.1)
  | last x => exact congrArg pteToPhysAddr (holds.ofMem_l2 live.1)

theorem ofMem_entry (live : s.Live t) (lt : k < 512) : (Space.ofMem mem base).entry t k = s.entry t k := by
  rw [← Space.ofMem_entry ((holds.ofMem_live t).mpr live) lt, holds.ofMem_address live, holds.entries t live k lt]

/-- The tables of an address space are a tree in memory. -/
theorem wellFormedTree (base_dvd : 4096 ∣ base) (ap_dvd : 4096 ∣ ap) : WellFormedTree base ap mem where
  base_dvd := base_dvd
  ap_dvd := ap_dvd
  tables t k live inner lt valid := by
    rw [holds.ofMem_live] at live
    rw [holds.ofMem_entry live lt] at valid ⊢
    exact holds.tables t k live inner lt valid
  below t live := by
    rw [holds.ofMem_live] at live
    have := holds.inside t live
    rw [holds.ofMem_address live]
    omega
  distinct t t' live live' same := by
    rw [holds.ofMem_live] at live live'
    rw [holds.ofMem_address live, holds.ofMem_address live'] at same
    exact holds.distinct t t' live live' same

end Holds

end Swink
