import Swink.Vm.AddressSpace
import Mathlib.Order.Interval.Finset.Nat

namespace Swink
open Table Mem

namespace VmParams
variable {v : VmParams} {mem : Mem} {s : Space} {p : KernelPmap} {t : Table}

/-- The tables are those on the way to the pages of a region, and the root. -/
theorem Built.live_iff (built : v.Built mem s p) : s.Live t ↔ t = root ∨ ∃ r, OnTheWay (v.pagesIn r) t := by
  refine ⟨built.tables t, ?_⟩
  rintro (rfl | ⟨r, n, inside, rfl | rfl⟩)
  · trivial
  · have live := (built.entry r n inside).2
    exact ⟨by have := live.1; omega, live.2.1⟩
  · exact (built.entry r n inside).2

variable (v)

/-- Number of last-level tables that the image and RAM take up; the peripherals take eight. -/
def imageTables : Nat := (v.image.pages + 511) / 512
def ramTables : Nat := (v.pageCountOf .ram + 511) / 512

def middleTables : Finset Nat := Finset.range v.imageTables ∪ {511}

def lastTables : Finset Nat :=
  Finset.range v.imageTables ∪
    (Finset.Ico (511 * 512) (511 * 512 + v.ramTables) ∪ Finset.Ico (511 * 512 + 504) (512 * 512))

/-- Where the arena ends: after the root, the tables for the image, and those of the physmap. -/
def arenaEnd : Nat := v.bootstrapPaReserved + 4096 * (10 + 2 * v.imageTables + v.ramTables)

theorem tables_le : v.imageTables ≤ 1 ∧ v.ramTables ≤ 504 := by
  have small := v.image_small
  have limit := v.bounds
  simp only [imageTables, ramTables, pageCountOf]
  omega

theorem exists_page_iff (P : Nat → Prop) : (∃ r, ∃ n ∈ v.pagesIn r, P n) ↔
    (∃ n < v.image.pages, P n) ∨ (∃ n ∈ v.pagesIn .ram, P n) ∨ ∃ n ∈ v.pagesIn .mmio, P n := by
  have total : v.image.pages = v.image.textPages + v.image.roDataPages + v.image.rwDataPages := rfl
  constructor
  · rintro ⟨r, n, inside, holds⟩
    have upper : n < v.firstPage r + v.pageCountOf r := inside.2
    cases r with
    | text => exact Or.inl ⟨n, by simp only [firstPage, pageCountOf] at upper; omega, holds⟩
    | roData => exact Or.inl ⟨n, by simp only [firstPage, pageCountOf] at upper; omega, holds⟩
    | rwData => exact Or.inl ⟨n, total ▸ upper, holds⟩
    | ram => exact Or.inr (Or.inl ⟨n, inside, holds⟩)
    | mmio => exact Or.inr (Or.inr ⟨n, inside, holds⟩)
  · rintro (⟨n, small, holds⟩ | ⟨n, inside, holds⟩ | ⟨n, inside, holds⟩)
    · obtain ⟨r, inside, -⟩ := image_page small
      exact ⟨r, n, inside, holds⟩
    · exact ⟨_, n, inside, holds⟩
    · exact ⟨_, n, inside, holds⟩

/-- The first page of every last-level table of a range is in the range. -/
theorem exists_div_iff (first count : Nat) {x : Nat} :
    (∃ n ∈ Set.Ico (first * 512) (first * 512 + count), x = n / 512) ↔ first ≤ x ∧ x < first + (count + 511) / 512 := by
  constructor
  · rintro ⟨n, ⟨lower, upper⟩, rfl⟩
    omega
  · rintro ⟨lower, upper⟩
    exact ⟨x * 512, ⟨by omega, by omega⟩, by omega⟩

theorem mem_lastTables (x : Nat) : (∃ r, OnTheWay (v.pagesIn r) (last x)) ↔ x ∈ v.lastTables := by
  have way (r : Region) : OnTheWay (v.pagesIn r) (last x) ↔ ∃ n ∈ v.pagesIn r, x = n / 512 := by
    simp only [OnTheWay, reduceCtorEq, false_or, last.injEq]
  have image : (∃ n < v.image.pages, x = n / 512) ↔ x < v.imageTables := by
    have := exists_div_iff 0 v.image.pages (x := x)
    simpa [imageTables] using this
  have ram : (∃ n ∈ v.pagesIn .ram, x = n / 512) ↔ 511 * 512 ≤ x ∧ x < 511 * 512 + v.ramTables :=
    exists_div_iff (511 * 512) _
  have mmio : (∃ n ∈ v.pagesIn .mmio, x = n / 512) ↔ 511 * 512 + 504 ≤ x ∧ x < 512 * 512 := by
    have shape : v.pagesIn .mmio = Set.Ico ((511 * 512 + 504) * 512) ((511 * 512 + 504) * 512 + 0x1000) := by
      simp [pagesIn, firstPage, pageCountOf, physmapPage]
    rw [shape]
    exact exists_div_iff (511 * 512 + 504) 0x1000
  simp only [way, exists_page_iff, image, ram, mmio, lastTables, Finset.mem_union, Finset.mem_range, Finset.mem_Ico]

theorem mem_middleTables (i : Nat) : (∃ r, OnTheWay (v.pagesIn r) (middle i)) ↔ i ∈ v.middleTables := by
  have way (r : Region) : OnTheWay (v.pagesIn r) (middle i) ↔ ∃ n ∈ v.pagesIn r, i = n / 512 / 512 := by
    simp only [OnTheWay, reduceCtorEq, or_false, middle.injEq]
  have small := v.image_small
  have limit := v.bounds
  have physmap {n : Nat} {r : Region} (inside : n ∈ v.pagesIn r) (high : physmapPage ≤ v.firstPage r) :
      n / 512 / 512 = 511 := by
    have lower := high.trans inside.1
    have upper := Nat.lt_of_lt_of_le inside.2 (v.limit_le r)
    unfold physmapPage at lower
    omega
  simp only [way, exists_page_iff, middleTables, Finset.mem_union, Finset.mem_range, Finset.mem_singleton]
  have image : (∃ n < v.image.pages, i = n / 512 / 512) ↔ i < v.imageTables := by
    unfold imageTables
    constructor
    · rintro ⟨n, lt, rfl⟩
      omega
    · intro lt
      exact ⟨0, by omega, by omega⟩
  rw [image]
  refine or_congr_right ⟨?_, ?_⟩
  · rintro (⟨n, inside, rfl⟩ | ⟨n, inside, rfl⟩)
    · exact physmap inside le_rfl
    · exact physmap inside (Nat.le_add_right ..)
  · rintro rfl
    exact Or.inr ⟨physmapPage + 0x3F000, ⟨le_rfl, Nat.lt_add_of_pos_right (show 0 < 0x1000 by decide)⟩, by decide⟩

theorem card_tables :
    v.middleTables.card = v.imageTables + 1 ∧ v.lastTables.card = v.imageTables + (v.ramTables + 8) := by
  obtain ⟨imageLe, ramLe⟩ := v.tables_le
  constructor
  · rw [middleTables, Finset.card_union_of_disjoint, Finset.card_range, Finset.card_singleton]
    rw [Finset.disjoint_singleton_right, Finset.mem_range]
    omega
  · rw [lastTables, Finset.card_union_of_disjoint, Finset.card_union_of_disjoint, Finset.card_range, Nat.card_Ico,
      Nat.card_Ico]
    · omega
    · refine Finset.disjoint_left.mpr fun x inRam inMmio => ?_
      rw [Finset.mem_Ico] at inRam inMmio
      omega
    · refine Finset.disjoint_left.mpr fun x inImage inPhysmap => ?_
      rw [Finset.mem_union, Finset.mem_Ico, Finset.mem_Ico] at inPhysmap
      rw [Finset.mem_range] at inImage
      omega

variable {v}

/-- The arena takes exactly the tables it has to. -/
theorem Built.allocationPtr_eq (built : v.Built mem s p) : p.arena.allocationPtr = v.arenaEnd := by
  classical
  obtain ⟨imageLe, ramLe⟩ := v.tables_le
  obtain ⟨middles, lasts⟩ := v.card_tables
  have middleLive : (Finset.range 512).filter (fun i => s.Live (middle i)) = v.middleTables := by
    ext i
    rw [Finset.mem_filter, built.live_iff, or_iff_right nofun, mem_middleTables, Finset.mem_range,
      and_iff_right_iff_imp]
    simp only [middleTables, Finset.mem_union, Finset.mem_range, Finset.mem_singleton]
    omega
  have lastLive : (Finset.range (512 * 512)).filter (fun x => s.Live (last x)) = v.lastTables := by
    ext x
    rw [Finset.mem_filter, built.live_iff, or_iff_right nofun, mem_lastTables, Finset.mem_range, and_iff_right_iff_imp]
    simp only [lastTables, Finset.mem_union, Finset.mem_range, Finset.mem_Ico]
    omega
  have count : s.count = v.imageTables + 1 + (v.imageTables + (v.ramTables + 8)) := by
    rw [← middles, ← lasts, ← middleLive, ← lastLive]
    unfold Space.count
    congr 2
  rw [built.counted, count, arenaEnd]
  omega

end VmParams

end Swink
