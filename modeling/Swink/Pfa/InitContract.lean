import Swink.Pfa.Metadata
import Swink.Pfa.Simulation

namespace Swink

namespace Pfa
open Blocks Dyadic Refinement

/-- One and the same state, with the given numbering of its pages. -/
def SameNumbers (pageBase pageCount : Nat) (s t : Pfa) : Prop :=
  s = t ∧ s.pageBase = pageBase ∧ s.pageCount = pageCount ∧ s.lock < 2 ^ 32

theorem refines_self {α : Type} {Q : α → α → Prop} {x : Except Fault α} (keeps : ∀ a, x = .ok a → Q a a) :
    Refines Q x x := ⟨fun a run => ⟨a, run, keeps a run⟩⟩

/-- No access of the allocator renumbers the pages. -/
theorem simulates_sameNumbers (pageBase pageCount : Nat) : Simulates (SameNumbers pageBase pageCount) where
  physmapVmBase related := congrArg Pfa.physmapVmBase related.1
  pageBase related := congrArg Pfa.pageBase related.1
  pageCount related := congrArg Pfa.pageCount related.1
  lockValue related := congrArg Pfa.lock related.1
  lockLt related := related.2.2.2
  setLockValue := by
    rintro s _ ⟨rfl, base, count, -⟩ value small
    exact ⟨rfl, base, count, small⟩
  bitmapWord := by
    rintro s _ ⟨rfl, -⟩ level idx
    exact .refl _
  setBitmapWord := by
    rintro s _ ⟨rfl, numbers⟩ level idx word
    refine refines_self fun after run => ?_
    rw [store_setBitmapWord, setBitmapWord] at run
    split at run
    · cases run
      exact ⟨rfl, numbers⟩
    · cases run
  listEmpty := by
    rintro s _ ⟨rfl, -⟩ level
    exact .refl _
  listFront := by
    rintro s _ ⟨rfl, -⟩ level
    exact .refl _
  listPushFront := by
    rintro s _ ⟨rfl, numbers⟩ level elem
    refine refines_self fun after run => ?_
    rw [store_listPushFront, listPushFront] at run
    split_ifs at run
    cases run
    exact ⟨rfl, numbers⟩
  listRemove := by
    rintro s _ ⟨rfl, numbers⟩ elem
    refine refines_self fun after run => ?_
    rw [store_listRemove, listRemove] at run
    split_ifs at run
    cases run
    exact ⟨rfl, numbers⟩
  fillMetadata := by
    rintro s _ ⟨rfl, numbers⟩ idx count byte
    refine refines_self fun after run => ?_
    rw [store_fillMetadata, fillMetadata] at run
    split_ifs at run
    cases run
    exact ⟨rfl, numbers⟩

variable {ramBase ramSize textBase textSize dataBase dataSize reserved : Nat} {raw s : Pfa}

/-- The numbering of the pages that initialisation leaves behind, whatever happens in between. -/
theorem pmapPfaInit_numbers
    (run : pmapPfaInit ramBase ramSize textBase textSize dataBase dataSize reserved raw = .ok s) :
    s.pageBase = u32 (ramBase >>> pageShift) ∧ s.pageCount = sizeToPageCount (sub64 ramSize ramBase) := by
  let numbered := SameNumbers (u32 (ramBase >>> pageShift)) (sizeToPageCount (sub64 ramSize ramBase))
  have kept : Refines numbered (pmapPfaInit ramBase ramSize textBase textSize dataBase dataSize reserved raw)
      (pmapPfaInit ramBase ramSize textBase textSize dataBase dataSize reserved raw) :=
    (simulates_sameNumbers _ _).pmapPfaInit textBase textSize dataBase dataSize
      ((simulates_sameNumbers _ _).initBlocks rfl (.ok ⟨rfl, rfl, rfl, show 1 < 2 ^ 32 by decide⟩))
  obtain ⟨_, -, -, base, count, -⟩ := kept.of_ok s run
  exact ⟨base, count⟩

/-- A page has a byte of the range. -/
def MeetsRange (base size page : Nat) : Prop := ∃ a, base ≤ a ∧ a < base + size ∧ a / pageSize = page

/-- End of the reserved region and of the allocator's own structures for RAM of a size. -/
def reservedEndOf (ramSize reserved : Nat) : Nat := reserved + requiredBytes ((ramSize + (pageSize - 1)) / pageSize)

/-- What a caller of `pmap_pfa_init` passes: everything lies in RAM below 4 GB. -/
structure InitRequest (ramBase ramSize textBase textSize dataBase dataSize reserved : Nat) : Prop where
  ramBase_dvd : 4096 ∣ ramBase
  reserved_dvd : 4096 ∣ reserved
  below : ramBase + ramSize ≤ 2 ^ 32
  ramBase_le : ramBase ≤ reserved
  reservedEnd_le : reservedEndOf ramSize reserved ≤ ramBase + ramSize
  text_inside : ramBase ≤ textBase ∧ textBase + textSize ≤ ramBase + ramSize
  data_inside : ramBase ≤ dataBase ∧ dataBase + dataSize ≤ ramBase + ramSize

/-- What the header of `pmap_pfa_init` promises. -/
def InitKeepsPromise (ramBase ramSize textBase textSize dataBase dataSize reserved : Nat) (raw : Pfa) : Prop :=
  ∃ s, pmapPfaInit ramBase ramSize textBase textSize dataBase dataSize reserved raw = .ok s ∧
    (∀ page, s.PageManaged page ↔ MeetsRange ramBase ramSize page) ∧
    (∀ page, page ∈ s.freePages ↔ s.PageManaged page ∧ reservedEndOf ramSize reserved ≤ page * pageSize) ∧
    ∀ page, s.PageManaged page → page * pageSize < reservedEndOf ramSize reserved →
      (MeetsRange textBase textSize page → s.typeOfPage page = PmapPageType.kernelText.toBits) ∧
        (¬MeetsRange textBase textSize page → s.typeOfPage page = PmapPageType.kernelData.toBits)

theorem meetsRange_iff {base size page : Nat} :
    MeetsRange base size page ↔ base < (page + 1) * 4096 ∧ page * 4096 < base + size ∧ 0 < size := by
  unfold MeetsRange
  rw [pageSize_eq]
  constructor
  · rintro ⟨a, lower, upper, rfl⟩
    omega
  · rintro ⟨lower, upper, positive⟩
    exact ⟨max base (page * 4096), by omega, by omega, by omega⟩

/-- The pages counted from the start of a range all meet the range. -/
theorem meetsRange_of_counted {base size page : Nat} (start : base / 4096 ≤ page)
    (before : page < base / 4096 + (size + 4095) / 4096) : MeetsRange base size page := by
  rw [meetsRange_iff]
  omega

/-- RAM that does not start at address zero is miscounted. -/
theorem ramBase_eq_zero (aligned : 4096 ∣ ramBase) (below : ramBase + ramSize ≤ 2 ^ 32) (positive : 0 < ramSize)
    (promise : InitKeepsPromise ramBase ramSize textBase textSize dataBase dataSize reserved raw) : ramBase = 0 := by
  obtain ⟨s, run, managed, -, -⟩ := promise
  obtain ⟨base, count⟩ := pmapPfaInit_numbers run
  obtain ⟨k, rfl⟩ := aligned
  have first : (4096 * k) >>> pageShift = k := by
    rw [pageShift, Nat.shiftRight_eq_div_pow]
    omega
  rw [first, u32_of_lt (by omega)] at base
  have pages (page : Nat) : s.PageManaged page ↔ k ≤ page ∧ page < k + (ramSize + 4095) / 4096 := by
    rw [managed, meetsRange_iff]
    omega
  have last := (pages (k + (ramSize + 4095) / 4096 - 1)).mpr (by omega)
  have past := mt (pages (k + (ramSize + 4095) / 4096)).mp (by omega)
  unfold PageManaged at last past
  rw [base] at last past
  have exact : s.pageCount = (ramSize + 4095) / 4096 := by omega
  rw [count, sizeToPageCount, pageSize_eq, pageShift, Nat.shiftRight_eq_div_pow, sub64, u32, u64, u64] at exact
  omega

/-- The metadata of the pages that initialisation reserves. -/
theorem pmapPfaInit_types {g : Geometry} {first : Nat} (same : raw.physmapVmBase = g.physmapVmBase)
    (linkable : ∀ p ∈ g.usable, raw.mayLink (g.node p) = true) (ramLe : ramSize ≤ 2 ^ 32)
    (count : g.pageCount = sizeToPageCount ramSize) (endLe : reserved + requiredBytes g.pageCount ≤ ramSize)
    (endEq : reserved + requiredBytes g.pageCount = first * 4096) (within : Set.Ico first g.pageCount ⊆ g.usable)
    (textInside : textBase + textSize ≤ ramSize) (dataInside : dataBase + dataSize ≤ ramSize) :
    ∃ s, pmapPfaInit 0 ramSize textBase textSize dataBase dataSize reserved raw = .ok s ∧
      s.Ready g (Set.Ico first g.pageCount) ∧ ∀ page < first, s.typeOfPage page =
        if textBase / 4096 ≤ page ∧ page < textBase / 4096 + (textSize + 4095) / 4096 then
          PmapPageType.kernelText.toBits
        else PmapPageType.kernelData.toBits := by
  obtain ⟨built, ready, reservedTypes, blocks⟩ := initBlocks_zero same linkable ramLe count endLe endEq within
  have run := pmapPfaInit_eq 0 ramSize textBase textSize dataBase dataSize reserved raw
  have pages : g.pageCount = (ramSize + 4095) / 4096 := count.trans (sizeToPageCount_eq (by omega))
  rw [blocks, ok_bind, paToPageId_eq (show dataBase < 2 ^ 44 by omega),
    sizeToPageCount_eq (show dataSize < 2 ^ 43 by omega),
    paToPageId_eq (show textBase < 2 ^ 44 by omega), sizeToPageCount_eq (show textSize < 2 ^ 43 by omega),
    applyMetadataRangeLocked_spec ready.holds.manages (by omega), ok_bind,
    applyMetadataRangeLocked_spec (ready.holds.withMetadata _).manages (by omega)] at run
  refine ⟨_, run, ⟨(ready.holds.withMetadata _).withMetadata _, ready.unlocked⟩, fun page low => ?_⟩
  have base : built.pageBase = 0 := ready.holds.manages.base
  rw [typeOfPage]
  simp only [base, Nat.sub_zero, reservedTypes]
  unfold fillRange
  by_cases text : textBase / 4096 ≤ page ∧ page < textBase / 4096 + (textSize + 4095) / 4096
  · rw [if_pos text, if_pos text]
    rfl
  · have reservedPage : 0 ≤ page ∧ page < 0 + first := by omega
    rw [if_neg text, if_neg text, if_pos reservedPage, ite_self]
    rfl

/-- With RAM at address zero the promise is kept for all but the last page of kernel text. -/
theorem promise_zero_iff (reservedAligned : 4096 ∣ reserved) (reservedInside : reservedEndOf ramSize reserved ≤ ramSize)
    (textInside : textBase + textSize ≤ ramSize) (dataInside : dataBase + dataSize ≤ ramSize) (below : ramSize ≤ 2 ^ 32)
    (owned : ∀ a, raw.mayLink a = true) (physmapPos : 0 < raw.physmapVmBase)
    (physmapFits : raw.physmapVmBase + roundUp ramSize 4096 ≤ 2 ^ 64) :
    InitKeepsPromise 0 ramSize textBase textSize dataBase dataSize reserved raw ↔
      ∀ page, page * pageSize < reservedEndOf ramSize reserved → MeetsRange textBase textSize page →
        page < textBase / pageSize + (textSize + (pageSize - 1)) / pageSize := by
  have pages : sizeToPageCount ramSize = (ramSize + 4095) / 4096 := sizeToPageCount_eq (by omega)
  let g : Geometry := {
    physmapVmBase := raw.physmapVmBase
    pageCount := sizeToPageCount ramSize
    usable := Set.univ
    physmap_pos := physmapPos
    physmap_fits := by
      rw [pages]
      exact physmapFits
    pageCount_le := by omega }
  have count : g.pageCount = (ramSize + 4095) / 4096 := pages
  have endOf : reservedEndOf ramSize reserved = reserved + requiredBytes g.pageCount := by
    rw [count]
    rfl
  have aligned : 4096 ∣ reservedEndOf ramSize reserved := Nat.dvd_add reservedAligned (roundUp_dvd ..)
  obtain ⟨first, endEq⟩ := aligned
  rw [Nat.mul_comm] at endEq
  rw [endEq] at reservedInside
  obtain ⟨s, run, ready, types⟩ := pmapPfaInit_types (g := g) rfl (fun _ _ => owned _) below rfl (by omega)
    (endOf.symm.trans endEq) (Set.subset_univ _) textInside dataInside
  have base : s.pageBase = 0 := ready.holds.manages.base
  have size : s.pageCount = (ramSize + 4095) / 4096 := ready.holds.manages.count.trans count
  have free : s.freePages = Set.Ico first g.pageCount := ready.freePages_eq
  rw [pageSize_eq, endEq]
  have kinds : PmapPageType.kernelText.toBits ≠ PmapPageType.kernelData.toBits := by decide
  constructor
  · rintro ⟨after, outcome, -, -, marked⟩ page low meets
    rw [run] at outcome
    cases outcome
    rw [pageSize_eq, endEq] at marked
    have text := (marked page ⟨by omega, by omega⟩ low).1 meets
    rw [types page (by omega)] at text
    by_contra past
    rw [if_neg (fun counted => past counted.2)] at text
    exact kinds text.symm
  · intro counted
    refine ⟨s, run, fun page => ?_, fun page => ?_, fun page _ low => ?_⟩
    · unfold PageManaged
      rw [meetsRange_iff, base, size]
      omega
    · unfold PageManaged
      rw [free, base, size, endEq, pageSize_eq, Set.mem_Ico, count]
      omega
    · rw [pageSize_eq, endEq] at low
      rw [types page (by omega)]
      constructor
      · intro meets
        have past := counted page low meets
        rw [meetsRange_iff] at meets
        exact if_pos ⟨by omega, past⟩
      · intro outside
        exact if_neg fun inside => outside (meetsRange_of_counted inside.1 inside.2)

/-- A range that starts with a page has no page past the counted ones. -/
theorem counted_of_aligned {base size page : Nat} (aligned : 4096 ∣ base) (meets : MeetsRange base size page) :
    page < base / pageSize + (size + (pageSize - 1)) / pageSize := by
  obtain ⟨k, rfl⟩ := aligned
  rw [meetsRange_iff] at meets
  rw [pageSize_eq]
  omega

end Pfa

open Pfa

/-- `pmap_pfa_init` keeps the promise of its header for RAM at address zero only, and there for
kernel text that starts with a page. -/
theorem init_keeps_promise_iff {ramBase ramSize textBase textSize dataBase dataSize reserved : Nat} {raw : Pfa}
    (request : InitRequest ramBase ramSize textBase textSize dataBase dataSize reserved)
    (owned : ∀ a, raw.mayLink a = true) (physmapPos : 0 < raw.physmapVmBase)
    (physmapFits : raw.physmapVmBase + roundUp (ramBase + ramSize) 4096 ≤ 2 ^ 64) :
    (InitKeepsPromise ramBase ramSize textBase textSize dataBase dataSize reserved raw ↔
      ramBase = 0 ∧ ∀ page, page * pageSize < reservedEndOf ramSize reserved → MeetsRange textBase textSize page →
        page < textBase / pageSize + (textSize + (pageSize - 1)) / pageSize) ∧
    (4096 ∣ textBase →
      (InitKeepsPromise ramBase ramSize textBase textSize dataBase dataSize reserved raw ↔ ramBase = 0)) := by
  have positive : 0 < ramSize := by
    have step := requiredBytes_pos ((ramSize + (pageSize - 1)) / pageSize)
    have := request.ramBase_le
    have := request.reservedEnd_le
    unfold reservedEndOf at this
    omega
  have exact : InitKeepsPromise ramBase ramSize textBase textSize dataBase dataSize reserved raw ↔
      ramBase = 0 ∧ ∀ page, page * pageSize < reservedEndOf ramSize reserved → MeetsRange textBase textSize page →
        page < textBase / pageSize + (textSize + (pageSize - 1)) / pageSize := by
    by_cases zero : ramBase = 0
    · subst zero
      have inside := request.reservedEnd_le
      have text := request.text_inside.2
      have data := request.data_inside.2
      have below := request.below
      rw [Nat.zero_add] at inside text data below physmapFits
      rw [promise_zero_iff request.reserved_dvd inside text data below owned physmapPos physmapFits]
      exact (and_iff_right rfl).symm
    · refine iff_of_false (fun promise => zero ?_) fun holds => zero holds.1
      exact ramBase_eq_zero request.ramBase_dvd request.below positive promise
  refine ⟨exact, fun aligned => exact.trans (and_iff_left fun page _ meets => ?_)⟩
  exact counted_of_aligned aligned meets

/-- Memory of which every page may take a list node. -/
def linkablePfa : Pfa := { blankPfa with physmapVmBase := 0x100000000 }

theorem init_keeps_promise_iff_sample : InitKeepsPromise 0 0x10000 0 0x1000 0x1000 0x1000 0x2000 linkablePfa := by
  have request : InitRequest 0 0x10000 0 0x1000 0x1000 0x1000 0x2000 := by constructor <;> decide
  exact ((init_keeps_promise_iff request (fun _ => rfl) (by decide) (by decide)).2 ⟨0, rfl⟩).mpr rfl

/-- RAM of 128 KB from address 64 KB on is taken for 64 KB. -/
theorem ram_above_zero_miscounted :
    InitRequest 0x10000 0x20000 0x10000 0x1000 0x11000 0x1000 0x12000 ∧
    ¬InitKeepsPromise 0x10000 0x20000 0x10000 0x1000 0x11000 0x1000 0x12000 linkablePfa := by
  refine ⟨by constructor <;> decide, fun promise => ?_⟩
  exact absurd (ramBase_eq_zero ⟨16, rfl⟩ (by decide) (by decide) promise) (by decide)

end Swink
