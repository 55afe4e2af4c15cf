import Swink.Pfa.Guarantees

namespace Swink

namespace Pfa

/-- The ids of the pages the allocator manages. -/
def PageManaged (s : Pfa) (page : Nat) : Prop := s.pageBase ≤ page ∧ page < s.pageBase + s.pageCount

/-- The type in the metadata entry of a managed page, which the store keeps relative to the base. -/
def typeOfPage (s : Pfa) (page : Nat) : BitVec 2 := pageTypeOf (s.metadata (page - s.pageBase))

variable {s : Pfa} {page base count : Nat} {type : PmapPageType} {metadata : BitVec 8}

@[simp] theorem store_metadataByte (i : Nat) : PfaStore.metadataByte i s = s.metadataByte i := rfl

theorem acquire_unlocked (unlocked : s.lock = 1) : synchsLockAcquire s = .ok { s with lock := 0 } := by
  simp [synchsLockAcquire, unlocked, PfaStore.setLockValue]

theorem release_unlocked (unlocked : s.lock = 1) : synchsLockRelease ({ s with lock := 0 } : Pfa) = s := by
  cases s
  subst unlocked
  rfl

/-- The metadata of a managed page is read at its own number, not relative to the base. -/
theorem mdsGetMetadataLocked_eq (managed : s.PageManaged page) (small : page < 2 ^ 32) :
    mdsGetMetadataLocked page s = if page < s.pageCount then .ok (s.metadata page)
      else .error (.undefined "pfa->metadata") := by
  obtain ⟨above, below⟩ := managed
  rw [mdsGetMetadataLocked, store_pageBase, store_pageCount, sub32_of_le above small, assert_of (by omega), ok_bind,
    store_metadataByte, metadataByte]

theorem pmapPfaMdsGetMetadata_eq (unlocked : s.lock = 1) (managed : s.PageManaged page) (small : page < 2 ^ 32) :
    pmapPfaMdsGetMetadata page s = if page < s.pageCount then .ok (s.metadata page, s)
      else .error (.undefined "pfa->metadata") := by
  rw [pmapPfaMdsGetMetadata, acquire_unlocked unlocked, ok_bind,
    mdsGetMetadataLocked_eq (s := { s with lock := 0 }) managed small]
  by_cases inside : page < s.pageCount
  · rw [if_pos inside, if_pos inside, ok_bind, release_unlocked unlocked]
  · rw [if_neg inside, if_neg inside]
    rfl

theorem pmapPfaMdsGetMetadata_with (unlocked : s.lock = 1) (managed : s.PageManaged page) (small : page < 2 ^ 32)
    (bytes : Nat → BitVec 8) :
    pmapPfaMdsGetMetadata page ({ s with metadata := bytes } : Pfa) =
      if page < s.pageCount then .ok (bytes page, { s with metadata := bytes })
      else .error (.undefined "pfa->metadata") :=
  pmapPfaMdsGetMetadata_eq (s := { s with metadata := bytes }) unlocked managed small

/-- The rounds of the type check all look at the first page. -/
theorem requireRangeTypeLoop_eq (type : PmapPageType) (managed : s.PageManaged page) (small : page < 2 ^ 32)
    (rounds i : Nat) : ∃ message, requireRangeTypeLoop page type rounds i s =
      if rounds = 0 then .ok ()
      else if page < s.pageCount then
        if pageTypeOf (s.metadata page) = type.toBits then .ok () else .error (.panic message)
      else .error (.undefined "pfa->metadata") := by
  induction rounds generalizing i with
  | zero => exact ⟨"", rfl⟩
  | succ rounds ih =>
    rw [requireRangeTypeLoop, mdsGetMetadataLocked_eq managed small]
    by_cases inside : page < s.pageCount
    · by_cases right : pageTypeOf (s.metadata page) = type.toBits
      · obtain ⟨message, rest⟩ := ih (i + 1)
        refine ⟨message, ?_⟩
        rw [if_pos inside, ok_bind, if_neg (not_not_intro right), rest]
        simp [inside, right]
      · rw [if_pos inside, ok_bind, if_pos right]
        simp [inside, right]
    · exact ⟨"", by simp [inside]⟩

/-- What the type check should do: return when all pages of the range have the type, and panic otherwise. -/
def RequiresType (s : Pfa) (page count : Nat) (type : PmapPageType) : Prop :=
  ((∃ after, pmapPfaMdsRequireRangeType page count type s = .ok after) ↔
    ∀ q, page ≤ q → q < page + count → s.typeOfPage q = type.toBits) ∧
  ((¬∃ after, pmapPfaMdsRequireRangeType page count type s = .ok after) →
    ∃ message, pmapPfaMdsRequireRangeType page count type s = .error (.panic message))

/-- What the type check does on a range of managed pages. -/
theorem pmapPfaMdsRequireRangeType_eq (type : PmapPageType) (unlocked : s.lock = 1) (countLt : s.pageCount < 2 ^ 32)
    (above : s.pageBase ≤ page) (below : page + count ≤ s.pageBase + s.pageCount) (small : page < 2 ^ 32) :
    ∃ message, pmapPfaMdsRequireRangeType page count type s =
      if page + count = s.pageBase + s.pageCount then .error (.panic message)
      else if count = 0 then .ok s
      else if page < s.pageCount then
        if pageTypeOf (s.metadata page) = type.toBits then .ok s else .error (.panic message)
      else .error (.undefined "pfa->metadata") := by
  have offset : u32 (sub32 page s.pageBase + count) = page - s.pageBase + count := by
    rw [sub32_of_le above small, u32_of_lt (by omega)]
  rw [pmapPfaMdsRequireRangeType, store_pageBase, store_pageCount, offset]
  by_cases last : page + count = s.pageBase + s.pageCount
  · refine ⟨"Assertion failed: " ++ "page - pfa->page_base + count < pfa->page_count", ?_⟩
    rw [if_pos last, assert, if_neg (by omega)]
    rfl
  · have managed : PageManaged { s with lock := 0 } page := ⟨above, show page < s.pageBase + s.pageCount by omega⟩
    obtain ⟨message, rounds⟩ := requireRangeTypeLoop_eq type managed small count 0
    refine ⟨message, ?_⟩
    rw [assert_of (by omega), ok_bind, acquire_unlocked unlocked, ok_bind, rounds, if_neg last]
    by_cases nothing : count = 0
    · rw [if_pos nothing, if_pos nothing, ok_bind, release_unlocked unlocked]
    · rw [if_neg nothing, if_neg nothing]
      by_cases inside : page < s.pageCount
      · by_cases right : pageTypeOf (s.metadata page) = type.toBits
        · simp only [if_pos inside, if_pos right, ok_bind, release_unlocked unlocked]
        · simp only [if_pos inside, if_neg right, error_bind]
      · simp only [if_neg inside, error_bind]

/-- Writing the metadata of managed pages stays inside the store. -/
theorem applyMetadataRangeLocked_managed (countLt : s.pageCount < 2 ^ 32) (above : s.pageBase ≤ base)
    (below : base + count ≤ s.pageBase + s.pageCount) (small : base < 2 ^ 32) (metadata : BitVec 8) :
    applyMetadataRangeLocked base count metadata s =
      .ok { s with metadata := fillRange s.metadata (base - s.pageBase) count metadata } := by
  rw [applyMetadataRangeLocked, store_pageBase, store_pageCount, sub32_of_le above small, u64_of_lt (by omega),
    assert_of (by omega), ok_bind, if_neg (by omega), store_fillMetadata, fillMetadata, if_pos (by omega)]
  rfl

/-- What the metadata store should do: after a range of pages was given a value, every page of the
range reads as that value, every other page as before, and no access leaves the store. -/
def ReadsBack (s : Pfa) (base count : Nat) (metadata : BitVec 8) : Prop :=
  ∃ after, applyMetadataRangeLocked base count metadata s = .ok after ∧
    ∀ page, s.PageManaged page → ∃ byte, pmapPfaMdsGetMetadata page after = .ok (byte, after) ∧
      (base ≤ page ∧ page < base + count → byte = metadata) ∧
      (¬(base ≤ page ∧ page < base + count) → pmapPfaMdsGetMetadata page s = .ok (byte, s))

/-- The store reads back what was written when the pages are numbered from zero, and only then:
otherwise reading the last page leaves the store. -/
theorem readsBack_iff (unlocked : s.lock = 1) (countLt : s.pageCount < 2 ^ 32)
    (fits : s.pageBase + s.pageCount ≤ 2 ^ 32) (above : s.pageBase ≤ base)
    (below : base + count ≤ s.pageBase + s.pageCount) (small : base < 2 ^ 32) (metadata : BitVec 8) :
    s.ReadsBack base count metadata ↔ s.pageBase = 0 ∨ s.pageCount = 0 := by
  have written := applyMetadataRangeLocked_managed countLt above below small metadata
  constructor
  · rintro ⟨after, run, reads⟩
    rw [written] at run
    cases run
    by_contra neither
    have last : s.PageManaged (s.pageBase + s.pageCount - 1) := ⟨by omega, by omega⟩
    obtain ⟨byte, read, -, -⟩ := reads _ last
    rw [pmapPfaMdsGetMetadata_with unlocked last (by omega), if_neg (by omega)] at read
    cases read
  · intro cases_
    refine ⟨_, written, fun page managed => ?_⟩
    have base_zero : s.pageBase = 0 := cases_.resolve_right fun none => by
      obtain ⟨lower, upper⟩ := managed
      omega
    have inside : page < s.pageCount := by
      have := managed.2
      omega
    have pageLt : page < 2 ^ 32 := by omega
    refine ⟨_, (pmapPfaMdsGetMetadata_with unlocked managed pageLt _).trans (if_pos inside), fun within => ?_,
      fun outside => ?_⟩
    · exact if_pos (by rw [base_zero, Nat.sub_zero]; exact within)
    · rw [pmapPfaMdsGetMetadata_eq unlocked managed pageLt, if_pos inside]
      exact congrArg (fun byte => Except.ok (byte, s)) (if_neg (by rw [base_zero, Nat.sub_zero]; exact outside)).symm

end Pfa

open Pfa

/-- The type check meets its contract exactly in the cases in which its two slips do no harm: it
refuses every range that ends at the last managed page, and otherwise looks at one entry only, the
one whose index is the number of the first page. -/
theorem range_type_check_iff (s : Pfa) (unlocked : s.lock = 1) (countLt : s.pageCount < 2 ^ 32) {page count : Nat}
    (above : s.pageBase ≤ page) (below : page + count ≤ s.pageBase + s.pageCount) (small : page < 2 ^ 32)
    (type : PmapPageType) :
    s.RequiresType page count type ↔
      if page + count = s.pageBase + s.pageCount then
        ∃ q, page ≤ q ∧ q < page + count ∧ s.typeOfPage q ≠ type.toBits
      else count = 0 ∨ page < s.pageCount ∧ (pageTypeOf (s.metadata page) = type.toBits ↔
        ∀ q, page ≤ q → q < page + count → s.typeOfPage q = type.toBits) := by
  obtain ⟨message, run⟩ := pmapPfaMdsRequireRangeType_eq type unlocked countLt above below small
  rw [RequiresType, run]
  by_cases last : page + count = s.pageBase + s.pageCount
  · simp [last]
  · simp only [if_neg last]
    by_cases nothing : count = 0
    · subst nothing
      simp
      omega
    · simp only [nothing, if_false, false_or]
      by_cases inside : page < s.pageCount
      · by_cases right : pageTypeOf (s.metadata page) = type.toBits
        · simp [inside, right]
        · simp [inside, right]
      · simp [inside]

/-- Where the first managed page is page zero, the one entry looked at is that of the first page of the
range: the type check is right about a range that ends before the last page just if that page is not of
the type or all of them are. -/
theorem range_type_check_zero (s : Pfa) (unlocked : s.lock = 1) (countLt : s.pageCount < 2 ^ 32) (zero : s.pageBase = 0)
    {page count : Nat} (some : 0 < count) (below : page + count < s.pageCount) (type : PmapPageType) :
    s.RequiresType page count type ↔
      s.typeOfPage page ≠ type.toBits ∨ ∀ q, page ≤ q → q < page + count → s.typeOfPage q = type.toBits := by
  obtain ⟨message, run⟩ := pmapPfaMdsRequireRangeType_eq type unlocked countLt (by omega)
    (show page + count ≤ s.pageBase + s.pageCount by omega) (show page < 2 ^ 32 by omega)
  have notLast : page + count ≠ s.pageBase + s.pageCount := by omega
  have here : s.typeOfPage page = pageTypeOf (s.metadata page) := by rw [typeOfPage, zero, Nat.sub_zero]
  have runs : pmapPfaMdsRequireRangeType page count type s =
      if s.typeOfPage page = type.toBits then .ok s else .error (.panic message) := by
    rw [run, if_neg notLast, if_neg (show count ≠ 0 by omega), if_pos (show page < s.pageCount by omega), here]
  rw [RequiresType, runs]
  by_cases right : s.typeOfPage page = type.toBits
  · simp [right]
  · have wrong : ¬∀ q, page ≤ q → q < page + count → s.typeOfPage q = type.toBits :=
      fun all => right (all page le_rfl (by omega))
    simp [right, wrong]

/-- Sixteen pages from page zero on, the fourth of which holds kernel text. -/
def sampleTypes : Pfa :=
  { blankPfa with
    pageCount := 16
    lock := 1
    metadata := fun i => if i = 4 then PmapPageType.kernelText.metadata else PmapPageType.kernelData.metadata }

theorem range_type_check_iff_sample : sampleTypes.RequiresType 5 3 .kernelData := by
  refine (range_type_check_iff sampleTypes rfl (by decide) (by decide) (by decide) (by decide) .kernelData).mpr ?_
  rw [if_neg (by decide)]
  refine Or.inr ⟨by decide, iff_of_true (by decide) fun q lower upper => ?_⟩
  have other : q ≠ 4 := by omega
  simp [typeOfPage, sampleTypes, blankPfa, other, pageTypeOf, PmapPageType.metadata, PmapPageType.toBits]

/-- A page of kernel text after a page of kernel data passes for data. -/
theorem second_page_not_checked : ¬sampleTypes.RequiresType 3 2 .kernelData := by
  rintro ⟨returns, -⟩
  have same := returns.mp ⟨_, rfl⟩ 4 (by decide) (by decide)
  exact absurd same (by decide)

/-- The allocator with the metadata that the last allocation of every page passed. -/
structure Recorded where
  pfa : Pfa
  last : Nat → Option (BitVec 8)

namespace Recorded

def record (r : Recorded) (result size : Nat) (metadata : BitVec 8) : Nat → Option (BitVec 8) := fun q =>
  if result ≠ physAddrInvalid ∧ result / 4096 ≤ q ∧ q < result / 4096 + (size + 4095) / 4096 then some metadata
  else r.last q

/-- Any request, and the release of any managed pages none of which is free, with the metadata recorded. -/
inductive Step : Recorded → Recorded → Prop
  | alloc {r : Recorded} {after : Pfa} {size result : Nat} {metadata : BitVec 8} (sizeLt : size < 2 ^ 64)
      (run : pmapPfaAllocContig size metadata r.pfa = .ok (result, after)) :
      Step r ⟨after, r.record result size metadata⟩
  | free {r : Recorded} {after : Pfa} {addr size : Nat} (addrLt : addr < 2 ^ 64) (sizeLt : size < 2 ^ 64)
      (managed : ∀ q ∈ pagesOf addr size, q < r.pfa.pageCount)
      (notFree : Disjoint (pagesOf addr size) r.pfa.freePages)
      (run : pmapPfaFreeContig addr size r.pfa = .ok after) : Step r ⟨after, r.last⟩

/-- The store holds what is recorded. -/
structure Faithful (g : Geometry) (r : Recorded) : Prop where
  ready : ∃ free, r.pfa.Ready g free
  stored : ∀ q metadata, r.last q = some metadata → q < g.pageCount ∧ r.pfa.metadata q = metadata

variable {g : Geometry} {r r' : Recorded}

theorem Faithful.step (faithful : r.Faithful g) (whole : g.usable = Set.univ) (step : Step r r') : r'.Faithful g := by
  obtain ⟨free, ready⟩ := faithful.ready
  cases step with
  | @alloc after size result metadata sizeLt run =>
    refine ⟨ready.after_alloc run, ?_⟩
    have unchanged (same : result = physAddrInvalid) : r.record result size metadata = r.last := by
      funext q
      exact if_neg fun inside => inside.1 same
    rcases Nat.lt_or_ge 131072 size with large | small
    · rw [pmapPfaAllocContig_large large] at run
      cases run
      rw [unchanged rfl]
      exact faithful.stored
    · rcases pmapPfaAllocContig_spec ready small metadata with ⟨outcome, -⟩ | ⟨level, page, _, outcome, -, -, takes⟩
      · rw [outcome] at run
        cases run
        rw [unchanged rfl]
        exact faithful.stored
      · rw [outcome] at run
        cases run
        have inside := (ready.holds.managed level page takes.maximal).2.2.1
        have fits := takes.fits
        have first : page * 4096 / 4096 = page := Nat.mul_div_cancel _ (by decide)
        rw [sizeToPageCount_eq (show size < 2 ^ 43 by omega)] at fits
        intro q byte recorded
        rw [takes.metadata_eq, sizeToPageCount_eq (show size < 2 ^ 43 by omega)]
        simp only [record, first] at recorded
        by_cases covered : page ≤ q ∧ q < page + (size + 4095) / 4096
        · have countLe := g.pageCount_le
          have valid : page * 4096 ≠ physAddrInvalid := by unfold physAddrInvalid; omega
          rw [if_pos ⟨valid, covered⟩] at recorded
          exact ⟨by omega, (if_pos covered).trans (Option.some.inj recorded)⟩
        · rw [if_neg fun inside => covered inside.2] at recorded
          obtain ⟨managed, stored⟩ := faithful.stored q byte recorded
          exact ⟨managed, (if_neg covered).trans stored⟩
  | @free after addr size addrLt sizeLt managed notFree run =>
    rw [ready.freePages_eq] at notFree
    obtain ⟨_, outcome, afterReady, kept⟩ := pmapPfaFreeContig_spec ready addrLt sizeLt
      (fun q member => ready.holds.manages.count ▸ managed q member) (whole ▸ Set.subset_univ _) notFree
    rw [outcome] at run
    cases run
    refine ⟨⟨_, afterReady⟩, fun q byte recorded => ?_⟩
    obtain ⟨inside, stored⟩ := faithful.stored q byte recorded
    exact ⟨inside, (congrFun kept q).trans stored⟩

theorem Faithful.run (faithful : r.Faithful g) (whole : g.usable = Set.univ)
    (run : Relation.ReflTransGen Step r r') : r'.Faithful g := by
  induction run with
  | refl => exact faithful
  | tail _ step ih => exact ih.step whole step

/-- What is recorded for a page is what the store says. -/
theorem Faithful.read (faithful : r.Faithful g) {page : Nat} {metadata : BitVec 8}
    (recorded : r.last page = some metadata) : pmapPfaMdsGetMetadata page r.pfa = .ok (metadata, r.pfa) := by
  obtain ⟨free, ready⟩ := faithful.ready
  obtain ⟨inside, stored⟩ := faithful.stored page metadata recorded
  have countLe := g.pageCount_le
  have base := ready.holds.manages.base
  have count := ready.holds.manages.count
  rw [pmapPfaMdsGetMetadata_eq ready.unlocked ⟨by omega, by omega⟩ (by omega), if_pos (by omega), stored]

end Recorded

/-- The metadata store reads back what was written exactly when its pages are numbered from zero,
and then every page reads as the metadata of the last allocation that covered it, after any run. -/
theorem metadata_reads_back_iff {s : Pfa} {base count : Nat} (metadata : BitVec 8) (unlocked : s.lock = 1)
    (countLt : s.pageCount < 2 ^ 32) (fits : s.pageBase + s.pageCount ≤ 2 ^ 32) (above : s.pageBase ≤ base)
    (below : base + count ≤ s.pageBase + s.pageCount) (small : base < 2 ^ 32) :
    (s.ReadsBack base count metadata ↔ s.pageBase = 0 ∨ s.pageCount = 0) ∧
    ∀ (b : BootParams) (s₀ : Pfa) (r : Recorded), b.Boots s₀ →
      Relation.ReflTransGen Recorded.Step ⟨s₀, fun _ => none⟩ r →
      ∀ page value, r.last page = some value → pmapPfaMdsGetMetadata page r.pfa = .ok (value, r.pfa) := by
  constructor
  · exact readsBack_iff unlocked countLt fits above below small metadata
  · intro b s₀ r boots run page value recorded
    have start : Recorded.Faithful (b.geometry Set.univ) ⟨s₀, fun _ => none⟩ := ⟨⟨_, boots.ready⟩, nofun⟩
    exact (start.run rfl run).read recorded

theorem metadata_reads_back_iff_sample :
    sampleTypes.ReadsBack 3 2 PmapPageType.pageTable.metadata ∧ ∃ s, sampleBoot.Boots s ∧
      ∀ result after, pmapPfaAllocContig 0x1000 2 s = .ok (result, after) → result ≠ physAddrInvalid →
        pmapPfaMdsGetMetadata (result / 4096) after = .ok (2, after) := by
  obtain ⟨s, boots⟩ := sampleBoot_boots
  have below : 3 + 2 ≤ sampleTypes.pageBase + sampleTypes.pageCount := by decide
  obtain ⟨reads, runs⟩ := metadata_reads_back_iff PmapPageType.pageTable.metadata (s := sampleTypes) rfl (by decide)
    (by decide) (by decide) below (by decide)
  refine ⟨reads.mpr (Or.inl rfl), s, boots, fun result after run valid => ?_⟩
  refine runs sampleBoot s _ boots (.single (.alloc (by decide) run)) _ 2 ?_
  exact if_pos ⟨valid, le_rfl, by omega⟩

/-- With pages numbered from 16 on, the entry read for the last page lies behind the store. -/
theorem shifted_pages_not_read_back :
    ¬ReadsBack { blankPfa with pageBase := 16, pageCount := 16, lock := 1 } 16 1 PmapPageType.pageTable.metadata := by
  intro reads
  have zero := (readsBack_iff rfl (by decide) (by decide) (by decide) (by decide) (by decide) _).mp reads
  exact absurd zero (by decide)

end Swink
