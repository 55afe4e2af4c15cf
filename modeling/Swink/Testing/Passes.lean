import Swink.Testing.Marks

namespace Swink.TestPmapPfa
open PfaImage Mem Pfa Blocks Dyadic
variable {mdsOffset : Nat → Nat} {b : BootParams} {image : PfaImage mdsOffset} {base : Set Nat} {cnt : Int}
  {start : Mem} {l rounds : Nat} {pages : List Nat} {t : Statics mdsOffset}

theorem Collected.length_le (collected : Collected b start base l cnt pages image) : pages.length ≤ 2 ^ 20 := by
  have countLe : b.pageCount ≤ 2 ^ 20 := (b.geometry b.initialFree).pageCount_le
  have sub : pages ⊆ List.range b.pageCount := fun q member => List.mem_range.mpr (collected.fresh q member).1.2
  have fewer := (collected.nodup.subperm sub).length_le
  rw [List.length_range] at fewer
  omega

/-- The first loop of `oom_sweep` never sees its own mark and ends when it holds all pages. -/
theorem oomAllocLoop_spec (placed : b.Placed mdsOffset) (above : AboveMarks b) (stack : Stack b base l) (pos : 0 < cnt)
    (small : cnt ≤ INT_MAX) : ∀ {rounds : Nat} {pages : List Nat} {image : PfaImage mdsOffset},
      2 ^ 20 < rounds + pages.length → Collected b start base l cnt pages image →
      Unmarked b (b.initialFree \ (base ∪ {q | q ∈ pages})) (cnt - 1) image.mem →
      ∃ pages' image', oomAllocLoop l (magicOf cnt) rounds image = .ok (false, image') ∧
        Collected b start base l cnt pages' image' := by
  intro rounds
  induction rounds with
  | zero =>
    intro pages image enough collected _
    have := collected.length_le
    omega
  | succ rounds ih =>
    intro pages image enough collected clean
    rcases Set.eq_empty_or_nonempty (b.initialFree \ (base ∪ {q | q ∈ pages})) with none | nonempty
    · obtain ⟨w, mirrors⟩ := collected.holding.mirrors
      have ready := mirrors.ready
      rw [none] at ready
      have run := ready.allocPage_none pfaMetadata
      obtain ⟨after, w', run', mirrors', kept⟩ := mirrors.request placed run mirrors.owned mirrors.ready
      have owned : b.initialFree \ (base ∪ {q | q ∈ pages}) ⊆ b.initialFree \ base :=
        Set.sdiff_subset_sdiff_right Set.subset_union_left
      refine ⟨pages, after, ?_, ⟨⟨⟨w', mirrors'⟩, collected.holding.base_le,
        collected.holding.unmarked.kept above pos.le Set.sdiff_subset kept,
        fun a out => (Kept.outside kept owned out).trans (collected.holding.outside a out)⟩,
        Kept.list kept stack owned collected.fresh (fun q member outside => outside.2 (Or.inr member)) collected.list,
        collected.nodup, collected.fresh⟩⟩
      rw [oomAllocLoop, run', ok_bind]
      exact if_pos rfl
    · obtain ⟨q, after, mem, run, valid, kva, unmarked, push, collected', clean'⟩ :=
        collected.push placed above stack pos small clean nonempty
      obtain ⟨pages', image', rest, done⟩ := ih (by rw [List.length_cons]; omega) collected' clean'
      refine ⟨pages', image', ?_, done⟩
      rw [oomAllocLoop, run, ok_bind]
      simp only [kva]
      rw [if_neg valid, if_neg unmarked]
      simp only [elemAt] at push
      rw [push, ok_bind]
      exact rest

/-- The second loop gives back all pages of the list. -/
theorem oomFreeLoop_spec (placed : b.Placed mdsOffset) (above : AboveMarks b) (stack : Stack b base l) (pos : 0 ≤ cnt) :
    ∀ {pages : List Nat} {rounds : Nat} {image : PfaImage mdsOffset}, pages.length < rounds →
      Collected b start base l cnt pages image →
      ∃ image', oomFreeLoop l rounds (cursor l (pages.map (elemAt b))) image = .ok image' ∧
        Holding b start base l cnt base image' := by
  intro pages
  induction pages with
  | nil =>
    intro rounds image enough collected
    obtain ⟨rounds, rfl⟩ : ∃ n, rounds = n + 1 := ⟨rounds - 1, by omega⟩
    have holding := collected.holding
    have none : base ∪ {q | q ∈ ([] : List Nat)} = base := by simp
    rw [none] at holding
    refine ⟨image, ?_, holding⟩
    rw [oomFreeLoop, collected.list.end_eq, ok_bind]
    exact if_pos rfl
  | cons q pages ih =>
    intro rounds image enough collected
    obtain ⟨rounds, rfl⟩ : ∃ n, rounds = n + 1 := ⟨rounds - 1, by rw [List.length_cons] at enough; omega⟩
    have list : ListAt l ([] ++ elemAt b q :: pages.map (elemAt b)) image.mem := collected.list
    obtain ⟨next, mem, after, removed, pa, run, collected'⟩ := collected.pop placed above stack pos
    have fewer : pages.length < rounds := by
      rw [List.length_cons] at enough
      omega
    obtain ⟨image', rest, done⟩ := ih fewer collected'
    refine ⟨image', ?_, done⟩
    rw [List.map_cons, cursor_cons, oomFreeLoop, collected.list.end_eq, ok_bind, if_neg list.elem_ne_tail, next, ok_bind,
      removed, ok_bind, pa, ok_bind, run, ok_bind]
    exact rest

/-- Setting up the list on the stack. -/
theorem Collected.begin (placed : b.Placed mdsOffset) (stack : Stack b base l) (holding : Holding b start base l cnt base image) :
    ∃ mem, listInit l image.mem = .ok mem ∧ Collected b start base l cnt [] (image.withMem mem) ∧
      ∀ past, Unmarked b (b.initialFree \ base) past image.mem → Unmarked b (b.initialFree \ base) past mem := by
  have none : base ∪ {q | q ∈ ([] : List Nat)} = base := by simp
  have cells : Cells {a | a ∈ whole l (([] : List Nat).map (elemAt b))} := nodes_cells stack (by simp)
  obtain ⟨mem, run, list, untouched⟩ := listInit_at cells image.mem
  have untouched : Untouched {a | a ∈ whole l (([] : List Nat).map (elemAt b))} image.mem mem := untouched
  have marks (past : Int) (unmarked : Unmarked b (b.initialFree \ base) past image.mem) :
      Unmarked b (b.initialFree \ base) past mem :=
    unmarked.congr fun q member => untouched_word stack untouched member
  refine ⟨mem, run, ⟨?_, list, List.nodup_nil, by simp⟩, marks⟩
  rw [none]
  exact holding.scribble placed stack (fun a offStack _ => untouched_outside untouched offStack (by simp [bytesOf]))
    (marks _ holding.unmarked)

theorem oomSweep_spec (placed : b.Placed mdsOffset) (above : AboveMarks b) (stack : Stack b base l)
    (enough : 2 ^ 20 < rounds) (settled : Settled b start base l t) (small : t.oomSweepRunCnt < INT_MAX) :
    ∃ t', oomSweep rounds l t = .ok (0, t') ∧ Settled b start base l t' ∧ t'.oomSweepRunCnt = t.oomSweepRunCnt + 1 := by
  have pos := settled.pos
  have next : Holding b start base l (t.oomSweepRunCnt + 1) base t.image :=
    ⟨settled.holding.mirrors, settled.holding.base_le, settled.holding.unmarked.mono Set.Subset.rfl (by omega),
      settled.holding.outside⟩
  obtain ⟨mem, init, collected, marks⟩ := Collected.begin placed stack next
  have clean : Unmarked b (b.initialFree \ (base ∪ {q | q ∈ ([] : List Nat)})) (t.oomSweepRunCnt + 1 - 1)
      (t.image.withMem mem).mem := by
    refine (marks _ settled.holding.unmarked).mono ?_ (by omega)
    simp
  obtain ⟨pages, taken, allocated, collected⟩ :=
    oomAllocLoop_spec placed above stack (by omega) (by omega) (by simp only [List.length_nil]; omega) collected clean
  have short := collected.length_le
  obtain ⟨given, freed, holding⟩ := oomFreeLoop_spec placed above stack (by omega)
    (show pages.length < rounds by omega) collected
  have settled' : Settled b start base l
      { t with image := given, oomSweepRunCnt := t.oomSweepRunCnt + 1 } := ⟨holding, settled.original, by
    show 0 ≤ t.oomSweepRunCnt + 1
    omega⟩
  refine ⟨_, ?_, settled', rfl⟩
  rw [oomSweep, init, ok_bind, if_neg (by omega)]
  dsimp only
  rw [allocated, ok_bind]
  dsimp only
  rw [if_neg Bool.false_ne_true, collected.list.begin_eq, ok_bind, freed, ok_bind]
  exact compareState_spec placed enough settled'

/-- How many runs of `oom_sweep` a case is. -/
def Case.oomRuns : Case → Int
  | oomSweep => 1
  | _ => 0

theorem Case.passes (placed : b.Placed mdsOffset) (above : AboveMarks b) (stack : Stack b base l)
    (enough : 2 ^ 20 < rounds) (room : Room (b.initialFree \ base) 31) (addrs : Nat → Nat) (case : Case)
    (settled : Settled b start base l t) (small : t.oomSweepRunCnt + case.oomRuns ≤ INT_MAX) :
    ∃ t', case.function rounds l addrs t = .ok (0, t') ∧ Settled b start base l t' ∧
      t'.oomSweepRunCnt = t.oomSweepRunCnt + case.oomRuns := by
  cases case with
  | simpleSweep => simpa [oomRuns, function] using simpleSweep_spec placed above enough room settled
  | multiSweep => simpa [oomRuns, function] using multiSweep_spec placed above enough room addrs settled
  | oomSweep =>
    refine oomSweep_spec placed above stack enough settled ?_
    rw [oomRuns] at small
    omega

theorem runCases_spec (placed : b.Placed mdsOffset) (above : AboveMarks b) (stack : Stack b base l)
    (enough : 2 ^ 20 < rounds) (room : Room (b.initialFree \ base) 31) (addrs : Nat → Nat) {suite : List Case} :
    ∀ (passed : Nat) {t : Statics mdsOffset}, Settled b start base l t →
      t.oomSweepRunCnt + (suite.count .oomSweep : Int) ≤ INT_MAX →
      ∃ t', runCases rounds l addrs suite passed t = .ok (passed + suite.length, t') ∧ Settled b start base l t' := by
  induction suite with
  | nil => exact fun _ _ settled _ => ⟨_, rfl, settled⟩
  | cons case suite ih =>
    intro passed t settled small
    have counted : ((case :: suite).count .oomSweep : Int) = case.oomRuns + (suite.count .oomSweep : Int) := by
      cases case <;> simp [Case.oomRuns, Int.add_comm]
    obtain ⟨t', run, settled', runs⟩ := case.passes placed above stack enough room addrs settled (by omega)
    obtain ⟨t'', rest, done⟩ := ih (passed + 1) settled' (by omega)
    refine ⟨t'', ?_, done⟩
    rw [runCases, run, ok_bind, List.length_cons, ← Nat.add_assoc, Nat.add_right_comm]
    exact rest

/-- The repository's own tests pass on whatever memory clients have left, in whatever order and
however often they run: if 31 blocks of the top level are free, if no free page happens to be
marked, and if the list of `oom_sweep` is on a stack of its own. They leave the free pages as they
found them and the rest of the memory alone. -/
theorem suite_passes (placed : b.Placed mdsOffset) (above : AboveMarks b) {raw first : PfaImage mdsOffset}
    (booted : boot b raw = .ok first) {calls : List Call} {results : List (Option Nat)}
    (run : Run b first calls results image base) (room : Room (b.initialFree \ base) 31) (stack : Stack b base l)
    (unmarked : Unmarked b (b.initialFree \ base) 0 image.mem) (enough : 2 ^ 20 < rounds) (original : List Nat)
    (addrs : Nat → Nat) (suite : List Case) (short : (suite.count .oomSweep : Int) ≤ INT_MAX) :
    ∃ t, testRunnerRun rounds l addrs suite ⟨image, original, 0⟩ = .ok ((suite.length, suite.length), t) ∧
      (∃ w, Mirrors b t.image base w) ∧ ∀ a, Outside b base l a → t.image.mem a = image.mem a := by
  obtain ⟨w₀, begins⟩ := Mirrors.start placed.toSeparate booted
  obtain ⟨w, -, mirrors⟩ := run.mirrors placed.toSeparate begins
  have settled : Settled b image.mem base l
      ⟨image, (List.range buddyLevels).map (blockCount (b.initialFree \ base)), 0⟩ :=
    ⟨⟨⟨w, mirrors⟩, Set.Subset.rfl, unmarked, fun _ _ => rfl⟩, rfl, le_rfl⟩
  obtain ⟨t, done, after⟩ := runCases_spec placed above stack enough room addrs 0 settled (by simpa using short)
  rw [Nat.zero_add] at done
  refine ⟨t, ?_, after.holding.mirrors, after.holding.outside⟩
  rw [testRunnerRun, setup, mirrors.getState placed enough, ok_bind, ok_bind]
  dsimp only
  rw [if_neg (by decide), done, ok_bind]

/-- Initialisation marks no page. -/
theorem boot_unmarked (placed : b.Placed mdsOffset) (above : AboveMarks b) {raw first : PfaImage mdsOffset}
    (booted : boot b raw = .ok first) (unmarked : Unmarked b b.initialFree 0 raw.mem) :
    Unmarked b b.initialFree 0 first.mem :=
  unmarked.kept above le_rfl Set.Subset.rfl (boot_traced placed booted)

/-- Eight megabytes of RAM that start with a kernel of four pages. -/
def testBoot : BootParams where
  ramSize := 0x800000
  kernelTextBase := 0
  kernelTextSize := 0x2000
  kernelDataBase := 0x2000
  kernelDataSize := 0x2000
  bootstrapPaReserved := 0x4000
  physmapVmBase := 0xFFFFFFFFC0000000
  ramSize_lt := by decide
  reserved_dvd := by decide
  reserved_le := by decide
  physmap_pos := by decide
  physmap_le := by decide

theorem testBoot_placed : testBoot.Placed packedMdsOffset where
  mds_after := le_rfl
  mds_fits := by decide
  data_inside := by decide
  text_inside := by decide

theorem testBoot_room : Room (testBoot.initialFree \ ∅) 31 := by
  refine ⟨(Finset.range 31).image fun i => 32 * (i + 1), ?_, fun p member => ?_⟩
  · rw [Finset.card_image_of_injective _ fun i j same => by simpa using same, Finset.card_range]
  · obtain ⟨i, inRange, rfl⟩ := Finset.mem_image.mp member
    have := Finset.mem_range.mp inRange
    refine ⟨Nat.dvd_mul_right 32 _, fun q inside => ?_⟩
    have first : testBoot.firstFree = 5 := by decide
    have last : testBoot.pageCount = 2048 := by decide
    have range := mem_block.mp inside
    rw [Set.sdiff_empty, BootParams.initialFree, Set.mem_Ico, first, last]
    omega

theorem suite_passes_sample :
    ∃ first : PfaImage packedMdsOffset, boot testBoot ⟨fun _ => 0, 0, 0⟩ = .ok first ∧
      ∃ t, testRunnerRun (2 ^ 20 + 1) 0x1000 (fun _ => 0) cases ⟨first, [], 0⟩ = .ok ((3, 3), t) := by
  obtain ⟨s, linkable, builds⟩ := boot_depicts testBoot_placed (⟨fun _ => 0, 0, 0⟩ : PfaImage packedMdsOffset)
  obtain ⟨_, run⟩ := testBoot.boot_returns s linkable testBoot_placed.data_inside testBoot_placed.text_inside
  obtain ⟨first, booted, -⟩ := builds.of_ok _ run
  have above : AboveMarks testBoot := show OOM_SWEEP_MAGIC.toNat + 2 ^ 31 ≤ 0xFFFFFFFFC0000000 by decide
  have unmarked : Unmarked testBoot (testBoot.initialFree \ ∅) 0 first.mem := by
    rw [Set.sdiff_empty]
    refine boot_unmarked testBoot_placed above booted fun q _ cnt later small mark => ?_
    have value := congrArg BitVec.toNat mark
    rw [magicOf_toNat (by omega) small] at value
    have zero : 0 = OOM_SWEEP_MAGIC.toNat + cnt.toNat := by simpa [Mem.load64, ByteMemory.load] using value
    have high : OOM_SWEEP_MAGIC.toNat = 0xAAAAAAAACAFECAFE := rfl
    omega
  have stack : Stack testBoot ∅ 0x1000 := by
    refine ⟨by decide, by decide, Or.inl (by decide), fun q _ => Or.inl ?_⟩
    show 0x1000 + 32 ≤ 0xFFFFFFFFC0000000 + q * 4096
    omega
  obtain ⟨t, passed, -⟩ := suite_passes testBoot_placed above booted .start testBoot_room stack unmarked
    (show 2 ^ 20 < 2 ^ 20 + 1 by decide) []
    (fun _ => 0) cases (by decide)
  exact ⟨first, booted, t, passed⟩

end Swink.TestPmapPfa
