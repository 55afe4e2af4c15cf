import Mathlib.Order.BourbakiWitt
import Swink.Testing.Steps
import Swink.Testing.Sweeps

namespace Swink.TestPmapPfa
open PfaImage Mem Pfa Blocks Dyadic
variable {mdsOffset : Nat → Nat} {b : BootParams} {image : PfaImage mdsOffset} {usable pages base held : Set Nat}
  {past cnt : Int} {start mem mem' : Mem} {l : Nat}

/-- None of the pages starts with the mark of a run of `oom_sweep` after that many. -/
def Unmarked (b : BootParams) (pages : Set Nat) (past : Int) (mem : Mem) : Prop :=
  ∀ q ∈ pages, ∀ cnt, past < cnt → cnt ≤ INT_MAX → mem.load64 (b.physmapVmBase + q * 4096) ≠ magicOf cnt

/-- The physmap lies above all marks, so that no mark is the address of a node. -/
def AboveMarks (b : BootParams) : Prop := OOM_SWEEP_MAGIC.toNat + 2 ^ 31 ≤ b.physmapVmBase

theorem magicOf_toNat (pos : 0 ≤ cnt) (small : cnt ≤ INT_MAX) :
    (magicOf cnt).toNat = OOM_SWEEP_MAGIC.toNat + cnt.toNat := by
  obtain ⟨n, rfl⟩ := Int.eq_ofNat_of_zero_le pos
  have value : OOM_SWEEP_MAGIC.toNat = 0xAAAAAAAACAFECAFE := rfl
  have bound : (n : Int) ≤ 2 ^ 31 - 1 := small
  rw [magicOf, BitVec.toNat_add, BitVec.ofInt_natCast, BitVec.toNat_ofNat, Int.toNat_natCast, value]
  omega

theorem magicOf_ne {cnt' : Int} (pos : 0 ≤ cnt) (later : cnt < cnt') (small : cnt' ≤ INT_MAX) :
    magicOf cnt ≠ magicOf cnt' := by
  intro same
  have eq := congrArg BitVec.toNat same
  rw [magicOf_toNat pos (by omega), magicOf_toNat (by omega) small] at eq
  omega

theorem Unmarked.mono {pages' : Set Nat} {past' : Int} (unmarked : Unmarked b pages past mem) (fewer : pages' ⊆ pages)
    (le : past ≤ past') : Unmarked b pages' past' mem :=
  fun q member cnt later small => unmarked q (fewer member) cnt (by omega) small

/-- The marks of pages whose first words stay are what they were. -/
theorem Unmarked.congr (unmarked : Unmarked b pages past mem)
    (same : ∀ q ∈ pages, Agree (b.physmapVmBase + q * 4096) (b.physmapVmBase + q * 4096 + 8) mem mem') :
    Unmarked b pages past mem' := by
  intro q member cnt later small
  rw [(same q member).load64 le_rfl le_rfl]
  exact unmarked q member cnt later small

/-- The allocator marks no page: what it writes there are addresses of nodes. -/
theorem Unmarked.kept (unmarked : Unmarked b pages past mem) (above : AboveMarks b) (pos : 0 ≤ past)
    (inside : pages ⊆ b.initialFree) (kept : Kept (b.geometry usable) b.pfaAddr mem mem') :
    Unmarked b pages past mem' := by
  intro q member cnt later small
  have reserved := (inside member).1
  have endEq := b.reservedEnd_eq
  have same : b.reservedEnd = b.bootstrapPaReserved + requiredBytes b.pageCount := rfl
  by_cases free : q ∈ usable
  · rcases kept.backed _ ⟨q, free, (inside member).2, rfl⟩ with word | node
    · have word : mem'.load64 (b.physmapVmBase + q * 4096) = mem.load64 (b.physmapVmBase + q * 4096) :=
        BitVec.eq_of_toNat_eq word
      rw [word]
      exact unmarked q member cnt later small
    · intro mark
      have address : mem'.prev ((b.geometry usable).node q) = OOM_SWEEP_MAGIC.toNat + cnt.toNat := by
        rw [← magicOf_toNat (by omega) small, ← mark]
        rfl
      rw [address] at node
      have bound : cnt ≤ 2 ^ 31 - 1 := small
      have high : OOM_SWEEP_MAGIC.toNat + 2 ^ 31 ≤ b.physmapVmBase := above
      have start : b.pfaAddr = b.physmapVmBase + b.bootstrapPaReserved := rfl
      rcases node with ⟨level, -, isHead | isTail⟩ | ⟨p, -, -, isNode⟩
      · unfold listHead listAt at isHead
        omega
      · unfold listTail listAt at isTail
        omega
      · have isNode : OOM_SWEEP_MAGIC.toNat + cnt.toNat = b.physmapVmBase + p * 4096 := isNode
        omega
  · have word : Agree (b.physmapVmBase + q * 4096) (b.physmapVmBase + q * 4096 + 8) mem mem' := by
      intro a lower upper
      refine kept.frame a (Or.inr ?_) fun p usablePage _ => ?_
      · show b.physmapVmBase + b.bootstrapPaReserved + requiredBytes b.pageCount ≤ a
        omega
      · have different : q ≠ p := fun eq => free (eq ▸ usablePage)
        show a < b.physmapVmBase + p * 4096 ∨ b.physmapVmBase + p * 4096 + 16 ≤ a
        omega
    rw [word.load64 le_rfl le_rfl]
    exact unmarked q member cnt later small

/-- An address outside the allocator's structures, the pages that were free when the tests started
and the list on the stack. -/
def Outside (b : BootParams) (base : Set Nat) (l a : Nat) : Prop :=
  (a < b.pfaAddr ∨ b.pfaAddr + requiredBytes b.pageCount ≤ a) ∧ a ∉ bytesOf b (b.initialFree \ base) ∧
    (a < l ∨ l + sizeofList ≤ a)

/-- The tests run beside clients that hold the pages `base`, and hold the rest of `held` themselves. -/
structure Holding (b : BootParams) (start : Mem) (base : Set Nat) (l : Nat) (past : Int) (held : Set Nat)
    (image : PfaImage mdsOffset) : Prop where
  mirrors : ∃ w, Mirrors b image held w
  base_le : base ⊆ held
  unmarked : Unmarked b (b.initialFree \ base) past image.mem
  outside : ∀ a, Outside b base l a → image.mem a = start a

/-- What the allocator does to the nodes of free pages is within the free pages of the start. -/
theorem Kept.outside (kept : Kept (b.geometry usable) b.pfaAddr mem mem') (within : usable ⊆ b.initialFree \ base) {a : Nat}
    (out : Outside b base l a) : mem' a = mem a := by
  refine kept.frame a out.1 fun p member _ => ?_
  by_contra inside
  refine out.2.1 ⟨p, within member, ?_⟩
  have node : (b.geometry usable).node p = b.physmapVmBase + p * 4096 := rfl
  omega

/-- A request that the state answers is answered in memory too, and the tests then hold the pages. -/
theorem Holding.request (placed : b.Placed mdsOffset) (above : AboveMarks b) (pos : 0 ≤ past)
    (holding : Holding b start base l past held image) {w : World} (mirrors : Mirrors b image held w) {s : Pfa}
    {result : Nat} {size : Nat} (run : pmapPfaAllocContig size pfaMetadata w.pfa = .ok (result, s))
    (pages : pagesOf result size ⊆ b.initialFree \ held)
    (ready : s.Ready (b.geometry (b.initialFree \ held)) ((b.initialFree \ held) \ pagesOf result size)) :
    ∃ after, pmapPfaAllocContig size pfaMetadata image = .ok (result, after) ∧
      Holding b start base l past (held ∪ pagesOf result size) after ∧
      Kept (b.geometry (b.initialFree \ held)) b.pfaAddr image.mem after.mem := by
  rw [Set.sdiff_sdiff] at ready
  obtain ⟨after, w', run', mirrors', kept⟩ := mirrors.request placed run
    (Set.union_subset mirrors.owned (pages.trans Set.sdiff_subset)) ready
  have within : b.initialFree \ held ⊆ b.initialFree \ base := Set.sdiff_subset_sdiff_right holding.base_le
  exact ⟨after, run', ⟨⟨w', mirrors'⟩, holding.base_le.trans Set.subset_union_left,
    holding.unmarked.kept above pos Set.sdiff_subset kept,
    fun a out => (Kept.outside kept within out).trans (holding.outside a out)⟩, kept⟩

/-- A release of pages that the tests hold. -/
theorem Holding.release (placed : b.Placed mdsOffset) (above : AboveMarks b) (pos : 0 ≤ past)
    (holding : Holding b start base l past held image) {addr size : Nat} (addrLt : addr < 2 ^ 64) (sizeLt : size < 2 ^ 64)
    (owned : pagesOf addr size ⊆ held) (fresh : Disjoint (pagesOf addr size) base) :
    ∃ after, pmapPfaFreeContig addr size image = .ok after ∧
      Holding b start base l past (held \ pagesOf addr size) after ∧
      Kept (b.geometry (reach b held addr size)) b.pfaAddr image.mem after.mem := by
  obtain ⟨w, mirrors⟩ := holding.mirrors
  obtain ⟨after, w', run, mirrors', kept⟩ := mirrors.release placed addrLt sizeLt owned
  have within : reach b held addr size ⊆ b.initialFree \ base :=
    Set.union_subset (Set.sdiff_subset_sdiff_right holding.base_le) fun q member =>
      ⟨mirrors.owned (owned member), Set.disjoint_left.mp fresh member⟩
  exact ⟨after, run, ⟨⟨w', mirrors'⟩, fun q member => ⟨holding.base_le member, fun given =>
    Set.disjoint_left.mp fresh given member⟩, holding.unmarked.kept above pos Set.sdiff_subset kept,
    fun a out => (Kept.outside kept within out).trans (holding.outside a out)⟩, kept⟩

end Swink.TestPmapPfa
