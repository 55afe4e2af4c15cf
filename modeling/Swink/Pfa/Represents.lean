import Swink.Pfa.State
import Swink.Lib.MaximalBlocks

namespace Swink

/-- The memory an allocator with page base zero manages: its pages have their list nodes at
their start in the physmap, none of which wraps or is `NULL`, and the usable pages are the
allocator's to write to. -/
structure Geometry where
  physmapVmBase : Nat
  pageCount : Nat
  usable : Set Nat
  physmap_pos : 0 < physmapVmBase
  physmap_fits : physmapVmBase + pageCount * 4096 ≤ 2 ^ 64
  pageCount_le : pageCount ≤ 2 ^ 20

namespace Geometry
variable (g : Geometry)

/-- The address of the list node of a page. -/
def node (page : Nat) : Nat := g.physmapVmBase + page * 4096

theorem node_inj {p q : Nat} (same : g.node p = g.node q) : p = q := by
  unfold node at same
  omega

theorem node_ne_zero (p : Nat) : g.node p ≠ 0 := by
  have := g.physmap_pos
  unfold node
  omega

theorem node_eq {p : Nat} (managed : p < g.pageCount) :
    pmapPaToKva g.physmapVmBase (shl32 p pageShift) = g.node p := by
  have fits := g.physmap_fits
  have small := g.pageCount_le
  rw [(shl32_pageShift_iff p).mpr (by omega), pageSize_eq, pmapPaToKva, u64_of_lt (by omega), node]

theorem kvaToPa_node (p : Nat) : pmapPhysmapKvaToPa g.physmapVmBase (g.node p) = .ok (p * 4096) := by
  unfold pmapPhysmapKvaToPa
  rw [require_of (show g.node p ≥ g.physmapVmBase from Nat.le_add_right ..), ok_bind, node, Nat.add_sub_cancel_left]

end Geometry

/-- A set of blocks as the buddy lists and the bitmaps encode it. -/
abbrev Blocks := Nat → Nat → Prop

namespace Blocks

def add (blocks : Blocks) (level page : Nat) : Blocks := fun l p => (l = level ∧ p = page) ∨ blocks l p

def remove (blocks : Blocks) (level page : Nat) : Blocks := fun l p => blocks l p ∧ ¬(l = level ∧ p = page)

/-- All blocks are aligned, inside the managed pages and usable. -/
def Managed (g : Geometry) (blocks : Blocks) : Prop :=
  ∀ l p, blocks l p → l < 6 ∧ 2 ^ l ∣ p ∧ p + 2 ^ l ≤ g.pageCount ∧ Dyadic.block l p ⊆ g.usable

/-- The nodes on the list of every level are those of the blocks of that level, each once. -/
structure OnLists (g : Geometry) (blocks : Blocks) (lists : Nat → List Nat) : Prop where
  nodup : ∀ l < 6, (lists l).Nodup
  mem_iff : ∀ l < 6, ∀ a, a ∈ lists l ↔ ∃ p, blocks l p ∧ a = g.node p

/-- The bits of every level are set for the blocks of that level. -/
def InBitmaps (g : Geometry) (blocks : Blocks) (bitmaps : Nat → Nat → BitVec 64) : Prop :=
  ∀ l < 6, ∀ b < 64 * bitmapWords g.pageCount l,
    (bitmaps l (b / 64)).getLsbD (b % 64) = true ↔ blocks l (b * 2 ^ l)

variable {g : Geometry} {blocks other : Blocks}

theorem Managed.page_lt (managed : Managed g blocks) {l p : Nat} (member : blocks l p) : p < g.pageCount := by
  have := Nat.two_pow_pos l
  have := (managed l p member).2.2.1
  omega

theorem Managed.add (managed : Managed g blocks) {level page : Nat} (bound : level < 6)
    (aligned : 2 ^ level ∣ page) (inside : page + 2 ^ level ≤ g.pageCount)
    (usable : Dyadic.block level page ⊆ g.usable) : Managed g (blocks.add level page) := by
  rintro l p (⟨rfl, rfl⟩ | member)
  · exact ⟨bound, aligned, inside, usable⟩
  · exact managed l p member

theorem Managed.remove (managed : Managed g blocks) (level page : Nat) : Managed g (blocks.remove level page) :=
  fun l p member => managed l p member.1

end Blocks

namespace Pfa
open Blocks
variable {g : Geometry} {s : Pfa} {blocks : Blocks} {level page : Nat}

@[simp] theorem store_physmapVmBase : PfaStore.physmapVmBase s = s.physmapVmBase := rfl
@[simp] theorem store_pageBase : PfaStore.pageBase s = s.pageBase := rfl
@[simp] theorem store_pageCount : PfaStore.pageCount s = s.pageCount := rfl
@[simp] theorem store_lockValue : PfaStore.lockValue s = s.lock := rfl
@[simp] theorem store_bitmapWord (l i : Nat) : PfaStore.bitmapWord l i s = s.bitmapWord l i := rfl
@[simp] theorem store_setBitmapWord (l i : Nat) (w : BitVec 64) :
    PfaStore.setBitmapWord l i w s = s.setBitmapWord l i w := rfl
@[simp] theorem store_listEmpty (l : Nat) : PfaStore.listEmpty l s = s.listEmpty l := rfl
@[simp] theorem store_listFront (l : Nat) : PfaStore.listFront l s = s.listFront l := rfl
@[simp] theorem store_listPushFront (l a : Nat) : PfaStore.listPushFront l a s = s.listPushFront l a := rfl
@[simp] theorem store_listRemove (a : Nat) : PfaStore.listRemove a s = s.listRemove a := rfl
@[simp] theorem store_fillMetadata (i n : Nat) (m : BitVec 8) :
    PfaStore.fillMetadata i n m s = s.fillMetadata i n m := rfl

/-- The state with other lists and bitmaps; everything else is kept. -/
def withBlocks (s : Pfa) (lists : Nat → List Nat) (bitmaps : Nat → Nat → BitVec 64) : Pfa :=
  { s with buddyLists := lists, buddyBitmaps := bitmaps }

section
variable (s : Pfa) (lists lists' : Nat → List Nat) (bitmaps bitmaps' : Nat → Nat → BitVec 64)

@[simp] theorem withBlocks_physmapVmBase : (s.withBlocks lists bitmaps).physmapVmBase = s.physmapVmBase := rfl
@[simp] theorem withBlocks_pageBase : (s.withBlocks lists bitmaps).pageBase = s.pageBase := rfl
@[simp] theorem withBlocks_pageCount : (s.withBlocks lists bitmaps).pageCount = s.pageCount := rfl
@[simp] theorem withBlocks_lock : (s.withBlocks lists bitmaps).lock = s.lock := rfl
@[simp] theorem withBlocks_mayLink : (s.withBlocks lists bitmaps).mayLink = s.mayLink := rfl
@[simp] theorem withBlocks_metadata : (s.withBlocks lists bitmaps).metadata = s.metadata := rfl
@[simp] theorem withBlocks_buddyLists : (s.withBlocks lists bitmaps).buddyLists = lists := rfl
@[simp] theorem withBlocks_buddyBitmaps : (s.withBlocks lists bitmaps).buddyBitmaps = bitmaps := rfl
@[simp] theorem withBlocks_withBlocks :
    (s.withBlocks lists bitmaps).withBlocks lists' bitmaps' = s.withBlocks lists' bitmaps' := rfl
@[simp] theorem withBlocks_self : s.withBlocks s.buddyLists s.buddyBitmaps = s := rfl

end

/-- The allocator manages the memory of `g`. -/
structure Manages (g : Geometry) (s : Pfa) : Prop where
  physmap : s.physmapVmBase = g.physmapVmBase
  base : s.pageBase = 0
  count : s.pageCount = g.pageCount
  linkable : ∀ p ∈ g.usable, s.mayLink (g.node p) = true

theorem Manages.withBlocks (manages : s.Manages g) (lists : Nat → List Nat) (bitmaps : Nat → Nat → BitVec 64) :
    (s.withBlocks lists bitmaps).Manages g := 
  ⟨manages.physmap, manages.base, manages.count, manages.linkable⟩

theorem linked_iff {a : Nat} : s.linked a = true ↔ ∃ l < 6, a ∈ s.buddyLists l := by
  simp [linked, buddyLevels]

theorem listPushFront_spec (manages : s.Manages g) (hold : blocks.OnLists g s.buddyLists) (bound : level < 6)
    (usable : page ∈ g.usable) (fresh : ∀ l < 6, ¬blocks l page) :
    ∃ lists, s.listPushFront level (g.node page) = .ok (s.withBlocks lists s.buddyBitmaps) ∧
      (blocks.add level page).OnLists g lists := by
  have unlinked : ∀ l < 6, g.node page ∉ s.buddyLists l := by
    intro l lt member
    obtain ⟨p, inBlocks, same⟩ := (hold.mem_iff l lt _).mp member
    exact fresh l lt (g.node_inj same ▸ inBlocks)
  have free : ¬s.linked (g.node page) = true := by
    rw [linked_iff]
    rintro ⟨l, lt, member⟩
    exact unlinked l lt member
  refine ⟨Function.update s.buddyLists level (g.node page :: s.buddyLists level), ?_, ?_, ?_⟩
  · unfold listPushFront
    rw [if_neg (show ¬¬level < buddyLevels from not_not_intro bound), if_neg (g.node_ne_zero page), if_neg free,
      if_neg (not_not_intro (manages.linkable page usable))]
    rfl
  · intro l lt
    by_cases eq : l = level
    · subst eq
      rw [Function.update_self]
      exact List.nodup_cons.mpr ⟨unlinked l lt, hold.nodup l lt⟩
    · rw [Function.update_of_ne eq]
      exact hold.nodup l lt
  · intro l lt a
    by_cases eq : l = level
    · subst eq
      rw [Function.update_self, List.mem_cons, hold.mem_iff l lt]
      constructor
      · rintro (rfl | ⟨p, member, rfl⟩)
        · exact ⟨page, Or.inl ⟨rfl, rfl⟩, rfl⟩
        · exact ⟨p, Or.inr member, rfl⟩
      · rintro ⟨p, ⟨-, rfl⟩ | member, rfl⟩
        · exact Or.inl rfl
        · exact Or.inr ⟨p, member, rfl⟩
    · rw [Function.update_of_ne eq, hold.mem_iff l lt]
      constructor
      · rintro ⟨p, member, rfl⟩
        exact ⟨p, Or.inr member, rfl⟩
      · rintro ⟨p, ⟨same, -⟩ | member, rfl⟩
        · exact absurd same eq
        · exact ⟨p, member, rfl⟩

/-- Unlinking a node that is on one list takes it off that list only. -/
theorem listRemove_spec (hold : blocks.OnLists g s.buddyLists) (bound : level < 6) (member : blocks level page)
    (unique : ∀ l, blocks l page → l = level) :
    ∃ lists, s.listRemove (g.node page) = .ok (s.withBlocks lists s.buddyBitmaps) ∧
      (blocks.remove level page).OnLists g lists := by
  have linked : s.linked (g.node page) = true :=
    linked_iff.mpr ⟨level, bound, (hold.mem_iff level bound _).mpr ⟨page, member, rfl⟩⟩
  refine ⟨fun l => (s.buddyLists l).erase (g.node page), ?_, fun l lt => (hold.nodup l lt).erase _, ?_⟩
  · rw [listRemove, if_pos linked]
    rfl
  · intro l lt a
    rw [(hold.nodup l lt).mem_erase_iff, hold.mem_iff l lt]
    constructor
    · rintro ⟨different, p, inBlocks, rfl⟩
      exact ⟨p, ⟨inBlocks, fun same => different (same.2 ▸ rfl)⟩, rfl⟩
    · rintro ⟨p, ⟨inBlocks, kept⟩, rfl⟩
      refine ⟨fun same => ?_, p, inBlocks, rfl⟩
      have eq := g.node_inj same
      subst eq
      exact kept ⟨unique l inBlocks, rfl⟩

theorem listFront_spec (hold : blocks.OnLists g s.buddyLists) (bound : level < 6)
    (nonempty : s.buddyLists level ≠ []) :
    ∃ p, s.listFront level = .ok (g.node p) ∧ blocks level p := by
  unfold listFront
  rw [if_pos (show level < buddyLevels from bound)]
  cases shape : s.buddyLists level with
  | nil => exact absurd shape nonempty
  | cons front rest =>
    obtain ⟨p, member, same⟩ := (hold.mem_iff level bound front).mp (shape ▸ List.mem_cons_self ..)
    exact ⟨p, by rw [same], member⟩

/-- Position of the bit of a block in the words of its level. -/
theorem bitmapPosition (manages : s.Manages g) (level : Nat) (small : page < 2 ^ 32) :
    buddyBitmapPageIndex page level s = page / 2 ^ level / 64 ∧
      buddyBitmapPageOffset page level s = page / 2 ^ level % 64 := by
  have debased : sub32 page 0 = page := sub32_of_le (Nat.zero_le _) small
  have mask : (1 <<< 6 - 1 : Nat) = 2 ^ 6 - 1 := rfl
  simp only [buddyBitmapPageIndex, buddyBitmapPageOffset, store_pageBase, manages.base, debased,
    Nat.shiftRight_eq_div_pow, mask, Nat.and_two_pow_sub_one_eq_mod]
  refine ⟨?_, trivial⟩
  rw [Nat.add_comm, Nat.pow_add, ← Nat.div_div_eq_div_mul]

theorem getLsbD_setBit (word : BitVec 64) {offset value i : Nat} (bit : value < 2) (inWord : i < 64) :
    ((word &&& ~~~(1#64 <<< offset)) ||| (BitVec.ofNat 64 value <<< offset)).getLsbD i =
      if i = offset then decide (value = 1) else word.getLsbD i := by
  obtain rfl | rfl : value = 0 ∨ value = 1 := by omega
  all_goals
    simp only [BitVec.getLsbD_or, BitVec.getLsbD_and, BitVec.getLsbD_not, BitVec.getLsbD_shiftLeft,
      BitVec.getLsbD_ofNat, inWord, decide_true, Bool.true_and]
    rcases Nat.lt_trichotomy i offset with below | rfl | above
    · simp [below, below.ne]
    · simp [inWord]
    · have nonzero : i - offset ≠ 0 := by omega
      have different : i ≠ offset := by omega
      have notBelow : ¬i < offset := by omega
      cases shape : i - offset with
      | zero => exact absurd shape nonzero
      | succ d => simp [different, notBelow, Nat.testBit_succ]

/-- Setting the bit of an aligned managed block changes that bit only. -/
theorem buddyBitmapSetBitLocked_spec (manages : s.Manages g) (hold : blocks.InBitmaps g s.buddyBitmaps)
    (bound : level < 6) (aligned : 2 ^ level ∣ page) (managed : page < g.pageCount) {value : Nat} (bit : value < 2)
    {after : Blocks} (effect : ∀ l p, after l p ↔ if l = level ∧ p = page then value = 1 else blocks l p) :
    ∃ bitmaps, buddyBitmapSetBitLocked page level value s = .ok (s.withBlocks s.buddyLists bitmaps) ∧
      after.InBitmaps g bitmaps := by
  have small := g.pageCount_le
  obtain ⟨index, offset⟩ := bitmapPosition manages level (show page < 2 ^ 32 by omega)
  have inWords : page / 2 ^ level / 64 < bitmapWords g.pageCount level :=
    Nat.div_lt_of_lt_mul (lt_bitmapWords level managed)
  have access : level < buddyLevels ∧ page / 2 ^ level / 64 < bitmapWords s.pageCount level :=
    ⟨bound, manages.count ▸ inWords⟩
  let changed := (s.buddyBitmaps level (page / 2 ^ level / 64) &&& ~~~(1#64 <<< (page / 2 ^ level % 64))) |||
    (BitVec.ofNat 64 value <<< (page / 2 ^ level % 64))
  refine ⟨Function.update s.buddyBitmaps level
    (Function.update (s.buddyBitmaps level) (page / 2 ^ level / 64) changed), ?_, ?_⟩
  · simp only [buddyBitmapSetBitLocked, index, offset, store_bitmapWord, store_setBitmapWord]
    rw [bitmapWord, if_pos access, ok_bind, setBitmapWord, if_pos access]
    rfl
  · intro l lt b inRange
    rw [effect]
    by_cases eq : l = level
    · subst eq
      rw [Function.update_self]
      have number : page / 2 ^ l * 2 ^ l = page := Nat.div_mul_cancel aligned
      have different (other : b ≠ page / 2 ^ l) : b * 2 ^ l ≠ page := by
        rw [← number]
        exact fun eq => other (Nat.eq_of_mul_eq_mul_right (Nat.two_pow_pos l) eq)
      by_cases word : b / 64 = page / 2 ^ l / 64
      · rw [word, Function.update_self, getLsbD_setBit _ bit (Nat.mod_lt _ (by omega))]
        by_cases position : b % 64 = page / 2 ^ l % 64
        · have same : b = page / 2 ^ l := by omega
          rw [if_pos position, same, number, if_pos ⟨rfl, rfl⟩, decide_eq_true_iff]
        · have different := different (by omega)
          rw [if_neg position, if_neg (by tauto), ← word]
          exact hold l lt b inRange
      · have different := different (by omega)
        rw [Function.update_of_ne word, if_neg (by tauto)]
        exact hold l lt b inRange
    · rw [Function.update_of_ne eq, if_neg (by tauto)]
      exact hold l lt b inRange

theorem setBit_free_spec (manages : s.Manages g) (hold : blocks.InBitmaps g s.buddyBitmaps)
    (bound : level < 6) (aligned : 2 ^ level ∣ page) (managed : page < g.pageCount) :
    ∃ bitmaps, buddyBitmapSetBitLocked page level buddyBitFree s = .ok (s.withBlocks s.buddyLists bitmaps) ∧
      (blocks.add level page).InBitmaps g bitmaps := by
  refine buddyBitmapSetBitLocked_spec manages hold bound aligned managed (by decide) fun l p => ?_
  unfold Blocks.add buddyBitFree
  split <;> tauto

theorem setBit_allocated_spec (manages : s.Manages g) (hold : blocks.InBitmaps g s.buddyBitmaps)
    (bound : level < 6) (aligned : 2 ^ level ∣ page) (managed : page < g.pageCount) :
    ∃ bitmaps, buddyBitmapSetBitLocked page level buddyBitAllocated s = .ok (s.withBlocks s.buddyLists bitmaps) ∧
      (blocks.remove level page).InBitmaps g bitmaps := by
  refine buddyBitmapSetBitLocked_spec manages hold bound aligned managed (by decide) fun l p => ?_
  unfold Blocks.remove buddyBitAllocated
  split <;> simp_all

/-- The bit of an aligned block with a bit in the words of its level tells whether it is in the set. -/
theorem buddyBitmapGetBitLocked_spec (manages : s.Manages g) (hold : blocks.InBitmaps g s.buddyBitmaps)
    (bound : level < 6) (aligned : 2 ^ level ∣ page) (small : page < 2 ^ 32)
    (inWords : page / 2 ^ level < 64 * bitmapWords g.pageCount level) :
    ∃ bit, buddyBitmapGetBitLocked page level s = .ok bit ∧ (bit = buddyBitFree ↔ blocks level page) ∧
      (bit = buddyBitAllocated ↔ ¬blocks level page) := by
  obtain ⟨index, offset⟩ := bitmapPosition manages level small
  have access : level < buddyLevels ∧ page / 2 ^ level / 64 < bitmapWords s.pageCount level :=
    ⟨bound, manages.count ▸ Nat.div_lt_of_lt_mul inWords⟩
  have meaning := hold level bound _ inWords
  rw [Nat.div_mul_cancel aligned] at meaning
  refine ⟨((s.buddyBitmaps level (page / 2 ^ level / 64) >>> (page / 2 ^ level % 64)) &&& 1#64).toNat, ?_, ?_⟩
  · simp only [buddyBitmapGetBitLocked, index, offset, store_bitmapWord]
    rw [bitmapWord, if_pos access, ok_bind]
  · have value : ((s.buddyBitmaps level (page / 2 ^ level / 64) >>> (page / 2 ^ level % 64)) &&& 1#64).toNat =
        ((s.buddyBitmaps level (page / 2 ^ level / 64)).getLsbD (page / 2 ^ level % 64)).toNat := by
      rw [BitVec.toNat_and, BitVec.toNat_ushiftRight, BitVec.toNat_ofNat, Nat.shiftRight_eq_div_pow]
      simp [Nat.and_one_is_mod, BitVec.getLsbD, Nat.testBit_eq_decide_div_mod_eq]
      rcases Nat.mod_two_eq_zero_or_one
        ((s.buddyBitmaps level (page / 2 ^ level / 64)).toNat / 2 ^ (page / 2 ^ level % 64)) with h | h <;> simp [h]
    rw [value, ← meaning, buddyBitFree, buddyBitAllocated]
    cases (s.buddyBitmaps level (page / 2 ^ level / 64)).getLsbD (page / 2 ^ level % 64) <;> simp

/-- A bit that can be read lies in the words of its level. -/
theorem lt_of_buddyBitmapGetBitLocked (manages : s.Manages g) (small : page < 2 ^ 32) {bit : Nat}
    (read : buddyBitmapGetBitLocked page level s = .ok bit) :
    page / 2 ^ level < 64 * bitmapWords g.pageCount level := by
  by_contra past
  obtain ⟨index, -⟩ := bitmapPosition manages level small
  rw [buddyBitmapGetBitLocked, index, store_bitmapWord, bitmapWord, if_neg] at read
  · cases read
  · rw [manages.count]
    omega

end Pfa

end Swink
