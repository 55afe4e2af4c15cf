import Swink.Image.State
import Swink.Image.Lists

namespace Swink

/-- Bytes of the bitmaps of the levels below `level`. -/
def bitmapBytesBelow (pageCount : Nat) : Nat → Nat
  | 0 => 0
  | level + 1 => bitmapBytesBelow pageCount level + buddyBitmapRequiredBytesForLevel pageCount level

theorem buddyBitmapRequiredBytes_eq (pageCount : Nat) :
    buddyBitmapRequiredBytes pageCount = bitmapBytesBelow pageCount buddyLevels := by
  simp [buddyBitmapRequiredBytes, buddyLevels, bitmapBytesBelow, List.range_succ]

theorem bitmapBytesBelow_mono (pageCount : Nat) {level level' : Nat} (le : level ≤ level') :
    bitmapBytesBelow pageCount level ≤ bitmapBytesBelow pageCount level' := by
  induction le with
  | refl => exact le_rfl
  | step _ ih => exact ih.trans (Nat.le_add_right ..)

theorem requiredBytesForLevel_eq (pageCount level : Nat) :
    buddyBitmapRequiredBytesForLevel pageCount level = bitmapWords pageCount level * 8 := by
  have divides : 8 ∣ buddyBitmapRequiredBytesForLevel pageCount level := Nat.dvd_mul_left ..
  rw [bitmapWords, Nat.div_mul_cancel divides]

theorem pfaSize_eq : pfaSize = 264 := rfl

/-- The bitmaps do not share bytes: the words of a level end before those of the next level. -/
theorem bitmap_end_le (pageCount : Nat) {level level' : Nat} (lt : level < level') :
    bitmapBytesBelow pageCount level + bitmapWords pageCount level * 8 ≤ bitmapBytesBelow pageCount level' := by
  rw [← requiredBytesForLevel_eq]
  exact bitmapBytesBelow_mono pageCount (Nat.succ_le_of_lt lt)

theorem requiredBytes_le (pageCount : Nat) :
    pfaSize + buddyBitmapRequiredBytes pageCount + pageCount ≤ requiredBytes pageCount :=
  le_roundUp (by decide)

namespace PfaImage
open Mem
variable {mdsOffset : Nat → Nat}

/-- What the loop over the levels leaves behind, from `level` on. -/
theorem initLevels_spec (pfa pageCount : Nat) (pos : 0 < pfa)
    (fits : pfa + pfaSize + buddyBitmapRequiredBytes pageCount < 2 ^ 64)
    (rounds level : Nat) (within : level + rounds = buddyLevels) (mem : Mem) :
    ∃ mem', initLevels pfa pageCount rounds level (pfa + pfaSize + bitmapBytesBelow pageCount level) mem = .ok mem' ∧
      (∀ l, level ≤ l → l < buddyLevels →
        mem'.next (listHead (pfa + buddyListsOffset + l * sizeofList)) =
          listTail (pfa + buddyListsOffset + l * sizeofList) ∧
        mem'.prev (listTail (pfa + buddyListsOffset + l * sizeofList)) =
          listHead (pfa + buddyListsOffset + l * sizeofList) ∧
        mem'.ptr (pfa + buddyBitmapsOffset + l * 8) = pfa + pfaSize + bitmapBytesBelow pageCount l) ∧
      ∀ a, (a < pfa + buddyListsOffset + level * sizeofList ∨ pfa + buddyBitmapsOffset ≤ a) →
        (a < pfa + buddyBitmapsOffset + level * 8 ∨ pfa + metadataOffset ≤ a) → mem' a = mem a := by
  have list : sizeofList = 32 := rfl
  rw [pfaSize_eq] at fits
  simp only [list]
  induction rounds generalizing level mem with
  | zero => exact ⟨mem, rfl, fun l _ _ => by omega, fun _ _ _ => rfl⟩
  | succ rounds ih =>
    have bound : level < 6 := by unfold buddyLevels at within; omega
    have lists : buddyListsOffset = 16 := rfl
    have bitmaps : buddyBitmapsOffset = 208 := rfl
    have mds : metadataOffset = 256 := rfl
    have levels : buddyLevels = 6 := rfl
    have addr : bitmapBytesBelow pageCount level ≤ buddyBitmapRequiredBytes pageCount := by
      rw [buddyBitmapRequiredBytes_eq]
      exact bitmapBytesBelow_mono pageCount (by omega)
    obtain ⟨mem₁, inited, ends, begins, kept⟩ := listInit_spec
      (show 0 < pfa + buddyListsOffset + level * 32 by omega) (by omega) mem
    obtain ⟨mem', run, later, untouched⟩ := ih (level + 1) (by omega)
      (mem₁.setPtr (pfa + buddyBitmapsOffset + level * 8) (pfa + pfaSize + bitmapBytesBelow pageCount level))
    -- what the later rounds and the bitmap pointer leave alone
    have agree : Agree (pfa + buddyListsOffset + level * 32) (pfa + buddyListsOffset + level * 32 + 32) mem₁ mem' := by
      intro a above below
      rw [untouched a (by omega) (by omega)]
      exact store64_of_outside (by omega)
    refine ⟨mem', ?_, fun l from_ lt => ?_, fun a outside outside' => ?_⟩
    · rw [initLevels, list, inited, ok_bind, ← run, bitmapBytesBelow, Nat.add_assoc (pfa + pfaSize)]
    · rcases Nat.eq_or_lt_of_le from_ with rfl | above
      · refine ⟨?_, ?_, ?_⟩
        · rw [← ends, next, next, ptr, ptr, agree.load64 (by unfold listHead; omega) (by unfold listHead; omega)]
        · rw [← begins, prev, prev, ptr, ptr, agree.load64 (by unfold listTail; omega) (by unfold listTail; omega)]
        · have same : Agree (pfa + buddyBitmapsOffset + level * 8) (pfa + buddyBitmapsOffset + level * 8 + 8)
              (mem₁.setPtr (pfa + buddyBitmapsOffset + level * 8) (pfa + pfaSize + bitmapBytesBelow pageCount level))
              mem' := fun a above below => untouched a (by omega) (by omega)
          rw [ptr, same.load64 le_rfl le_rfl]
          exact ptr_setPtr _ _ (by have := pfaSize_eq; omega)
      · exact later l above lt
    · rw [untouched a (by omega) (by omega), setPtr, store64_of_outside (by omega)]
      exact kept a (by omega)

/-- A freshly initialised allocator at `pfa`. -/
structure Fresh (mdsOffset : Nat → Nat) (pfa pageBase pageCount : Nat) (raw s : PfaImage mdsOffset) : Prop where
  at_pfa : s.pfa = pfa
  physmap : s.physmapVmBase = raw.physmapVmBase
  lock : s.lockValue = 1
  base : s.pageBase = pageBase
  count : s.pageCount = pageCount
  bitmap : ∀ l < buddyLevels, s.buddyBitmap l = pfa + pfaSize + bitmapBytesBelow pageCount l
  metadata : s.metadata = pfa + mdsOffset pageCount
  list_next : ∀ l < buddyLevels, s.mem.next (listHead (s.buddyList l)) = listTail (s.buddyList l)
  list_prev : ∀ l < buddyLevels, s.mem.prev (listTail (s.buddyList l)) = listHead (s.buddyList l)
  cleared : ∀ a, pfa + pfaSize ≤ a → a < pfa + pfaSize + buddyBitmapRequiredBytes pageCount → s.mem a = 0
  untouched : ∀ a, a < pfa ∨ pfa + pfaSize + buddyBitmapRequiredBytes pageCount ≤ a → s.mem a = raw.mem a

theorem create_spec (raw : PfaImage mdsOffset) (pfa pageBase pageCount : Nat) (pos : 0 < pfa)
    (baseLt : pageBase < 2 ^ 32) (countLt : pageCount < 2 ^ 32)
    (fits : pfa + pfaSize + buddyBitmapRequiredBytes pageCount < 2 ^ 64)
    (mdsFits : pfa + mdsOffset pageCount < 2 ^ 64) :
    ∃ s, create pfa pageBase pageCount raw = .ok s ∧ Fresh mdsOffset pfa pageBase pageCount raw s := by
  have fields : lockOffset = 0 ∧ pageBaseOffset = 4 ∧ pageCountOffset = 8 ∧ buddyListsOffset = 16 ∧
    sizeofList = 32 ∧ buddyBitmapsOffset = 208 ∧ metadataOffset = 256 ∧ buddyLevels = 6 ∧ pfaSize = 264 := by decide
  obtain ⟨lock, base, count, lists, list, bitmaps, mds, levels, size⟩ := fields
  set m₁ := raw.mem.store32 (pfa + lockOffset) 1 with first
  set m₂ := m₁.store32 (pfa + pageBaseOffset) (BitVec.ofNat 32 pageBase) with second
  set m₃ := m₂.store32 (pfa + pageCountOffset) (BitVec.ofNat 32 pageCount) with third
  set m₄ := m₃.setPtr (pfa + metadataOffset) (pfa + mdsOffset pageCount) with fourth
  obtain ⟨m₅, run, each, kept⟩ := initLevels_spec pfa pageCount pos fits buddyLevels 0 (by omega) m₄
  have bitmapZero := (each 0 (by omega) (by omega)).2.2
  rw [Nat.zero_mul, Nat.add_zero, bitmapBytesBelow, Nat.add_zero] at bitmapZero
  set m₆ := m₅.memset (pfa + pfaSize) 0 (buddyBitmapRequiredBytes pageCount) with sixth
  -- the clearing of the bitmaps keeps the structure, and the loop keeps its scalar fields
  have record : Agree pfa (pfa + pfaSize) m₅ m₆ := agree_memset (Or.inl le_rfl)
  have scalars : Agree pfa (pfa + 16) m₄ m₆ := fun a above below =>
    (record a above (by omega)).trans (kept a (by omega) (by omega))
  have pointer : Agree (pfa + 256) (pfa + 264) m₄ m₆ := fun a above below =>
    (record a (by omega) (by omega)).trans (kept a (by omega) (by omega))
  refine ⟨{ raw with mem := m₆, pfa := pfa }, ?_, rfl, rfl, ?_, ?_, ?_, fun l lt => ?_, ?_, fun l lt => ?_,
    fun l lt => ?_, fun a above below => memset_of_inside above below, fun a outside => ?_⟩
  · have bytes : bitmapBytesBelow pageCount 0 = 0 := rfl
    rw [bytes, Nat.add_zero] at run
    rw [create]
    simp only [← first, ← second, ← third, ← fourth, run, ok_bind, bitmapZero, ← sixth]
  · have same : m₄.load32 (pfa + lockOffset) = 1 := by
      rw [fourth, setPtr, (agree_store64 pfa (pfa + 16) (by omega)).load32 (by omega) (by omega),
        third, load32_store32_of_apart (by omega), second, load32_store32_of_apart (by omega), first, load32_store32]
    show (m₆.load32 (pfa + lockOffset)).toNat = 1
    rw [scalars.load32 (by omega) (by omega), same]
    rfl
  · have same : m₄.load32 (pfa + pageBaseOffset) = BitVec.ofNat 32 pageBase := by
      rw [fourth, setPtr, (agree_store64 pfa (pfa + 16) (by omega)).load32 (by omega) (by omega),
        third, load32_store32_of_apart (by omega), second, load32_store32]
    show (m₆.load32 (pfa + pageBaseOffset)).toNat = pageBase
    rw [scalars.load32 (by omega) (by omega), same, BitVec.toNat_ofNat, Nat.mod_eq_of_lt baseLt]
  · have same : m₄.load32 (pfa + pageCountOffset) = BitVec.ofNat 32 pageCount := by
      rw [fourth, setPtr, (agree_store64 pfa (pfa + 16) (by omega)).load32 (by omega) (by omega),
        third, load32_store32]
    show (m₆.load32 (pfa + pageCountOffset)).toNat = pageCount
    rw [scalars.load32 (by omega) (by omega), same, BitVec.toNat_ofNat, Nat.mod_eq_of_lt countLt]
  · show (m₆.load64 (pfa + buddyBitmapsOffset + l * 8)).toNat = _
    rw [record.load64 (by omega) (by omega)]
    exact (each l (Nat.zero_le l) lt).2.2
  · show (m₆.load64 (pfa + metadataOffset)).toNat = _
    rw [pointer.load64 (by omega) (by omega), fourth]
    exact ptr_setPtr _ _ mdsFits
  · show (m₆.load64 (listHead (pfa + buddyListsOffset + l * 32) + 8)).toNat = _
    rw [record.load64 (by unfold listHead; omega) (by unfold listHead; omega)]
    exact (each l (Nat.zero_le l) lt).1
  · show (m₆.load64 (listTail (pfa + buddyListsOffset + l * 32))).toNat = _
    rw [record.load64 (by unfold listTail; omega) (by unfold listTail; omega)]
    exact (each l (Nat.zero_le l) lt).2.1
  · show m₆ a = raw.mem a
    rw [sixth, memset_of_outside (by omega), kept a (by omega) (by omega), fourth, setPtr,
      store64_of_outside (by omega), third, store32_of_outside (by omega), second, store32_of_outside (by omega),
      first, store32_of_outside (by omega)]

end PfaImage

end Swink
