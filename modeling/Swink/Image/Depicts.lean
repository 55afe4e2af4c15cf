import Swink.Image.Layout
import Swink.Pfa.Represents
import Swink.Pfa.Simulation

namespace Swink.PfaImage
open Mem Refinement
variable {mdsOffset : Nat → Nat}

/-- The place of the allocator's own structures: they share no byte with each other or with the
nodes of usable pages. -/
structure Site (mdsOffset : Nat → Nat) (g : Geometry) (pfa : Nat) : Prop where
  pos : 0 < pfa
  fits : pfa + requiredBytes g.pageCount ≤ 2 ^ 64
  mds_after : pfaSize + buddyBitmapRequiredBytes g.pageCount ≤ mdsOffset g.pageCount
  mds_fits : mdsOffset g.pageCount + g.pageCount ≤ requiredBytes g.pageCount
  nonempty : 0 < g.pageCount
  apart : ∀ p ∈ g.usable, p < g.pageCount → g.node p + 16 ≤ pfa ∨ pfa + requiredBytes g.pageCount ≤ g.node p

/-- Address of a buddy list. -/
def listAt (pfa level : Nat) : Nat := pfa + 16 + level * 32

/-- The nodes of the buddy lists and of all usable pages. -/
def cells (g : Geometry) (pfa : Nat) : Set Nat :=
  {a | (∃ level < 6, a = listHead (listAt pfa level) ∨ a = listTail (listAt pfa level)) ∨
    ∃ p ∈ g.usable, p < g.pageCount ∧ a = g.node p}

/-- Address of the bitmap of a level. -/
def bitmapAt (pfa pageCount level : Nat) : Nat := pfa + 264 + bitmapBytesBelow pageCount level

/-- The fields, the bitmaps and the metadata in memory are those of the state. -/
structure Record (mdsOffset : Nat → Nat) (g : Geometry) (pfa : Nat) (s : Pfa) (mem : Mem) : Prop where
  lock : (mem.load32 (pfa + 0)).toNat = s.lock
  base : (mem.load32 (pfa + 4)).toNat = s.pageBase
  count : (mem.load32 (pfa + 8)).toNat = s.pageCount
  bitmap : ∀ level < 6, mem.ptr (pfa + 208 + level * 8) = bitmapAt pfa g.pageCount level
  metadata : mem.ptr (pfa + 256) = pfa + mdsOffset g.pageCount
  words : ∀ level < 6, ∀ idx < bitmapWords g.pageCount level,
    mem.load64 (bitmapAt pfa g.pageCount level + idx * 8) = s.buddyBitmaps level idx
  bytes : ∀ idx < g.pageCount, mem (pfa + mdsOffset g.pageCount + idx) = s.metadata idx

/-- The memory is that of the state; outside the allocator's structures and the nodes of usable
pages it is `start`. -/
structure Depicts (g : Geometry) (pfa : Nat) (start : Mem) (s : Pfa) (image : PfaImage mdsOffset) : Prop where
  at_pfa : image.pfa = pfa
  physmap : s.physmapVmBase = g.physmapVmBase ∧ image.physmapVmBase = g.physmapVmBase
  count : s.pageCount = g.pageCount
  record : Record mdsOffset g pfa s image.mem
  lists : ListsAt 6 (cells g pfa) (listAt pfa) s.buddyLists image.mem
  owns : ∀ a, s.mayLink a = true → ∃ p ∈ g.usable, p < g.pageCount ∧ a = g.node p
  frame : ∀ a, a < pfa ∨ pfa + requiredBytes g.pageCount ≤ a →
    (∀ p ∈ g.usable, p < g.pageCount → a < g.node p ∨ g.node p + 16 ≤ a) → image.mem a = start a

variable {g : Geometry} {pfa : Nat} {start : Mem} {s : Pfa} {image : PfaImage mdsOffset} {mem mem' : Mem}

theorem Site.bitmaps_le (site : Site mdsOffset g pfa) {level : Nat} (bound : level < 6) :
    pfa + 264 ≤ bitmapAt pfa g.pageCount level ∧
      bitmapAt pfa g.pageCount level + bitmapWords g.pageCount level * 8 ≤ pfa + mdsOffset g.pageCount := by
  have last := bitmap_end_le g.pageCount bound
  have total := buddyBitmapRequiredBytes_eq g.pageCount
  have after := site.mds_after
  have size := pfaSize_eq
  unfold buddyLevels at total
  unfold bitmapAt
  omega

theorem size_le_requiredBytes (pageCount : Nat) : 264 ≤ requiredBytes pageCount := by
  have := requiredBytes_le pageCount
  have := pfaSize_eq
  omega

theorem Site.cells_apart (site : Site mdsOffset g pfa) : Mem.Cells (cells g pfa) := by
  have size := size_le_requiredBytes g.pageCount
  have pos := site.pos
  have fits := site.fits
  have physmapPos := g.physmap_pos
  have physmapFits := g.physmap_fits
  refine ⟨?_, ?_, ?_⟩
  · rintro a (⟨level, bound, rfl | rfl⟩ | ⟨p, usable, managed, rfl⟩)
    · unfold listHead listAt
      omega
    · unfold listTail listAt
      omega
    · unfold Geometry.node
      omega
  · rintro a (⟨level, bound, rfl | rfl⟩ | ⟨p, usable, managed, rfl⟩)
    · unfold listHead listAt
      omega
    · unfold listTail listAt
      omega
    · unfold Geometry.node
      omega
  · unfold cells listHead listTail listAt
    rintro a (⟨level, bound, rfl | rfl⟩ | ⟨p, usable, managed, rfl⟩) b
      (⟨level', bound', rfl | rfl⟩ | ⟨p', usable', managed', rfl⟩) different
    · omega
    · omega
    · have := site.apart p' usable' managed'
      omega
    · omega
    · omega
    · have := site.apart p' usable' managed'
      omega
    · have := site.apart p usable managed
      omega
    · have := site.apart p usable managed
      omega
    · unfold Geometry.node at different ⊢
      omega

/-- Where a node lies: among the list heads, or clear of the allocator's structures. -/
theorem Site.cell_place (site : Site mdsOffset g pfa) {a : Nat} (member : a ∈ cells g pfa) :
    pfa + 16 ≤ a ∧ a + 16 ≤ pfa + 208 ∨ a + 16 ≤ pfa ∨ pfa + requiredBytes g.pageCount ≤ a := by
  unfold cells listHead listTail listAt at member
  rcases member with ⟨level, bound, rfl | rfl⟩ | ⟨p, usable, managed, rfl⟩
  · omega
  · omega
  · exact Or.inr (site.apart p usable managed)

/-- The pointers of the record are where they were. -/
theorem Record.of_pointers (record : Record mdsOffset g pfa s mem) (pointers : Agree (pfa + 208) (pfa + 264) mem mem')
    {s' : Pfa} (lock : (mem'.load32 (pfa + 0)).toNat = s'.lock) (base : (mem'.load32 (pfa + 4)).toNat = s'.pageBase)
    (count : (mem'.load32 (pfa + 8)).toNat = s'.pageCount)
    (words : ∀ level < 6, ∀ idx < bitmapWords g.pageCount level,
      mem'.load64 (bitmapAt pfa g.pageCount level + idx * 8) = s'.buddyBitmaps level idx)
    (bytes : ∀ idx < g.pageCount, mem' (pfa + mdsOffset g.pageCount + idx) = s'.metadata idx) :
    Record mdsOffset g pfa s' mem' where
  lock := lock
  base := base
  count := count
  bitmap level bound := by
    rw [ptr, pointers.load64 (by omega) (by omega)]
    exact record.bitmap level bound
  metadata := by
    rw [ptr, pointers.load64 (by omega) (by omega)]
    exact record.metadata
  words := words
  bytes := bytes

/-- A change of bitmaps and metadata only. -/
theorem Record.of_head (record : Record mdsOffset g pfa s mem) (head : Agree pfa (pfa + 16) mem mem')
    (pointers : Agree (pfa + 208) (pfa + 264) mem mem') {s' : Pfa} (lock : s'.lock = s.lock)
    (base : s'.pageBase = s.pageBase) (count : s'.pageCount = s.pageCount)
    (words : ∀ level < 6, ∀ idx < bitmapWords g.pageCount level,
      mem'.load64 (bitmapAt pfa g.pageCount level + idx * 8) = s'.buddyBitmaps level idx)
    (bytes : ∀ idx < g.pageCount, mem' (pfa + mdsOffset g.pageCount + idx) = s'.metadata idx) :
    Record mdsOffset g pfa s' mem' := by
  refine record.of_pointers pointers ?_ ?_ ?_ words bytes
  · rw [head.load32 (by omega) (by omega), record.lock, lock]
  · rw [head.load32 (by omega) (by omega), record.base, base]
  · rw [head.load32 (by omega) (by omega), record.count, count]

/-- The record depends on the bytes of the structures outside the list heads. -/
theorem Record.congr (site : Site mdsOffset g pfa) (record : Record mdsOffset g pfa s mem)
    (head : Agree pfa (pfa + 16) mem mem') (rest : Agree (pfa + 208) (pfa + requiredBytes g.pageCount) mem mem') :
    Record mdsOffset g pfa s mem' := by
  have size := size_le_requiredBytes g.pageCount
  have after := site.mds_after
  have mdsFits := site.mds_fits
  have total := pfaSize_eq
  refine record.of_head head (rest.mono le_rfl (by omega)) rfl rfl rfl (fun level bound idx lt => ?_) fun idx lt => ?_
  · have place := site.bitmaps_le bound
    rw [rest.load64 (by omega) (by omega), record.words level bound idx lt]
  · rw [rest _ (by omega) (by omega), record.bytes idx lt]

/-- A change inside the record keeps the lists and the frame. -/
theorem Depicts.of_record (site : Site mdsOffset g pfa) (depicts : Depicts g pfa start s image) {s' : Pfa}
    (physmap : s'.physmapVmBase = s.physmapVmBase) (count : s'.pageCount = s.pageCount)
    (lists : s'.buddyLists = s.buddyLists) (may : s'.mayLink = s.mayLink)
    (record : Record mdsOffset g pfa s' mem')
    (kept : ∀ a, a < pfa ∨ pfa + 16 ≤ a ∧ a < pfa + 208 ∨ pfa + requiredBytes g.pageCount ≤ a →
      mem' a = image.mem a) : Depicts g pfa start s' (image.withMem mem') where
  at_pfa := depicts.at_pfa
  physmap := ⟨physmap.trans depicts.physmap.1, depicts.physmap.2⟩
  count := count.trans depicts.count
  record := record
  lists := by
    have size := size_le_requiredBytes g.pageCount
    rw [lists, withMem_mem]
    have same (a : Nat) (member : a ∈ cells g pfa) : Agree a (a + 16) image.mem mem' := by
      have place := site.cell_place member
      exact fun x above below => kept x (by omega)
    refine depicts.lists.congr (fun a member => ?_) fun a member => ?_
    · rw [next, next, ptr, ptr, (same a member).load64 (by omega) (by omega)]
    · rw [prev, prev, ptr, ptr, (same a member).load64 (by omega) (by omega)]
  owns := by
    rw [may]
    exact depicts.owns
  frame a outside nodes := (kept a (by omega)).trans (depicts.frame a outside nodes)

/-- A change of the nodes keeps the record and the frame. -/
theorem Depicts.of_lists (site : Site mdsOffset g pfa) (depicts : Depicts g pfa start s image) {lists : Nat → List Nat}
    (listed : ListsAt 6 (cells g pfa) (listAt pfa) lists mem') (untouched : Untouched (cells g pfa) image.mem mem') :
    Depicts g pfa start { s with buddyLists := lists } (image.withMem mem') where
  at_pfa := depicts.at_pfa
  physmap := depicts.physmap
  count := depicts.count
  record := by
    have size := size_le_requiredBytes g.pageCount
    have record := depicts.record.congr site
      (fun a above below => untouched a fun c member => by have := site.cell_place member; omega)
      (fun a above below => untouched a fun c member => by have := site.cell_place member; omega)
    exact ⟨record.lock, record.base, record.count, record.bitmap, record.metadata, record.words, record.bytes⟩
  lists := listed
  owns := depicts.owns
  frame a outside nodes := by
    have size := size_le_requiredBytes g.pageCount
    rw [← depicts.frame a outside nodes]
    refine untouched a ?_
    unfold cells listHead listTail listAt
    rintro c (⟨level, bound, rfl | rfl⟩ | ⟨p, usable, managed, rfl⟩)
    · omega
    · omega
    · exact nodes p usable managed

theorem Depicts.setLock (site : Site mdsOffset g pfa) (depicts : Depicts g pfa start s image) {value : Nat}
    (small : value < 2 ^ 32) :
    Depicts g pfa start { s with lock := value } (image.withMem (image.mem.store32 pfa (BitVec.ofNat 32 value))) := by
  have size := size_le_requiredBytes g.pageCount
  have record := depicts.record
  have rest : Agree (pfa + 208) (pfa + requiredBytes g.pageCount) image.mem
      (image.mem.store32 pfa (BitVec.ofNat 32 value)) := agree_store32 _ _ (by omega)
  refine depicts.of_record site rfl rfl rfl rfl (record.of_pointers (rest.mono le_rfl (by omega)) ?_ ?_ ?_
    (fun level bound idx lt => ?_) fun idx lt => ?_) fun a outside => store32_of_outside (by omega)
  · show ((image.mem.store32 pfa (BitVec.ofNat 32 value)).load32 pfa).toNat = value
    rw [load32_store32, BitVec.toNat_ofNat, Nat.mod_eq_of_lt small]
  · rw [load32_store32_of_apart (by omega), record.base]
  · rw [load32_store32_of_apart (by omega), record.count]
  · have place := site.bitmaps_le bound
    have mdsFits := site.mds_fits
    rw [rest.load64 (by omega) (by omega), record.words level bound idx lt]
  · have after := site.mds_after
    have mdsFits := site.mds_fits
    have total := pfaSize_eq
    rw [rest _ (by omega) (by omega), record.bytes idx lt]

theorem Depicts.setWord (site : Site mdsOffset g pfa) (depicts : Depicts g pfa start s image) {level idx : Nat}
    (bound : level < 6) (lt : idx < bitmapWords g.pageCount level) (word : BitVec 64) :
    Depicts g pfa start
      { s with buddyBitmaps := Function.update s.buddyBitmaps level (Function.update (s.buddyBitmaps level) idx word) }
      (image.withMem (image.mem.store64 (bitmapAt pfa g.pageCount level + idx * 8) word)) := by
  have size := size_le_requiredBytes g.pageCount
  have record := depicts.record
  have place := site.bitmaps_le bound
  have mdsFits := site.mds_fits
  have head : Agree pfa (pfa + 264) image.mem (image.mem.store64 (bitmapAt pfa g.pageCount level + idx * 8) word) :=
    agree_store64 _ _ (by omega)
  refine depicts.of_record site rfl rfl rfl rfl (record.of_head (head.mono le_rfl (by omega))
    (head.mono (by omega) le_rfl) rfl rfl rfl (fun l lt' i inside => ?_) fun i inside => ?_)
    fun a outside => store64_of_outside (by omega)
  · by_cases same : l = level
    · subst same
      simp only [Function.update_self]
      by_cases here : i = idx
      · subst here
        rw [load64_store64, Function.update_self]
      · rw [load64_store64_of_apart (by omega), Function.update_of_ne here, record.words l lt' i inside]
    · simp only [Function.update_of_ne same]
      have order : bitmapAt pfa g.pageCount l + bitmapWords g.pageCount l * 8 ≤ bitmapAt pfa g.pageCount level ∨
          bitmapAt pfa g.pageCount level + bitmapWords g.pageCount level * 8 ≤ bitmapAt pfa g.pageCount l := by
        unfold bitmapAt
        rcases Nat.lt_or_gt_of_ne same with below | above
        · have := bitmap_end_le g.pageCount below
          omega
        · have := bitmap_end_le g.pageCount above
          omega
      rw [load64_store64_of_apart (by omega), record.words l lt' i inside]
  · rw [store64_of_outside (by omega), record.bytes i inside]

theorem Depicts.setMetadata (site : Site mdsOffset g pfa) (depicts : Depicts g pfa start s image) {idx count : Nat}
    (inside : idx + count ≤ g.pageCount) (byte : BitVec 8) :
    Depicts g pfa start { s with metadata := fun i => if idx ≤ i ∧ i < idx + count then byte else s.metadata i }
      (image.withMem (image.mem.memset (pfa + mdsOffset g.pageCount + idx) byte count)) := by
  have size := size_le_requiredBytes g.pageCount
  have record := depicts.record
  have after := site.mds_after
  have mdsFits := site.mds_fits
  have total := pfaSize_eq
  have head : Agree pfa (pfa + mdsOffset g.pageCount) image.mem
      (image.mem.memset (pfa + mdsOffset g.pageCount + idx) byte count) := agree_memset (by omega)
  refine depicts.of_record site rfl rfl rfl rfl (record.of_head (head.mono le_rfl (by omega))
    (head.mono (by omega) (by omega)) rfl rfl rfl (fun l lt' i below => ?_) fun i below => ?_)
    fun a outside => memset_of_outside (by omega)
  · have place := site.bitmaps_le lt'
    rw [head.load64 (by omega) (by omega), record.words l lt' i below]
  · dsimp only
    split
    · exact memset_of_inside (by omega) (by omega)
    · rw [memset_of_outside (by omega), record.bytes i below]

theorem Depicts.buddyBitmap_eq (depicts : Depicts g pfa start s image) {level : Nat} (bound : level < 6) :
    image.buddyBitmap level = bitmapAt pfa g.pageCount level := by
  rw [← depicts.record.bitmap level bound, buddyBitmap, depicts.at_pfa]
  rfl

theorem Depicts.buddyList_eq (depicts : Depicts g pfa start s image) (level : Nat) :
    image.buddyList level = listAt pfa level := by
  rw [buddyList, depicts.at_pfa]
  rfl

theorem Depicts.metadata_eq (depicts : Depicts g pfa start s image) :
    image.metadata = pfa + mdsOffset g.pageCount := by
  rw [← depicts.record.metadata, PfaImage.metadata, depicts.at_pfa]
  rfl

theorem Depicts.bitmapWord (depicts : Depicts g pfa start s image) (level idx : Nat) :
    Refines Eq (s.bitmapWord level idx) (PfaStore.bitmapWord level idx image) := by
  constructor
  intro word run
  unfold Pfa.bitmapWord at run
  split at run
  · rename_i access
    cases run
    refine ⟨_, rfl, ?_⟩
    rw [depicts.buddyBitmap_eq access.1, depicts.record.words level access.1 idx (depicts.count ▸ access.2)]
  · cases run

theorem Depicts.setBitmapWord (site : Site mdsOffset g pfa) (depicts : Depicts g pfa start s image)
    (level idx : Nat) (word : BitVec 64) :
    Refines (Depicts g pfa start) (s.setBitmapWord level idx word) (PfaStore.setBitmapWord level idx word image) := by
  constructor
  intro after run
  unfold Pfa.setBitmapWord at run
  split at run
  · rename_i access
    cases run
    refine ⟨_, rfl, ?_⟩
    rw [depicts.buddyBitmap_eq access.1]
    exact depicts.setWord site access.1 (depicts.count ▸ access.2) word
  · cases run

theorem Depicts.fillMetadata (site : Site mdsOffset g pfa) (depicts : Depicts g pfa start s image)
    (idx count : Nat) (byte : BitVec 8) :
    Refines (Depicts g pfa start) (s.fillMetadata idx count byte) (PfaStore.fillMetadata idx count byte image) := by
  constructor
  intro after run
  unfold Pfa.fillMetadata at run
  split at run
  · rename_i access
    cases run
    refine ⟨_, rfl, ?_⟩
    rw [depicts.metadata_eq]
    exact depicts.setMetadata site (depicts.count ▸ access) byte
  · cases run

/-- The head of a list points to its tail just if the list is empty. -/
theorem Depicts.listEmpty_run (site : Site mdsOffset g pfa) (depicts : Depicts g pfa start s image) {level : Nat}
    (bound : level < 6) : Mem.listEmpty (image.buddyList level) image.mem = .ok (s.buddyLists level).isEmpty := by
  have nodes := site.cells_apart
  have lists := depicts.lists
  have pos : listAt pfa level ≠ 0 := Nat.pos_iff_ne_zero.mp (nodes.pos _ (lists.head_cell bound))
  have chain := lists.chain level bound
  have nodup := lists.nodup level bound
  rw [depicts.buddyList_eq, Mem.listEmpty, listBegin, listEnd, assert_of pos]
  simp only [ok_bind]
  cases shape : s.buddyLists level with
  | nil =>
    rw [shape] at chain
    rw [chain.1]
    simp
  | cons x xs =>
    rw [shape] at chain nodup
    have different : x ≠ listTail (listAt pfa level) := by
      rintro rfl
      simp [whole] at nodup
    rw [chain.1]
    simp [different]

theorem Depicts.listEmpty (site : Site mdsOffset g pfa) (depicts : Depicts g pfa start s image) (level : Nat) :
    Refines Eq (s.listEmpty level) (PfaStore.listEmpty level image) := by
  constructor
  intro empty run
  unfold Pfa.listEmpty at run
  split at run
  · rename_i bound
    cases run
    exact ⟨_, depicts.listEmpty_run site bound, rfl⟩
  · cases run

theorem Depicts.listFront (site : Site mdsOffset g pfa) (depicts : Depicts g pfa start s image) (level : Nat) :
    Refines Eq (s.listFront level) (PfaStore.listFront level image) := by
  constructor
  intro front run
  unfold Pfa.listFront at run
  split at run
  · rename_i bound
    split at run
    · cases run
    · rename_i first rest shape
      cases run
      have chain := depicts.lists.chain level bound
      rw [shape] at chain
      refine ⟨front, ?_, rfl⟩
      show Mem.listFront (image.buddyList level) image.mem = .ok front
      rw [Mem.listFront, depicts.listEmpty_run site bound, shape, ok_bind, assert_of (by simp), ok_bind,
        depicts.buddyList_eq, chain.1]
  · cases run

theorem Depicts.listPushFront (site : Site mdsOffset g pfa) (depicts : Depicts g pfa start s image)
    (level elem : Nat) :
    Refines (Depicts g pfa start) (s.listPushFront level elem) (PfaStore.listPushFront level elem image) := by
  constructor
  intro after run
  unfold Pfa.listPushFront at run
  split at run
  · cases run
  split at run
  · cases run
  split at run
  · cases run
  split at run
  · cases run
  rename_i bound nonzero unlinked may
  cases run
  have bound : level < 6 := not_not.mp bound
  obtain ⟨p, usable, managed, isNode⟩ := depicts.owns elem (not_not.mp may)
  have inCells : elem ∈ cells g pfa := Or.inr ⟨p, usable, managed, isNode⟩
  have fresh : ∀ l < 6, elem ∉ whole (listAt pfa l) (s.buddyLists l) := by
    intro l lt member
    have size := size_le_requiredBytes g.pageCount
    have clear := site.apart p usable managed
    rcases mem_whole.mp member with isHead | linked | isTail
    · unfold listHead listAt at isHead
      omega
    · exact unlinked (Pfa.linked_iff.mpr ⟨l, lt, linked⟩)
    · unfold listTail listAt at isTail
      omega
  obtain ⟨mem', pushed, lists, untouched⟩ := depicts.lists.push_front site.cells_apart bound inCells fresh
  refine ⟨image.withMem mem', ?_, depicts.of_lists site lists untouched⟩
  show (do let mem ← Mem.listPushFront (image.buddyList level) elem image.mem; .ok (image.withMem mem)) = _
  rw [depicts.buddyList_eq, pushed, ok_bind]

theorem Depicts.listRemove (site : Site mdsOffset g pfa) (depicts : Depicts g pfa start s image) (elem : Nat) :
    Refines (Depicts g pfa start) (s.listRemove elem) (PfaStore.listRemove elem image) := by
  constructor
  intro after run
  unfold Pfa.listRemove at run
  split at run
  · rename_i linked
    cases run
    obtain ⟨level, bound, member⟩ := Pfa.linked_iff.mp linked
    obtain ⟨mem', removed, lists, untouched⟩ := depicts.lists.remove site.cells_apart bound member
    refine ⟨image.withMem mem', ?_, depicts.of_lists site lists untouched⟩
    show (do let mem ← Mem.listRemove elem image.mem; .ok (image.withMem mem)) = _
    rw [removed, ok_bind]
  · cases run

/-- Every access that is defined on the state does the same to the memory. -/
theorem depicts_simulates (site : Site mdsOffset g pfa) (start : Mem) :
    Simulates fun (s : Pfa) (image : PfaImage mdsOffset) => Depicts g pfa start s image where
  physmapVmBase depicts := depicts.physmap.1.trans depicts.physmap.2.symm
  pageBase {s image} depicts := by
    show s.pageBase = (image.mem.load32 (image.pfa + 4)).toNat
    rw [depicts.at_pfa, depicts.record.base]
  pageCount {s image} depicts := by
    show s.pageCount = (image.mem.load32 (image.pfa + 8)).toNat
    rw [depicts.at_pfa, depicts.record.count]
  lockValue {s image} depicts := by
    show s.lock = (image.mem.load32 (image.pfa + 0)).toNat
    rw [depicts.at_pfa, depicts.record.lock]
  lockLt {s image} depicts := by
    show s.lock < 2 ^ 32
    rw [← depicts.record.lock]
    exact BitVec.isLt _
  setLockValue {s image} depicts value small := by
    have set := depicts.setLock site small
    rw [← depicts.at_pfa] at set
    exact depicts.at_pfa ▸ set
  bitmapWord depicts := depicts.bitmapWord
  setBitmapWord depicts := depicts.setBitmapWord site
  listEmpty depicts := depicts.listEmpty site
  listFront depicts := depicts.listFront site
  listPushFront depicts := depicts.listPushFront site
  listRemove depicts := depicts.listRemove site
  fillMetadata depicts := depicts.fillMetadata site

end Swink.PfaImage
