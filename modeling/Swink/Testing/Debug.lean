import Mathlib.Data.Set.Card
import Swink.Image.Isolation
import Swink.Lists.Ops
import Swink.Testing.Traces

namespace Swink.PfaImage
open Mem Refinement Links Blocks Dyadic
variable {mdsOffset : Nat → Nat}

/-- The loop of `pmap_pfa_get_state` over the levels from `level` on. -/
def levelSizes (rounds : Nat) (image : PfaImage mdsOffset) : (levels level : Nat) → Except Fault (List Nat)
  | 0, _ => .ok []
  | levels + 1, level => do
    let size ← listSize rounds (image.buddyList level) image.mem
    let sizes ← levelSizes rounds image levels (level + 1)
    .ok (size :: sizes)

/-- `pmap_pfa_get_state`, with what it writes to `level_buffer`. -/
def pmapPfaGetState (rounds count : Nat) (image : PfaImage mdsOffset) : Except Fault (List Nat × PfaImage mdsOffset) := do
  require (count ≥ buddyLevels) "count >= BUDDY_LEVELS"
  let image ← synchsLockAcquire image
  let sizes ← levelSizes rounds image buddyLevels 0
  .ok (sizes, synchsLockRelease image)

/-- `pa_to_page_id(pmap_physmap_kva_to_pa(...))` of a list node, which lies at the start of its entry. -/
def pageOfElem (e : Nat) (image : PfaImage mdsOffset) : Except Fault Nat := do
  let pa ← pmapPhysmapKvaToPa image.physmapVmBase e
  .ok (paToPageId pa)

def containsLoop (list page : Nat) (image : PfaImage mdsOffset) : Nat → Nat → Except Fault Nat
  | 0, _ => .error .fuel
  | rounds + 1, e => do
    let last ← listEnd list
    if e = last then .ok 0
    else
      let page1 ← pageOfElem e image
      if page1 = page then .ok e
      else
        let e ← listNext e image.mem
        containsLoop list page image rounds e

/-- `pmap_pfa_contains` -/
def pmapPfaContains (rounds level page : Nat) (image : PfaImage mdsOffset) : Except Fault Nat := do
  let e ← listBegin (image.buddyList level) image.mem
  containsLoop (image.buddyList level) page image rounds e

/-- A call of `printf`. -/
abbrev Print := String × List (BitVec 64)

def dumpLoop (list : Nat) (image : PfaImage mdsOffset) : Nat → Nat → Except Fault (List Print)
  | 0, _ => .error .fuel
  | rounds + 1, e => do
    let last ← listEnd list
    if e = last then .ok []
    else
      let page ← pageOfElem e image
      let e ← listNext e image.mem
      let prints ← dumpLoop list image rounds e
      .ok (("\t%d\n", [BitVec.ofNat 64 page]) :: prints)

/-- What `pmap_pfa_dump_state` prints for one level. -/
def dumpLevel (rounds level : Nat) (image : PfaImage mdsOffset) : Except Fault (List Print) := do
  let size ← listSize rounds (image.buddyList level) image.mem
  let header : Print := ("Level %d -- free count = %lu\n", [BitVec.ofNat 64 level, BitVec.ofNat 64 size])
  if size < 100 then
    let e ← listBegin (image.buddyList level) image.mem
    let prints ← dumpLoop (image.buddyList level) image rounds e
    .ok (header :: prints)
  else .ok [header]

def dumpLevels (rounds : Nat) (image : PfaImage mdsOffset) : (levels level : Nat) → Except Fault (List Print)
  | 0, _ => .ok []
  | levels + 1, level => do
    let prints ← dumpLevel rounds level image
    let rest ← dumpLevels rounds image levels (level + 1)
    .ok (prints ++ rest)

/-- `pmap_pfa_dump_state`, with what it prints. -/
def pmapPfaDumpState (rounds : Nat) (image : PfaImage mdsOffset) : Except Fault (List Print) :=
  dumpLevels rounds image buddyLevels 0

section Walking

variable {count level : Nat} {cells : Set Nat} {list : Nat → Nat} {elems : Nat → List Nat} {mem : Mem} {xs rest : List Nat}
  {x : Nat}

/-- From an element on to the next one. -/
theorem listNext_of (nodes : Cells cells) (lists : ListsAt count cells list elems mem) (bound : level < count)
    (shape : elems level = xs ++ x :: rest) : listNext x mem = .ok (cursor (list level) rest) := by
  have chain := lists.chain level bound
  have cell := lists.nodes level bound
  rw [shape] at chain cell
  obtain ⟨left, right⟩ := chain_append.mp chain
  have before := left.prev_last_mem
  have next : mem.next x = cursor (list level) rest := by
    rw [right.next_first]
    cases rest <;> rfl
  have prevPos := nodes.pos _ (cell (mem.prev x) (by
    rw [whole_append]
    exact List.mem_append_left _ before))
  have nextPos := nodes.pos _ (cell (mem.next x) (by
    rw [next, whole_append]
    refine List.mem_append_right _ (List.mem_cons_of_mem _ ?_)
    cases rest <;> simp))
  have pos := nodes.pos x (cell x (mem_whole_append.mpr (Or.inr (Or.inr (Or.inl (List.mem_cons_self ..))))))
  rw [listNext, assert_of (Or.inr ⟨by omega, by omega, by omega⟩), ok_bind, next]

theorem listBegin_of (nodes : Cells cells) (lists : ListsAt count cells list elems mem) (bound : level < count) :
    listBegin (list level) mem = .ok (cursor (list level) (elems level)) := by
  have pos := nodes.pos _ (lists.head_cell bound)
  rw [listBegin, assert_of (show list level ≠ 0 from Nat.pos_iff_ne_zero.mp pos), ok_bind,
    (lists.chain level bound).next_first]
  cases elems level <;> rfl

theorem listEnd_of (nodes : Cells cells) (lists : ListsAt count cells list elems mem) (bound : level < count) :
    listEnd (list level) = .ok (listTail (list level)) := by
  have pos := nodes.pos _ (lists.head_cell bound)
  rw [listEnd, assert_of (show list level ≠ 0 from Nat.pos_iff_ne_zero.mp pos), ok_bind]

theorem ne_tail (lists : ListsAt count cells list elems mem) (bound : level < count)
    (shape : elems level = xs ++ x :: rest) : x ≠ listTail (list level) :=
  (lists.elem_ne bound (by rw [shape]; simp) bound).2

theorem sizeLoop_of (nodes : Cells cells) (lists : ListsAt count cells list elems mem) (bound : level < count)
    (shape : elems level = xs ++ rest) {rounds counted : Nat} (enough : rest.length < rounds)
    (fits : counted + rest.length < 2 ^ 64) :
    sizeLoop (list level) mem rounds (cursor (list level) rest) counted = .ok (counted + rest.length) := by
  induction rest generalizing xs rounds counted with
  | nil =>
    obtain ⟨rounds, rfl⟩ := Nat.exists_eq_succ_of_ne_zero (Nat.ne_of_gt enough)
    rw [sizeLoop, listEnd_of nodes lists bound, ok_bind, cursor_nil, if_pos rfl, List.length_nil, Nat.add_zero]
  | cons y rest ih =>
    obtain ⟨rounds, rfl⟩ := Nat.exists_eq_succ_of_ne_zero (by omega : rounds ≠ 0)
    have shift : elems level = xs ++ [y] ++ rest := by rw [shape, List.append_assoc, List.singleton_append]
    simp only [List.length_cons] at enough fits ⊢
    rw [sizeLoop, listEnd_of nodes lists bound, ok_bind, cursor_cons, if_neg (ne_tail lists bound shape),
      listNext_of nodes lists bound shape, ok_bind, Nat.mod_eq_of_lt (by omega), ih shift (by omega) (by omega),
      Nat.add_assoc, Nat.add_comm 1]

theorem listSize_of (nodes : Cells cells) (lists : ListsAt count cells list elems mem) (bound : level < count)
    {rounds : Nat} (enough : (elems level).length < rounds) (fits : (elems level).length < 2 ^ 64) :
    listSize rounds (list level) mem = .ok (elems level).length := by
  rw [listSize, listBegin_of nodes lists bound, ok_bind, sizeLoop_of nodes lists bound (List.nil_append _).symm enough
    (by omega), Nat.zero_add]

end Walking

/-- The pages whose nodes are on a list, in the order of the list. -/
theorem buddyLists_eq {g : Geometry} {s : Pfa} {blocks : Blocks} (holds : s.Holds g blocks) {level : Nat}
    (bound : level < 6) : s.buddyLists level = (s.pagesOn level).map g.node := by
  rw [Pfa.pagesOn, List.map_map]
  refine (List.map_id _).symm.trans (List.map_congr_left fun a listed => ?_)
  obtain ⟨p, member, rfl⟩ := (holds.lists.mem_iff level bound a).mp listed
  simp only [id_eq, Function.comp_apply, Pfa.pageOfNode_node holds.manages (holds.managed.page_lt member)]

theorem length_pagesOn_le {g : Geometry} {s : Pfa} {blocks : Blocks} (holds : s.Holds g blocks) {level : Nat}
    (bound : level < 6) : (s.pagesOn level).length ≤ g.pageCount := by
  have within : s.pagesOn level ⊆ List.range g.pageCount := fun p listed =>
    List.mem_range.mpr (holds.managed.page_lt ((holds.mem_pagesOn bound).mp listed))
  simpa using ((holds.nodup_pagesOn bound).subperm within).length_le

/-- How many maximal blocks of a level there are. -/
noncomputable def blockCount (free : Set Nat) (level : Nat) : Nat := {p | Maximal 5 free level p}.ncard

theorem length_pagesOn {g : Geometry} {s : Pfa} {free : Set Nat} (holds : s.Holds g (Maximal 5 free)) {level : Nat}
    (bound : level < 6) : (s.pagesOn level).length = blockCount free level := by
  have same : {p | Maximal 5 free level p} = ↑(s.pagesOn level).toFinset := by
    ext p
    rw [Finset.mem_coe, List.mem_toFinset, holds.mem_pagesOn bound]
    rfl
  rw [blockCount, same, Set.ncard_coe_finset, List.toFinset_card_of_nodup (holds.nodup_pagesOn bound)]

section Reports

variable {g : Geometry} {pfa : Nat} {start : Mem} {s : Pfa} {image : PfaImage mdsOffset} {free : Set Nat} {level : Nat}

theorem Depicts.size (site : Site mdsOffset g pfa) (depicts : Depicts g pfa start s image)
    (holds : s.Holds g (Maximal 5 free)) (bound : level < 6) {rounds : Nat} (enough : 2 ^ 20 < rounds) :
    listSize rounds (image.buddyList level) image.mem = .ok (s.pagesOn level).length := by
  have countLe := g.pageCount_le
  have few := length_pagesOn_le holds bound
  have length : (s.buddyLists level).length = (s.pagesOn level).length := by
    rw [buddyLists_eq holds bound, List.length_map]
  rw [depicts.buddyList_eq, ← length]
  exact listSize_of site.cells_apart depicts.lists bound (by omega) (by omega)

theorem Depicts.pageOfElem (depicts : Depicts g pfa start s image) {page : Nat} (managed : page < g.pageCount) :
    pageOfElem (g.node page) image = .ok page := by
  have countLe := g.pageCount_le
  rw [PfaImage.pageOfElem, depicts.physmap.2, g.kvaToPa_node, ok_bind, paToPageId_mul (by omega)]

theorem Depicts.containsLoop (site : Site mdsOffset g pfa) (depicts : Depicts g pfa start s image)
    (holds : s.Holds g (Maximal 5 free)) (bound : level < 6) (page : Nat) {passed left : List Nat}
    (shape : s.pagesOn level = passed ++ left) {rounds : Nat} (enough : left.length < rounds) :
    containsLoop (listAt pfa level) page image rounds (cursor (listAt pfa level) (left.map g.node)) =
      .ok (if page ∈ left then g.node page else 0) := by
  induction left generalizing passed rounds with
  | nil =>
    obtain ⟨rounds, rfl⟩ := Nat.exists_eq_succ_of_ne_zero (Nat.ne_of_gt enough)
    rw [PfaImage.containsLoop, listEnd_of site.cells_apart depicts.lists bound, ok_bind, List.map_nil, cursor_nil,
      if_pos rfl, if_neg List.not_mem_nil]
  | cons p left ih =>
    obtain ⟨rounds, rfl⟩ := Nat.exists_eq_succ_of_ne_zero (by omega : rounds ≠ 0)
    have nodes : s.buddyLists level = passed.map g.node ++ g.node p :: left.map g.node := by
      rw [buddyLists_eq holds bound, shape, List.map_append, List.map_cons]
    have listed : p ∈ s.pagesOn level := by rw [shape]; simp
    have managed := holds.managed.page_lt ((holds.mem_pagesOn bound).mp listed)
    rw [PfaImage.containsLoop, listEnd_of site.cells_apart depicts.lists bound, ok_bind, List.map_cons, cursor_cons,
      if_neg (ne_tail depicts.lists bound nodes), depicts.pageOfElem managed, ok_bind]
    by_cases here : p = page
    · rw [if_pos here, if_pos (by rw [here]; exact List.mem_cons_self ..), here]
    · have shift : s.pagesOn level = passed ++ [p] ++ left := by rw [shape, List.append_assoc, List.singleton_append]
      rw [if_neg here, listNext_of site.cells_apart depicts.lists bound nodes, ok_bind,
        ih shift (by simpa using enough)]
      simp only [List.mem_cons, Ne.symm here, false_or]

theorem Depicts.contains (site : Site mdsOffset g pfa) (depicts : Depicts g pfa start s image)
    (holds : s.Holds g (Maximal 5 free)) (bound : level < 6) (page : Nat) {rounds : Nat} (enough : 2 ^ 20 < rounds) :
    pmapPfaContains rounds level page image = .ok (if page ∈ s.pagesOn level then g.node page else 0) := by
  have countLe := g.pageCount_le
  have few := length_pagesOn_le holds bound
  rw [pmapPfaContains, depicts.buddyList_eq, listBegin_of site.cells_apart depicts.lists bound, ok_bind,
    buddyLists_eq holds bound]
  exact depicts.containsLoop site holds bound page (List.nil_append _).symm (by omega)

theorem Depicts.dumpLoop (site : Site mdsOffset g pfa) (depicts : Depicts g pfa start s image)
    (holds : s.Holds g (Maximal 5 free)) (bound : level < 6) {passed left : List Nat}
    (shape : s.pagesOn level = passed ++ left) {rounds : Nat} (enough : left.length < rounds) :
    dumpLoop (listAt pfa level) image rounds (cursor (listAt pfa level) (left.map g.node)) =
      .ok (left.map fun p => ("\t%d\n", [BitVec.ofNat 64 p])) := by
  induction left generalizing passed rounds with
  | nil =>
    obtain ⟨rounds, rfl⟩ := Nat.exists_eq_succ_of_ne_zero (Nat.ne_of_gt enough)
    rw [PfaImage.dumpLoop, listEnd_of site.cells_apart depicts.lists bound, ok_bind, List.map_nil, cursor_nil,
      if_pos rfl, List.map_nil]
  | cons p left ih =>
    obtain ⟨rounds, rfl⟩ := Nat.exists_eq_succ_of_ne_zero (by omega : rounds ≠ 0)
    have nodes : s.buddyLists level = passed.map g.node ++ g.node p :: left.map g.node := by
      rw [buddyLists_eq holds bound, shape, List.map_append, List.map_cons]
    have listed : p ∈ s.pagesOn level := by rw [shape]; simp
    have managed := holds.managed.page_lt ((holds.mem_pagesOn bound).mp listed)
    have shift : s.pagesOn level = passed ++ [p] ++ left := by rw [shape, List.append_assoc, List.singleton_append]
    rw [PfaImage.dumpLoop, listEnd_of site.cells_apart depicts.lists bound, ok_bind, List.map_cons, cursor_cons,
      if_neg (ne_tail depicts.lists bound nodes), depicts.pageOfElem managed, ok_bind,
      listNext_of site.cells_apart depicts.lists bound nodes, ok_bind, ih shift (by simpa using enough), ok_bind,
      List.map_cons]

/-- The lines that `pmap_pfa_dump_state` prints for a level with the given blocks. -/
def levelPrints (level : Nat) (pages : List Nat) : List Print :=
  ("Level %d -- free count = %lu\n", [BitVec.ofNat 64 level, BitVec.ofNat 64 pages.length]) ::
    if pages.length < 100 then pages.map fun p => ("\t%d\n", [BitVec.ofNat 64 p]) else []

theorem Depicts.dumpLevel (site : Site mdsOffset g pfa) (depicts : Depicts g pfa start s image)
    (holds : s.Holds g (Maximal 5 free)) (bound : level < 6) {rounds : Nat} (enough : 2 ^ 20 < rounds) :
    dumpLevel rounds level image = .ok (levelPrints level (s.pagesOn level)) := by
  have countLe := g.pageCount_le
  have few := length_pagesOn_le holds bound
  rw [PfaImage.dumpLevel, depicts.size site holds bound enough, ok_bind, levelPrints]
  by_cases short : (s.pagesOn level).length < 100
  · rw [if_pos short, if_pos short, depicts.buddyList_eq, listBegin_of site.cells_apart depicts.lists bound, ok_bind,
      buddyLists_eq holds bound, depicts.dumpLoop site holds bound (List.nil_append _).symm (by omega), ok_bind]
  · rw [if_neg short, if_neg short]

end Reports

/-- Taking the lock and giving it back leaves the memory as it was. -/
theorem store32_twice (mem : Mem) (a : Nat) (value : BitVec 32) :
    (mem.store32 a value).store32 a (mem.load32 a) = mem := by
  funext x
  by_cases inside : a ≤ x ∧ x < a + 4
  · obtain ⟨i, rfl⟩ := Nat.exists_eq_add_of_le inside.1
    have lt : i < 4 := by omega
    have written : ((mem.store32 a value).store32 a (mem.load32 a)) (a + i) = (mem.load32 a).extractLsb' (8 * i) 8 :=
      ByteMemory.store_at (fun i _ j _ same => Nat.add_left_cancel same) lt
    have byte : (mem.load32 a).extractLsb' (8 * i) (8 * 1) = ByteMemory.load (8 * 1) mem (fun j => a + (i + j)) 1 :=
      ByteMemory.extractLsb'_load (by omega) (by omega)
    rw [written]
    refine byte.trans ?_
    apply BitVec.eq_of_getLsbD_eq
    intro j small
    rw [ByteMemory.getLsbD_load]
    have zero : j / 8 = 0 := by omega
    have same : j % 8 = j := by omega
    simp [zero, same, small]
  · rw [store32_of_outside (by omega), store32_of_outside (by omega)]

section Reports

variable {g : Geometry} {pfa : Nat} {start : Mem} {s : Pfa} {image : PfaImage mdsOffset} {free : Set Nat}

theorem Depicts.locked (site : Site mdsOffset g pfa) (depicts : Depicts g pfa start s image) (ready : s.Ready g free) :
    ∃ locked, synchsLockAcquire image = .ok locked ∧ synchsLockRelease locked = image ∧
      Depicts g pfa start { s with lock := 0 } locked := by
  have value : (image.mem.load32 (image.pfa + lockOffset)).toNat = 1 := by
    rw [depicts.at_pfa]
    exact depicts.record.lock.trans ready.unlocked
  have word : image.mem.load32 (image.pfa + lockOffset) = BitVec.ofNat 32 1 := BitVec.eq_of_toNat_eq value
  have lock : PfaStore.lockValue image = 1 := value
  refine ⟨PfaStore.setLockValue 0 image, ?_, ?_, (depicts_simulates site start).setLockValue depicts 0 (by decide)⟩
  · rw [synchsLockAcquire, lock, if_neg (by decide)]
  · have zero : PfaStore.lockValue (PfaStore.setLockValue 0 image) = 0 := by
      show ((image.mem.store32 (image.pfa + lockOffset) (BitVec.ofNat 32 0)).load32 (image.pfa + lockOffset)).toNat = 0
      rw [load32_store32]
      rfl
    rw [synchsLockRelease, zero]
    show image.withMem ((image.mem.store32 (image.pfa + lockOffset) (BitVec.ofNat 32 0)).store32
      (image.pfa + lockOffset) (BitVec.ofNat 32 1)) = image
    rw [← word, store32_twice]
    rfl

theorem Depicts.levelSizes (site : Site mdsOffset g pfa) (depicts : Depicts g pfa start s image)
    (holds : s.Holds g (Maximal 5 free)) {rounds : Nat} (enough : 2 ^ 20 < rounds) {levels level : Nat}
    (within : level + levels ≤ 6) :
    levelSizes rounds image levels level = .ok ((List.range' level levels).map (blockCount free)) := by
  induction levels generalizing level with
  | zero => rfl
  | succ levels ih =>
    rw [PfaImage.levelSizes, depicts.size site holds (show level < 6 by omega) enough, ok_bind, ih (by omega), ok_bind,
      length_pagesOn holds (show level < 6 by omega)]
    rfl

/-- `pmap_pfa_get_state` counts the maximal free blocks of each level and leaves the memory as it was. -/
theorem Depicts.getState (site : Site mdsOffset g pfa) (depicts : Depicts g pfa start s image) (ready : s.Ready g free)
    {rounds count : Nat} (enough : 2 ^ 20 < rounds) (whole : buddyLevels ≤ count) :
    pmapPfaGetState rounds count image = .ok ((List.range buddyLevels).map (blockCount free), image) := by
  obtain ⟨locked, acquired, released, depicts'⟩ := depicts.locked site ready
  rw [pmapPfaGetState, require_of whole, ok_bind, acquired, ok_bind,
    depicts'.levelSizes site (ready.holds.withLock 0) enough (show 0 + buddyLevels ≤ 6 by decide), ok_bind, released,
    ← List.range_eq_range']

theorem Depicts.dumpLevels (site : Site mdsOffset g pfa) (depicts : Depicts g pfa start s image)
    (holds : s.Holds g (Maximal 5 free)) {rounds : Nat} (enough : 2 ^ 20 < rounds) {levels level : Nat}
    (within : level + levels ≤ 6) :
    dumpLevels rounds image levels level =
      .ok ((List.range' level levels).flatMap fun l => levelPrints l (s.pagesOn l)) := by
  induction levels generalizing level with
  | zero => rfl
  | succ levels ih =>
    rw [PfaImage.dumpLevels, depicts.dumpLevel site holds (show level < 6 by omega) enough, ok_bind, ih (by omega),
      ok_bind]
    rfl

theorem Depicts.dumpState (site : Site mdsOffset g pfa) (depicts : Depicts g pfa start s image)
    (holds : s.Holds g (Maximal 5 free)) {rounds : Nat} (enough : 2 ^ 20 < rounds) :
    pmapPfaDumpState rounds image = .ok ((List.range buddyLevels).flatMap fun l => levelPrints l (s.pagesOn l)) := by
  rw [pmapPfaDumpState, depicts.dumpLevels site holds enough (show 0 + buddyLevels ≤ 6 by decide), List.range_eq_range']

end Reports

/-- The debugging functions report the free memory as it is: in every state of every run of clients,
`pmap_pfa_get_state` counts the maximal aligned blocks of free pages of each level,
`pmap_pfa_contains` finds the node of a block just if it is one of them, and `pmap_pfa_dump_state`
prints each of them, but for levels with a hundred blocks or more; none of them changes the memory. -/
theorem debug_functions_report {b : BootParams} (placed : b.Placed mdsOffset) {raw start image : PfaImage mdsOffset}
    {calls : List Call} {results : List (Option Nat)} {held : Set Nat} (booted : boot b raw = .ok start)
    (run : Run b start calls results image held) {rounds : Nat} (enough : 2 ^ 20 < rounds) :
    (∀ count ≥ buddyLevels, pmapPfaGetState rounds count image =
      .ok ((List.range buddyLevels).map (blockCount (b.initialFree \ held)), image)) ∧
    (∀ level < buddyLevels, ∀ page,
      (Maximal 5 (b.initialFree \ held) level page →
        pmapPfaContains rounds level page image = .ok (b.physmapVmBase + page * pageSize)) ∧
      (¬Maximal 5 (b.initialFree \ held) level page → pmapPfaContains rounds level page image = .ok 0)) ∧
    ∃ pages : Nat → List Nat,
      (∀ level < buddyLevels, (pages level).Nodup ∧
        ∀ p, p ∈ pages level ↔ Maximal 5 (b.initialFree \ held) level p) ∧
      pmapPfaDumpState rounds image = .ok ((List.range buddyLevels).flatMap fun l => levelPrints l (pages l)) := by
  obtain ⟨first, begins⟩ := Mirrors.start placed.toSeparate booted
  obtain ⟨w, -, mirrors⟩ := run.mirrors placed.toSeparate begins
  have site := site_of_unreserved placed.toSeparate (Set.sdiff_subset (s := b.initialFree) (t := held))
  have depicts := mirrors.depicts
  have holds := mirrors.ready.holds
  refine ⟨fun count whole => depicts.getState site mirrors.ready enough whole, fun level bound page => ⟨?_, ?_⟩,
    w.pfa.pagesOn, fun level bound => ⟨holds.nodup_pagesOn bound, fun p => holds.mem_pagesOn bound⟩,
    depicts.dumpState site holds enough⟩
  · intro maximal
    rw [depicts.contains site holds bound page enough, if_pos ((holds.mem_pagesOn bound).mpr maximal)]
    rfl
  · intro other
    rw [depicts.contains site holds bound page enough, if_neg fun listed => other ((holds.mem_pagesOn bound).mp listed)]

theorem debug_functions_report_sample :
    ∃ start : PfaImage packedMdsOffset, boot sampleBoot ⟨fun _ => 0, 0, 0⟩ = .ok start ∧
      pmapPfaGetState (2 ^ 20 + 1) buddyLevels start =
        .ok ((List.range buddyLevels).map (blockCount sampleBoot.initialFree), start) := by
  obtain ⟨s, linkable, builds⟩ := boot_depicts sampleBoot_placed (⟨fun _ => 0, 0, 0⟩ : PfaImage packedMdsOffset)
  obtain ⟨_, run⟩ := sampleBoot.boot_returns s linkable (by decide) (by decide)
  obtain ⟨start, booted, -⟩ := builds.of_ok _ run
  have reports := (debug_functions_report sampleBoot_placed booted .start (show 2 ^ 20 < 2 ^ 20 + 1 by decide)).1
  rw [Set.sdiff_empty] at reports
  exact ⟨start, booted, reports _ le_rfl⟩

end Swink.PfaImage
