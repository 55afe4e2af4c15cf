import Swink.Image.Listed
import Swink.Pfa.Guarantees

namespace Swink.PfaImage
open Mem Refinement Pfa Blocks Dyadic
variable {mdsOffset : Nat → Nat} {b : BootParams}

/-- The bytes of a set of pages, where clients and list nodes find them in the physmap. -/
def bytesOf (b : BootParams) (pages : Set Nat) : Set Nat :=
  {a | ∃ q ∈ pages, b.physmapVmBase + q * 4096 ≤ a ∧ a < b.physmapVmBase + q * 4096 + 4096}

/-- A request to the allocator. -/
inductive Call
  | alloc (size : Nat) (metadata : BitVec 8)
  | free (addr size : Nat)

/-- Runs in one address space: the calls so far with their results, the memory and the held pages.
Between calls, clients write what they like into the pages they hold. -/
inductive Run (b : BootParams) (start : PfaImage mdsOffset) :
    List Call → List (Option Nat) → PfaImage mdsOffset → Set Nat → Prop
  | start : Run b start [] [] start ∅
  | write {calls results image held} {mem : Mem} (run : Run b start calls results image held)
      (own : ∀ a, a ∉ bytesOf b held → mem a = image.mem a) : Run b start calls results (image.withMem mem) held
  | alloc {calls results image held after} {size result : Nat} {metadata : BitVec 8}
      (run : Run b start calls results image held)
      (outcome : pmapPfaAllocContig size metadata image = .ok (result, after)) :
      Run b start (calls ++ [.alloc size metadata]) (results ++ [some result]) after (held ∪ allocated result size)
  | free {calls results image held after} {addr size : Nat} (run : Run b start calls results image held)
      (aligned : pageSize ∣ addr) (addrLt : addr < 2 ^ 64) (sizeLt : size < 2 ^ 64) (owned : pagesOf addr size ⊆ held)
      (outcome : pmapPfaFreeContig addr size image = .ok after) :
      Run b start (calls ++ [.free addr size]) (results ++ [none]) after (held \ pagesOf addr size)

/-- The state between calls, when list nodes may be written to the free pages only. -/
noncomputable def settle (b : BootParams) (held : Set Nat) (s : Pfa) : World :=
  ⟨s.guard (b.geometry (b.initialFree \ held)) (b.initialFree \ held), held⟩

/-- The same call on the state; a release may also write to the pages it frees. -/
noncomputable def replayCall (b : BootParams) (w : World) : Call → Except Fault (Option Nat × World)
  | .alloc size metadata => do
    let (result, s) ← pmapPfaAllocContig size metadata w.pfa
    .ok (some result, settle b (w.held ∪ allocated result size) s)
  | .free addr size => do
    let usable := b.initialFree \ w.held ∪ pagesOf addr size
    let s ← pmapPfaFreeContig addr size (w.pfa.guard (b.geometry usable) usable)
    .ok (none, settle b (w.held \ pagesOf addr size) s)

noncomputable def replay (b : BootParams) (w : World) (calls : List Call) : Except Fault (List (Option Nat) × World) :=
  calls.foldlM (fun (results, w) call => do
    let (result, w) ← replayCall b w call
    .ok (results ++ [result], w)) ([], w)

theorem replay_snoc {w w' w'' : World} {calls : List Call} {call : Call} {results : List (Option Nat)}
    {result : Option Nat} (before : replay b w calls = .ok (results, w'))
    (last : replayCall b w' call = .ok (result, w'')) :
    replay b w (calls ++ [call]) = .ok (results ++ [result], w'') := by
  rw [replay] at before ⊢
  rw [List.foldlM_append, before, ok_bind, List.foldlM_cons]
  simp [last, pure, Except.pure]

/-- The memory is that of the state between calls, whose free pages are those nobody holds. -/
structure Mirrors (b : BootParams) (image : PfaImage mdsOffset) (held : Set Nat) (w : World) : Prop where
  same : w.held = held
  owned : held ⊆ b.initialFree
  depicts : Depicts (b.geometry (b.initialFree \ held)) b.pfaAddr image.mem w.pfa image
  ready : w.pfa.Ready (b.geometry (b.initialFree \ held)) (b.initialFree \ held)

variable {image : PfaImage mdsOffset} {held usable usable' unheld : Set Nat} {s : Pfa} {before : Mem} {w : World}

/-- The pages to which list nodes may be written can change between calls. -/
theorem reguard (depicts : Depicts (b.geometry usable) b.pfaAddr before s image)
    (ready : s.Ready (b.geometry usable) unheld)
    (within : unheld ⊆ usable') (unreserved : usable' ⊆ b.initialFree) :
    Depicts (b.geometry usable') b.pfaAddr image.mem (s.guard (b.geometry usable') usable') image ∧
      (s.guard (b.geometry usable') usable').Ready (b.geometry usable') unheld := by
  have record := depicts.record
  have lists := depicts.lists
  have holds := ready.holds
  constructor
  · refine ⟨depicts.at_pfa, depicts.physmap, depicts.count,
      ⟨record.lock, record.base, record.count, record.bitmap, record.metadata, record.words, record.bytes⟩,
      ⟨lists.chain, fun level bound a member => ?_, lists.nodup, lists.apart⟩, fun a may => (guard_owns ..).mp may,
      fun _ _ _ => rfl⟩
    rcases mem_whole.mp member with isHead | inside | isTail
    · exact Or.inl ⟨level, bound, Or.inl isHead⟩
    · obtain ⟨p, maximal, isNode⟩ := (holds.lists.mem_iff level bound a).mp inside
      exact Or.inr ⟨p, within maximal.start_mem, holds.managed.page_lt maximal, isNode⟩
    · exact Or.inl ⟨level, bound, Or.inr isTail⟩
  · refine ⟨⟨⟨holds.manages.physmap, holds.manages.base, holds.manages.count, fun p member => ?_⟩,
      fun level p maximal => ?_, ⟨holds.lists.nodup, holds.lists.mem_iff⟩, holds.bits⟩, ready.unlocked⟩
    · exact (guard_owns ..).mpr ⟨p, member, (unreserved member).2, rfl⟩
    · have managed := holds.managed level p maximal
      exact ⟨managed.1, managed.2.1, managed.2.2.1, maximal.2.2.1.trans within⟩

/-- Bytes that are neither the structures' nor in a node of a usable page do not matter. -/
theorem Depicts.of_agree {g : Geometry} {pfa : Nat} (site : Site mdsOffset g pfa)
    (depicts : Depicts g pfa before s image)
    {mem' : Mem} (own : ∀ a, pfa ≤ a → a < pfa + requiredBytes g.pageCount → mem' a = image.mem a)
    (nodes : ∀ p ∈ g.usable, p < g.pageCount → ∀ a, g.node p ≤ a → a < g.node p + 16 → mem' a = image.mem a) :
    Depicts g pfa mem' s (image.withMem mem') where
  at_pfa := depicts.at_pfa
  physmap := depicts.physmap
  count := depicts.count
  record := by
    have size := size_le_requiredBytes g.pageCount
    exact depicts.record.congr site (fun a above below => own a (by omega) (by omega))
      fun a above below => own a (by omega) (by omega)
  lists := by
    have size := size_le_requiredBytes g.pageCount
    have same (a : Nat) (member : a ∈ cells g pfa) : Agree a (a + 16) image.mem mem' := by
      intro x above below
      unfold cells listHead listTail listAt at member
      rcases member with ⟨level, bound, rfl | rfl⟩ | ⟨p, usable, managed, rfl⟩
      · exact own x (by omega) (by omega)
      · exact own x (by omega) (by omega)
      · exact nodes p usable managed x above below
    rw [withMem_mem]
    refine depicts.lists.congr (fun a member => ?_) fun a member => ?_
    · rw [next, next, ptr, ptr, (same a member).load64 (by omega) (by omega)]
    · rw [prev, prev, ptr, ptr, (same a member).load64 (by omega) (by omega)]
  owns := depicts.owns
  frame _ _ _ := rfl

/-- What a call leaves alone when it may write to the structures and to the nodes of the usable pages. -/
def Untouched (b : BootParams) (usable : Set Nat) (before after : Mem) : Prop :=
  ∀ a, a < b.pfaAddr ∨ b.pfaAddr + requiredBytes b.pageCount ≤ a →
    (∀ p ∈ usable, p < b.pageCount → a < b.physmapVmBase + p * 4096 ∨ b.physmapVmBase + p * 4096 + 16 ≤ a) →
      after a = before a

variable {after : Mem}

/-- A page that is not usable is out of reach of everything the allocator writes. -/
theorem Untouched.page_kept (untouched : Untouched b usable before after) {pages : Set Nat}
    (others : pages ⊆ b.initialFree) (apart : Disjoint pages usable) {a : Nat} (member : a ∈ bytesOf b pages) :
    after a = before a := by
  obtain ⟨q, inPages, lower, upper⟩ := member
  have reserved := (others inPages).1
  have endEq := b.reservedEnd_eq
  have same : b.reservedEnd = b.bootstrapPaReserved + requiredBytes b.pageCount := rfl
  refine untouched a (Or.inr ?_) fun p usablePage _ => ?_
  · show b.physmapVmBase + b.bootstrapPaReserved + requiredBytes b.pageCount ≤ a
    omega
  · have different : q ≠ p := fun eq => Set.disjoint_left.mp apart inPages (eq ▸ usablePage)
    omega

/-- What lies below the structures is below all pages that clients can get. -/
theorem Untouched.kept_below (untouched : Untouched b usable before after) (within : usable ⊆ b.initialFree) {a : Nat}
    (below : a < b.pfaAddr) : after a = before a := by
  refine untouched a (Or.inl below) fun p usablePage _ => Or.inl ?_
  have reserved := (within usablePage).1
  have endEq := b.reservedEnd_eq
  have same : b.reservedEnd = b.bootstrapPaReserved + requiredBytes b.pageCount := rfl
  have below : a < b.physmapVmBase + b.bootstrapPaReserved := below
  omega

theorem Mirrors.of_settle (owned : held ⊆ b.initialFree)
    (depicts : Depicts (b.geometry usable) b.pfaAddr before s image)
    (ready : s.Ready (b.geometry usable) (b.initialFree \ held)) : Mirrors b image held (settle b held s) := by
  obtain ⟨settled, settledReady⟩ := reguard depicts ready Set.Subset.rfl Set.sdiff_subset
  exact ⟨rfl, owned, settled, settledReady⟩

/-- What clients write to the pages they hold does not matter. -/
theorem Mirrors.write (separate : b.Separate mdsOffset) (mirrors : Mirrors b image held w) {mem : Mem}
    (own : ∀ a, a ∉ bytesOf b held → mem a = image.mem a) : Mirrors b (image.withMem mem) held w := by
  have site := site_of_unreserved separate (Set.sdiff_subset (s := b.initialFree) (t := held))
  have endEq := b.reservedEnd_eq
  have same : b.reservedEnd = b.bootstrapPaReserved + requiredBytes b.pageCount := rfl
  refine ⟨mirrors.same, mirrors.owned, mirrors.depicts.of_agree site (fun a _ below => own a ?_)
    (fun p free managed a above below => own a ?_), mirrors.ready⟩
  · rintro ⟨q, member, lower, -⟩
    have reserved := (mirrors.owned member).1
    have below : a < b.physmapVmBase + b.bootstrapPaReserved + requiredBytes b.pageCount := below
    omega
  · rintro ⟨q, member, lower, upper⟩
    have above : b.physmapVmBase + p * 4096 ≤ a := above
    have below : a < b.physmapVmBase + p * 4096 + 16 := below
    obtain rfl : p = q := by omega
    exact free.2 member

/-- An allocation gives the result of the state and writes to no page that is held. -/
theorem Mirrors.alloc (separate : b.Separate mdsOffset) (mirrors : Mirrors b image held w) (size : Nat)
    (metadata : BitVec 8) :
    ∃ result after w', pmapPfaAllocContig size metadata image = .ok (result, after) ∧
      replayCall b w (.alloc size metadata) = .ok (some result, w') ∧
      Mirrors b after (held ∪ allocated result size) w' ∧ Untouched b (b.initialFree \ held) image.mem after.mem := by
  have site := site_of_unreserved separate (Set.sdiff_subset (s := b.initialFree) (t := held))
  obtain ⟨result, s, outcome, effect⟩ := mirrors.ready.alloc size metadata
  obtain ⟨⟨_, after⟩, run, rfl, depicts⟩ :=
    ((depicts_simulates site image.mem).pmapPfaAllocContig mirrors.depicts size metadata).of_ok _ outcome
  simp only at depicts
  refine ⟨result, after, settle b (held ∪ allocated result size) s, run, ?_, ?_, depicts.frame⟩
  · rw [replayCall, outcome, ok_bind, mirrors.same]
  · rcases effect with ⟨invalid, rfl⟩ | ⟨valid, -, pages, ready⟩
    · rw [allocated, if_pos invalid, Set.union_empty]
      exact .of_settle mirrors.owned depicts mirrors.ready
    · rw [allocated, if_neg valid]
      refine .of_settle (Set.union_subset mirrors.owned (pages.trans Set.sdiff_subset)) depicts ?_
      rwa [Set.sdiff_sdiff] at ready

/-- A release of held pages writes to no page that stays held. -/
theorem Mirrors.free (separate : b.Separate mdsOffset) (mirrors : Mirrors b image held w) {addr size : Nat}
    (addrLt : addr < 2 ^ 64) (sizeLt : size < 2 ^ 64) (owned : pagesOf addr size ⊆ held) :
    ∃ after w', pmapPfaFreeContig addr size image = .ok after ∧
      replayCall b w (.free addr size) = .ok (none, w') ∧ Mirrors b after (held \ pagesOf addr size) w' ∧
      Untouched b (b.initialFree \ held ∪ pagesOf addr size) image.mem after.mem := by
  have within : b.initialFree \ held ∪ pagesOf addr size ⊆ b.initialFree :=
    Set.union_subset Set.sdiff_subset (owned.trans mirrors.owned)
  have site := site_of_unreserved separate within
  obtain ⟨depicts, ready⟩ := reguard mirrors.depicts mirrors.ready Set.subset_union_left within
  obtain ⟨s, outcome, freed, -⟩ := pmapPfaFreeContig_spec ready addrLt sizeLt
    (fun q member => (mirrors.owned (owned member)).2) Set.subset_union_right
    (Set.disjoint_left.mpr fun q member outside => outside.2 (owned member))
  obtain ⟨after, run, depicts⟩ :=
    ((depicts_simulates site image.mem).pmapPfaFreeContig depicts addr size).of_ok _ outcome
  have kept : held \ pagesOf addr size ⊆ b.initialFree := Set.sdiff_subset.trans mirrors.owned
  have pages : b.initialFree \ held ∪ pagesOf addr size = b.initialFree \ (held \ pagesOf addr size) := by
    ext q
    have inside : q ∈ pagesOf addr size → q ∈ b.initialFree := fun member => mirrors.owned (owned member)
    simp only [Set.mem_union, Set.mem_sdiff]
    tauto
  refine ⟨after, settle b (held \ pagesOf addr size) s, run, ?_, .of_settle kept depicts (pages ▸ freed), depicts.frame⟩
  rw [replayCall]
  simp only [mirrors.same, outcome, ok_bind]

/-- Initialisation that returns leaves the pages free that it has not reserved. -/
theorem boot_coalesced (separate : b.Separate mdsOffset) {raw image : PfaImage mdsOffset} (booted : boot b raw = .ok image) :
    ∃ s, Depicts (b.geometry b.initialFree) b.pfaAddr raw.mem s image ∧
      s.Ready (b.geometry b.initialFree) b.initialFree := by
  have site := site_of_unreserved separate (Set.Subset.refl b.initialFree)
  obtain ⟨first, linkable, blocks⟩ := initBlocks_depicts separate b.initialFree_subset raw
  obtain ⟨s, -, now, free⟩ := Coalesced.boot (depicts_simulates site raw.mem) linkable Set.Subset.rfl blocks booted
  exact ⟨s, now.related, free ▸ now.ready⟩

theorem Mirrors.start (separate : b.Separate mdsOffset) {raw image : PfaImage mdsOffset} (booted : boot b raw = .ok image) :
    ∃ w, Mirrors b image ∅ w := by
  obtain ⟨s, depicts, ready⟩ := boot_coalesced separate booted
  exact ⟨_, .of_settle (Set.empty_subset _) depicts (by rwa [Set.sdiff_empty])⟩

theorem boot_untouched (separate : b.Separate mdsOffset) {raw image : PfaImage mdsOffset}
    (booted : boot b raw = .ok image) : Untouched b b.initialFree raw.mem image.mem := by
  obtain ⟨s, depicts, -⟩ := boot_coalesced separate booted
  exact depicts.frame

theorem Mirrors.listNodes_eq (separate : b.Separate mdsOffset) (mirrors : Mirrors b image held w) {level : Nat}
    (bound : level < 6) : listNodes level image = w.pfa.buddyLists level :=
  mirrors.depicts.listNodes_eq (site_of_unreserved separate Set.sdiff_subset) mirrors.ready bound

/-- The memory of a run is that of a state that depends on the calls only. -/
theorem Run.mirrors (separate : b.Separate mdsOffset) {start image : PfaImage mdsOffset} {first : World}
    {calls : List Call} {results : List (Option Nat)} (begins : Mirrors b start ∅ first)
    (run : Run b start calls results image held) :
    ∃ w, replay b first calls = .ok (results, w) ∧ Mirrors b image held w := by
  induction run with
  | start => exact ⟨first, rfl, begins⟩
  | write _ own ih =>
    obtain ⟨w, replayed, mirrors⟩ := ih
    exact ⟨w, replayed, mirrors.write separate own⟩
  | @alloc _ _ _ _ _ size _ metadata _ outcome ih =>
    obtain ⟨w, replayed, mirrors⟩ := ih
    obtain ⟨_, _, w', run, again, mirrors', -⟩ := mirrors.alloc separate size metadata
    rw [outcome] at run
    cases run
    exact ⟨w', replay_snoc replayed again, mirrors'⟩
  | free _ _ addrLt sizeLt owned outcome ih =>
    obtain ⟨w, replayed, mirrors⟩ := ih
    obtain ⟨_, w', run, again, mirrors', -⟩ := mirrors.free separate addrLt sizeLt owned
    rw [outcome] at run
    cases run
    exact ⟨w', replay_snoc replayed again, mirrors'⟩

/-- No run writes below the structures, whatever clients do with their pages. -/
theorem Run.kept_below (separate : b.Separate mdsOffset) {start image : PfaImage mdsOffset} {first : World}
    {calls : List Call} {results : List (Option Nat)} (begins : Mirrors b start ∅ first)
    (run : Run b start calls results image held) {a : Nat} (below : a < b.pfaAddr) : image.mem a = start.mem a := by
  induction run with
  | start => rfl
  | @write _ _ _ held _ run own ih =>
    obtain ⟨_, -, mirrors⟩ := run.mirrors separate begins
    refine (own a ?_).trans ih
    rintro ⟨q, member, lower, -⟩
    have reserved := (mirrors.owned member).1
    have endEq := b.reservedEnd_eq
    have same : b.reservedEnd = b.bootstrapPaReserved + requiredBytes b.pageCount := rfl
    have below : a < b.physmapVmBase + b.bootstrapPaReserved := below
    omega
  | @alloc _ _ _ _ _ size _ metadata run outcome ih =>
    obtain ⟨_, -, mirrors⟩ := run.mirrors separate begins
    obtain ⟨_, _, _, again, -, -, untouched⟩ := mirrors.alloc separate size metadata
    cases outcome.symm.trans again
    exact (untouched.kept_below Set.sdiff_subset below).trans ih
  | free run _ addrLt sizeLt owned outcome ih =>
    obtain ⟨_, -, mirrors⟩ := run.mirrors separate begins
    obtain ⟨_, _, again, -, -, untouched⟩ := mirrors.free separate addrLt sizeLt owned
    cases outcome.symm.trans again
    exact (untouched.kept_below (Set.union_subset Set.sdiff_subset (owned.trans mirrors.owned)) below).trans ih

/-- The allocator is isolated from the pages its clients hold: two runs with the same calls, however
the clients write to their pages in between, have the same results, lists and bitmaps, and no call
writes to a page that is held before and after it. -/
theorem isolated_from_clients (placed : b.Placed mdsOffset) {raw start : PfaImage mdsOffset}
    (booted : boot b raw = .ok start) :
    (∀ calls results results' image image' held held', Run b start calls results image held →
      Run b start calls results' image' held' →
        results = results' ∧ held = held' ∧
        (∀ level < buddyLevels, listNodes level image = listNodes level image') ∧
        ∀ level < buddyLevels, ∀ idx < bitmapWords b.pageCount level,
          PfaStore.bitmapWord level idx image = PfaStore.bitmapWord level idx image') ∧
    ∀ calls results image held, Run b start calls results image held →
      (∀ size metadata, ∃ result after, pmapPfaAllocContig size metadata image = .ok (result, after) ∧
        ∀ a ∈ bytesOf b held, after.mem a = image.mem a) ∧
      ∀ addr size, pageSize ∣ addr → addr < 2 ^ 64 → size < 2 ^ 64 → pagesOf addr size ⊆ held →
        ∃ after, pmapPfaFreeContig addr size image = .ok after ∧
          ∀ a ∈ bytesOf b (held \ pagesOf addr size), after.mem a = image.mem a := by
  have separate := placed.toSeparate
  obtain ⟨first, begins⟩ := Mirrors.start separate booted
  constructor
  · intro calls results results' image image' held held' run run'
    obtain ⟨w, replayed, mirrors⟩ := run.mirrors separate begins
    obtain ⟨w', replayed', mirrors'⟩ := run'.mirrors separate begins
    rw [replayed] at replayed'
    obtain ⟨rfl, rfl⟩ := Prod.mk.inj (Except.ok.inj replayed')
    refine ⟨rfl, mirrors.same.symm.trans mirrors'.same, fun level bound => ?_, fun level bound idx lt => ?_⟩
    · rw [mirrors.listNodes_eq separate bound, mirrors'.listNodes_eq separate bound]
    · have access : level < buddyLevels ∧ idx < bitmapWords w.pfa.pageCount level :=
        ⟨bound, mirrors.depicts.count ▸ lt⟩
      have word : w.pfa.bitmapWord level idx = .ok (w.pfa.buddyBitmaps level idx) := if_pos access
      obtain ⟨_, read, rfl⟩ := (mirrors.depicts.bitmapWord level idx).of_ok _ word
      obtain ⟨_, read', rfl⟩ := (mirrors'.depicts.bitmapWord level idx).of_ok _ word
      rw [read, read']
  · intro calls results image held run
    obtain ⟨w, -, mirrors⟩ := run.mirrors separate begins
    refine ⟨fun size metadata => ?_, fun addr size _ addrLt sizeLt owned => ?_⟩
    · obtain ⟨result, after, -, outcome, -, -, untouched⟩ := mirrors.alloc separate size metadata
      exact ⟨result, after, outcome, fun a => untouched.page_kept mirrors.owned Set.disjoint_sdiff_right⟩
    · obtain ⟨after, -, outcome, -, -, untouched⟩ := mirrors.free separate addrLt sizeLt owned
      refine ⟨after, outcome, fun a => untouched.page_kept (Set.sdiff_subset.trans mirrors.owned) ?_⟩
      rw [Set.disjoint_left]
      rintro q ⟨inHeld, notFreed⟩ (⟨-, notHeld⟩ | freedPage)
      · exact notHeld inHeld
      · exact notFreed freedPage

/-- The metadata right behind the bitmaps. -/
def packedMdsOffset (pageCount : Nat) : Nat := pfaSize + buddyBitmapRequiredBytes pageCount

theorem sampleBoot_placed : sampleBoot.Placed packedMdsOffset where
  mds_after := le_rfl
  mds_fits := by decide
  data_inside := by decide
  text_inside := by decide

/-- Three pages are handed out, the middle one is taken back and handed out again. -/
theorem sampleBoot_run : ∃ start s₁ s₂ s₃ : PfaImage packedMdsOffset,
    boot sampleBoot ⟨fun _ => 0, 0, 0⟩ = .ok start ∧ pmapPfaAllocContig 0x3000 0 start = .ok (0x4000, s₁) ∧
      pmapPfaFreeContig 0x5000 0x1000 s₁ = .ok s₂ ∧ pmapPfaAllocContig 0x1000 0 s₂ = .ok (0x5000, s₃) ∧
      s₁.freeList = [7, 3, 8, 9, 10, 11, 12, 13, 14, 15] ∧ s₃.freeList = s₁.freeList := by
  obtain ⟨⟨start, result, s₁, s₂, result', s₃⟩, run, shown⟩ := of_returns
    (do
      let start ← boot sampleBoot ⟨fun _ => 0, 0, 0⟩
      let (result, s₁) ← pmapPfaAllocContig 0x3000 0 start
      let s₂ ← pmapPfaFreeContig 0x5000 0x1000 s₁
      let (result', s₃) ← pmapPfaAllocContig 0x1000 0 s₂
      .ok ((start, result, s₁, s₂, result', s₃) :
        PfaImage packedMdsOffset × Nat × PfaImage packedMdsOffset × PfaImage packedMdsOffset × Nat × PfaImage packedMdsOffset))
    (fun (_, result, s₁, _, result', s₃) =>
      result == 0x4000 && result' == 0x5000 && s₁.freeList == [7, 3, 8, 9, 10, 11, 12, 13, 14, 15] &&
        s₃.freeList == s₁.freeList)
    (by decide +kernel)
  obtain ⟨_, booted, run⟩ := bind_eq_ok.mp run
  obtain ⟨⟨_, _⟩, taken, run⟩ := bind_eq_ok.mp run
  obtain ⟨_, freed, run⟩ := bind_eq_ok.mp run
  obtain ⟨⟨_, _⟩, again, run⟩ := bind_eq_ok.mp run
  cases run
  simp only [Bool.and_eq_true, beq_iff_eq] at shown
  obtain ⟨⟨⟨rfl, rfl⟩, free⟩, same⟩ := shown
  exact ⟨_, _, _, _, booted, taken, freed, again, free, same⟩

theorem isolated_from_clients_sample :
    ∃ start s₁ written s₂ s₂' : PfaImage packedMdsOffset, boot sampleBoot ⟨fun _ => 0, 0, 0⟩ = .ok start ∧
      pmapPfaAllocContig 0x3000 0 start = .ok (0x4000, s₁) ∧
      (∀ a ∈ bytesOf sampleBoot (Set.Ico 4 7), written.mem a = 0xFF) ∧
      (∀ a, a ∉ bytesOf sampleBoot (Set.Ico 4 7) → written.mem a = s₁.mem a) ∧
      pmapPfaFreeContig 0x5000 0x1000 s₁ = .ok s₂ ∧ pmapPfaFreeContig 0x5000 0x1000 written = .ok s₂' ∧
      (∀ level < buddyLevels, listNodes level s₂ = listNodes level s₂') ∧
      ∀ a ∈ bytesOf sampleBoot (Set.Ico 4 7 \ Set.Ico 5 6), s₂'.mem a = 0xFF := by
  classical
  obtain ⟨start, s₁, s₂, -, booted, taken, freed, -, -, -⟩ := sampleBoot_run
  obtain ⟨same, isolated⟩ := isolated_from_clients sampleBoot_placed booted
  have held : ∅ ∪ allocated 0x4000 0x3000 = Set.Ico 4 7 := Set.empty_union _
  have owned : pagesOf 0x5000 0x1000 ⊆ (∅ ∪ allocated 0x4000 0x3000 : Set Nat) := by
    rw [held]
    exact Set.Ico_subset_Ico (by decide) (by decide)
  let written := s₁.withMem fun a => if a ∈ bytesOf sampleBoot (Set.Ico 4 7) then 0xFF else s₁.mem a
  have quiet : Run sampleBoot start _ _ s₁ _ := .alloc .start taken
  have loud : Run sampleBoot start _ _ written _ := quiet.write fun a outside => if_neg (held ▸ outside)
  obtain ⟨s₂', freed', kept⟩ :=
    (isolated _ _ _ _ loud).2 0x5000 0x1000 (by decide) (by decide) (by decide) owned
  have runs := same _ _ _ _ _ _ _ (.free quiet (by decide) (by decide) (by decide) owned freed)
    (.free loud (by decide) (by decide) (by decide) owned freed')
  refine ⟨start, s₁, written, s₂, s₂', booted, taken, fun a inside => if_pos inside, fun a outside => if_neg outside,
    freed, freed', runs.2.2.1, fun a member => ?_⟩
  rw [kept a (held ▸ member)]
  exact if_pos (by
    obtain ⟨q, inside, bytes⟩ := member
    exact ⟨q, inside.1, bytes⟩)

end Swink.PfaImage
