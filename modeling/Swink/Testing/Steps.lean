import Swink.Pfa.Drain
import Swink.Testing.Debug

namespace Swink

namespace Pfa
open Blocks Dyadic

variable {g : Geometry} {s : Pfa} {free : Set Nat}

/-- There are that many blocks of the top level among the free pages. -/
def Room (free : Set Nat) (count : Nat) : Prop :=
  ∃ blocks : Finset Nat, blocks.card = count ∧ ∀ p ∈ blocks, 2 ^ 5 ∣ p ∧ block 5 p ⊆ free

theorem Room.fewer {count count' : Nat} (room : Room free count) (le : count' ≤ count) : Room free count' := by
  obtain ⟨blocks, card, inside⟩ := room
  obtain ⟨some_, sub, exact⟩ := Finset.exists_subset_card_eq (show count' ≤ blocks.card by omega)
  exact ⟨some_, exact, fun p member => inside p (sub member)⟩

/-- Pages inside one block of the top level take at most one block of it away. -/
theorem Room.take {count level page : Nat} {pages : Set Nat} (room : Room free (count + 1)) (bound : level ≤ 5)
    (aligned : 2 ^ level ∣ page) (within : pages ⊆ block level page) : Room (free \ pages) count := by
  obtain ⟨blocks, card, inside⟩ := room
  have enclosed : pages ⊆ block 5 (root 5 page) := by
    have same := root_eq_self aligned
    have inner := block_root_mono bound page
    rw [same] at inner
    exact within.trans inner
  have kept : ∀ p ∈ blocks.erase (root 5 page), 2 ^ 5 ∣ p ∧ block 5 p ⊆ free \ pages := by
    intro p member
    obtain ⟨different, member⟩ := Finset.mem_erase.mp member
    obtain ⟨dvd, sub⟩ := inside p member
    refine ⟨dvd, fun q inBlock => ⟨sub inBlock, fun taken => different ?_⟩⟩
    rw [← root_eq_of_mem dvd inBlock, root_eq_of_mem (root_dvd 5 page) (enclosed taken)]
  have less := Finset.pred_card_le_card_erase (s := blocks) (a := root 5 page)
  exact Room.fewer ⟨_, rfl, kept⟩ (by omega)

/-- With a whole block of the top level free, a request that is not too large succeeds. -/
theorem Ready.allocRoom (ready : s.Ready g free) {count size : Nat} (room : Room free (count + 1)) (bound : size ≤ 131072)
    (metadata : BitVec 8) :
    ∃ result after, pmapPfaAllocContig size metadata s = .ok (result, after) ∧ result ≠ physAddrInvalid ∧
      pagesOf result size ⊆ free ∧ result < 2 ^ 64 ∧ after.Ready g (free \ pagesOf result size) ∧
      Room (free \ pagesOf result size) count := by
  have countLe := g.pageCount_le
  rcases pmapPfaAllocContig_spec ready bound metadata with ⟨-, nothing⟩ | ⟨level, page, after, run, -, -, takes⟩
  · obtain ⟨blocks, card, inside⟩ := room
    obtain ⟨p, member⟩ := Finset.card_pos.mp (show 0 < blocks.card by omega)
    obtain ⟨dvd, sub⟩ := inside p member
    have startBound := (minBuddyLevelForSize_spec bound).1
    exact absurd ⟨le_rfl, dvd, sub, fun above => absurd above (Nat.lt_irrefl 5)⟩
      (nothing 5 (by omega) (by omega) p)
  · have maximal := takes.maximal
    have managed := ready.holds.managed.page_lt maximal
    have pages : pagesOf (page * 4096) size = Set.Ico page (page + sizeToPageCount size) := by
      rw [pagesOf, Nat.mul_div_cancel _ (by omega), sizeToPageCount_eq (by omega)]
    have within : pagesOf (page * 4096) size ⊆ block level page := by
      rw [pages]
      intro q member
      have fits := takes.fits
      exact mem_block.mpr ⟨member.1, by have := member.2; omega⟩
    refine ⟨_, after, run, ?_, within.trans maximal.2.2.1, by omega, ?_, room.take maximal.1 maximal.2.1 within⟩
    · unfold physAddrInvalid
      omega
    · rw [pages]
      exact ⟨takes.holds, takes.lock_eq.trans ready.unlocked⟩

end Pfa

namespace PfaImage
open Mem Refinement Pfa Blocks Dyadic
variable {mdsOffset : Nat → Nat} {b : BootParams} {image : PfaImage mdsOffset} {held : Set Nat} {w : World}

/-- What a call leaves of the memory when it may write to the nodes of the usable pages. -/
structure Kept (g : Geometry) (pfa : Nat) (mem mem' : Mem) : Prop where
  frame : ∀ a, a < pfa ∨ pfa + requiredBytes g.pageCount ≤ a →
    (∀ p ∈ g.usable, p < g.pageCount → a < g.node p ∨ g.node p + 16 ≤ a) → mem' a = mem a
  backed : Backed (cells g pfa) (pageNodes g) mem mem'

theorem Traced.kept {g : Geometry} {pfa : Nat} {start : Mem} {s : Pfa} (traced : Traced g pfa start s image) :
    Kept g pfa start image.mem := ⟨traced.depicts.frame, traced.backed⟩

/-- A request does to the memory what it does to the state. -/
theorem Mirrors.request (placed : b.Placed mdsOffset) (mirrors : Mirrors b image held w) {size result : Nat}
    {metadata : BitVec 8} {s : Pfa} {held' : Set Nat} (run : pmapPfaAllocContig size metadata w.pfa = .ok (result, s))
    (owned : held' ⊆ b.initialFree) (ready : s.Ready (b.geometry (b.initialFree \ held)) (b.initialFree \ held')) :
    ∃ after w', pmapPfaAllocContig size metadata image = .ok (result, after) ∧ Mirrors b after held' w' ∧
      Kept (b.geometry (b.initialFree \ held)) b.pfaAddr image.mem after.mem := by
  have site := site_of_unreserved placed.toSeparate (Set.sdiff_subset (s := b.initialFree) (t := held))
  obtain ⟨⟨_, after⟩, outcome, rfl, traced⟩ :=
    ((traced_simulates site image.mem).pmapPfaAllocContig (Traced.begin mirrors.depicts) size metadata).of_ok _ run
  exact ⟨after, _, outcome, .of_settle owned traced.depicts ready, traced.kept⟩

/-- The pages that the allocator may write to while it takes back held ones. -/
def reach (b : BootParams) (held : Set Nat) (addr size : Nat) : Set Nat := b.initialFree \ held ∪ pagesOf addr size

/-- A release does to the memory what it does to the state. -/
theorem Mirrors.release (placed : b.Placed mdsOffset) (mirrors : Mirrors b image held w) {addr size : Nat}
    (addrLt : addr < 2 ^ 64) (sizeLt : size < 2 ^ 64) (owned : pagesOf addr size ⊆ held) :
    ∃ after w', pmapPfaFreeContig addr size image = .ok after ∧ Mirrors b after (held \ pagesOf addr size) w' ∧
      Kept (b.geometry (reach b held addr size)) b.pfaAddr image.mem after.mem := by
  have within : reach b held addr size ⊆ b.initialFree :=
    Set.union_subset Set.sdiff_subset (owned.trans mirrors.owned)
  have site := site_of_unreserved placed.toSeparate within
  obtain ⟨depicts, ready⟩ := reguard mirrors.depicts mirrors.ready Set.subset_union_left within
  obtain ⟨s, outcome, freed, -⟩ := pmapPfaFreeContig_spec ready addrLt sizeLt
    (fun q member => (mirrors.owned (owned member)).2) Set.subset_union_right
    (Set.disjoint_left.mpr fun q member outside => outside.2 (owned member))
  obtain ⟨after, run, traced⟩ :=
    ((traced_simulates site image.mem).pmapPfaFreeContig (Traced.begin depicts) addr size).of_ok _ outcome
  have kept : held \ pagesOf addr size ⊆ b.initialFree := Set.sdiff_subset.trans mirrors.owned
  have pages : b.initialFree \ held ∪ pagesOf addr size = b.initialFree \ (held \ pagesOf addr size) := by
    ext q
    have inside : q ∈ pagesOf addr size → q ∈ b.initialFree := fun member => mirrors.owned (owned member)
    simp only [Set.mem_union, Set.mem_sdiff]
    tauto
  exact ⟨after, _, run, .of_settle kept traced.depicts (pages ▸ freed), traced.kept⟩

/-- Writes outside the allocator's structures and outside the nodes of free pages do not matter. -/
theorem Mirrors.scribble (placed : b.Placed mdsOffset) (mirrors : Mirrors b image held w) {mem : Mem}
    (own : ∀ a, b.pfaAddr ≤ a → a < b.pfaAddr + requiredBytes b.pageCount → mem a = image.mem a)
    (nodes : ∀ p ∈ b.initialFree \ held, ∀ a, b.physmapVmBase + p * 4096 ≤ a → a < b.physmapVmBase + p * 4096 + 16 →
      mem a = image.mem a) : Mirrors b (image.withMem mem) held w :=
  ⟨mirrors.same, mirrors.owned, mirrors.depicts.of_agree
    (site_of_unreserved placed.toSeparate (Set.sdiff_subset (s := b.initialFree) (t := held))) own fun p free _ => nodes p free,
    mirrors.ready⟩

theorem Mirrors.getState (placed : b.Placed mdsOffset) (mirrors : Mirrors b image held w) {rounds : Nat}
    (enough : 2 ^ 20 < rounds) :
    pmapPfaGetState rounds buddyLevels image =
      .ok ((List.range buddyLevels).map (blockCount (b.initialFree \ held)), image) :=
  mirrors.depicts.getState (site_of_unreserved placed.toSeparate (Set.sdiff_subset (s := b.initialFree) (t := held)))
    mirrors.ready enough le_rfl

/-- Laying out the structures writes to no page. -/
theorem create_traced {g : Geometry} {place : Nat} (site : Site mdsOffset g place) {raw : PfaImage mdsOffset}
    (physmap : raw.physmapVmBase = g.physmapVmBase) :
    ∃ start : Pfa, start.physmapVmBase = g.physmapVmBase ∧
      (∀ p ∈ g.usable, p < g.pageCount → start.mayLink (g.node p) = true) ∧
      Refines (fun (s : Pfa) (image : PfaImage mdsOffset) => Traced g place raw.mem s image)
        (.ok (start.create 0 g.pageCount)) (create place 0 g.pageCount raw) := by
  have size := pfaSize_eq
  have reserve := requiredBytes_le g.pageCount
  have fits := site.fits
  have mdsFits := site.mds_fits
  have nonempty := site.nonempty
  have countLe := g.pageCount_le
  obtain ⟨start, same, linkable, laidOut⟩ := create_depicts site physmap
  obtain ⟨image, run, fresh⟩ :=
    create_spec raw place 0 g.pageCount site.pos (by decide) (by omega) (by omega) (by omega)
  rw [run] at laidOut ⊢
  obtain ⟨_, same', depicts⟩ := laidOut.of_ok _ rfl
  cases same'
  refine ⟨start, same, linkable, .ok ⟨depicts, fun a member => Or.inl ?_⟩⟩
  obtain ⟨p, usable, managed, rfl⟩ := member
  have clear := site.apart p usable managed
  have kept : Agree (g.node p) (g.node p + 8) raw.mem image.mem := fun x above below => fresh.untouched x (by omega)
  rw [prev, prev, ptr, ptr, kept.load64 le_rfl le_rfl]

/-- Initialisation leaves the first words of the free pages alone but for links to nodes. -/
theorem boot_traced (placed : b.Placed mdsOffset) {raw image : PfaImage mdsOffset} (booted : boot b raw = .ok image) :
    Kept (b.geometry b.initialFree) b.pfaAddr raw.mem image.mem := by
  have site := site_of_unreserved placed.toSeparate (Set.Subset.refl b.initialFree)
  have reserve := requiredBytes_le b.pageCount
  have fits : b.pfaAddr + requiredBytes b.pageCount ≤ 2 ^ 64 := site.fits
  have size := pfaSize_eq
  have ramLt := b.ramSize_lt
  obtain ⟨start, physmap, linkable, laidOut⟩ := create_traced site
    (show ({ raw with physmapVmBase := b.physmapVmBase } : PfaImage mdsOffset).physmapVmBase = b.physmapVmBase from rfl)
  have address : pmapPaToKva b.physmapVmBase b.bootstrapPaReserved = b.pfaAddr :=
    u64_of_lt (show b.pfaAddr < 2 ^ 64 by omega)
  have base : u32 (0 >>> pageShift) = 0 := rfl
  have ram : sub64 b.ramSize 0 = b.ramSize := sub64_of_le (Nat.zero_le _) (by omega)
  have same : { start with physmapVmBase := b.physmapVmBase } = start := by
    cases start
    subst physmap
    rfl
  have builds : Refines (fun (s : Pfa) (image : PfaImage mdsOffset) =>
      Traced (b.geometry b.initialFree) b.pfaAddr raw.mem s image) (b.boot start) (boot b raw) := by
    refine (traced_simulates site raw.mem).pmapPfaInit _ _ _ _ ((traced_simulates site raw.mem).initBlocks rfl ?_)
    show Refines _
      (.ok (Pfa.create _ (sizeToPageCount (sub64 b.ramSize 0)) { start with physmapVmBase := b.physmapVmBase }))
      (create (pmapPaToKva b.physmapVmBase b.bootstrapPaReserved) _ (sizeToPageCount (sub64 b.ramSize 0)) _)
    rw [ram, address, base, same]
    exact laidOut
  obtain ⟨s, run⟩ := b.boot_returns start (fun p member => linkable p member member.2) placed.data_inside
    placed.text_inside
  exact (builds.predict run booted).kept

end PfaImage

end Swink
