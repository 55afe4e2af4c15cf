import Swink.Pfa.Init
import Mathlib.Data.Nat.Log
import Mathlib.Logic.Relation

namespace Swink

namespace Pfa
open Blocks Dyadic

/-- The page whose list node lies at an address, as `pmap_pfa_contains` recovers it. -/
def pageOfNode (s : Pfa) (elem : Nat) : Nat := paToPageId (elem - s.physmapVmBase)

/-- The pages on the buddy list of a level, front first. -/
def pagesOn (s : Pfa) (level : Nat) : List Nat := (s.buddyLists level).map s.pageOfNode

/-- The pages covered by the blocks on the buddy lists. -/
def freePages (s : Pfa) : Set Nat := {q | ∃ l < 6, ∃ p ∈ s.pagesOn l, q ∈ block l p}

variable {g : Geometry} {s : Pfa} {blocks : Blocks} {free : Set Nat}

theorem pageOfNode_node (manages : s.Manages g) {p : Nat} (managed : p < g.pageCount) :
    s.pageOfNode (g.node p) = p := by
  have small := g.pageCount_le
  rw [pageOfNode, manages.physmap, Geometry.node, Nat.add_sub_cancel_left, paToPageId_mul (by omega)]

theorem Holds.mem_pagesOn (holds : s.Holds g blocks) {l p : Nat} (bound : l < 6) :
    p ∈ s.pagesOn l ↔ blocks l p := by
  have back {q : Nat} (member : blocks l q) : s.pageOfNode (g.node q) = q :=
    pageOfNode_node holds.manages (holds.managed.page_lt member)
  constructor
  · intro member
    obtain ⟨a, listed, rfl⟩ := List.mem_map.mp member
    obtain ⟨q, inBlocks, rfl⟩ := (holds.lists.mem_iff l bound a).mp listed
    rwa [back inBlocks]
  · intro member
    exact List.mem_map.mpr ⟨g.node p, (holds.lists.mem_iff l bound _).mpr ⟨p, member, rfl⟩, back member⟩

theorem Holds.nodup_pagesOn (holds : s.Holds g blocks) {l : Nat} (bound : l < 6) : (s.pagesOn l).Nodup := by
  refine (holds.lists.nodup l bound).map_on fun a listed a' listed' same => ?_
  obtain ⟨q, member, rfl⟩ := (holds.lists.mem_iff l bound a).mp listed
  obtain ⟨q', member', rfl⟩ := (holds.lists.mem_iff l bound a').mp listed'
  rw [pageOfNode_node holds.manages (holds.managed.page_lt member),
    pageOfNode_node holds.manages (holds.managed.page_lt member')] at same
  rw [same]

theorem Ready.freePages_eq (ready : s.Ready g free) : s.freePages = free := by
  ext q
  refine Iff.trans ?_ (Maximal.mem_iff 5).symm
  constructor
  · rintro ⟨l, bound, p, listed, inBlock⟩
    exact ⟨l, p, (ready.holds.mem_pagesOn bound).mp listed, inBlock⟩
  · rintro ⟨l, p, maximal, inBlock⟩
    have bound : l < 6 := by have := maximal.1; omega
    exact ⟨l, bound, p, (ready.holds.mem_pagesOn bound).mpr maximal, inBlock⟩

theorem pagesOf_page (q : Nat) : pagesOf (q * pageSize) pageSize = {q} := by
  ext p
  rw [pagesOf, pageSize_eq, Nat.mul_div_cancel q (by decide), Set.mem_Ico, Set.mem_singleton_iff]
  omega

/-- A request either leaves the state alone or takes aligned pages out of the free ones. -/
theorem Ready.alloc (ready : s.Ready g free) (size : Nat) (metadata : BitVec 8) :
    ∃ result after, pmapPfaAllocContig size metadata s = .ok (result, after) ∧
      (result = physAddrInvalid ∧ after = s ∨
        result ≠ physAddrInvalid ∧ 4096 * 2 ^ Nat.clog 2 ((size + 4095) / 4096) ∣ result ∧
          pagesOf result size ⊆ free ∧ after.Ready g (free \ pagesOf result size)) := by
  rcases Nat.lt_or_ge 131072 size with large | small
  · exact ⟨_, _, pmapPfaAllocContig_large large .., Or.inl ⟨rfl, rfl⟩⟩
  rcases pmapPfaAllocContig_spec ready small metadata with ⟨outcome, -⟩ | ⟨level, page, after, outcome, -, -, takes⟩
  · exact ⟨_, _, outcome, Or.inl ⟨rfl, rfl⟩⟩
  refine ⟨_, _, outcome, Or.inr ?_⟩
  have countLe := g.pageCount_le
  have maximal := takes.maximal
  have managed := ready.holds.managed.page_lt maximal
  have count : sizeToPageCount size = (size + 4095) / 4096 := sizeToPageCount_eq (by omega)
  have fits := takes.fits
  have holds := takes.holds
  rw [count] at fits holds
  have pages : pagesOf (page * 4096) size = Set.Ico page (page + (size + 4095) / 4096) := by
    rw [pagesOf, Nat.mul_div_cancel _ (by omega)]
  rw [pages]
  refine ⟨?_, ?_, fun q member => ?_, holds, takes.lock_eq.trans ready.unlocked⟩
  · unfold physAddrInvalid
    omega
  · have power : 2 ^ Nat.clog 2 ((size + 4095) / 4096) ∣ page :=
      (pow_dvd_pow 2 (Nat.clog_le_of_le_pow fits)).trans maximal.2.1
    rw [Nat.mul_comm]
    exact Nat.mul_dvd_mul_right power 4096
  · exact maximal.2.2.1 (mem_block.mpr ⟨member.1, by have := member.2; omega⟩)

theorem Ready.after_alloc (ready : s.Ready g free) {size result : Nat} {metadata : BitVec 8} {after : Pfa}
    (run : pmapPfaAllocContig size metadata s = .ok (result, after)) : ∃ free', after.Ready g free' := by
  obtain ⟨_, _, outcome, ⟨-, rfl⟩ | ⟨-, -, -, afterReady⟩⟩ := ready.alloc size metadata
  · rw [outcome] at run
    cases run
    exact ⟨free, ready⟩
  · rw [outcome] at run
    cases run
    exact ⟨_, afterReady⟩

end Pfa

open Pfa Dyadic

/-- Initialised states, when nobody else's memory is in the way of a list node. -/
def BootParams.Boots (b : BootParams) (s : Pfa) : Prop :=
  ∃ raw, (∀ a, raw.mayLink a = true) ∧ b.boot raw = .ok s

theorem BootParams.Boots.ready {b : BootParams} {s : Pfa} (boots : b.Boots s) :
    s.Ready (b.geometry Set.univ) b.initialFree := by
  obtain ⟨raw, open_, booted⟩ := boots
  exact b.boot_ready (fun p _ => open_ _) (Set.subset_univ _) booted

/-- The allocator together with the pages that its clients hold. -/
structure World where
  pfa : Pfa
  held : Set Nat

/-- The pages an allocation hands out. -/
def allocated (result size : Nat) : Set Nat := if result = physAddrInvalid then ∅ else pagesOf result size

/-- A call by a client: any request, and the release of any page-aligned range of pages that
clients hold, be it a part of an allocation or several of them. -/
inductive ClientStep : World → World → Prop
  | alloc {w : World} {after : Pfa} {size result : Nat} {metadata : BitVec 8} (sizeLt : size < 2 ^ 64)
      (run : pmapPfaAllocContig size metadata w.pfa = .ok (result, after)) :
      ClientStep w ⟨after, w.held ∪ allocated result size⟩
  | free {w : World} {after : Pfa} {addr size : Nat} (aligned : 4096 ∣ addr) (addrLt : addr < 2 ^ 64)
      (sizeLt : size < 2 ^ 64) (owned : pagesOf addr size ⊆ w.held)
      (run : pmapPfaFreeContig addr size w.pfa = .ok after) :
      ClientStep w ⟨after, w.held \ pagesOf addr size⟩

/-- Runs of clients from initialisation, when nobody holds a page. -/
def BootParams.ClientReaches (b : BootParams) (s₀ : Pfa) (w : World) : Prop :=
  b.Boots s₀ ∧ Relation.ReflTransGen ClientStep ⟨s₀, ∅⟩ w

/-- Every page that was free at initialisation is either held or free, never both. -/
structure World.Balanced (b : BootParams) (w : World) : Prop where
  owned : w.held ⊆ b.initialFree
  ready : w.pfa.Ready (b.geometry Set.univ) (b.initialFree \ w.held)

/-- The release of held pages in a balanced world frees exactly these pages. -/
theorem World.Balanced.free {b : BootParams} {w : World} (balanced : w.Balanced b) {addr size : Nat}
    (addrLt : addr < 2 ^ 64) (sizeLt : size < 2 ^ 64) (owned : pagesOf addr size ⊆ w.held) :
    ∃ after, pmapPfaFreeContig addr size w.pfa = .ok after ∧
      after.Ready (b.geometry Set.univ) (b.initialFree \ w.held ∪ pagesOf addr size) := by
  obtain ⟨after, outcome, ready, -⟩ := pmapPfaFreeContig_spec balanced.ready addrLt sizeLt
    (fun q member => (balanced.owned (owned member)).2) (Set.subset_univ _)
    (Set.disjoint_left.mpr fun q member outside => outside.2 (owned member))
  exact ⟨after, outcome, ready⟩

theorem World.Balanced.step {b : BootParams} {w w' : World} (balanced : w.Balanced b) (step : ClientStep w w') :
    w'.Balanced b := by
  cases step with
  | @alloc after size result metadata _ run =>
    obtain ⟨_, _, outcome, kept | ⟨valid, -, pages, ready⟩⟩ := balanced.ready.alloc size metadata
    · rw [outcome] at run
      cases run
      obtain ⟨rfl, rfl⟩ := kept
      simpa [allocated] using balanced
    · rw [outcome] at run
      cases run
      rw [allocated, if_neg valid]
      exact ⟨Set.union_subset balanced.owned (pages.trans Set.sdiff_subset), by rwa [Set.sdiff_sdiff] at ready⟩
  | @free after addr size _ addrLt sizeLt owned run =>
    obtain ⟨_, outcome, ready⟩ := balanced.free addrLt sizeLt owned
    rw [outcome] at run
    cases run
    have pages : b.initialFree \ w.held ∪ pagesOf addr size = b.initialFree \ (w.held \ pagesOf addr size) := by
      ext q
      have inside : q ∈ pagesOf addr size → q ∈ b.initialFree := fun member => balanced.owned (owned member)
      simp only [Set.mem_union, Set.mem_sdiff]
      tauto
    exact ⟨Set.sdiff_subset.trans balanced.owned, pages ▸ ready⟩

theorem BootParams.ClientReaches.balanced {b : BootParams} {s₀ : Pfa} {w : World} (reach : b.ClientReaches s₀ w) :
    w.Balanced b := by
  obtain ⟨boots, run⟩ := reach
  induction run with
  | refl => exact ⟨Set.empty_subset _, by rw [Set.sdiff_empty]; exact boots.ready⟩
  | tail _ step ih => exact ih.step step

end Swink
