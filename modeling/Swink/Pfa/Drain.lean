import Swink.Lib.Drain
import Swink.Pfa.Guarantees
import Mathlib.Algebra.Order.Interval.Set.SuccPred
import Mathlib.Data.Set.Card

namespace Swink

namespace Pfa
open Blocks Dyadic

variable {g : Geometry} {s : Pfa} {free : Set Nat}

/-- A request for one page takes any free page that there is. -/
theorem Ready.allocPage (ready : s.Ready g free) (nonempty : free.Nonempty) (metadata : BitVec 8) :
    ∃ q ∈ free, ∃ after, pmapPfaAllocContig pageSize metadata s = .ok (q * pageSize, after) ∧
      after.Ready g (free \ {q}) := by
  have lowest : minBuddyLevelForSize pageSize = 0 := by decide
  have one : sizeToPageCount pageSize = 1 := by decide
  obtain ⟨p, member⟩ := nonempty
  obtain ⟨l, block, maximal, -⟩ := (Maximal.mem_iff 5).mp member
  rcases pmapPfaAllocContig_spec ready (show pageSize ≤ 131072 by decide) metadata with
    ⟨-, nothing⟩ | ⟨level, page, after, run, -, -, takes⟩
  · have bound := maximal.1
    exact absurd maximal (nothing l (by omega) (by omega) block)
  · have holds := takes.holds
    rw [one, Set.Ico_add_one_right_eq_Icc, Set.Icc_self] at holds
    refine ⟨page, takes.maximal.2.2.1 (start_mem_block ..), after, ?_, holds, takes.lock_eq.trans ready.unlocked⟩
    rw [run, pageSize_eq]

/-- A request for one page fails when no page is free. -/
theorem Ready.allocPage_none (ready : s.Ready g ∅) (metadata : BitVec 8) :
    pmapPfaAllocContig pageSize metadata s = .ok (physAddrInvalid, s) := by
  rcases pmapPfaAllocContig_spec ready (show pageSize ≤ 131072 by decide) metadata with
    ⟨run, -⟩ | ⟨level, page, after, -, -, -, takes⟩
  · exact run
  · exact (takes.maximal.2.2.1 (start_mem_block ..)).elim

/-- Releasing one managed page that is not free adds it to the free pages. -/
theorem Ready.freePage (ready : s.Ready g free) {q : Nat} (managed : q < g.pageCount) (usable : q ∈ g.usable)
    (fresh : q ∉ free) :
    ∃ after, pmapPfaFreeContig (q * pageSize) pageSize s = .ok after ∧ after.Ready g (insert q free) := by
  have countLe := g.pageCount_le
  have page := pagesOf_page q
  have addrLt : q * pageSize < 2 ^ 64 := by
    rw [pageSize_eq]
    omega
  obtain ⟨after, run, afterReady, -⟩ := pmapPfaFreeContig_spec ready addrLt (show pageSize < 2 ^ 64 by decide)
    (by rw [page]; rintro _ rfl; exact managed)
    (by rw [page]; exact Set.singleton_subset_iff.mpr usable)
    (by rw [page]; exact Set.disjoint_singleton_left.mpr fresh)
  rw [page, Set.union_singleton] at afterReady
  exact ⟨after, run, afterReady⟩

/-- Calls of `pmap_pfa_alloc_contig` for one page each, with the addresses they return. -/
def allocPages (count : Nat) (metadata : BitVec 8) : Pfa → Except Fault (List Nat × Pfa) :=
  Drain.repeatCall (pmapPfaAllocContig pageSize metadata) count

/-- Calls of `pmap_pfa_free_contig` for one page each. -/
def releasePages (order : List Nat) (s : Pfa) : Except Fault Pfa :=
  order.foldlM (fun s q => pmapPfaFreeContig (q * pageSize) pageSize s) s

/-- From any free pages, one-page requests hand out each free page once; then there is none. -/
theorem Ready.drain {elems : Finset Nat} (ready : s.Ready g elems) (metadata : BitVec 8) :
    ∃ (taken : List Nat) (drained : Pfa), taken.Nodup ∧ (∀ q, q ∈ taken ↔ q ∈ elems) ∧
      allocPages taken.length metadata s = .ok (taken.map (· * pageSize), drained) ∧ drained.Ready g ∅ := by
  obtain ⟨taken, drained, nodup, exact, run, empty⟩ :=
    Drain.repeatCall_drains (fun (left : Finset Nat) (s : Pfa) => s.Ready g left) (· * pageSize)
      (fun {left s} ready nonempty => by
        obtain ⟨q, member, after, run, rest⟩ := ready.allocPage nonempty metadata
        exact ⟨q, member, after, run, by rwa [Finset.coe_erase]⟩) ready
  exact ⟨taken, drained, nodup, exact, run, by rwa [Finset.coe_empty] at empty⟩

/-- Managed pages that are not free become free when they are released singly, in whatever order. -/
theorem Ready.refill {elems : Finset Nat} (ready : s.Ready g elems) {order : List Nat} (nodup : order.Nodup)
    (managed : ∀ q ∈ order, q < g.pageCount ∧ q ∈ g.usable) (fresh : ∀ q ∈ order, q ∉ elems) :
    ∃ after, releasePages order s = .ok after ∧ after.Ready g ↑(elems ∪ order.toFinset) :=
  Drain.foldlM_refills (fun (filled : Finset Nat) (s : Pfa) => s.Ready g filled)
    (fun {filled s} q ready known missing => by
      obtain ⟨after, run, more⟩ := ready.freePage known.1 known.2 missing
      exact ⟨after, run, by rwa [Finset.coe_insert]⟩) nodup managed ready fresh

end Pfa

open Pfa

variable {b : BootParams} {s₀ : Pfa} {w : World}

/-- Draining hands out every free page once and then nothing, and releasing the pages singly, in
whatever order, brings every level back to the blocks it had. -/
theorem drain_and_refill (reach : b.ClientReaches s₀ w) (metadata : BitVec 8) :
    ∃ (pages : List Nat) (drained : Pfa), pages.Nodup ∧ (∀ q, q ∈ pages ↔ q ∈ w.pfa.freePages) ∧
      pages.length = w.pfa.freePages.ncard ∧
      allocPages pages.length metadata w.pfa = .ok (pages.map (· * pageSize), drained) ∧
      physAddrInvalid ∉ pages.map (· * pageSize) ∧
      pmapPfaAllocContig pageSize metadata drained = .ok (physAddrInvalid, drained) ∧
      ∀ order : List Nat, order.Perm pages → ∃ after, releasePages order drained = .ok after ∧
        ∀ level < buddyLevels, ∀ p, p ∈ after.pagesOn level ↔ p ∈ w.pfa.pagesOn level := by
  have balanced := reach.balanced
  have ready := balanced.ready
  have countLe := (b.geometry Set.univ).pageCount_le
  have managed {q : Nat} (member : q ∈ b.initialFree \ w.held) : q < b.pageCount := ready.holds.free_lt member
  rw [ready.freePages_eq]
  have finite : (b.initialFree \ w.held).Finite := (Set.finite_lt_nat b.pageCount).subset fun _ => managed
  obtain ⟨elems, same⟩ := finite.exists_finset_coe
  rw [← same] at ready managed ⊢
  obtain ⟨pages, drained, nodup, exact, run, empty⟩ := ready.drain metadata
  have enumerated : pages.toFinset = elems := by
    ext q
    rw [List.mem_toFinset, exact]
  refine ⟨pages, drained, nodup, exact, ?_, run, fun invalid => ?_, empty.allocPage_none metadata,
    fun order shuffled => ?_⟩
  · rw [Set.ncard_coe_finset, ← enumerated, List.toFinset_card_of_nodup nodup]
  · obtain ⟨q, member, bad⟩ := List.mem_map.mp invalid
    have := managed ((exact q).mp member)
    have small : b.pageCount ≤ 2 ^ 20 := countLe
    rw [pageSize_eq] at bad
    unfold physAddrInvalid at bad
    omega
  · rw [← Finset.coe_empty] at empty
    obtain ⟨after, released, full⟩ := empty.refill (shuffled.nodup_iff.mpr nodup)
      (fun q member => ⟨managed ((exact q).mp (shuffled.mem_iff.mp member)), trivial⟩)
      (fun q _ => Finset.notMem_empty q)
    rw [Finset.empty_union, List.toFinset_eq_of_perm _ _ shuffled, enumerated] at full
    refine ⟨after, released, fun level bound p => ?_⟩
    rw [full.holds.mem_pagesOn bound, ready.holds.mem_pagesOn bound]

theorem drain_and_refill_sample :
    ∃ (s drained after : Pfa) (pages : List Nat), sampleBoot.Boots s ∧ (∀ q, q ∈ pages ↔ 3 ≤ q ∧ q < 16) ∧
      allocPages pages.length 0 s = .ok (pages.map (· * pageSize), drained) ∧
      releasePages pages.reverse drained = .ok after ∧
      ∀ level < buddyLevels, ∀ p, p ∈ after.pagesOn level ↔ p ∈ s.pagesOn level := by
  obtain ⟨s, boots⟩ := sampleBoot_boots
  have free : s.freePages = Set.Ico 3 16 := by
    rw [boots.ready.freePages_eq, BootParams.initialFree, show sampleBoot.firstFree = 3 by decide,
      show sampleBoot.pageCount = 16 by decide]
  obtain ⟨pages, drained, -, exact, -, run, -, -, refill⟩ := drain_and_refill (w := ⟨s, ∅⟩) ⟨boots, .refl⟩ 0
  obtain ⟨after, released, restored⟩ := refill pages.reverse (List.reverse_perm pages)
  refine ⟨s, drained, after, pages, boots, fun q => ?_, run, released, restored⟩
  rw [exact, free, Set.mem_Ico]

end Swink
