import Swink.Pfa.Merges

namespace Swink

open Refinement Pfa Blocks Dyadic

variable {σ : Type} {R : Pfa → σ → Prop} {g : Geometry} {s : Pfa} {t : σ}

/-- Between calls, a store shows a state whose free pages are coalesced. -/
structure Coalesced (R : Pfa → σ → Prop) (g : Geometry) (s : Pfa) (t : σ) : Prop where
  related : R s t
  ready : s.Ready g s.freePages

namespace Coalesced

theorem of_ready (related : R s t) {free : Set Nat} (ready : s.Ready g free) : Coalesced R g s t :=
  ⟨related, by rwa [ready.freePages_eq]⟩

variable [PfaStore σ]

theorem pageCount (sim : Simulates R) (now : Coalesced R g s t) : PfaStore.pageCount t = g.pageCount :=
  (sim.pageCount now.related).symm.trans now.ready.holds.manages.count

/-- The bit of every block that has one in the words of its level can be read, and tells whether the
block is maximal. -/
theorem bit_spec (sim : Simulates R) (now : Coalesced R g s t) {level page : Nat} (bound : level < 6)
    (aligned : 2 ^ level ∣ page) (small : page < 2 ^ 32)
    (inWords : page / 2 ^ level < 64 * bitmapWords g.pageCount level) :
    ∃ bit, buddyBitmapGetBitLocked page level t = .ok bit ∧
      (bit = buddyBitFree ↔ Maximal 5 s.freePages level page) ∧
      (bit = buddyBitAllocated ↔ ¬Maximal 5 s.freePages level page) := by
  have holds := now.ready.holds
  obtain ⟨bit, read, meaning⟩ := buddyBitmapGetBitLocked_spec holds.manages holds.bits bound aligned small inWords
  obtain ⟨_, shown, rfl⟩ := (sim.buddyBitmapGetBitLocked now.related page level).of_ok bit read
  exact ⟨bit, shown, meaning⟩

/-- No request is stopped. -/
theorem alloc (sim : Simulates R) (now : Coalesced R g s t) (size : Nat) (metadata : BitVec 8) :
    ∃ result after s', pmapPfaAllocContig size metadata t = .ok (result, after) ∧ Coalesced R g s' after := by
  obtain ⟨result, s', outcome, effect⟩ := now.ready.alloc size metadata
  obtain ⟨⟨_, after⟩, run, rfl, related⟩ := (sim.pmapPfaAllocContig now.related size metadata).of_ok _ outcome
  refine ⟨result, after, s', run, ?_⟩
  rcases effect with ⟨-, rfl⟩ | ⟨-, -, -, ready⟩
  · exact .of_ready related now.ready
  · exact .of_ready related ready

/-- No release of usable pages that are not free is stopped. -/
theorem free (sim : Simulates R) (now : Coalesced R g s t) {addr size : Nat} (addrLt : addr < 2 ^ 64)
    (sizeLt : size < 2 ^ 64) (managed : ∀ q ∈ pagesOf addr size, q < g.pageCount)
    (usable : pagesOf addr size ⊆ g.usable) (notFree : Disjoint (pagesOf addr size) s.freePages) :
    ∃ after s', pmapPfaFreeContig addr size t = .ok after ∧ Coalesced R g s' after := by
  obtain ⟨s', outcome, ready, -⟩ := pmapPfaFreeContig_spec now.ready addrLt sizeLt managed usable notFree
  obtain ⟨after, run, related⟩ := (sim.pmapPfaFreeContig now.related addr size).of_ok _ outcome
  exact ⟨after, s', run, .of_ready related ready⟩

/-- While a range is released page by page, every block that merging takes off its list lies inside
the managed pages. -/
theorem merges (sim : Simulates R) (now : Coalesced R g s t) {addr size : Nat} (addrLt : addr < 2 ^ 64)
    (sizeLt : size < 2 ^ 64) (managed : ∀ q ∈ pagesOf addr size, q < g.pageCount)
    (usable : pagesOf addr size ⊆ g.usable) (notFree : Disjoint (pagesOf addr size) s.freePages) {i : Nat}
    (within : i < sizeToPageCount size) :
    ∃ locked middle merged, synchsLockAcquire t = .ok locked ∧
      buddyFreePagesLoop (paToPageId addr) i 0 locked = .ok middle ∧
      mergedBuddies (buddyLevels - 1) 0 (u32 (paToPageId addr + i)) middle = .ok merged ∧
      ∀ buddy ∈ merged, buddy.2 + 2 ^ buddy.1 ≤ g.pageCount := by
  have countLe := g.pageCount_le
  rcases Nat.eq_zero_or_pos size with rfl | positive
  · exact absurd within (Nat.not_lt_zero i)
  have last := managed (addr / 4096 + (size + 4095) / 4096 - 1) (Set.mem_Ico.mpr (by omega))
  have count : sizeToPageCount size = (size + 4095) / 4096 := sizeToPageCount_eq (by omega)
  have first : paToPageId addr = addr / 4096 := paToPageId_eq (by omega)
  obtain ⟨middle, merged, freed, found, inside⟩ := mergedBuddies_inside (now.ready.holds.withLock 0)
    (show addr / 4096 + (size + 4095) / 4096 ≤ g.pageCount by omega) usable
    (fun q member => by
      by_contra inRange
      exact Set.disjoint_left.mp notFree (Set.mem_Ico.mpr (by omega)) member) (count ▸ within)
  obtain ⟨locked, acquired, related⟩ := (sim.synchsLockAcquire now.related).of_ok _ now.ready.acquire
  obtain ⟨middle', freed', related⟩ := (sim.buddyFreePagesLoop _ _ related _).of_ok _ freed
  obtain ⟨_, found', rfl⟩ := (sim.mergedBuddies _ _ _ related).of_ok _ found
  rw [first]
  exact ⟨locked, middle', merged, acquired, freed', found', inside⟩

/-- Metadata whose range passes the assertion can be written to the state too. -/
theorem applyMetadata (sim : Simulates R) (now : Coalesced R g s t) {base count : Nat} {metadata : BitVec 8} {after : σ}
    (small : base < 2 ^ 32) (countLt : count < 2 ^ 32) (run : applyMetadataRangeLocked base count metadata t = .ok after) :
    ∃ s', Swink.applyMetadataRangeLocked base count metadata s = .ok s' ∧ Coalesced R g s' after ∧
      s'.freePages = s.freePages := by
  have manages := now.ready.holds.manages
  have passed := run
  rw [applyMetadataRangeLocked, ← sim.pageBase now.related, ← sim.pageCount now.related, store_pageBase, manages.base,
    sub32_of_le (Nat.zero_le _) small, Nat.sub_zero, u64_of_lt (by omega), store_pageCount, manages.count] at passed
  obtain ⟨_, check, -⟩ := bind_eq_ok.mp passed
  have inside : base + count ≤ g.pageCount := by
    by_contra outside
    rw [assert, if_neg outside] at check
    cases check
  have marked := applyMetadataRangeLocked_spec manages inside metadata
  exact ⟨_, marked, .of_ready ((sim.applyMetadataRangeLocked now.related base count metadata).predict marked run)
    ⟨now.ready.holds.withMetadata _, now.ready.unlocked⟩, rfl⟩

/-- Whatever initialisation marks as the kernel image: if it returns, the free pages are coalesced, and
they are those behind the reserved ones. -/
theorem boot {b : BootParams} {usable : Set Nat} {first : Pfa} {raw start : σ} (sim : Simulates R)
    (linkable : b.Linkable usable first) (within : b.initialFree ⊆ usable)
    (blocks : Refines R (initBlocks 0 b.ramSize b.bootstrapPaReserved { first with physmapVmBase := b.physmapVmBase })
      (initBlocks 0 b.ramSize b.bootstrapPaReserved raw))
    (booted : pmapPfaInit 0 b.ramSize b.kernelTextBase b.kernelTextSize b.kernelDataBase b.kernelDataSize
      b.bootstrapPaReserved raw = .ok start) :
    ∃ s, b.boot first = .ok s ∧ Coalesced R (b.geometry usable) s start ∧ s.freePages = b.initialFree := by
  obtain ⟨built, ready, -, run⟩ := b.initBlocks_returns first linkable within
  obtain ⟨shown, outcome, related⟩ := blocks.of_ok built run
  rw [pmapPfaInit_eq, outcome, ok_bind] at booted
  obtain ⟨middle, data, text⟩ := bind_eq_ok.mp booted
  have pageLt (pa : Nat) : paToPageId pa < 2 ^ 32 := Nat.mod_lt _ (by decide)
  have countLt (size : Nat) : sizeToPageCount size < 2 ^ 32 := Nat.mod_lt _ (by decide)
  obtain ⟨s₁, data', marked, same₁⟩ := applyMetadata sim (.of_ready related ready) (pageLt _) (countLt _) data
  obtain ⟨s₂, text', marked, same₂⟩ := applyMetadata sim marked (pageLt _) (countLt _) text
  refine ⟨s₂, ?_, marked, same₂.trans (same₁.trans ready.freePages_eq)⟩
  rw [BootParams.boot, pmapPfaInit_eq, run, ok_bind, data', ok_bind, text']

end Coalesced

end Swink
