import Swink.Pfa.Runs

namespace Swink

open Pfa Blocks Dyadic

variable {b : BootParams} {s s₀ : Pfa} {w : World}

/-- Sixteen pages of RAM of which the first two are reserved, with the physmap in the last
gigabyte of the address space. -/
def sampleBoot : BootParams where
  ramSize := 0x10000
  kernelTextBase := 0
  kernelTextSize := 0x1000
  kernelDataBase := 0x1000
  kernelDataSize := 0x1000
  bootstrapPaReserved := 0x2000
  physmapVmBase := 2 ^ 64 - 2 ^ 30
  ramSize_lt := by decide
  reserved_dvd := by decide
  reserved_le := by decide
  physmap_pos := by decide
  physmap_le := by decide

/-- Memory before initialisation. -/
def blankPfa : Pfa where
  physmapVmBase := 0
  pageBase := 0
  pageCount := 0
  lock := 0
  buddyLists := fun _ => []
  buddyBitmaps := fun _ _ => 0
  metadata := fun _ => 0
  mayLink := fun _ => true

theorem sampleBoot_boots : ∃ s, sampleBoot.Boots s := by
  obtain ⟨s, booted⟩ := sampleBoot.boot_returns blankPfa (fun _ _ => rfl) (by decide) (by decide)
  exact ⟨s, blankPfa, fun _ => rfl, booted⟩

theorem BootParams.not_reserved {q : Nat} (member : q ∈ b.initialFree) :
    b.reservedEnd ≤ q * 4096 ∧ q < b.pageCount := by
  obtain ⟨lower, upper⟩ := member
  rw [b.reservedEnd_eq]
  exact ⟨Nat.mul_le_mul_right 4096 lower, upper⟩

/-- No page is handed out twice and none is lost: in every state that clients can reach, an
allocation that succeeds takes aligned, unreserved pages that were free and that nobody holds
out of the free pages, and a release puts exactly its pages back. -/
theorem alloc_and_free_account (reach : b.ClientReaches s₀ w) :
    (∀ (size : Nat) (metadata : BitVec 8), ∃ result after,
      pmapPfaAllocContig size metadata w.pfa = .ok (result, after) ∧
        (result = physAddrInvalid → after.freePages = w.pfa.freePages) ∧
        (result ≠ physAddrInvalid →
          pageSize * 2 ^ Nat.clog 2 ((size + 4095) / 4096) ∣ result ∧
          (∀ q ∈ pagesOf result size,
            q ∈ w.pfa.freePages ∧ b.reservedEnd ≤ q * 4096 ∧ q < b.pageCount ∧ q ∉ w.held) ∧
          after.freePages = w.pfa.freePages \ pagesOf result size)) ∧
    ∀ addr size, pageSize ∣ addr → addr < 2 ^ 64 → size < 2 ^ 64 → pagesOf addr size ⊆ w.held →
      ∃ after, pmapPfaFreeContig addr size w.pfa = .ok after ∧
        after.freePages = w.pfa.freePages ∪ pagesOf addr size := by
  have balanced := reach.balanced
  have now := balanced.ready.freePages_eq
  constructor
  · intro size metadata
    obtain ⟨result, after, outcome, ⟨invalid, rfl⟩ | ⟨valid, aligned, pages, ready⟩⟩ :=
      balanced.ready.alloc size metadata
    · exact ⟨result, _, outcome, fun _ => rfl, fun valid => absurd invalid valid⟩
    · refine ⟨result, after, outcome, fun invalid => absurd invalid valid, fun _ => ⟨aligned, fun q member => ?_, ?_⟩⟩
      · have inFree := pages member
        exact ⟨now ▸ inFree, (BootParams.not_reserved inFree.1).1, (BootParams.not_reserved inFree.1).2, inFree.2⟩
      · rw [now, ready.freePages_eq]
  · intro addr size _ addrLt sizeLt owned
    obtain ⟨after, outcome, ready⟩ := balanced.free addrLt sizeLt owned
    exact ⟨after, outcome, by rw [now, ready.freePages_eq]⟩

/-- Three pages are handed out, the middle one is taken back and handed out again. -/
theorem sampleBoot_calls : ∃ s₀ s₁ s₂ s₃, sampleBoot.Boots s₀ ∧ pmapPfaAllocContig 0x3000 0 s₀ = .ok (0x4000, s₁) ∧
    pmapPfaFreeContig 0x5000 0x1000 s₁ = .ok s₂ ∧ pmapPfaAllocContig 0x1000 0 s₂ = .ok (0x5000, s₃) := by
  obtain ⟨⟨s₀, result, s₁, s₂, result', s₃⟩, run, shown⟩ := of_returns
    (do
      let s₀ ← sampleBoot.boot blankPfa
      let (result, s₁) ← pmapPfaAllocContig 0x3000 0 s₀
      let s₂ ← pmapPfaFreeContig 0x5000 0x1000 s₁
      let (result', s₃) ← pmapPfaAllocContig 0x1000 0 s₂
      .ok ((s₀, result, s₁, s₂, result', s₃) : Pfa × Nat × Pfa × Pfa × Nat × Pfa))
    (fun (_, result, _, _, result', _) => result == 0x4000 && result' == 0x5000)
    (by decide +kernel)
  obtain ⟨_, booted, run⟩ := bind_eq_ok.mp run
  obtain ⟨⟨_, _⟩, taken, run⟩ := bind_eq_ok.mp run
  obtain ⟨_, freed, run⟩ := bind_eq_ok.mp run
  obtain ⟨⟨_, _⟩, again, run⟩ := bind_eq_ok.mp run
  cases run
  simp only [Bool.and_eq_true, beq_iff_eq] at shown
  obtain ⟨rfl, rfl⟩ := shown
  exact ⟨_, _, _, _, ⟨blankPfa, fun _ => rfl, booted⟩, taken, freed, again⟩

theorem alloc_and_free_account_sample :
    ∃ s₀ s₁ s₂ s₃, sampleBoot.Boots s₀ ∧ pmapPfaAllocContig 0x3000 0 s₀ = .ok (0x4000, s₁) ∧
      pmapPfaFreeContig 0x5000 0x1000 s₁ = .ok s₂ ∧ pmapPfaAllocContig 0x1000 0 s₂ = .ok (0x5000, s₃) ∧
      s₁.freePages = s₀.freePages \ Set.Ico 4 7 ∧ s₂.freePages = s₁.freePages ∪ Set.Ico 5 6 ∧
      s₃.freePages = s₂.freePages \ Set.Ico 5 6 := by
  obtain ⟨s₀, s₁, s₂, s₃, boots, taken, freed, again⟩ := sampleBoot_calls
  have held : ∅ ∪ allocated 0x4000 0x3000 = Set.Ico 4 7 := Set.empty_union _
  have owned : pagesOf 0x5000 0x1000 ⊆ (∅ ∪ allocated 0x4000 0x3000 : Set Nat) := by
    rw [held]
    exact Set.Ico_subset_Ico (by decide) (by decide)
  have first : sampleBoot.ClientReaches s₀ ⟨s₁, _⟩ := ⟨boots, .single (.alloc (by decide) taken)⟩
  have second : sampleBoot.ClientReaches s₀ ⟨s₂, _⟩ :=
    ⟨boots, first.2.tail (.free (by decide) (by decide) (by decide) owned freed)⟩
  refine ⟨s₀, s₁, s₂, s₃, boots, taken, freed, again, ?_, ?_, ?_⟩
  · obtain ⟨_, _, run, -, valid⟩ :=
      (alloc_and_free_account (w := ⟨s₀, ∅⟩) ⟨boots, .refl⟩).1 0x3000 0
    cases taken.symm.trans run
    exact (valid (by decide)).2.2
  · obtain ⟨_, run, pages⟩ := (alloc_and_free_account first).2 0x5000 0x1000 (by decide) (by decide) (by decide) owned
    cases freed.symm.trans run
    exact pages
  · obtain ⟨_, _, run, -, valid⟩ := (alloc_and_free_account second).1 0x1000 0
    cases again.symm.trans run
    exact (valid (by decide)).2.2

end Swink
