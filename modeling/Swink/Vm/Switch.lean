import Swink.Vm.Bootstrap

namespace Swink
open Table Mem

/-- Tables stay where they are when the memory around them changes. -/
theorem Holds.congr {base lower ap : Nat} {s : Space} {mem mem' : Mem} (holds : Holds base lower ap s mem)
    (agree : Agree lower ap mem mem') : Holds base lower ap s mem' where
  entries t live k lt := by
    have place := holds.inside t live
    rw [agree.load64 (by omega) (by omega)]
    exact holds.entries t live k lt
  inside := holds.inside
  distinct := holds.distinct
  tables := holds.tables
  tidy := holds.tidy

theorem isTable_bootstrap (oa : Nat) : IsTable (pteOf pteTemplatePageNormalKernBootstrap oa) :=
  Template.pteOf_table (by decide) oa

theorem mapCount_eq {kernelBase pages : Nat} (small : kernelBase + pages * 4096 < 2 ^ 64) :
    sub64 (kernelBase + pages * 4096) kernelBase >>> pageShift = pages := by
  rw [sub64_of_le (Nat.le_add_right ..) small, Nat.add_sub_cancel_left, pageShift, Nat.shiftRight_eq_div_pow]
  exact Nat.mul_div_cancel _ (by decide)

theorem vmBootstrapPvTable_returns {x0 : Nat} (small : x0 + 4096 < 2 ^ 64) (mem : Mem) :
    ∃ m, vmBootstrapPvTable x0 mem = .ok m :=
  ⟨_, by rw [vmBootstrapPvTable, zeroPage_eq (by decide) (by rwa [pageSize_eq]), ok_bind]⟩

/-- A kernel that fits is mapped by three tables behind the P=V table at `x0`. -/
theorem vmBootstrap_spec {kernelBase pages x0 base : Nat} (kernelAligned : 4096 ∣ kernelBase)
    (kernelSmall : kernelBase + pages * 4096 < 2 ^ 47) (aligned : 4096 ∣ x0) (behind : base = x0 + 0x1000)
    (small : base + 0x3000 < 2 ^ 47) (passes : pages < pageEntryCount) (mem : Mem) :
    ∃ s boot, vmBootstrap kernelBase (kernelBase + pages * 4096) x0 mem = .ok boot ∧ ttbrBase boot.ttbr1 = base ∧
      Holds base base (base + 0x3000) s boot.mem ∧
      ∀ n, s.l3 n = if n < pages then pteOf pteTemplatePageNormalKernBootstrap (kernelBase + n * 4096) else 0 := by
  have count := mapCount_eq (show kernelBase + pages * 4096 < 2 ^ 64 by omega)
  have baseAligned : 4096 ∣ base := by omega
  have next₁ : u64 (x0 + 4096) = base := by
    rw [behind]
    exact u64_of_lt (by omega)
  have next₂ : u64 (base + 4096) = base + 0x1000 := u64_of_lt (by omega)
  have next₃ : u64 (base + 0x1000 + 4096) = base + 0x2000 := by
    rw [u64_of_lt (by omega)]
  have entry₂ := or_address_eq pteTemplateTableKernOnly (base + 0x1000) (by omega) (by omega)
  have entry₃ := or_address_eq pteTemplateTableKernOnly (base + 0x2000) (by omega) (by omega)
  have zeroed (m : Mem) : zeroPage base (4096 * 3) m = .ok (m.memset base 0 0x3000) :=
    zeroPage_eq (by decide) (by omega) m
  obtain ⟨m, pv⟩ := vmBootstrapPvTable_returns (show x0 + 4096 < 2 ^ 64 by omega) mem
  obtain ⟨s, holds, leaves⟩ := bootstrapTables m baseAligned (by omega) (Nat.le_of_lt passes) kernelAligned
    kernelSmall
  refine ⟨s, ⟨BitVec.ofNat 64 x0 ||| ttbrCnp, BitVec.ofNat 64 base ||| ttbrCnp, _⟩, ?_, ?_, holds, leaves⟩
  · rw [vmBootstrap]
    simp only [pageSize_eq, pv, ok_bind, next₁, next₂, next₃, zeroed, count, entry₂, entry₃,
      if_neg (not_not_intro passes)]
  · exact ttbrBase_of_aligned (by omega) (by omega)

/-- A kernel that does not fit is not mapped. -/
theorem vmBootstrap_too_large {kernelBase pages x0 : Nat} (kernelSmall : kernelBase + pages * 4096 < 2 ^ 64)
    (small : x0 + 0x4000 < 2 ^ 64) (large : pageEntryCount ≤ pages) (mem : Mem) :
    vmBootstrap kernelBase (kernelBase + pages * 4096) x0 mem =
      .error (.panic "Kernel too large (>2MB) for single 4K L3 table") := by
  obtain ⟨m, pv⟩ := vmBootstrapPvTable_returns (show x0 + 4096 < 2 ^ 64 by omega) mem
  obtain ⟨base, behind⟩ : ∃ base, base = x0 + 0x1000 := ⟨_, rfl⟩
  have next : u64 (x0 + 4096) = base := by
    rw [behind]
    exact u64_of_lt (by omega)
  have zeroed : zeroPage base (4096 * 3) m = .ok (m.memset base 0 0x3000) :=
    zeroPage_eq (by decide) (by omega) m
  rw [vmBootstrap]
  simp only [pageSize_eq, pv, ok_bind, next, zeroed, mapCount_eq kernelSmall, if_pos (Nat.not_lt.mpr large)]

section
open VmParams
variable {base ap kernelBase pages va : Nat} {s : Space} {mem : Mem}
  (leaves : ∀ n, s.l3 n = if n < pages then pteOf pteTemplatePageNormalKernBootstrap (kernelBase + n * 4096) else 0)
include leaves

/-- The bootstrap tables have no entry but pages. -/
theorem bootstrap_isTable {n : Nat} (valid : Valid (s.l3 n)) : IsTable (s.l3 n) := by
  rw [leaves] at valid ⊢
  split
  · exact isTable_bootstrap _
  · rename_i past
    rw [if_neg past] at valid
    exact absurd valid not_valid_zero

variable (holds : Holds base base ap s mem) (above : kernelMapStart ≤ va) (small : va < 2 ^ 64)
include holds above small

/-- The bootstrap tables map the image to where it was loaded. -/
theorem bootstrap_translate (aligned : 4096 ∣ kernelBase) (below : va < kernelMapStart + pages * 4096)
    (limit : kernelBase + pages * 4096 < 2 ^ 47) :
    translate mem base va = some (kernelBase + (va - kernelMapStart)) := by
  have start := kernelMapStart_eq
  have number : pageNumber va = (va - kernelMapStart) / 4096 := pageNumber_kernel above small
  have page : (va - kernelMapStart) / 4096 < pages := by omega
  have entry : s.l3 (pageNumber va) =
      pteOf pteTemplatePageNormalKernBootstrap (kernelBase + (va - kernelMapStart) / 4096 * 4096) := by
    rw [leaves, number, if_pos page]
  have valid := template_normalKernBootstrap.pteOf_valid (kernelBase + (va - kernelMapStart) / 4096 * 4096)
  have fits : kernelBase + (va - kernelMapStart) / 4096 * 4096 < 2 ^ 47 :=
    Nat.lt_of_le_of_lt (Nat.add_le_add_left (Nat.mul_le_mul_right 4096 (Nat.le_of_lt page)) kernelBase) limit
  have target := template_normalKernBootstrap.pteToPhysAddr_pteOf
    (kernelBase + (va - kernelMapStart) / 4096 * 4096) (by omega) fits
  rw [translate, holds.walk_eq va (bootstrap_isTable leaves), entry, if_pos valid]
  dsimp only
  rw [target, pageSize_eq]
  exact congrArg some (by omega)

/-- They map nothing else. -/
theorem bootstrap_walk_outside (outside : kernelMapStart + pages * 4096 ≤ va) : walk mem base va = .invalid := by
  have start := kernelMapStart_eq
  have number : pageNumber va = (va - kernelMapStart) / 4096 := pageNumber_kernel above small
  have gone : ¬Valid (s.l3 (pageNumber va)) := by
    rw [leaves, number, if_neg (by omega)]
    exact not_valid_zero
  rw [holds.walk_eq va (bootstrap_isTable leaves), if_neg gone]

end

open VmParams in
/-- The switch to the kernel's own tables is invisible: for every address of the image both table
registers lead to the same physical address, no other address of the first 2 MB of kernel space is
mapped by either, and as long as nobody writes to the bootstrap tables, the final tables are built
without disturbing them. -/
theorem switch_is_invisible (v : VmParams) (passes : v.image.pages < pageEntryCount)
    (reserved : v.bootstrapPaReserved = v.kernelBase + v.image.pages * pageSize + 0x6000) (mem mem' : Mem) :
    ∃ boot p,
      vmBootstrap v.kernelBase (v.kernelBase + v.image.pages * pageSize)
        (v.kernelBase + v.image.pages * pageSize + 0x2000) mem = .ok boot ∧
      pmapVmInitTables v.image v.kernelBase v.ramSize v.bootstrapPaReserved mem' = .ok p ∧
      (∀ va, kernelMapStart ≤ va → va < v.image.kernelMapEnd → ∃ pa,
        translate boot.mem (ttbrBase boot.ttbr1) va = some pa ∧
          translate p.arena.mem (ttbrBase (vmBootstrapSwitchToPmapKernel p.tableBase)) va = some pa) ∧
      (∀ va, kernelMapStart ≤ va → va < kernelMapStart + vmL2EntrySize → ¬va < v.image.kernelMapEnd →
        walk boot.mem (ttbrBase boot.ttbr1) va = .invalid ∧
          walk p.arena.mem (ttbrBase (vmBootstrapSwitchToPmapKernel p.tableBase)) va = .invalid) ∧
      (Agree (ttbrBase boot.ttbr1) v.bootstrapPaReserved boot.mem mem' → ∀ va,
        walk p.arena.mem (ttbrBase boot.ttbr1) va = walk boot.mem (ttbrBase boot.ttbr1) va) := by
  have limit := v.bounds
  have small := v.image_small
  rw [pageSize_eq] at reserved ⊢
  have kernelAligned := v.kernelBase_dvd
  have reservedAligned := v.reserved_dvd
  obtain ⟨s, p, run, built⟩ := v.pmapVmInitTables_spec mem'
  obtain ⟨s₀, boot, booted, ttbr, holds, leaves⟩ := vmBootstrap_spec
    kernelAligned (by omega)
    (show 4096 ∣ v.kernelBase + v.image.pages * 4096 + 0x2000 by omega) (Nat.add_assoc _ 0x2000 0x1000).symm (by omega)
    passes mem
  have final : ttbrBase (vmBootstrapSwitchToPmapKernel p.tableBase) = p.tableBase := by
    rw [built.tableBase]
    exact ttbrBase_of_aligned (by omega) (by omega)
  have ends : v.kernelBase + v.image.pages * 4096 + 0x3000 + 0x3000 = v.bootstrapPaReserved :=
    (Nat.add_assoc _ 0x3000 0x3000).trans reserved.symm
  rw [ends] at holds
  refine ⟨boot, p, booted, run, fun va above below => ?_, fun va above below outside => ?_, fun agree va => ?_⟩
  · rw [v.kernelMapEnd_eq] at below
    have start := kernelMapStart_eq
    refine ⟨v.kernelBase + (va - kernelMapStart), ?_, ?_⟩
    · rw [ttbr]
      exact bootstrap_translate leaves holds above (by omega) kernelAligned below (by omega)
    · have base : vmKernelBaseAddress = kernelMapStart := rfl
      have address : va = vmKernelBaseAddress + (va - kernelMapStart) := by omega
      rw [final, address, built.translate_image (by rw [v.kernelMapEnd_eq]; omega), base, Nat.add_sub_cancel_left]
  · have start := kernelMapStart_eq
    have size : vmL2EntrySize = 0x200000 := by decide
    have past := outside
    rw [v.kernelMapEnd_eq] at past
    constructor
    · rw [ttbr]
      exact bootstrap_walk_outside leaves holds above (by omega) (by omega)
    · rw [final]
      refine built.walk_outside fun r inside => ?_
      rcases covers_of_mem above (by omega) inside with inImage | ⟨pa, covered, same⟩
      · exact outside inImage
      · have physmap : physmapVmBase = 2 ^ 64 - 2 ^ 30 := rfl
        rw [(pageNumber_physmap covered.lt).2] at same
        omega
  · rw [ttbr] at agree ⊢
    have now : Agree (v.kernelBase + v.image.pages * 4096 + 0x3000) v.bootstrapPaReserved boot.mem p.arena.mem :=
      fun x above below => (built.frame x (Or.inl below)).trans (agree x above below)
    rw [(holds.congr now).walk_eq va (bootstrap_isTable leaves), holds.walk_eq va (bootstrap_isTable leaves)]

theorem switch_is_invisible_sample :
    ∃ boot p, vmBootstrap 0x80000 0x89000 0x8B000 (fun _ => 0) = .ok boot ∧
      pmapVmInitTables ⟨3, 2, 4⟩ 0x80000 0x3B400000 0x8F000 (fun _ => 0) = .ok p ∧ ∃ pa,
        translate boot.mem (ttbrBase boot.ttbr1) kernelMapStart = some pa ∧
          translate p.arena.mem (ttbrBase (vmBootstrapSwitchToPmapKernel p.tableBase)) kernelMapStart = some pa := by
  obtain ⟨boot, p, booted, run, same, -, -⟩ :=
    switch_is_invisible VmParams.sample (by decide) (by decide) (fun _ => 0) fun _ => 0
  exact ⟨boot, p, booted, run, same kernelMapStart le_rfl (by decide)⟩

end Swink
