import Swink.Vm.AddressSpace

namespace Swink
open Table Mem

/-- The bits of SCTLR_EL1, platform_registers.h. -/
def sctlrM : BitVec 64 := 1 <<< 0
def sctlrC : BitVec 64 := 1 <<< 2
def sctlrSa : BitVec 64 := 1 <<< 3
def sctlrSa0 : BitVec 64 := 1 <<< 4
def sctlrI : BitVec 64 := 1 <<< 12
def sctlrWxn : BitVec 64 := 1 <<< 19

def sctlrEl1Config : BitVec 64 := sctlrC ||| sctlrSa ||| sctlrSa0 ||| sctlrI ||| sctlrM ||| sctlrWxn

/-- Whether a descriptor or a register has one of the bits of a mask. -/
def Has (word mask : BitVec 64) : Prop := word &&& mask ≠ 0

instance (word mask : BitVec 64) : Decidable (Has word mask) := inferInstanceAs (Decidable (_ ≠ _))

/-- The access permissions of a page: a read-only bit on any level takes writing away, and on every
level EL0 has to be let in. -/
def El1Writes (l1 l2 l3 : BitVec 64) : Prop :=
  ¬Has l3 (apBlockToPte 0b10) ∧ ¬Has l1 (apTableToPte 0b10) ∧ ¬Has l2 (apTableToPte 0b10)

def El0Accesses (l1 l2 l3 : BitVec 64) : Prop :=
  Has l3 (apBlockToPte 0b01) ∧ ¬Has l1 (apTableToPte 0b01) ∧ ¬Has l2 (apTableToPte 0b01)

/-- The execute permissions of a page: the never bits have one position in tables and another in
pages, and with WXN nothing executes what it can write. -/
def El1Executes (sctlr l1 l2 l3 : BitVec 64) : Prop :=
  ¬Has l3 pxnBlock ∧ ¬Has l1 pxnTable ∧ ¬Has l2 pxnTable ∧ ¬(Has sctlr sctlrWxn ∧ El1Writes l1 l2 l3) ∧
    ¬(El0Accesses l1 l2 l3 ∧ El1Writes l1 l2 l3)

def El0Executes (sctlr l1 l2 l3 : BitVec 64) : Prop :=
  ¬Has l3 uxnBlock ∧ ¬Has l1 uxnTable ∧ ¬Has l2 uxnTable ∧
    ¬(Has sctlr sctlrWxn ∧ El0Accesses l1 l2 l3 ∧ El1Writes l1 l2 l3)

instance (l1 l2 l3 : BitVec 64) : Decidable (El1Writes l1 l2 l3) := inferInstanceAs (Decidable (_ ∧ _))
instance (l1 l2 l3 : BitVec 64) : Decidable (El0Accesses l1 l2 l3) := inferInstanceAs (Decidable (_ ∧ _))
instance (sctlr l1 l2 l3 : BitVec 64) : Decidable (El1Executes sctlr l1 l2 l3) := inferInstanceAs (Decidable (_ ∧ _))
instance (sctlr l1 l2 l3 : BitVec 64) : Decidable (El0Executes sctlr l1 l2 l3) := inferInstanceAs (Decidable (_ ∧ _))

/-- Address bits do not reach the permission bits. -/
theorem has_pteOf {mask : BitVec 64} (apart : mask &&& outputAddressMask = 0) (template : BitVec 64) (oa : Nat) :
    Has (pteOf template oa) mask ↔ Has template mask := by
  have same : pteOf template oa &&& mask = template &&& mask := by
    have gone : outputAddressToPte (BitVec.ofNat 64 oa) &&& mask = 0#64 := by
      rw [outputAddressToPte, BitVec.and_assoc, BitVec.and_comm outputAddressMask, apart]
      exact BitVec.and_zero
    rw [pteOf, BitVec.and_comm, BitVec.and_or_distrib_left, BitVec.and_comm mask, BitVec.and_comm mask, gone,
      BitVec.or_zero]
  rw [Has, same, Has]

theorem el1Writes_pteOf (t₁ t₂ t₃ : BitVec 64) (a₁ a₂ a₃ : Nat) :
    El1Writes (pteOf t₁ a₁) (pteOf t₂ a₂) (pteOf t₃ a₃) ↔ El1Writes t₁ t₂ t₃ := by
  simp only [El1Writes, has_pteOf (show apBlockToPte 0b10 &&& outputAddressMask = 0 by decide),
    has_pteOf (show apTableToPte 0b10 &&& outputAddressMask = 0 by decide)]

theorem el0Accesses_pteOf (t₁ t₂ t₃ : BitVec 64) (a₁ a₂ a₃ : Nat) :
    El0Accesses (pteOf t₁ a₁) (pteOf t₂ a₂) (pteOf t₃ a₃) ↔ El0Accesses t₁ t₂ t₃ := by
  simp only [El0Accesses, has_pteOf (show apBlockToPte 0b01 &&& outputAddressMask = 0 by decide),
    has_pteOf (show apTableToPte 0b01 &&& outputAddressMask = 0 by decide)]

theorem el1Executes_pteOf (sctlr t₁ t₂ t₃ : BitVec 64) (a₁ a₂ a₃ : Nat) :
    El1Executes sctlr (pteOf t₁ a₁) (pteOf t₂ a₂) (pteOf t₃ a₃) ↔ El1Executes sctlr t₁ t₂ t₃ := by
  simp only [El1Executes, el1Writes_pteOf, el0Accesses_pteOf,
    has_pteOf (show pxnBlock &&& outputAddressMask = 0 by decide),
    has_pteOf (show pxnTable &&& outputAddressMask = 0 by decide)]

theorem el0Executes_pteOf (sctlr t₁ t₂ t₃ : BitVec 64) (a₁ a₂ a₃ : Nat) :
    El0Executes sctlr (pteOf t₁ a₁) (pteOf t₂ a₂) (pteOf t₃ a₃) ↔ El0Executes sctlr t₁ t₂ t₃ := by
  simp only [El0Executes, el1Writes_pteOf, el0Accesses_pteOf,
    has_pteOf (show uxnBlock &&& outputAddressMask = 0 by decide),
    has_pteOf (show uxnTable &&& outputAddressMask = 0 by decide)]

namespace VmParams
variable {v : VmParams} {mem : Mem} {s : Space} {p : KernelPmap} {r r' : Region} {n va : Nat}

/-- A page of a region is reached through two kernel tables. -/
theorem Built.descriptors (built : v.Built mem s p) (inside : pageNumber va ∈ v.pagesIn r) :
    ∃ a₁ a₂ a₃, walk p.arena.mem p.tableBase va = .page (pteOf pteTemplateTableKernOnly a₁)
      (pteOf pteTemplateTableKernOnly a₂) (pteOf (templateOf r) a₃) := by
  have walked := built.walk_inside inside
  obtain ⟨bound, valid₁, valid₂⟩ := (built.entry r _ inside).2
  have index : pageNumber va / 512 / 512 * 512 + pageNumber va / 512 % 512 = pageNumber va / 512 := by omega
  have low : pageNumber va / 512 / 512 < 512 := by omega
  obtain ⟨a₁, same₁⟩ := built.kern root _ trivial trivial low valid₁
  obtain ⟨a₂, same₂⟩ :=
    built.kern (middle (pageNumber va / 512 / 512)) (pageNumber va / 512 % 512) ⟨low, valid₁⟩ trivial
    (Nat.mod_lt _ (by decide)) (by rwa [Space.entry, index])
  rw [Space.entry] at same₁
  rw [Space.entry, index] at same₂
  rw [same₁, same₂] at walked
  exact ⟨a₁, a₂, _, walked⟩

/-- The permissions of the pages of a region. -/
theorem region_permissions (r : Region) (a₁ a₂ a₃ : Nat) :
    (El1Executes sctlrEl1Config (pteOf pteTemplateTableKernOnly a₁) (pteOf pteTemplateTableKernOnly a₂)
        (pteOf (templateOf r) a₃) ↔ r = .text ∨ r = .roData) ∧
      (El1Writes (pteOf pteTemplateTableKernOnly a₁) (pteOf pteTemplateTableKernOnly a₂) (pteOf (templateOf r) a₃) ↔
        r = .rwData ∨ r = .ram ∨ r = .mmio) ∧
      ¬El0Accesses (pteOf pteTemplateTableKernOnly a₁) (pteOf pteTemplateTableKernOnly a₂) (pteOf (templateOf r) a₃) ∧
      ¬El0Executes sctlrEl1Config (pteOf pteTemplateTableKernOnly a₁) (pteOf pteTemplateTableKernOnly a₂)
        (pteOf (templateOf r) a₃) := by
  rw [el1Executes_pteOf, el1Writes_pteOf, el0Accesses_pteOf, el0Executes_pteOf]
  cases r <;> decide

/-- The intended permissions of kernel memory: only text executes, only data and the physmap are
written, and EL0 can do nothing. -/
def KernelPermissions (v : VmParams) (p : KernelPmap) : Prop :=
  ∀ va l1 l2 l3, kernelMapStart ≤ va → va < 2 ^ 64 → walk p.arena.mem p.tableBase va = .page l1 l2 l3 →
    (El1Executes sctlrEl1Config l1 l2 l3 ↔ v.image.kernelText.Contains va) ∧
    (El1Writes l1 l2 l3 ↔
      v.image.kernelRwData.Contains va ∨ ∃ pa, v.Physmapped pa ∧ va = pmapPaToKva p.physmapVmBase pa) ∧
    ¬El0Accesses l1 l2 l3 ∧ ¬El0Executes sctlrEl1Config l1 l2 l3

/-- The never-execute bit of the read-only template stands where a page descriptor has none, so the
first page of the read-only data executes. -/
theorem Built.roData_executes (built : v.Built mem s p) (pos : 0 < v.image.roDataPages) : ¬v.KernelPermissions p := by
  intro intended
  have small := v.image_small
  have total : v.image.pages = v.image.textPages + v.image.roDataPages + v.image.rwDataPages := rfl
  have start := kernelMapStart_eq
  have page : pageNumber (kernelMapStart + v.image.textPages * 4096) = v.image.textPages := pageNumber_image (by omega)
  have inRoData : pageNumber (kernelMapStart + v.image.textPages * 4096) ∈ v.pagesIn .roData := by
    rw [page]
    exact ⟨le_rfl, Nat.lt_add_of_pos_right pos⟩
  obtain ⟨a₁, a₂, a₃, walked⟩ := built.descriptors inRoData
  have executes := (region_permissions .roData a₁ a₂ a₃).1.mpr (Or.inr rfl)
  have inText := (intended _ _ _ _ (Nat.le_add_right ..) (by omega) walked).1.mp executes
  rw [contains_text_iff (Nat.le_add_right ..) (by omega)] at inText
  exact absurd (v.region_unique inText inRoData) (by decide)

/-- Every other region has the intended permissions. -/
theorem Built.permissions (built : v.Built mem s p) (none : v.image.roDataPages = 0) : v.KernelPermissions p := by
  intro va l1 l2 l3 above below walked
  have inside : ∃ r, pageNumber va ∈ v.pagesIn r := by
    by_contra outside
    rw [built.walk_outside fun r inside => outside ⟨r, inside⟩] at walked
    cases walked
  obtain ⟨r, inside⟩ := inside
  obtain ⟨a₁, a₂, a₃, found⟩ := built.descriptors inside
  rw [walked] at found
  cases found
  obtain ⟨executes, writes, noAccess, noExecute⟩ := region_permissions r a₁ a₂ a₃
  have only (r' : Region) : pageNumber va ∈ v.pagesIn r' ↔ r = r' :=
    ⟨v.region_unique inside, fun same => same ▸ inside⟩
  have notRoData : r ≠ .roData := by
    rintro rfl
    have upper : pageNumber va < v.image.textPages + v.image.roDataPages := inside.2
    have lower : v.image.textPages ≤ pageNumber va := inside.1
    omega
  refine ⟨?_, ?_, noAccess, noExecute⟩
  · rw [executes, contains_text_iff above below, only]
    exact or_iff_left notRoData
  · rw [writes, contains_rwData_iff above below, built.physmap, physmapped_iff above below, only, only, only]

end VmParams

/-- Kernel memory has the intended permissions exactly if there is no read-only data, which EL1 can
execute. -/
theorem kernel_permissions_iff (v : VmParams) (mem : Mem) :
    ∃ p, pmapVmInitTables v.image v.kernelBase v.ramSize v.bootstrapPaReserved mem = .ok p ∧
      (v.KernelPermissions p ↔ v.image.roDataPages = 0) := by
  obtain ⟨s, p, run, built⟩ := v.pmapVmInitTables_spec mem
  refine ⟨p, run, fun intended => ?_, built.permissions⟩
  by_contra some
  exact built.roData_executes (Nat.pos_of_ne_zero some) intended

theorem sample_rodata_executes :
    ∃ p, pmapVmInitTables ⟨3, 2, 4⟩ 0x80000 0x3B400000 0x8F000 (fun _ => 0) = .ok p ∧
      ¬VmParams.sample.KernelPermissions p := by
  obtain ⟨s, p, run, built⟩ := VmParams.sample.pmapVmInitTables_spec fun _ => 0
  exact ⟨p, run, built.roData_executes (by decide)⟩

end Swink
