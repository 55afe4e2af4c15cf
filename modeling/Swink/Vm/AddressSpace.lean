import Swink.Pfa.Levels
import Swink.Vm.KernelSpace

namespace Swink
open Table Mem

namespace VmParams
variable {v : VmParams} {mem : Mem} {s : Space} {p : KernelPmap} {r : Region} {n va : Nat}

theorem template_templateOf (r : Region) : Template (templateOf r) := by
  cases r
  · exact template_normalKernRx
  · exact template_normalKernRo
  · exact template_normalKernRw
  · exact template_normalKernRw
  · exact template_deviceKernRw

theorem isTable_templateOf (r : Region) : IsTable (templateOf r) := by
  cases r <;> decide

/-- The pages of a region have aligned addresses within the format. -/
theorem physOf_aligned (inside : n ∈ v.pagesIn r) : 4096 ∣ v.physOf r n ∧ v.physOf r n < 2 ^ 47 := by
  have below : n < 512 * 512 * 512 := Nat.lt_of_lt_of_le inside.2 (v.limit_le r)
  have limit := v.bounds
  have kernel : 4096 ∣ v.kernelBase + n * 4096 ∧ v.kernelBase + n * 4096 < 2 ^ 47 :=
    ⟨Nat.dvd_add v.kernelBase_dvd (Nat.dvd_mul_left ..), by omega⟩
  have physmap : 4096 ∣ (n - physmapPage) * 4096 ∧ (n - physmapPage) * 4096 < 2 ^ 47 :=
    ⟨Nat.dvd_mul_left .., by omega⟩
  cases r
  · exact kernel
  · exact kernel
  · exact kernel
  · exact physmap
  · exact physmap

/-- The walk of an address in a region ends at the entry of its page. -/
theorem Built.walk_inside (built : v.Built mem s p) (inside : pageNumber va ∈ v.pagesIn r) :
    walk p.arena.mem p.tableBase va = .page (s.l1 (pageNumber va / 512 / 512)) (s.l2 (pageNumber va / 512))
      (pteOf (templateOf r) (v.physOf r (pageNumber va))) := by
  have entry := (built.entry r _ inside).1
  have valid := (template_templateOf r).pteOf_valid (v.physOf r (pageNumber va))
  have table := Template.pteOf_table (isTable_templateOf r) (v.physOf r (pageNumber va))
  rw [built.tableBase, built.holds.walk_eq va fun _ => entry ▸ table, entry, if_pos valid]

theorem Built.walk_outside (built : v.Built mem s p) (outside : ∀ r, pageNumber va ∉ v.pagesIn r) :
    walk p.arena.mem p.tableBase va = .invalid := by
  have gone : ¬Valid (s.l3 (pageNumber va)) := by
    rw [built.others _ outside]
    exact not_valid_zero
  rw [built.tableBase, built.holds.walk_eq va fun valid => absurd valid gone, if_neg gone]

theorem Built.translate_inside (built : v.Built mem s p) (inside : pageNumber va ∈ v.pagesIn r) :
    translate p.arena.mem p.tableBase va = some (v.physOf r (pageNumber va) + va % pageSize) := by
  obtain ⟨aligned, small⟩ := physOf_aligned inside
  rw [translate, built.walk_inside inside]
  dsimp only
  rw [(template_templateOf r).pteToPhysAddr_pteOf _ aligned small]

theorem kernelMapEnd_eq (v : VmParams) : v.image.kernelMapEnd = kernelMapStart + v.image.pages * 4096 := by
  rw [KernelImage.kernelMapEnd, kernelRwData_eq]

/-- The pages of the image are those of its three sections. -/
theorem image_page (small : n < v.image.pages) : ∃ r, n ∈ v.pagesIn r ∧ v.physOf r n = v.kernelBase + n * 4096 := by
  have total : v.image.pages = v.image.textPages + v.image.roDataPages + v.image.rwDataPages := rfl
  rcases Nat.lt_or_ge n v.image.textPages with inText | past
  · exact ⟨.text, ⟨Nat.zero_le _, by simpa [firstPage, pageCountOf] using inText⟩, rfl⟩
  · rcases Nat.lt_or_ge n (v.image.textPages + v.image.roDataPages) with inRoData | past'
    · exact ⟨.roData, ⟨past, inRoData⟩, rfl⟩
    · exact ⟨.rwData, ⟨past', total ▸ small⟩, rfl⟩

/-- The physmap covers RAM, rounded up to pages, and the peripherals. -/
def Physmapped (v : VmParams) (pa : Nat) : Prop := pa < roundUp v.ramSize pageSize ∨ mmioBase ≤ pa ∧ pa < mmioEnd

theorem Physmapped.lt {pa : Nat} (covered : v.Physmapped pa) : pa < 2 ^ 30 := by
  have limit := v.bounds
  have rounded : roundUp v.ramSize pageSize < v.ramSize + pageSize := roundUp_lt (by decide)
  have page := pageSize_eq
  have last : mmioEnd = 0x40000000 := rfl
  rcases covered with inRam | ⟨-, inMmio⟩ <;> omega

theorem pageNumber_physmap {pa : Nat} (small : pa < 2 ^ 30) :
    pageNumber (pmapPaToKva physmapVmBase pa) = physmapPage + pa / 4096 ∧
      pmapPaToKva physmapVmBase pa = physmapVmBase + pa := by
  have base : physmapVmBase = 2 ^ 64 - 2 ^ 30 := rfl
  have page : physmapPage = 511 * 512 * 512 := rfl
  have address : pmapPaToKva physmapVmBase pa = physmapVmBase + pa := u64_of_lt (by omega)
  refine ⟨?_, address⟩
  rw [address, pageNumber]
  omega

theorem ram_pages (v : VmParams) : roundUp v.ramSize pageSize = v.pageCountOf .ram * 4096 := by
  rw [roundUp, pageSize_eq]
  rfl

theorem physmap_page {pa : Nat} (covered : v.Physmapped pa) :
    ∃ r, (r = .ram ∨ r = .mmio) ∧ physmapPage + pa / 4096 ∈ v.pagesIn r ∧
      v.physOf r (physmapPage + pa / 4096) = pa / 4096 * 4096 := by
  have offset : (physmapPage + pa / 4096 - physmapPage) * 4096 = pa / 4096 * 4096 := by rw [Nat.add_sub_cancel_left]
  rcases covered with inRam | ⟨above, below⟩
  · rw [ram_pages] at inRam
    exact ⟨.ram, Or.inl rfl,
      ⟨Nat.le_add_right .., Nat.add_lt_add_left (Nat.div_lt_of_lt_mul (Nat.mul_comm .. ▸ inRam)) _⟩, offset⟩
  · have first : mmioBase = 0x3F000000 := rfl
    have last : mmioEnd = 0x40000000 := rfl
    have within : physmapPage + pa / 4096 < physmapPage + 0x3F000 + 0x1000 := by
      rw [Nat.add_assoc physmapPage]
      exact Nat.add_lt_add_left (by omega) _
    exact ⟨.mmio, Or.inr rfl, ⟨Nat.add_le_add_left (by omega) _, within⟩, offset⟩

/-- Kernel addresses by the number of their page. -/
theorem pageNumber_kernel (above : kernelMapStart ≤ va) (below : va < 2 ^ 64) :
    pageNumber va = (va - kernelMapStart) / 4096 := by
  have start := kernelMapStart_eq
  unfold pageNumber
  omega

/-- A kernel address is in a section just if its page is one of the section's. -/
theorem contains_iff {s : KernelSection} {page stop : Nat} (above : kernelMapStart ≤ va) (below : va < 2 ^ 64)
    (shape : s = ⟨kernelMapStart + page * 4096, kernelMapStart + stop * 4096⟩) :
    s.Contains va ↔ pageNumber va ∈ Set.Ico page stop := by
  rw [pageNumber_kernel above below, shape, Set.mem_Ico, Nat.le_div_iff_mul_le (by decide),
    Nat.div_lt_iff_lt_mul (by decide)]
  unfold KernelSection.Contains
  dsimp only
  omega

theorem contains_text_iff (above : kernelMapStart ≤ va) (below : va < 2 ^ 64) :
    v.image.kernelText.Contains va ↔ pageNumber va ∈ v.pagesIn .text :=
  contains_iff above below v.kernelText_eq

theorem contains_rwData_iff (above : kernelMapStart ≤ va) (below : va < 2 ^ 64) :
    v.image.kernelRwData.Contains va ↔ pageNumber va ∈ v.pagesIn .rwData :=
  contains_iff above below v.kernelRwData_eq

/-- A kernel address is in the physmap just if its page is one of RAM or of the peripherals. -/
theorem physmapped_iff (above : kernelMapStart ≤ va) (below : va < 2 ^ 64) :
    (∃ pa, v.Physmapped pa ∧ va = pmapPaToKva physmapVmBase pa) ↔
      pageNumber va ∈ v.pagesIn .ram ∨ pageNumber va ∈ v.pagesIn .mmio := by
  constructor
  · rintro ⟨pa, covered, rfl⟩
    obtain ⟨r, rfl | rfl, member, -⟩ := physmap_page covered
    · exact Or.inl ((pageNumber_physmap covered.lt).1 ▸ member)
    · exact Or.inr ((pageNumber_physmap covered.lt).1 ▸ member)
  · have number := pageNumber_kernel above below
    have start := kernelMapStart_eq
    have base : physmapVmBase = 2 ^ 64 - 2 ^ 30 := rfl
    have first : physmapPage = 511 * 512 * 512 := rfl
    have physmap (high : physmapPage ≤ pageNumber va) :
        va = pmapPaToKva physmapVmBase (va - physmapVmBase) ∧
          (va - physmapVmBase) / 4096 = pageNumber va - physmapPage := by
      rw [number] at high ⊢
      have place : physmapVmBase ≤ va := by omega
      refine ⟨?_, by omega⟩
      rw [(pageNumber_physmap (by omega)).2]
      omega
    rintro (⟨lower, upper⟩ | ⟨lower, upper⟩)
    · obtain ⟨same, page⟩ := physmap lower
      refine ⟨_, Or.inl ?_, same⟩
      rw [ram_pages, ← Nat.div_lt_iff_lt_mul (by decide), page]
      simp only [firstPage] at upper lower
      omega
    · obtain ⟨same, page⟩ := physmap (Nat.le_trans (Nat.le_add_right ..) lower)
      refine ⟨_, Or.inr ?_, same⟩
      have := show mmioBase = 0x3F000000 from rfl
      have := show mmioEnd = 0x40000000 from rfl
      simp only [firstPage, pageCountOf] at upper lower
      omega

/-- Kernel addresses on a page of a region are in the image or in the physmap. -/
theorem covers_of_mem (above : kernelMapStart ≤ va) (below : va < 2 ^ 64) (inside : pageNumber va ∈ v.pagesIn r) :
    va < v.image.kernelMapEnd ∨ ∃ pa, v.Physmapped pa ∧ va = pmapPaToKva physmapVmBase pa := by
  have total : v.image.pages = v.image.textPages + v.image.roDataPages + v.image.rwDataPages := rfl
  have image (small : pageNumber va < v.image.pages) : va < v.image.kernelMapEnd := by
    rw [pageNumber_kernel above below, Nat.div_lt_iff_lt_mul (by decide)] at small
    rw [kernelMapEnd_eq]
    omega
  have upper : pageNumber va < v.firstPage r + v.pageCountOf r := inside.2
  cases r with
  | text => exact Or.inl (image (by simp only [firstPage, pageCountOf] at upper; omega))
  | roData => exact Or.inl (image (by simp only [firstPage, pageCountOf] at upper; omega))
  | rwData => exact Or.inl (image (total ▸ upper))
  | ram => exact Or.inr ((physmapped_iff above below).mpr (Or.inl inside))
  | mmio => exact Or.inr ((physmapped_iff above below).mpr (Or.inr inside))

theorem Built.translate_image (built : v.Built mem s p) {off : Nat}
    (inside : off < v.image.kernelMapEnd - kernelMapStart) :
    translate p.arena.mem p.tableBase (vmKernelBaseAddress + off) = some (v.kernelBase + off) := by
  have imageEnd := v.kernelMapEnd_eq
  have small := v.image_small
  have base : vmKernelBaseAddress = kernelMapStart := rfl
  have page : pageNumber (vmKernelBaseAddress + off) = off / 4096 := by
    rw [base, kernelMapStart_eq, pageNumber]
    omega
  have inPage : (vmKernelBaseAddress + off) % 4096 = off % 4096 := by
    rw [base, kernelMapStart_eq]
    omega
  obtain ⟨r, member, address⟩ := v.image_page (n := off / 4096) (by omega)
  rw [built.translate_inside (page ▸ member), page, address, pageSize_eq, inPage, Nat.add_assoc, Nat.div_add_mod']

theorem Built.translate_physmap (built : v.Built mem s p) {pa : Nat} (covered : v.Physmapped pa) :
    translate p.arena.mem p.tableBase (pmapPaToKva p.physmapVmBase pa) = some pa := by
  rw [built.physmap]
  obtain ⟨page, address⟩ := pageNumber_physmap covered.lt
  obtain ⟨r, -, member, target⟩ := physmap_page covered
  have inPage : (physmapVmBase + pa) % 4096 = pa % 4096 := by
    rw [show physmapVmBase = 2 ^ 64 - 2 ^ 30 from rfl]
    omega
  rw [built.translate_inside (page ▸ member), page, target, address, pageSize_eq, inPage, Nat.div_add_mod']

end VmParams

open VmParams in
/-- The final kernel address space is the intended one: the tables are built without a panic, the
image and the physmap are mapped where they belong, every other kernel address finds an invalid
entry, and the physmap takes up whole L1 entries at the end of the address space. -/
theorem kernel_space_exact (v : VmParams) (mem : Mem) :
    ∃ p, pmapVmInitTables v.image v.kernelBase v.ramSize v.bootstrapPaReserved mem = .ok p ∧
      (∀ off < v.image.kernelMapEnd - kernelMapStart,
        translate p.arena.mem p.tableBase (vmKernelBaseAddress + off) = some (v.kernelBase + off)) ∧
      (∀ pa, pa < roundUp v.ramSize pageSize ∨ mmioBase ≤ pa ∧ pa < mmioEnd →
        translate p.arena.mem p.tableBase (pmapPaToKva p.physmapVmBase pa) = some pa) ∧
      (∀ va, vmKernelBaseAddress ≤ va → va < 2 ^ 64 → ¬(kernelMapStart ≤ va ∧ va < v.image.kernelMapEnd) →
        (∀ pa, pa < roundUp v.ramSize pageSize ∨ mmioBase ≤ pa ∧ pa < mmioEnd → va ≠ pmapPaToKva p.physmapVmBase pa) →
        walk p.arena.mem p.tableBase va = .invalid) ∧
      vmL1EntrySize ∣ p.physmapVmBase ∧
      p.physmapVmBase + roundUp (max v.ramSize mmioEnd) vmL1EntrySize = 2 ^ 64 ∧
      v.image.kernelMapEnd ≤ p.physmapVmBase := by
  obtain ⟨s, p, run, built⟩ := v.pmapVmInitTables_spec mem
  refine ⟨p, run, fun off => built.translate_image, fun pa => built.translate_physmap,
    fun va above below outImage outPhysmap => ?_, ?_, ?_, ?_⟩
  · refine built.walk_outside fun r inside => ?_
    rw [built.physmap] at outPhysmap
    rcases covers_of_mem above below inside with inImage | ⟨pa, covered, same⟩
    · exact outImage ⟨above, inImage⟩
    · exact outPhysmap pa covered same
  · rw [built.physmap]
    decide
  · have limit := v.bounds
    have last : max v.ramSize mmioEnd = 0x40000000 := max_eq_right (by have : mmioEnd = 0x40000000 := rfl; omega)
    rw [built.physmap, last]
    decide
  · have small := v.image_small
    have base : physmapVmBase = 2 ^ 64 - 2 ^ 30 := rfl
    rw [built.physmap, v.kernelMapEnd_eq, kernelMapStart_eq]
    omega

end Swink
