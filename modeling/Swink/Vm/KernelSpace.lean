import Swink.Vm.Kernel
import Swink.Vm.MapRange
import Mathlib.Data.List.Pairwise
import Mathlib.Data.Set.BooleanAlgebra
import Mathlib.Order.CompletePartialOrder

namespace Swink
open Table Mem

/-- The calls of `vm_init_map_contiguous` one after the other. -/
def mapAll (tableBase : Nat) : List Mapping → Arena → Except Fault Arena
  | [], s => .ok s
  | m :: rest, s => do
    let s ← vmInitMapContiguous tableBase m.template m.vmBase m.physBase m.pageCount s
    mapAll tableBase rest s

/-- The address space after a list of mappings. -/
structure MappedAll (base lower : Nat) (ms : List Mapping) (s : Space) (a : Arena) (s' : Space) (a' : Arena) :
    Prop where
  grows : Grows base lower {n | ∃ m ∈ ms, n ∈ m.pages} s a s' a'
  mapped : ∀ m ∈ ms, ∀ n ∈ m.pages, s'.l3 n = m.entry n ∧ s'.Live (last (n / 512))
  others : ∀ n, (∀ m ∈ ms, n ∉ m.pages) → s'.l3 n = s.l3 n

/-- Disjoint ranges of free entries are mapped one after the other. -/
theorem mapAll_spec (ms : List Mapping) {base lower : Nat} {s : Space} {a : Arena}
    (holds : Holds base lower a.allocationPtr s a.mem) (aligned : 4096 ∣ a.allocationPtr)
    (room : a.allocationPtr + (ms.map Mapping.pageCount).sum * 8192 ≤ 2 ^ 47)
    (bound : ∀ m ∈ ms, m.first + m.pageCount ≤ 512 * 512 * 512)
    (apart : ms.Pairwise fun m m' => Disjoint m.pages m'.pages)
    (unmapped : ∀ m ∈ ms, ∀ n ∈ m.pages, ¬Valid (s.l3 n)) :
    ∃ s' a', mapAll base ms a = .ok a' ∧ MappedAll base lower ms s a s' a' := by
  induction ms generalizing s a with
  | nil => exact ⟨s, a, rfl, .refl holds aligned, nofun, fun _ _ => rfl⟩
  | cons m rest ih =>
    rw [List.map_cons, List.sum_cons] at room
    obtain ⟨fromHere, apart⟩ := List.pairwise_cons.mp apart
    have roomHere : a.allocationPtr + m.pageCount * 8192 ≤ 2 ^ 47 :=
      (Nat.add_le_add_left (Nat.mul_le_mul_right _ (Nat.le_add_right ..)) _).trans room
    obtain ⟨s₁, a₁, run, here, le⟩ := vmInitMapContiguous_spec m.template m.physBase holds
      aligned roomHere (show pageNumber m.vmBase = m.first from rfl) (bound m (List.mem_cons_self ..))
      (fun n above below => unmapped m (List.mem_cons_self ..) n ⟨above, below⟩)
    have inHere {n : Nat} (inside : n ∈ m.pages) : s₁.l3 n = m.entry n := (here.leaves n).trans (if_pos inside)
    have outHere {n : Nat} (outside : n ∉ m.pages) : s₁.l3 n = s.l3 n := (here.leaves n).trans (if_neg outside)
    have notHere {m' : Mapping} (member : m' ∈ rest) {n : Nat} (inside : n ∈ m'.pages) : n ∉ m.pages :=
      fun inHere => Set.disjoint_left.mp (fromHere m' member) inHere inside
    obtain ⟨s₂, a₂, runs, after⟩ := ih here.grows.holds here.grows.aligned (by omega)
      (fun m' member => bound m' (List.mem_cons_of_mem _ member)) apart (fun m' member n inside => by
        rw [outHere (notHere member inside)]
        exact unmapped m' (List.mem_cons_of_mem _ member) n inside)
    refine ⟨s₂, a₂, ?_, (here.grows.mono ?_).trans (after.grows.mono ?_), fun m' member n inside => ?_,
      fun n none => ?_⟩
    · rw [mapAll, run, ok_bind, runs]
    · exact fun n inside => ⟨m, List.mem_cons_self .., inside⟩
    · rintro n ⟨m', member, inside⟩
      exact ⟨m', List.mem_cons_of_mem _ member, inside⟩
    · rcases List.mem_cons.mp member with rfl | later
      · rw [after.others n fun m' member' inside' => notHere member' inside' inside, inHere inside]
        exact ⟨rfl, (after.grows.kept _ (here.live n inside.1 inside.2)).1⟩
      · exact after.mapped m' later n inside
    · rw [after.others n fun m' member => none m' (List.mem_cons_of_mem _ member),
        outHere (none m (List.mem_cons_self ..))]

theorem Space.live_empty {t : Table} (live : Space.empty.Live t) : t = root := by
  cases t with
  | root => rfl
  | middle i => exact absurd live.2 not_valid_zero
  | last x => exact absurd live.2.2 not_valid_zero

/-- A zero-filled page holds the empty address space. -/
theorem Holds.empty {base : Nat} (aligned : 4096 ∣ base) (mem : Mem) :
    Holds base base (base + 4096) Space.empty (mem.memset base 0 4096) := by
  refine ⟨fun t live k lt => ?_, fun t live => ?_,
    fun t t' live live' _ => (Space.live_empty live).trans (Space.live_empty live').symm,
    fun t k live _ _ valid => ?_, fun t _ k _ => ?_⟩
  · obtain rfl := Space.live_empty live
    exact load64_memset_zero (Nat.le_add_right ..) (show base + k * 8 + 8 ≤ base + 4096 by omega)
  · obtain rfl := Space.live_empty live
    exact ⟨le_rfl, le_rfl, aligned⟩
  · obtain rfl := Space.live_empty live
    exact absurd valid not_valid_zero
  · cases t <;> rfl

namespace VmParams
variable (v : VmParams)

theorem bounds : v.kernelBase + v.image.pages * 4096 ≤ 0x3F000000 ∧ v.bootstrapPaReserved ≤ 0x3F000000 ∧
    v.ramSize ≤ 0x3F000000 := by
  have := v.image_le
  have := v.reserved_le
  have := v.ramSize_le
  have : mmioBase = 0x3F000000 := rfl
  omega

theorem kernelMapStart_eq : kernelMapStart = 0xffffff8000000000 := rfl

/-- Pages of the image have the numbers from zero on. -/
theorem pageNumber_image {n : Nat} (small : n < 512 * 512 * 512) : pageNumber (kernelMapStart + n * 4096) = n := by
  rw [pageNumber, kernelMapStart_eq]
  omega

/-- The template of a region. -/
def templateOf : Region → BitVec 64
  | .text => pteTemplatePageNormalKernRx
  | .roData => pteTemplatePageNormalKernRo
  | .rwData | .ram => pteTemplatePageNormalKernRw
  | .mmio => pteTemplatePageDeviceKernRw

/-- The macros give a section of the image its pages. -/
theorem section_eq {s : KernelSection} {page count : Nat} (template : BitVec 64)
    (shape : s = ⟨kernelMapStart + page * 4096, kernelMapStart + (page + count) * 4096⟩)
    (small : page + count ≤ v.image.pages) :
    let m : Mapping := ⟨template, s.vaBase, s.paBase v.kernelBase, s.pageCount⟩
    m.first = page ∧ m.pageCount = count ∧ ∀ n, page ≤ n → m.entry n = pteOf template (v.kernelBase + n * 4096) := by
  have limit := v.bounds
  have imageSmall := v.image_small
  have base : vmKernelBaseAddress = kernelMapStart := rfl
  have start := kernelMapStart_eq
  intro m
  have offset : s.paBaseOffset = page * 4096 := by rw [shape, KernelSection.paBaseOffset, Nat.add_sub_cancel_left]
  have va : m.vmBase = kernelMapStart + page * 4096 := by
    show s.vaBase = _
    rw [KernelSection.vaBase, offset, base, u64_of_lt (by omega)]
  have pa : m.physBase = v.kernelBase + page * 4096 := by
    show s.paBase v.kernelBase = _
    rw [KernelSection.paBase, offset, u64_of_lt (by omega)]
  have first : m.first = page := by
    rw [Mapping.first, va]
    exact pageNumber_image (by omega)
  refine ⟨first, ?_, fun n above => ?_⟩
  · show s.pageCount = count
    rw [shape, KernelSection.pageCount, KernelSection.size, Nat.shiftRight_eq_div_pow, pageShift]
    dsimp only
    omega
  · rw [Mapping.entry, first, pa, pageSize_eq, Nat.add_assoc, ← Nat.add_mul, Nat.add_sub_cancel' above]

theorem kernelText_eq :
    v.image.kernelText = ⟨kernelMapStart + 0 * 4096, kernelMapStart + (0 + v.image.textPages) * 4096⟩ := by
  rw [KernelImage.kernelText, pageSize_eq, Nat.zero_mul, Nat.zero_add, Nat.add_zero]

theorem kernelRoData_eq : v.image.kernelRoData = ⟨kernelMapStart + v.image.textPages * 4096,
    kernelMapStart + (v.image.textPages + v.image.roDataPages) * 4096⟩ := by
  rw [KernelImage.kernelRoData, kernelText_eq, pageSize_eq, Nat.zero_add, Nat.add_mul v.image.textPages, Nat.add_assoc]

theorem kernelRwData_eq : v.image.kernelRwData =
    ⟨kernelMapStart + (v.image.textPages + v.image.roDataPages) * 4096, kernelMapStart + v.image.pages * 4096⟩ := by
  rw [KernelImage.kernelRwData, kernelRoData_eq, pageSize_eq, KernelImage.pages,
    Nat.add_mul (v.image.textPages + v.image.roDataPages), Nat.add_assoc]

/-- The five calls map the pages of the five regions. -/
theorem mapping_eq (r : Region) : (v.mapping r).first = v.firstPage r ∧ (v.mapping r).pageCount = v.pageCountOf r ∧
    ∀ n, v.firstPage r ≤ n → (v.mapping r).entry n = pteOf (templateOf r) (v.physOf r n) := by
  have page : pageSize = 4096 := rfl
  have total : v.image.pages = v.image.textPages + v.image.roDataPages + v.image.rwDataPages := rfl
  have physmap : pageNumber physmapVmBase = physmapPage := by decide
  have device : pageNumber (physmapVmBase + mmioBase) = physmapPage + 0x3F000 := by decide
  cases r with
  | text => exact v.section_eq _ v.kernelText_eq (show 0 + v.image.textPages ≤ v.image.pages by omega)
  | roData =>
    exact v.section_eq _ v.kernelRoData_eq (show v.image.textPages + v.image.roDataPages ≤ v.image.pages by omega)
  | rwData => exact v.section_eq _ v.kernelRwData_eq total.ge
  | ram =>
    refine ⟨physmap, ?_, fun n _ => ?_⟩
    · simp only [mapping, pageCountOf, roundUp, page, Nat.shiftRight_eq_div_pow, pageShift]
      omega
    · rw [Mapping.entry, show (v.mapping .ram).first = physmapPage from physmap]
      simp [mapping, templateOf, physOf, page]
  | mmio =>
    have count : roundUp (mmioEnd - mmioBase) pageSize >>> pageShift = 0x1000 := by
      simp [roundUp, mmioEnd, mmioBase, page, pageShift]
    refine ⟨device, count, fun n above => ?_⟩
    have above : physmapPage + 0x3F000 ≤ n := above
    have offset : 0x3F000 + (n - (physmapPage + 0x3F000)) = n - physmapPage := by
      rw [Nat.sub_add_eq, Nat.add_sub_cancel' (Nat.le_sub_of_add_le' above)]
    rw [Mapping.entry, show (v.mapping .mmio).first = physmapPage + 0x3F000 from device]
    show pteOf _ (0x3F000 * 4096 + (n - (physmapPage + 0x3F000)) * 4096) = pteOf _ ((n - physmapPage) * 4096)
    rw [← Nat.add_mul, offset]
    rfl

/-- The numbers of the pages of a region. -/
def pagesIn (r : Region) : Set Nat := Set.Ico (v.firstPage r) (v.firstPage r + v.pageCountOf r)

theorem mapping_pages (r : Region) : (v.mapping r).pages = v.pagesIn r := by
  rw [Mapping.pages, (v.mapping_eq r).1, (v.mapping_eq r).2.1, pagesIn]

theorem mem_regions (r : Region) : r ∈ regions := by
  cases r <;> decide

/-- The regions follow one another in the order of the calls. -/
theorem regions_ordered : regions.Pairwise fun r r' => v.firstPage r + v.pageCountOf r ≤ v.firstPage r' := by
  have limit := v.bounds
  have small := v.image_small
  have total : v.image.pages = v.image.textPages + v.image.roDataPages + v.image.rwDataPages := rfl
  have physmap : physmapPage = 511 * 512 * 512 := rfl
  simp only [regions, List.pairwise_cons, List.mem_cons, List.not_mem_nil, or_false, forall_eq_or_imp, forall_eq,
    firstPage, pageCountOf, List.Pairwise.nil, and_true, false_imp_iff, implies_true]
  omega

theorem pagesIn_apart : regions.Pairwise fun r r' => Disjoint (v.pagesIn r) (v.pagesIn r') :=
  v.regions_ordered.imp fun le =>
    Set.disjoint_left.mpr fun _ inside inside' => absurd inside.2 (by have := inside'.1; omega)

/-- A page belongs to one region. -/
theorem region_unique {r r' : Region} {n : Nat} (inside : n ∈ v.pagesIn r) (inside' : n ∈ v.pagesIn r') : r = r' := by
  by_contra different
  have symmetric : Std.Symm fun r r' => Disjoint (v.pagesIn r) (v.pagesIn r') := ⟨fun _ _ apart => apart.symm⟩
  exact Set.disjoint_left.mp (v.pagesIn_apart.forall (mem_regions r) (mem_regions r') different) inside inside'

theorem mappings_apart : (regions.map v.mapping).Pairwise fun m m' => Disjoint m.pages m'.pages := by
  rw [List.pairwise_map]
  refine v.pagesIn_apart.imp fun {r r'} apart => ?_
  rwa [mapping_pages, mapping_pages]

theorem limit_le (r : Region) : v.firstPage r + v.pageCountOf r ≤ 512 * 512 * 512 := by
  have limit := v.bounds
  have small := v.image_small
  have total : v.image.pages = v.image.textPages + v.image.roDataPages + v.image.rwDataPages := rfl
  have physmap : physmapPage = 511 * 512 * 512 := rfl
  cases r <;> simp only [firstPage, pageCountOf] <;> omega

/-- The calls that build the tables, with the placement of the physmap worked out. -/
theorem pmapVmInitTables_eq (mem : Mem) :
    pmapVmInitTables v.image v.kernelBase v.ramSize v.bootstrapPaReserved mem = (do
      let s ← mapAll v.bootstrapPaReserved (regions.map v.mapping)
        ⟨v.bootstrapPaReserved + 4096, mem.memset v.bootstrapPaReserved 0 4096⟩
      .ok ⟨v.bootstrapPaReserved, physmapVmBase, s⟩) := by
  have limit := v.bounds
  have next : u64 (v.bootstrapPaReserved + 4096) = v.bootstrapPaReserved + 4096 := u64_of_lt (by omega)
  have size : max v.ramSize mmioEnd = 0x40000000 := max_eq_right (by have : mmioEnd = 0x40000000 := rfl; omega)
  have count : roundUp 0x40000000 vmL1EntrySize / vmL1EntrySize = 1 := by
    simp [roundUp, vmL1EntrySize, vmL2EntrySize, vmL3EntrySize, pageEntryCount, pageSize_eq]
  have base : u64 (vmKernelBaseAddress + vmL1EntrySize * sub64 pageEntryCount 1) = physmapVmBase := by
    simp [u64, sub64, vmKernelBaseAddress, vmL1EntrySize, vmL2EntrySize, vmL3EntrySize, pageEntryCount, pageSize_eq,
      physmapVmBase]
  have ram : u64 (physmapVmBase + 0x00) = physmapVmBase := by simp [u64, physmapVmBase]
  have device : u64 (physmapVmBase + mmioBase) = physmapVmBase + mmioBase := by simp [u64, physmapVmBase, mmioBase]
  simp only [pmapVmInitTables, allocationPtrPageAlloc, next, size, count, base, ram, device, pageSize_eq, regions,
    List.map_cons, List.map_nil, mapAll, bind_assoc, ok_bind, mapping]

/-- What `pmap_vm_init` has built when it activates the tables. -/
structure Built (mem : Mem) (s : Space) (p : KernelPmap) : Prop where
  tableBase : p.tableBase = v.bootstrapPaReserved
  physmap : p.physmapVmBase = physmapVmBase
  holds : Holds v.bootstrapPaReserved v.bootstrapPaReserved p.arena.allocationPtr s p.arena.mem
  entry : ∀ r, ∀ n ∈ v.pagesIn r, s.l3 n = pteOf (templateOf r) (v.physOf r n) ∧ s.Live (last (n / 512))
  others : ∀ n, (∀ r, n ∉ v.pagesIn r) → s.l3 n = 0
  kern : s.KernTables
  tables : ∀ t, s.Live t → t = root ∨ ∃ r, OnTheWay (v.pagesIn r) t
  aligned : 4096 ∣ p.arena.allocationPtr
  counted : p.arena.allocationPtr = v.bootstrapPaReserved + 4096 * (1 + s.count)
  frame : ∀ x, x < v.bootstrapPaReserved ∨ p.arena.allocationPtr ≤ x → p.arena.mem x = mem x

end VmParams

theorem Space.count_empty : Space.empty.count = 0 := by
  have only : Space.empty.tables = {root} :=
    Set.eq_singleton_iff_unique_mem.mpr ⟨trivial, fun _ live => Space.live_empty live⟩
  have size := Space.empty.ncard_tables
  rw [only, Set.ncard_singleton] at size
  omega

namespace VmParams
variable (v : VmParams)

theorem pageCount_sum :
    ((regions.map v.mapping).map Mapping.pageCount).sum = v.image.pages + ((v.ramSize + 4095) / 4096 + 0x1000) := by
  simp only [regions, List.map_cons, List.map_nil, (v.mapping_eq _).2.1, pageCountOf, List.sum_cons, List.sum_nil,
    KernelImage.pages, Nat.add_assoc, Nat.add_zero]

theorem mem_mapping {m : Mapping} (member : m ∈ regions.map v.mapping) : ∃ r, m = v.mapping r := by
  obtain ⟨r, -, same⟩ := List.mem_map.mp member
  exact ⟨r, same.symm⟩

/-- The tables are built on any memory, without a panic. -/
theorem pmapVmInitTables_spec (mem : Mem) :
    ∃ s p, pmapVmInitTables v.image v.kernelBase v.ramSize v.bootstrapPaReserved mem = .ok p ∧ v.Built mem s p := by
  have limit := v.bounds
  have small := v.image_small
  have room : v.bootstrapPaReserved + 4096 + ((regions.map v.mapping).map Mapping.pageCount).sum * 8192 ≤ 2 ^ 47 := by
    rw [pageCount_sum]
    omega
  obtain ⟨s, a, run, grows, mapped, others⟩ := mapAll_spec (regions.map v.mapping)
    (a := ⟨v.bootstrapPaReserved + 4096, mem.memset v.bootstrapPaReserved 0 4096⟩)
    (Holds.empty v.reserved_dvd mem) (Nat.dvd_add v.reserved_dvd (dvd_refl _)) room
    (fun m member => by
      obtain ⟨r, rfl⟩ := v.mem_mapping member
      rw [(v.mapping_eq r).1, (v.mapping_eq r).2.1]
      exact v.limit_le r)
    v.mappings_apart (fun _ _ _ _ => not_valid_zero)
  refine ⟨s, ⟨v.bootstrapPaReserved, physmapVmBase, a⟩, ?_, rfl, rfl, grows.holds, fun r n inside => ?_,
    fun n none => ?_,
    grows.kern fun t k live _ _ valid => ?_, fun t live => ?_, grows.aligned, ?_, fun x outside => ?_⟩
  · rw [pmapVmInitTables_eq, run, ok_bind]
  · rw [← mapping_pages] at inside
    obtain ⟨same, live⟩ := mapped _ (List.mem_map_of_mem (mem_regions r)) n inside
    rw [mapping_pages] at inside
    exact ⟨same.trans ((v.mapping_eq r).2.2 n inside.1), live⟩
  · refine others n fun m member inside => ?_
    obtain ⟨r, rfl⟩ := v.mem_mapping member
    exact none r (v.mapping_pages r ▸ inside)
  · obtain rfl := Space.live_empty live
    exact absurd valid not_valid_zero
  · rcases grows.fresh t live with old | ⟨n, ⟨m, member, inside⟩, way⟩
    · exact Or.inl (Space.live_empty old)
    · obtain ⟨r, rfl⟩ := v.mem_mapping member
      exact Or.inr ⟨r, n, v.mapping_pages r ▸ inside, way⟩
  · have counted : a.allocationPtr + 4096 * Space.empty.count = v.bootstrapPaReserved + 4096 + 4096 * s.count :=
      grows.counted
    rw [Space.count_empty] at counted
    show a.allocationPtr = _
    omega
  · have le : v.bootstrapPaReserved + 4096 ≤ a.allocationPtr := grows.le
    have outside : x < v.bootstrapPaReserved ∨ a.allocationPtr ≤ x := outside
    rw [grows.frame x outside]
    exact memset_of_outside (by omega)

end VmParams

end Swink
