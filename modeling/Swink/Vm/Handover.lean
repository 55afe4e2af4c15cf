import Swink.Image.Isolation
import Swink.Image.Overlap
import Swink.Pfa.Drain
import Swink.Vm.ArenaSize
import Swink.Vm.Switch

namespace Swink
open Table Mem PfaImage

variable {mdsOffset : Nat → Nat}

/-- Physical memory as it is seen through the physmap. -/
def physmapView (physmapVmBase : Nat) (mem : Mem) : Mem := fun va => mem (va - physmapVmBase)

/-- The physical memory behind the physmap. -/
def PfaImage.physical (image : PfaImage mdsOffset) : Mem := fun pa => image.mem (image.physmapVmBase + pa)

/-- `pmap_vm_init`: builds the tables, switches to them and starts the page frame allocator in the
memory behind the arena. -/
def pmapVmInit (k : KernelImage) (kernelBase ramBase ramSize bootstrapPaReserved : Nat) (mem : Mem) :
    Except Fault (KernelPmap × PfaImage mdsOffset) := do
  let p ← pmapVmInitTables k kernelBase ramSize bootstrapPaReserved mem
  let image ← pmapPfaInit ramBase ramSize (k.kernelText.paBase kernelBase) k.kernelText.size
    (k.kernelRoData.paBase kernelBase) (u64 (k.kernelRoData.size + k.kernelRwData.size)) p.arena.allocationPtr
    ⟨physmapView p.physmapVmBase p.arena.mem, 0, p.physmapVmBase⟩
  .ok (p, image)

/-- The table pages that a walk can reach from a root. -/
def TablePage (mem : Mem) (tableBase page : Nat) : Prop :=
  page = tableBase ∨ ∃ i < 512, Valid (mem.load64 (tableBase + i * 8)) ∧
    (page = pteToPhysAddr (mem.load64 (tableBase + i * 8)) ∨ ∃ k < 512,
      Valid (mem.load64 (pteToPhysAddr (mem.load64 (tableBase + i * 8)) + k * 8)) ∧
        page = pteToPhysAddr (mem.load64 (pteToPhysAddr (mem.load64 (tableBase + i * 8)) + k * 8)))

/-- The table pages in memory are the tables of the address space. -/
theorem Holds.tablePage {base lower ap page : Nat} {s : Space} {mem : Mem} (holds : Holds base lower ap s mem)
    (reach : TablePage mem base page) : ∃ t, s.Live t ∧ page = s.address base t := by
  rcases reach with rfl | ⟨i, lt, valid, below⟩
  · exact ⟨root, trivial, rfl⟩
  have entry : mem.load64 (base + i * 8) = s.l1 i := holds.entries root trivial i lt
  rw [entry] at valid below
  have live : s.Live (middle i) := ⟨lt, valid⟩
  rcases below with rfl | ⟨k, lt', valid', rfl⟩
  · exact ⟨middle i, live, rfl⟩
  · have entry' : mem.load64 (pteToPhysAddr (s.l1 i) + k * 8) = s.entry (middle i) k := holds.entries _ live k lt'
    rw [entry'] at valid' ⊢
    exact ⟨(middle i).child k, (Space.live_child live trivial lt').mpr valid', rfl⟩

namespace VmParams
variable (v : VmParams)

/-- RAM has room for the arena and for the allocator's own structures. -/
def Roomy : Prop := v.arenaEnd + requiredBytes (sizeToPageCount v.ramSize) ≤ v.ramSize

/-- The parameters that `pmap_vm_init` starts the page frame allocator with. -/
def bootParams (roomy : v.Roomy) : BootParams where
  ramSize := v.ramSize
  kernelTextBase := v.image.kernelText.paBase v.kernelBase
  kernelTextSize := v.image.kernelText.size
  kernelDataBase := v.image.kernelRoData.paBase v.kernelBase
  kernelDataSize := u64 (v.image.kernelRoData.size + v.image.kernelRwData.size)
  bootstrapPaReserved := v.arenaEnd
  physmapVmBase := physmapVmBase
  ramSize_lt := by
    have := v.bounds
    omega
  reserved_dvd := Nat.dvd_add v.reserved_dvd (Nat.dvd_mul_right ..)
  reserved_le := roomy
  physmap_pos := by decide
  physmap_le := by
    have base : physmapVmBase = 2 ^ 64 - 2 ^ 30 := rfl
    have limit := v.bounds
    have rounded : roundUp v.ramSize 4096 < v.ramSize + 4096 := roundUp_lt (by decide)
    omega

/-- The ranges of the image are managed pages. -/
theorem placed (roomy : v.Roomy) (separate : (v.bootParams roomy).Separate mdsOffset) :
    (v.bootParams roomy).Placed mdsOffset := by
  have limit := v.bounds
  have below := v.image_le
  have reserved := v.reserved_le
  have total : v.image.pages = v.image.textPages + v.image.roDataPages + v.image.rwDataPages := rfl
  have count : (v.bootParams roomy).pageCount = (v.ramSize + 4095) / 4096 := (v.bootParams roomy).pageCount_eq
  have page {n : Nat} (small : n ≤ v.image.pages) : u64 (v.kernelBase + n * 4096) = v.kernelBase + n * 4096 :=
    u64_of_lt (by have := Nat.mul_le_mul_right 4096 small; omega)
  refine ⟨separate, ?_, ?_⟩
  · show paToPageId (v.image.kernelRoData.paBase v.kernelBase) +
      sizeToPageCount (u64 (v.image.kernelRoData.size + v.image.kernelRwData.size)) ≤ _
    have base : v.image.kernelRoData.paBase v.kernelBase = v.kernelBase + v.image.textPages * 4096 := by
      rw [KernelSection.paBase, KernelSection.paBaseOffset, kernelRoData_eq, Nat.add_sub_cancel_left, page (by omega)]
    have size : v.image.kernelRoData.size + v.image.kernelRwData.size =
        (v.image.roDataPages + v.image.rwDataPages) * 4096 := by
      rw [KernelSection.size, KernelSection.size, kernelRoData_eq, kernelRwData_eq, total]
      dsimp only
      omega
    rw [base, size, u64_of_lt (by omega), paToPageId_eq (by omega), sizeToPageCount_eq (by omega), count]
    omega
  · show paToPageId (v.image.kernelText.paBase v.kernelBase) + sizeToPageCount v.image.kernelText.size ≤ _
    have base : v.image.kernelText.paBase v.kernelBase = v.kernelBase := by
      rw [KernelSection.paBase, KernelSection.paBaseOffset, kernelText_eq, Nat.add_sub_cancel_left, page (by omega),
        Nat.zero_mul, Nat.add_zero]
    have size : v.image.kernelText.size = v.image.textPages * 4096 := by
      rw [KernelSection.size, kernelText_eq]
      dsimp only
      omega
    rw [base, size, paToPageId_eq (by omega), sizeToPageCount_eq (by omega), count]
    omega

/-- `pmap_vm_init` returns with the tables built and the page frame allocator started behind them. -/
theorem pmapVmInit_spec (roomy : v.Roomy) (separate : (v.bootParams roomy).Separate mdsOffset) (mem : Mem) :
    ∃ s p raw, ∃ start : PfaImage mdsOffset,
      pmapVmInit v.image v.kernelBase 0 v.ramSize v.bootstrapPaReserved mem = .ok (p, start) ∧ v.Built mem s p ∧
      raw = ⟨physmapView physmapVmBase p.arena.mem, 0, physmapVmBase⟩ ∧
      PfaImage.boot (v.bootParams roomy) raw = .ok start := by
  obtain ⟨s, p, run, built⟩ := v.pmapVmInitTables_spec mem
  have placed := v.placed roomy separate
  obtain ⟨first, linkable, builds⟩ := boot_depicts placed ⟨physmapView physmapVmBase p.arena.mem, 0, physmapVmBase⟩
  obtain ⟨_, returns⟩ := (v.bootParams roomy).boot_returns first linkable placed.data_inside placed.text_inside
  obtain ⟨start, booted, -⟩ := builds.of_ok _ returns
  refine ⟨s, p, _, start, ?_, built, rfl, booted⟩
  rw [pmapVmInit, run, ok_bind, built.allocationPtr_eq, built.physmap]
  exact congrArg (fun outcome => outcome >>= fun image => Except.ok (p, image)) booted

/-- Other memory with the same bytes in the arena holds the same tables. -/
theorem Built.transfer {v : VmParams} {mem mem' : Mem} {s : Space} {p : KernelPmap} (built : v.Built mem s p)
    (agree : Agree v.bootstrapPaReserved p.arena.allocationPtr p.arena.mem mem') :
    v.Built mem' s { p with arena := ⟨p.arena.allocationPtr, mem'⟩ } :=
  { built with
    holds := built.holds.congr agree
    frame := fun _ _ => rfl }

end VmParams

/-- A byte of RAM that clients may use: it is none of the kernel image, nor below the reserved boundary,
where the bootstrap stacks and tables are, nor in a table of the kernel, nor in the allocator's own
structures, and it is mapped where `pmap_pa_to_kva` says. -/
structure ForClients (v : VmParams) (p : KernelPmap) (image : PfaImage mdsOffset) (a : Nat) : Prop where
  not_kernel : ¬(v.kernelBase ≤ a ∧ a < v.kernelBase + (v.image.kernelMapEnd - kernelMapStart))
  not_reserved : v.bootstrapPaReserved ≤ a
  not_table : ∀ page, TablePage image.physical p.tableBase page → ¬(page ≤ a ∧ a < page + pageSize)
  not_own : ∀ region ∈ image.regions, ¬InRegion (pmapPaToKva p.physmapVmBase a) region
  mapped : translate image.physical p.tableBase (pmapPaToKva p.physmapVmBase a) = some a

namespace PfaImage

/-- The structures are at the addresses that the state of the allocator names, inside the reserved bytes. -/
theorem Depicts.region_inside {g : Geometry} {pfa : Nat} {start : Mem} {s : Pfa} {image : PfaImage mdsOffset}
    (site : Site mdsOffset g pfa) (depicts : Depicts g pfa start s image) {region : Nat × Nat}
    (member : region ∈ image.regions) : pfa ≤ region.1 ∧ region.1 + region.2 ≤ pfa + requiredBytes g.pageCount := by
  have size := size_le_requiredBytes g.pageCount
  have count : image.pageCount = g.pageCount :=
    ((depicts_simulates site start).pageCount depicts).symm.trans depicts.count
  have structure_ : sizeofPmapPfa = 264 := rfl
  have total := pfaSize_eq
  have mds_after := site.mds_after
  have mds_fits := site.mds_fits
  simp only [regions, List.cons_append, List.mem_cons, List.mem_append, List.mem_map, List.mem_range,
    List.not_mem_nil, or_false] at member
  rcases member with rfl | ⟨level, bound, rfl⟩ | rfl
  · rw [depicts.at_pfa]
    omega
  · have last := bitmapBytesBelow_mono g.pageCount (Nat.succ_le_of_lt bound)
    rw [← buddyBitmapRequiredBytes_eq, bitmapBytesBelow] at last
    rw [depicts.buddyBitmap_eq bound, count, bitmapAt]
    omega
  · rw [depicts.metadata_eq, count]
    omega

end PfaImage

/-- An allocation that succeeds starts at a page. -/
theorem PfaImage.Mirrors.result_dvd {b : BootParams} {image after : PfaImage mdsOffset} {held : Set Nat} {w : World}
    (separate : b.Separate mdsOffset) (mirrors : Mirrors b image held w) {size result : Nat} {metadata : BitVec 8}
    (run : pmapPfaAllocContig size metadata image = .ok (result, after)) (valid : result ≠ physAddrInvalid) :
    4096 ∣ result := by
  have site := site_of_unreserved separate (Set.sdiff_subset (s := b.initialFree) (t := held))
  obtain ⟨_, _, outcome, ⟨invalid, -⟩ | ⟨-, aligned, -⟩⟩ := mirrors.ready.alloc size metadata
  all_goals
    obtain ⟨same, -⟩ := ((depicts_simulates site image.mem).pmapPfaAllocContig mirrors.depicts size metadata).predict outcome run
    simp only at same
    subst same
  · exact absurd invalid valid
  · exact Nat.dvd_trans (Nat.dvd_mul_right ..) aligned

/-- A request for one page succeeds as long as there is a page. -/
theorem PfaImage.Mirrors.allocPage {b : BootParams} {image : PfaImage mdsOffset} {held : Set Nat} {w : World}
    (separate : b.Separate mdsOffset) (mirrors : Mirrors b image held w) (nonempty : (b.initialFree \ held).Nonempty)
    (metadata : BitVec 8) :
    ∃ q after, pmapPfaAllocContig pageSize metadata image = .ok (q * pageSize, after) ∧ q * pageSize ≠ physAddrInvalid := by
  have site := site_of_unreserved separate (Set.sdiff_subset (s := b.initialFree) (t := held))
  obtain ⟨q, member, _, outcome, -⟩ := mirrors.ready.allocPage nonempty metadata
  obtain ⟨⟨_, after⟩, run, rfl, -⟩ :=
    ((depicts_simulates site image.mem).pmapPfaAllocContig mirrors.depicts pageSize metadata).of_ok _ outcome
  have small := (b.geometry Set.univ).pageCount_le
  have managed : q < b.pageCount := member.1.2
  refine ⟨q, after, run, ?_⟩
  have small : b.pageCount ≤ 2 ^ 20 := small
  rw [pageSize_eq]
  unfold physAddrInvalid
  omega

namespace VmParams
variable {v : VmParams} {roomy : v.Roomy} {mem : Mem} {s : Space} {p : KernelPmap} {start image : PfaImage mdsOffset}
  {held : Set Nat} {first w : World}

/-- The bytes of the pages that are not reserved are for clients as long as the arena is what it was
when the allocator was started. -/
theorem Built.forClients (built : v.Built mem s p) (separate : (v.bootParams roomy).Separate mdsOffset)
    (mirrors : Mirrors (v.bootParams roomy) image held w)
    (same : ∀ a < (v.bootParams roomy).pfaAddr, image.mem a = physmapView physmapVmBase p.arena.mem a) {a : Nat}
    (unreserved : a / 4096 ∈ (v.bootParams roomy).initialFree) : ForClients v p image a := by
  obtain ⟨above, managed⟩ := BootParams.not_reserved unreserved
  have site := site_of_unreserved separate (Set.sdiff_subset (s := (v.bootParams roomy).initialFree) (t := held))
  have ends : (v.bootParams roomy).reservedEnd = v.arenaEnd + requiredBytes (v.bootParams roomy).pageCount := rfl
  have count : (v.bootParams roomy).pageCount = v.pageCountOf .ram := (v.bootParams roomy).pageCount_eq
  have arena := built.allocationPtr_eq
  have tables : v.bootstrapPaReserved ≤ v.arenaEnd := Nat.le_add_right ..
  have below := v.image_le
  have base : image.physmapVmBase = physmapVmBase := mirrors.depicts.physmap.2
  have place : (v.bootParams roomy).pfaAddr = physmapVmBase + v.arenaEnd := rfl
  have agree : Agree v.bootstrapPaReserved p.arena.allocationPtr p.arena.mem image.physical := fun x lower upper => by
    rw [physical, base, same _ (by omega), physmapView, Nat.add_sub_cancel_left]
  have transferred := built.transfer agree
  have kva : pmapPaToKva p.physmapVmBase a = physmapVmBase + a := by
    have fits := ((v.bootParams roomy).geometry Set.univ).physmap_fits
    have fits : physmapVmBase + (v.bootParams roomy).pageCount * 4096 ≤ 2 ^ 64 := fits
    rw [built.physmap]
    exact u64_of_lt (by omega)
  refine ⟨?_, by omega, fun page reachable inside => ?_, fun region member inside => ?_,
    transferred.translate_physmap (Or.inl ?_)⟩
  · rw [v.kernelMapEnd_eq, Nat.add_sub_cancel_left]
    omega
  · obtain ⟨t, live, rfl⟩ := transferred.holds.tablePage (built.tableBase ▸ reachable)
    have place := transferred.holds.inside t live
    have place : _ ∧ _ ≤ p.arena.allocationPtr ∧ _ := place
    rw [pageSize_eq] at inside
    omega
  · obtain ⟨-, upper⟩ := mirrors.depicts.region_inside site member
    have upper : region.1 + region.2 ≤ (v.bootParams roomy).pfaAddr + requiredBytes (v.bootParams roomy).pageCount := upper
    rw [InRegion, kva] at inside
    omega
  · rw [ram_pages]
    omega

end VmParams

open VmParams in
/-- The hand-over from the boot arena to the page frame allocator is safe: whatever clients request,
release and write to the pages they hold, every byte of these pages and of the next allocation is one
for clients. -/
theorem handover_is_safe (v : VmParams) (mem : Mem) (roomy : v.Roomy)
    (separate : (v.bootParams roomy).Separate mdsOffset) :
    ∃ p, ∃ start : PfaImage mdsOffset,
      pmapVmInit v.image v.kernelBase 0 v.ramSize v.bootstrapPaReserved mem = .ok (p, start) ∧
      ∀ calls results image held, Run (v.bootParams roomy) start calls results image held →
        (∀ a, a / pageSize ∈ held → ForClients v p image a) ∧
        ∀ size metadata result after, pmapPfaAllocContig size metadata image = .ok (result, after) →
          result ≠ physAddrInvalid → ∀ a, result ≤ a → a < result + roundUp size pageSize → ForClients v p after a := by
  obtain ⟨s, p, _, start, run, built, rfl, booted⟩ := v.pmapVmInit_spec roomy separate mem
  obtain ⟨first, begins⟩ := Mirrors.start separate booted
  have same {calls results image held} (ran : Run (v.bootParams roomy) start calls results image held) :
      ∀ a < (v.bootParams roomy).pfaAddr, image.mem a = physmapView physmapVmBase p.arena.mem a := fun a below =>
    (ran.kept_below separate begins below).trans ((boot_untouched separate booted).kept_below Set.Subset.rfl below)
  have holds {calls results image held} (ran : Run (v.bootParams roomy) start calls results image held) {a : Nat}
      (member : a / pageSize ∈ held) : ForClients v p image a := by
    obtain ⟨_, -, mirrors⟩ := ran.mirrors separate begins
    exact built.forClients separate mirrors (same ran) (mirrors.owned member)
  refine ⟨p, start, run, fun calls results image held ran => ⟨fun a => holds ran, ?_⟩⟩
  intro size metadata result after allocation valid a lower upper
  obtain ⟨_, -, mirrors⟩ := ran.mirrors separate begins
  obtain ⟨q, rfl⟩ := mirrors.result_dvd separate allocation valid
  refine holds (ran.alloc allocation) (Or.inr ?_)
  rw [roundUp, pageSize_eq] at upper
  rw [allocated, if_neg valid, Pfa.pagesOf, Set.mem_Ico, pageSize_eq]
  omega

theorem VmParams.sample_roomy : VmParams.sample.Roomy :=
  show VmParams.sample.arenaEnd + requiredBytes (sizeToPageCount 0x3B400000) ≤ 0x3B400000 by decide +kernel

/-- The first page that the sample board hands out. -/
theorem handover_is_safe_sample :
    ∃ p, ∃ start after : PfaImage packedMdsOffset, ∃ result,
      pmapVmInit ⟨3, 2, 4⟩ 0x80000 0 0x3B400000 0x8F000 (fun _ => 0) = .ok (p, start) ∧
      pmapPfaAllocContig pageSize 0 start = .ok (result, after) ∧ result ≠ physAddrInvalid ∧
      ForClients VmParams.sample p after result := by
  have roomy := VmParams.sample_roomy
  have separate : (VmParams.sample.bootParams VmParams.sample_roomy).Separate packedMdsOffset := ⟨le_rfl, by decide +kernel⟩
  obtain ⟨_, p', _, start', run', -, rfl, booted⟩ := VmParams.sample.pmapVmInit_spec roomy separate (fun _ => 0)
  obtain ⟨p, start, run, safe⟩ := handover_is_safe VmParams.sample (fun _ => 0) roomy separate
  obtain ⟨rfl, rfl⟩ := Prod.mk.inj (Except.ok.inj (run'.symm.trans run))
  have nonempty : ((VmParams.sample.bootParams VmParams.sample_roomy).initialFree \ ∅).Nonempty := by
    refine ⟨_, Set.mem_Ico.mpr ⟨le_rfl, ?_⟩, Set.notMem_empty _⟩
    decide +kernel
  obtain ⟨_, mirrors⟩ := Mirrors.start separate booted
  obtain ⟨q, after, handedOut, valid⟩ := mirrors.allocPage separate nonempty 0
  refine ⟨p', start', after, _, run, handedOut, valid, (safe _ _ _ _ .start).2 _ _ _ _ handedOut valid _ le_rfl ?_⟩
  exact Nat.lt_add_of_pos_right (by decide)

end Swink
