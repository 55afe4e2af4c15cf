import Swink.Vm.Tables

namespace Swink

/-- `__kernel_map_start` of link.ld. -/
def kernelMapStart : Nat := 0xffffff8000000000

/-- A section between its two linker symbols, `s ## _start` and `s ## _end`. -/
structure KernelSection where
  start : Nat
  stop : Nat

namespace KernelSection
variable (s : KernelSection)

/-- The `KERNEL_SECTION_*` macros of pmap_init.c. -/
def paBaseOffset : Nat := s.start - kernelMapStart
def paBase (kernelBase : Nat) : Nat := u64 (kernelBase + s.paBaseOffset)
def vaBase : Nat := u64 (vmKernelBaseAddress + s.paBaseOffset)
def size : Nat := s.stop - s.start
def pageCount : Nat := s.size >>> pageShift

def Contains (va : Nat) : Prop := s.start ≤ va ∧ va < s.stop

end KernelSection

/-- A kernel image: link.ld pads every section to whole pages and puts them one after the other. -/
structure KernelImage where
  textPages : Nat
  roDataPages : Nat
  rwDataPages : Nat

namespace KernelImage
variable (k : KernelImage)

def kernelText : KernelSection := ⟨kernelMapStart, kernelMapStart + k.textPages * pageSize⟩
def kernelRoData : KernelSection := ⟨k.kernelText.stop, k.kernelText.stop + k.roDataPages * pageSize⟩
def kernelRwData : KernelSection := ⟨k.kernelRoData.stop, k.kernelRoData.stop + k.rwDataPages * pageSize⟩

/-- `__kernel_map_end` -/
def kernelMapEnd : Nat := k.kernelRwData.stop

def pages : Nat := k.textPages + k.roDataPages + k.rwDataPages

end KernelImage

/-- `MMIO_BASE` and `MMIO_END` of gpio.h. -/
def mmioBase : Nat := 0x3F000000
def mmioEnd : Nat := 0x40000000

/-- The kernel's tables with the physmap base and the state of the arena. -/
structure KernelPmap where
  tableBase : Nat
  physmapVmBase : Nat
  arena : Arena

/-- `pmap_vm_init` up to the call of `vm_bootstrap_switch_to_pmap_kernel`. -/
def pmapVmInitTables (k : KernelImage) (kernelBase ramSize bootstrapPaReserved : Nat) (mem : Mem) :
    Except Fault KernelPmap := do
  let (tableBase, s) := allocationPtrPageAlloc 0x00 ⟨bootstrapPaReserved, mem⟩
  let s ← vmInitMapContiguous tableBase pteTemplatePageNormalKernRx k.kernelText.vaBase
    (k.kernelText.paBase kernelBase) k.kernelText.pageCount s
  let s ← vmInitMapContiguous tableBase pteTemplatePageNormalKernRo k.kernelRoData.vaBase
    (k.kernelRoData.paBase kernelBase) k.kernelRoData.pageCount s
  let s ← vmInitMapContiguous tableBase pteTemplatePageNormalKernRw k.kernelRwData.vaBase
    (k.kernelRwData.paBase kernelBase) k.kernelRwData.pageCount s
  let physmapSize := max ramSize mmioEnd
  let physmapL1Cnt := roundUp physmapSize vmL1EntrySize / vmL1EntrySize
  let physmapVmBase := u64 (vmKernelBaseAddress + vmL1EntrySize * sub64 pageEntryCount physmapL1Cnt)
  let s ← vmInitMapContiguous tableBase pteTemplatePageNormalKernRw (u64 (physmapVmBase + 0x00)) 0x00
    (roundUp ramSize pageSize >>> pageShift) s
  let s ← vmInitMapContiguous tableBase pteTemplatePageDeviceKernRw (u64 (physmapVmBase + mmioBase)) mmioBase
    (roundUp (mmioEnd - mmioBase) pageSize >>> pageShift) s
  .ok ⟨tableBase, physmapVmBase, s⟩

/-- The physical address that an address is translated to. -/
def translate (mem : Mem) (tableBase va : Nat) : Option Nat :=
  match walk mem tableBase va with
  | .page _ _ l3 => some (pteToPhysAddr l3 + va % pageSize)
  | _ => none

/-- What is assumed of the call of `pmap_vm_init`: a page-aligned image of at most 2 MB below the
reserved boundary, which lies inside RAM, and RAM that ends where the peripherals start. -/
structure VmParams where
  image : KernelImage
  kernelBase : Nat
  ramSize : Nat
  bootstrapPaReserved : Nat
  image_small : image.pages ≤ 512
  kernelBase_dvd : 4096 ∣ kernelBase
  reserved_dvd : 4096 ∣ bootstrapPaReserved
  image_le : kernelBase + image.pages * 4096 ≤ bootstrapPaReserved
  reserved_le : bootstrapPaReserved ≤ ramSize
  ramSize_le : ramSize ≤ mmioBase

/-- A kernel of nine pages at its usual load address on a board with 948 MB of RAM. -/
def VmParams.sample : VmParams where
  image := ⟨3, 2, 4⟩
  kernelBase := 0x80000
  ramSize := 0x3B400000
  bootstrapPaReserved := 0x8F000
  image_small := by decide
  kernelBase_dvd := by decide
  reserved_dvd := by decide
  image_le := by decide
  reserved_le := by decide
  ramSize_le := by decide

/-- The five ranges that `pmap_vm_init` maps. -/
inductive Region
  | text
  | roData
  | rwData
  | ram
  | mmio
  deriving DecidableEq

/-- The arguments of a call of `vm_init_map_contiguous`. -/
structure Mapping where
  template : BitVec 64
  vmBase : Nat
  physBase : Nat
  pageCount : Nat

namespace Mapping
variable (m : Mapping)

/-- Number of the first page of a range, and the numbers of all of them. -/
def first : Nat := pageNumber m.vmBase
def pages : Set Nat := Set.Ico m.first (m.first + m.pageCount)

def entry (n : Nat) : BitVec 64 := pteOf m.template (m.physBase + (n - m.first) * pageSize)

end Mapping

namespace VmParams
variable (v : VmParams)

def physmapVmBase : Nat := 2 ^ 64 - 2 ^ 30

def mapping : Region → Mapping
  | .text => ⟨pteTemplatePageNormalKernRx, v.image.kernelText.vaBase, v.image.kernelText.paBase v.kernelBase,
      v.image.kernelText.pageCount⟩
  | .roData => ⟨pteTemplatePageNormalKernRo, v.image.kernelRoData.vaBase, v.image.kernelRoData.paBase v.kernelBase,
      v.image.kernelRoData.pageCount⟩
  | .rwData => ⟨pteTemplatePageNormalKernRw, v.image.kernelRwData.vaBase, v.image.kernelRwData.paBase v.kernelBase,
      v.image.kernelRwData.pageCount⟩
  | .ram => ⟨pteTemplatePageNormalKernRw, physmapVmBase, 0, roundUp v.ramSize pageSize >>> pageShift⟩
  | .mmio => ⟨pteTemplatePageDeviceKernRw, physmapVmBase + mmioBase, mmioBase,
      roundUp (mmioEnd - mmioBase) pageSize >>> pageShift⟩

def regions : List Region := [.text, .roData, .rwData, .ram, .mmio]

/-- Number of the first page of the physmap. -/
def physmapPage : Nat := 511 * 512 * 512

/-- The page numbers and physical addresses of a region. -/
def firstPage : Region → Nat
  | .text => 0
  | .roData => v.image.textPages
  | .rwData => v.image.textPages + v.image.roDataPages
  | .ram => physmapPage
  | .mmio => physmapPage + 0x3F000

def pageCountOf : Region → Nat
  | .text => v.image.textPages
  | .roData => v.image.roDataPages
  | .rwData => v.image.rwDataPages
  | .ram => (v.ramSize + 4095) / 4096
  | .mmio => 0x1000

def physOf : Region → Nat → Nat
  | .text | .roData | .rwData => fun n => v.kernelBase + n * 4096
  | .ram | .mmio => fun n => (n - physmapPage) * 4096

end VmParams

end Swink
