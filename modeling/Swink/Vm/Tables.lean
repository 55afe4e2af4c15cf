import Swink.Machine.Fault
import Swink.Machine.Memory
import Swink.Vm.Descriptor

namespace Swink

def pageEntryCount : Nat := pageSize / 8
def vmL3EntrySize : Nat := pageSize
def vmL2EntrySize : Nat := vmL3EntrySize * pageEntryCount
def vmL1EntrySize : Nat := vmL2EntrySize * pageEntryCount
def vmKernelBaseAddress : Nat := 0xffffff8000000000
def tcrT1szValue : Nat := 25

/-- The TTBR select and the L1, L2 and L3 index of a virtual address. -/
def vaToPhysIndexes (va : Nat) : Nat × Nat × Nat × Nat :=
  ((va >>> (64 - 8)) &&& 0x1, (va >>> 30) &&& ((1 <<< ((64 - tcrT1szValue) - 30)) - 1), (va >>> 21) &&& 0x1FF,
    (va >>> 12) &&& 0x1FF)

/-- Physical memory with the pointer of the arena allocator. -/
structure Arena where
  allocationPtr : Nat
  mem : Mem

def allocationPtrPageAlloc (fill : BitVec 8) (s : Arena) : Nat × Arena :=
  (s.allocationPtr, ⟨u64 (s.allocationPtr + pageSize), s.mem.memset s.allocationPtr fill pageSize⟩)

def tableLookupAllocating (tableBase tableI : Nat) (pteTemplate : BitVec 64) (s : Arena) : Nat × Arena :=
  let result := pteToPhysAddr (s.mem.load64 (tableBase + tableI * 8))
  if result ≠ physAddrInvalid then (result, s)
  else
    let (result, s) := allocationPtrPageAlloc 0x00 s
    (result, { s with mem := s.mem.store64 (tableBase + tableI * 8) (pteOf pteTemplate result) })

/-- One page of `vm_init_map_contiguous`: completes the chain of tables, of which `l2` and `l3` may be
cached, and writes the entry. -/
def mapPage (l1 : Nat) (pteTemplate : BitVec 64) (oa l2 l3 l1I l2I l3I : Nat) (s : Arena) :
    Except Fault (Nat × Nat × Arena) := do
  let (l2, s) := if l2 = physAddrInvalid then tableLookupAllocating l1 l1I pteTemplateTableKernOnly s else (l2, s)
  let (l3, s) := if l3 = physAddrInvalid then tableLookupAllocating l2 l2I pteTemplateTableKernOnly s else (l3, s)
  assert (s.mem.load64 (l3 + l3I * 8) &&& pteValid = pteInvalid) "(((uint64_t *)l3)[l3_i] & PTE_VALID) == PTE_INVALID"
  .ok (l2, l3, { s with mem := s.mem.store64 (l3 + l3I * 8) (pteOf pteTemplate oa) })

/-- The loop of `vm_init_map_contiguous` from `page_i` on, with the cached tables and the next
indices. -/
def mapLoop (l1 : Nat) (pteTemplate : BitVec 64) (physBase pageCount : Nat) :
    (rounds pageI l2 l3 l1I l2I l3I : Nat) → Arena → Except Fault Arena
  | 0, _, _, _, _, _, _, s => .ok s
  | rounds + 1, pageI, l2, l3, l1I, l2I, l3I, s => do
    let (l2, l3, s) ← mapPage l1 pteTemplate (physBase + pageI * pageSize) l2 l3 l1I l2I l3I s
    if l3I + 1 ≥ pageEntryCount then
      if l2I + 1 ≥ pageEntryCount then
        if l1I + 1 ≥ pageEntryCount ∧ pageI + 1 < pageCount then
          .error (.panic "l1 idx rolled over with future mapping operations?")
        else
          mapLoop l1 pteTemplate physBase pageCount rounds (pageI + 1) physAddrInvalid physAddrInvalid (l1I + 1) 0 0 s
      else mapLoop l1 pteTemplate physBase pageCount rounds (pageI + 1) l2 physAddrInvalid l1I (l2I + 1) 0 s
    else mapLoop l1 pteTemplate physBase pageCount rounds (pageI + 1) l2 l3 l1I l2I (l3I + 1) s

def vmInitMapContiguous (tableBase : Nat) (pteTemplate : BitVec 64) (vmBase physBase pageCount : Nat) (s : Arena) :
    Except Fault Arena :=
  let (_, l1I, l2I, l3I) := vaToPhysIndexes vmBase
  mapLoop tableBase pteTemplate physBase pageCount pageCount 0 physAddrInvalid physAddrInvalid l1I l2I l3I s

/-- The two table lookups of a page of `vm_init_map_contiguous`. -/
def pageTables (l1 l2 l3 l1I l2I : Nat) (s : Arena) : Nat × Nat × Arena :=
  let (l2, s) := if l2 = physAddrInvalid then tableLookupAllocating l1 l1I pteTemplateTableKernOnly s else (l2, s)
  let (l3, s) := if l3 = physAddrInvalid then tableLookupAllocating l2 l2I pteTemplateTableKernOnly s else (l3, s)
  (l2, l3, s)

/-- The loop with the memory it leaves behind, also when it panics. -/
def mapRun (l1 : Nat) (pteTemplate : BitVec 64) (physBase pageCount : Nat) :
    (rounds pageI l2 l3 l1I l2I l3I : Nat) → Arena → Option Fault × Arena
  | 0, _, _, _, _, _, _, s => (none, s)
  | rounds + 1, pageI, l2, l3, l1I, l2I, l3I, s =>
    let (l2, l3, s) := pageTables l1 l2 l3 l1I l2I s
    if s.mem.load64 (l3 + l3I * 8) &&& pteValid ≠ pteInvalid then
      (some (.panic "Assertion failed: (((uint64_t *)l3)[l3_i] & PTE_VALID) == PTE_INVALID"), s)
    else
      let s : Arena :=
        { s with mem := s.mem.store64 (l3 + l3I * 8) (pteOf pteTemplate (physBase + pageI * pageSize)) }
      if l3I + 1 ≥ pageEntryCount then
        if l2I + 1 ≥ pageEntryCount then
          if l1I + 1 ≥ pageEntryCount ∧ pageI + 1 < pageCount then
            (some (.panic "l1 idx rolled over with future mapping operations?"), s)
          else
            mapRun l1 pteTemplate physBase pageCount rounds (pageI + 1) physAddrInvalid physAddrInvalid (l1I + 1) 0 0 s
        else mapRun l1 pteTemplate physBase pageCount rounds (pageI + 1) l2 physAddrInvalid l1I (l2I + 1) 0 s
      else mapRun l1 pteTemplate physBase pageCount rounds (pageI + 1) l2 l3 l1I l2I (l3I + 1) s

/-- A call of `vm_init_map_contiguous` with the memory it leaves behind. -/
def vmInitMapContiguousRun (tableBase : Nat) (pteTemplate : BitVec 64) (vmBase physBase pageCount : Nat) (s : Arena) :
    Option Fault × Arena :=
  let (_, l1I, l2I, l3I) := vaToPhysIndexes vmBase
  mapRun tableBase pteTemplate physBase pageCount pageCount 0 physAddrInvalid physAddrInvalid l1I l2I l3I s

/-- What the caller sees of a run. -/
def mapResult : Option Fault × Arena → Except Fault Arena
  | (none, s) => .ok s
  | (some fault, _) => .error fault

/-- The loop returns just what its run comes to. -/
theorem mapLoop_eq (l1 : Nat) (pteTemplate : BitVec 64) (physBase pageCount rounds pageI l2 l3 l1I l2I l3I : Nat)
    (s : Arena) : mapLoop l1 pteTemplate physBase pageCount rounds pageI l2 l3 l1I l2I l3I s =
      mapResult (mapRun l1 pteTemplate physBase pageCount rounds pageI l2 l3 l1I l2I l3I s) := by
  induction rounds generalizing pageI l2 l3 l1I l2I l3I s with
  | zero => rfl
  | succ rounds ih =>
    rw [mapLoop, mapRun, mapPage, pageTables]
    dsimp only
    generalize (if l2 = physAddrInvalid then _ else (l2, s)) = found₂
    generalize (if l3 = physAddrInvalid then _ else (l3, found₂.2)) = found₃
    by_cases free : found₃.2.mem.load64 (found₃.1 + l3I * 8) &&& pteValid = pteInvalid
    · rw [assert_of free, if_neg (not_not_intro free)]
      simp only [ok_bind]
      split
      · split
        · split
          · rfl
          · exact ih ..
        · exact ih ..
      · exact ih ..
    · rw [if_pos free, assert, if_neg free]
      rfl

theorem vmInitMapContiguous_eq (tableBase : Nat) (pteTemplate : BitVec 64) (vmBase physBase pageCount : Nat)
    (s : Arena) : vmInitMapContiguous tableBase pteTemplate vmBase physBase pageCount s =
      mapResult (vmInitMapContiguousRun tableBase pteTemplate vmBase physBase pageCount s) :=
  mapLoop_eq ..

/-- What the translation hardware finds for an address: an invalid entry on some level, a block
entry, an entry of the reserved kind in the last table, or a page with its three descriptors. -/
inductive Walk
  | invalid
  | block (pte : BitVec 64)
  | reserved (pte : BitVec 64)
  | page (l1 l2 l3 : BitVec 64)
  deriving DecidableEq

/-- The walk of a virtual address through the tables at `tableBase` with 4 KB pages and three levels. -/
def walk (mem : Mem) (tableBase va : Nat) : Walk :=
  let (_, l1I, l2I, l3I) := vaToPhysIndexes va
  let l1 := mem.load64 (tableBase + l1I * 8)
  if ¬Valid l1 then .invalid else if ¬IsTable l1 then .block l1 else
  let l2 := mem.load64 (pteToPhysAddr l1 + l2I * 8)
  if ¬Valid l2 then .invalid else if ¬IsTable l2 then .block l2 else
  let l3 := mem.load64 (pteToPhysAddr l2 + l3I * 8)
  if ¬Valid l3 then .invalid else if ¬IsTable l3 then .reserved l3 else .page l1 l2 l3

/-- Number of a page of the 512 GB that the tables cover. -/
def pageNumber (va : Nat) : Nat := va / 4096 % (512 * 512 * 512)

theorem pageEntryCount_eq : pageEntryCount = 512 := rfl

theorem vaToPhysIndexes_eq (va : Nat) : vaToPhysIndexes va =
    ((va >>> (64 - 8)) &&& 0x1, pageNumber va / 512 / 512, pageNumber va / 512 % 512, pageNumber va % 512) := by
  have mask (x : Nat) : x &&& 511 = x % 512 := Nat.and_two_pow_sub_one_eq_mod x 9
  have top : (1 <<< ((64 - tcrT1szValue) - 30)) - 1 = 511 := rfl
  simp only [vaToPhysIndexes, pageNumber, top, mask, Nat.shiftRight_eq_div_pow, Prod.mk.injEq, true_and]
  omega

end Swink
