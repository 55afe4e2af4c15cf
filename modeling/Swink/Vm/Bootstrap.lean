import Swink.Vm.AddressSpace

namespace Swink
open Table Mem

def ttbrCnp : BitVec 64 := 1 <<< 0

def pteTypeBlock : BitVec 64 := 0b00
def pteValidBlock : BitVec 64 := pteTypeBlock ||| pteValid

def pteTemplateBlockDeviceBootstrap : BitVec 64 :=
  pteValidBlock ||| uxnBlock ||| shToPte shNonShareable ||| apBlockToPte apKernRwUserNa |||
    mairIdxToPte mairIdxDevice ||| accessFlagBlock

/-- The loop of `ZERO_PAGE`, which stores 32 zero bytes at a time from the end downwards. -/
def zeroPageLoop (pageBase : Nat) : (rounds temp : Nat) → Mem → Except Fault Mem
  | 0, temp, mem => if pageBase = temp then .ok mem else .error .fuel
  | rounds + 1, temp, mem =>
    if pageBase = temp then .ok mem
    else zeroPageLoop pageBase rounds (sub64 temp 32) (mem.memset (sub64 temp 32) 0 32)

def zeroPage (pageBase count : Nat) (mem : Mem) : Except Fault Mem :=
  zeroPageLoop pageBase (count / 32) (u64 (pageBase + count)) mem

/-- `Lvm_bootstrap_map_loop_again` with the registers it works on. -/
def vmBootstrapMapLoopAgain (x4 : BitVec 64) : (x2 x5 x6 : Nat) → Mem → Mem
  | 0, _, _, mem => mem
  | x2 + 1, x5, x6, mem =>
    let x7 := x4 ||| BitVec.ofNat 64 x5
    vmBootstrapMapLoopAgain x4 x2 (u64 (x5 + pageSize)) (u64 (x6 + 8)) (mem.store64 x6 x7)

/-- The table registers and the memory that `vm_bootstrap` enters `vm_init` with. -/
structure Bootstrap where
  ttbr0 : BitVec 64
  ttbr1 : BitVec 64
  mem : Mem

/-- The P=V table of `vm_bootstrap`: four blocks of 1 GB of device memory. -/
def vmBootstrapPvTable (x1 : Nat) (mem : Mem) : Except Fault Mem := do
  let mem ← zeroPage x1 pageSize mem
  let x4 := outputAddressToPte 0x40000000
  let x2 := pteTemplateBlockDeviceBootstrap
  let x3 := x2 + x4
  let mem := (mem.store64 x1 x2).store64 (x1 + 8) x3
  let x2 := x3 + x4
  let x3 := x2 + x4
  .ok ((mem.store64 (x1 + 16) x2).store64 (x1 + 24) x3)

/-- `vm_bootstrap` with the physical addresses of the kernel map and the allocation pointer in x0. -/
def vmBootstrap (kernelMapStart kernelMapEnd x0 : Nat) (mem : Mem) : Except Fault Bootstrap := do
  let x1 := x0
  let x0 := u64 (x0 + pageSize)
  let mem ← vmBootstrapPvTable x1 mem
  let ttbr0 := BitVec.ofNat 64 x1 ||| ttbrCnp
  let x1 := x0
  let x2 := u64 (x1 + pageSize)
  let x3 := u64 (x2 + pageSize)
  let mem ← zeroPage x1 (pageSize * 3) mem
  let x4 := pteTemplateTableKernOnly
  let mem := mem.store64 x1 (x4 ||| BitVec.ofNat 64 x2)
  let mem := mem.store64 x2 (x4 ||| BitVec.ofNat 64 x3)
  let x5 := kernelMapStart
  let x2 := sub64 kernelMapEnd x5 >>> pageShift
  let x4 := pteTemplatePageNormalKernBootstrap
  if ¬x2 < pageEntryCount then .error (.panic "Kernel too large (>2MB) for single 4K L3 table") else
  let mem := vmBootstrapMapLoopAgain x4 x2 x5 x3 mem
  .ok ⟨ttbr0, BitVec.ofNat 64 x1 ||| ttbrCnp, mem⟩

/-- The value that `vm_bootstrap_switch_to_pmap_kernel` loads into TTBR1. -/
def vmBootstrapSwitchToPmapKernel (pageTableBase : Nat) : BitVec 64 := BitVec.ofNat 64 pageTableBase ||| ttbrCnp

/-- The root table that a table register names. -/
def ttbrBase (ttbr : BitVec 64) : Nat := (ttbr &&& ~~~ttbrCnp).toNat

theorem ttbrBase_of_aligned {base : Nat} (aligned : 2 ∣ base) (small : base < 2 ^ 64) :
    ttbrBase (BitVec.ofNat 64 base ||| ttbrCnp) = base := by
  have same : (BitVec.ofNat 64 base ||| ttbrCnp) &&& ~~~ttbrCnp = BitVec.ofNat 64 base := by
    apply BitVec.eq_of_getLsbD_eq
    intro i lt
    have cnp : ttbrCnp.getLsbD i = decide (i = 0) := by
      rcases Nat.eq_zero_or_pos i with rfl | pos
      · rfl
      · simp [ttbrCnp]
    rw [BitVec.getLsbD_and, BitVec.getLsbD_or, BitVec.getLsbD_not, cnp]
    rcases Nat.eq_zero_or_pos i with rfl | pos
    · have even : (BitVec.ofNat 64 base).getLsbD 0 = false := by
        rw [BitVec.getLsbD_ofNat]
        simp [Nat.testBit_zero]
        omega
      rw [even]
      rfl
    · simp [lt, show i ≠ 0 by omega]
  rw [ttbrBase, same, BitVec.toNat_ofNat, Nat.mod_eq_of_lt small]

/-- The assembly leaves out the mask that `OUTPUT_ADDRESS_TO_PTE` puts on an address. -/
theorem or_address_eq (template : BitVec 64) (oa : Nat) (aligned : 4096 ∣ oa) (small : oa < 2 ^ 47) :
    template ||| BitVec.ofNat 64 oa = pteOf template oa := by
  rw [pteOf, outputAddressToPte_of_aligned aligned small]

theorem memset_self {mem : Mem} {a count : Nat} {byte : BitVec 8} (filled : ∀ x, a ≤ x → x < a + count → mem x = byte) :
    mem.memset a byte count = mem := by
  funext x
  by_cases inside : a ≤ x ∧ x < a + count
  · rw [memset_of_inside inside.1 inside.2, filled x inside.1 inside.2]
  · exact memset_of_outside (by omega)

theorem memset_append (mem : Mem) (a m n : Nat) (byte : BitVec 8) :
    (mem.memset (a + m) byte n).memset a byte m = mem.memset a byte (m + n) := by
  funext x
  by_cases low : a ≤ x ∧ x < a + m
  · rw [memset_of_inside low.1 low.2, memset_of_inside low.1 (by omega)]
  · rw [memset_of_outside (by omega)]
    by_cases high : a + m ≤ x ∧ x < a + m + n
    · rw [memset_of_inside high.1 high.2, memset_of_inside (by omega) (by omega)]
    · rw [memset_of_outside (by omega), memset_of_outside (by omega)]

theorem zeroPageLoop_spec {pageBase rounds : Nat} (small : pageBase + 32 * rounds < 2 ^ 64) (mem : Mem) :
    zeroPageLoop pageBase rounds (pageBase + 32 * rounds) mem = .ok (mem.memset pageBase 0 (32 * rounds)) := by
  induction rounds generalizing mem with
  | zero =>
    rw [zeroPageLoop, if_pos (by omega), memset_self fun x _ _ => by omega]
  | succ rounds ih =>
    have back : sub64 (pageBase + 32 * (rounds + 1)) 32 = pageBase + 32 * rounds := by
      rw [sub64_of_le (by omega) small]
      omega
    rw [zeroPageLoop, if_neg (by omega), back, ih (by omega), memset_append]
    rfl

/-- `ZERO_PAGE` is a `memset`. -/
theorem zeroPage_eq {pageBase count : Nat} (whole : 32 ∣ count) (small : pageBase + count < 2 ^ 64) (mem : Mem) :
    zeroPage pageBase count mem = .ok (mem.memset pageBase 0 count) := by
  obtain ⟨rounds, rfl⟩ := whole
  rw [zeroPage, Nat.mul_div_cancel_left _ (by decide), u64_of_lt small, zeroPageLoop_spec small]

/-- The map loop fills the entries from `i` on in one last-level table. -/
theorem vmBootstrapMapLoopAgain_spec (oa : Nat) {base lower ap count i table : Nat} {s : Space} {mem : Mem}
    (holds : Holds base lower ap s mem) (live : s.Live (last 0)) (address : s.address base (last 0) = table)
    (room : i + count ≤ 512) (aligned : 4096 ∣ oa) (small : oa + count * 4096 < 2 ^ 47)
    (place : table + 4096 ≤ 2 ^ 47) :
    ∃ s', Holds base lower ap s'
        (vmBootstrapMapLoopAgain pteTemplatePageNormalKernBootstrap count oa (table + i * 8) mem) ∧
      ∀ n, s'.l3 n = if i ≤ n ∧ n < i + count then pteOf pteTemplatePageNormalKernBootstrap (oa + (n - i) * 4096)
        else s.l3 n := by
  induction count generalizing i oa s mem with
  | zero => exact ⟨s, holds, fun n => (if_neg (by omega)).symm⟩
  | succ count ih =>
    have entry := or_address_eq pteTemplatePageNormalKernBootstrap oa aligned (by omega)
    have nextPage : u64 (oa + pageSize) = oa + 4096 := by
      rw [pageSize_eq]
      exact u64_of_lt (by omega)
    have nextEntry : u64 (table + i * 8 + 8) = table + (i + 1) * 8 := by
      rw [u64_of_lt (by omega)]
      omega
    have written := holds.setLast (k := i) live (by omega) (pteOf pteTemplatePageNormalKernBootstrap oa)
    rw [address] at written
    obtain ⟨s', holds', leaves⟩ := ih (i := i + 1) (oa + 4096) written ((Space.live_setLast 0).mpr live)
      ((Space.address_setLast 0).trans address) (by omega) (Nat.dvd_add aligned (dvd_refl _)) (by omega)
    have after : (s.setEntry (last 0) i (pteOf pteTemplatePageNormalKernBootstrap oa)).l3 =
        Function.update s.l3 i (pteOf pteTemplatePageNormalKernBootstrap oa) := by
      rw [Space.setEntry, Nat.zero_mul, Nat.zero_add]
    refine ⟨s', ?_, fun n => ?_⟩
    · rw [vmBootstrapMapLoopAgain]
      rwa [entry, nextPage, nextEntry]
    · rw [leaves, after]
      by_cases later : i + 1 ≤ n ∧ n < i + 1 + count
      · have step : n - i = n - (i + 1) + 1 := by omega
        rw [if_pos later, if_pos (by omega), step, Nat.add_mul, Nat.one_mul, Nat.add_comm (_ * 4096), ← Nat.add_assoc]
      · rw [if_neg later]
        by_cases here : n = i
        · subst here
          rw [Function.update_self, if_pos (by omega), Nat.sub_self, Nat.zero_mul, Nat.add_zero]
        · rw [Function.update_of_ne here, if_neg (by omega)]

/-- Filling the tables of `vm_bootstrap`: two links and the map loop on three zeroed pages. -/
theorem bootstrapTables (mem : Mem) {base count oa : Nat} (aligned : 4096 ∣ base) (below : base + 0x3000 ≤ 2 ^ 47)
    (room : count ≤ 512) (oaAligned : 4096 ∣ oa) (small : oa + count * 4096 < 2 ^ 47) :
    ∃ s, Holds base base (base + 0x3000) s (vmBootstrapMapLoopAgain pteTemplatePageNormalKernBootstrap count oa
        (base + 0x2000)
        (((mem.memset base 0 0x3000).store64 base (pteOf pteTemplateTableKernOnly (base + 0x1000))).store64
          (base + 0x1000) (pteOf pteTemplateTableKernOnly (base + 0x2000)))) ∧
      ∀ n, s.l3 n = if n < count then pteOf pteTemplatePageNormalKernBootstrap (oa + n * 4096) else 0 := by
  have template := template_tableKernOnly
  have second : base + 0x1000 + 4096 = base + 0x2000 := Nat.add_assoc base 0x1000 0x1000
  have third : base + 0x2000 + 4096 = base + 0x3000 := Nat.add_assoc base 0x2000 0x1000
  have target₁ := template.pteToPhysAddr_pteOf (base + 0x1000) (by omega) (by omega)
  have target₂ := template.pteToPhysAddr_pteOf (base + 0x2000) (by omega) (by omega)
  have valid₁ := template.pteOf_valid (base + 0x1000)
  have valid₂ := template.pteOf_valid (base + 0x2000)
  have zeroed {a : Nat} (above : base ≤ a) (inside : a + 4096 ≤ base + 0x3000) :
      (mem.memset base 0 0x3000).memset a 0 4096 = mem.memset base 0 0x3000 :=
    memset_self fun x _ _ => memset_of_inside (by omega) (by omega)
  have root₁ : Holds base base (base + 0x1000) Space.empty (mem.memset base 0 0x3000) := by
    have := Holds.empty aligned (mem.memset base 0 0x3000)
    rwa [zeroed le_rfl (by omega)] at this
  have linked₁ := root₁.link (t := root) (k := 0) trivial trivial (by decide) not_valid_zero valid₁
    (Template.pteOf_table kernTableOnly_isTable _) target₁ (by omega)
  have address₀ : Space.empty.address base root + 0 * 8 = base := rfl
  rw [second, zeroed (by omega) (by omega), address₀] at linked₁
  have live₁ : (Space.empty.setEntry root 0 (pteOf pteTemplateTableKernOnly (base + 0x1000))).Live (middle 0) :=
    ⟨by decide, valid₁⟩
  have address₁ : (Space.empty.setEntry root 0 (pteOf pteTemplateTableKernOnly (base + 0x1000))).address base
      (middle 0) + 0 * 8 = base + 0x1000 := target₁
  have linked₂ := linked₁.link (t := middle 0) (k := 0) live₁ trivial (by decide) not_valid_zero valid₂
    (Template.pteOf_table kernTableOnly_isTable _) target₂ (by omega)
  -- the link in the root does not reach the third page, which is still zero
  have zeroed₃ : ((mem.memset base 0 0x3000).store64 base (pteOf pteTemplateTableKernOnly (base + 0x1000))).memset
      (base + 0x2000) 0 4096 =
      (mem.memset base 0 0x3000).store64 base (pteOf pteTemplateTableKernOnly (base + 0x1000)) :=
    memset_self fun x above below => by
      rw [store64_of_outside (by omega), memset_of_inside (by omega) (by omega)]
  rw [third, address₁, zeroed₃] at linked₂
  obtain ⟨s, holds, leaves⟩ := vmBootstrapMapLoopAgain_spec (i := 0) oa linked₂
    ⟨by decide, valid₁, valid₂⟩ target₂ (by omega) oaAligned small (by omega)
  rw [Nat.zero_mul, Nat.add_zero] at holds
  refine ⟨s, holds, fun n => ?_⟩
  rw [leaves]
  simp only [Nat.zero_le, true_and, Nat.zero_add, Nat.sub_zero]
  rfl

end Swink
