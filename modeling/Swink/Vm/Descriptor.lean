import Swink.Machine.Word

namespace Swink

/-- The bits of table and block descriptors, pmap_asm.h. -/
def uxnTable : BitVec 64 := 1 <<< 60
def pxnTable : BitVec 64 := 1 <<< 59
def uxnBlock : BitVec 64 := 1 <<< 54
def pxnBlock : BitVec 64 := 1 <<< 53
def accessFlagBlock : BitVec 64 := 1 <<< 10

def outputAddressMask : BitVec 64 := ((1 <<< (47 - 12)) - 1) <<< 12
def outputAddressToPte (oa : BitVec 64) : BitVec 64 := oa &&& outputAddressMask

def apKernRwUserNa : BitVec 64 := 0b00
def apKernRoUserNa : BitVec 64 := 0b10
def apBlockToPte (ap : BitVec 64) : BitVec 64 := ap <<< 6
def apTableToPte (ap : BitVec 64) : BitVec 64 := ap <<< 61

def shNonShareable : BitVec 64 := 0b00
def shOuterShareable : BitVec 64 := 0b10
def shToPte (sh : BitVec 64) : BitVec 64 := sh <<< 8

def mairIdxNormal : BitVec 64 := 0
def mairIdxDevice : BitVec 64 := 1
def mairIdxToPte (mair : BitVec 64) : BitVec 64 := mair <<< 2

def pteInvalid : BitVec 64 := 0
def pteValid : BitVec 64 := 0b1
def pteTypeTable : BitVec 64 := 0b10
def pteValidTable : BitVec 64 := pteTypeTable ||| pteValid

def pteTemplatePageDeviceKernBase : BitVec 64 :=
  pteValidTable ||| uxnTable ||| pxnTable ||| shToPte shNonShareable ||| mairIdxToPte mairIdxDevice ||| accessFlagBlock

def pteTemplatePageDeviceKernRw : BitVec 64 := pteTemplatePageDeviceKernBase ||| apBlockToPte apKernRwUserNa

def pteTemplatePageNormalKernBase : BitVec 64 :=
  pteValidTable ||| uxnTable ||| shToPte shOuterShareable ||| mairIdxToPte mairIdxNormal ||| accessFlagBlock

def pteTemplatePageNormalKernRx : BitVec 64 := pteTemplatePageNormalKernBase ||| apBlockToPte apKernRoUserNa

def pteTemplatePageNormalKernRw : BitVec 64 :=
  pteTemplatePageNormalKernBase ||| apBlockToPte apKernRwUserNa ||| pxnTable

def pteTemplatePageNormalKernRo : BitVec 64 :=
  pteTemplatePageNormalKernBase ||| apBlockToPte apKernRoUserNa ||| pxnTable

def pteTemplatePageNormalKernBootstrap : BitVec 64 := pteTemplatePageNormalKernBase ||| apBlockToPte apKernRwUserNa

def pteTemplateTableKernOnly : BitVec 64 :=
  pteValidTable ||| uxnTable ||| apTableToPte apKernRwUserNa ||| accessFlagBlock

/-- `pte & PTE_VALID`, and the bit that tells a table from a block. -/
def Valid (pte : BitVec 64) : Prop := pte &&& pteValid ≠ 0
def IsTable (pte : BitVec 64) : Prop := pte &&& pteTypeTable ≠ 0

instance (pte : BitVec 64) : Decidable (Valid pte) := inferInstanceAs (Decidable (_ ≠ _))
instance (pte : BitVec 64) : Decidable (IsTable pte) := inferInstanceAs (Decidable (_ ≠ _))

def pteToPhysAddr (pte : BitVec 64) : Nat :=
  if ¬Valid pte then physAddrInvalid else ((pte &&& outputAddressMask) >>> 0).toNat

/-- A template of a valid entry without address bits. -/
structure Template (template : BitVec 64) : Prop where
  valid : template &&& pteValid = pteValid
  no_address : template &&& outputAddressMask = 0

/-- The entry that a template makes of an address. -/
def pteOf (template : BitVec 64) (oa : Nat) : BitVec 64 := template ||| outputAddressToPte (BitVec.ofNat 64 oa)

theorem valid_iff (pte : BitVec 64) : Valid pte ↔ pte.getLsbD 0 = true := by
  have only : pte &&& pteValid = if pte.getLsbD 0 then 1 else 0 := by
    apply BitVec.eq_of_getLsbD_eq
    intro i lt
    rw [BitVec.getLsbD_and]
    rcases Nat.eq_zero_or_pos i with rfl | pos
    · cases pte.getLsbD 0 <;> simp [pteValid]
    · have off : pteValid.getLsbD i = false := by
        simp [pteValid]
        omega
      rw [off]
      cases pte.getLsbD 0 <;> simp
      omega
  rw [Valid, only]
  cases pte.getLsbD 0 <;> simp

theorem not_valid_zero : ¬Valid 0 := by decide

theorem getLsbD_outputAddressMask (i : Nat) : outputAddressMask.getLsbD i = decide (12 ≤ i ∧ i < 47) := by
  rcases Nat.lt_or_ge i 64 with lt | ge
  · revert i
    decide
  · rw [BitVec.getLsbD_of_ge _ _ ge]
    simp
    omega

/-- A page-aligned address below the limit of the format is its own output address. -/
theorem outputAddressToPte_of_aligned {oa : Nat} (aligned : 4096 ∣ oa) (small : oa < 2 ^ 47) :
    outputAddressToPte (BitVec.ofNat 64 oa) = BitVec.ofNat 64 oa := by
  apply BitVec.eq_of_getLsbD_eq
  intro i lt
  rw [outputAddressToPte, BitVec.getLsbD_and, getLsbD_outputAddressMask, BitVec.getLsbD_ofNat]
  by_cases inside : 12 ≤ i ∧ i < 47
  · simp [inside]
  · have off : oa.testBit i = false := by
      rcases Nat.lt_or_ge i 12 with low | high
      · obtain ⟨k, rfl⟩ := aligned
        rw [show 4096 * k = k * 2 ^ 12 by ring, Nat.testBit_mul_two_pow]
        simp
        omega
      · exact Nat.testBit_lt_two_pow (small.trans_le (Nat.pow_le_pow_right (by omega) (by omega)))
    simp [off]

theorem Template.pteOf_valid {template : BitVec 64} (valid : Template template) (oa : Nat) :
    Valid (pteOf template oa) := by
  have bit : template.getLsbD 0 = true := by
    have := congrArg (fun pte => pte.getLsbD 0) valid.valid
    simpa [pteValid] using this
  rw [valid_iff, pteOf, BitVec.getLsbD_or, bit, Bool.true_or]

theorem Template.pteOf_table {template : BitVec 64} (table : IsTable template) (oa : Nat) :
    IsTable (pteOf template oa) := by
  intro none
  refine table ?_
  rw [pteOf, BitVec.and_comm, BitVec.and_or_distrib_left] at none
  rw [BitVec.and_comm]
  exact (BitVec.or_eq_zero_iff.mp none).1

/-- The address that was put into an entry comes back out. -/
theorem Template.pteToPhysAddr_pteOf {template : BitVec 64} (valid : Template template) (oa : Nat) (aligned : 4096 ∣ oa)
    (small : oa < 2 ^ 47) : pteToPhysAddr (pteOf template oa) = oa := by
  have address : pteOf template oa &&& outputAddressMask = BitVec.ofNat 64 oa := by
    have own := outputAddressToPte_of_aligned aligned small
    rw [pteOf, own, BitVec.and_comm, BitVec.and_or_distrib_left, BitVec.and_comm, valid.no_address,
      BitVec.and_comm outputAddressMask]
    exact BitVec.zero_or.trans own
  rw [pteToPhysAddr, if_neg (not_not_intro (valid.pteOf_valid oa)), address, BitVec.ushiftRight_zero,
    BitVec.toNat_ofNat, Nat.mod_eq_of_lt (by omega)]

theorem template_tableKernOnly : Template pteTemplateTableKernOnly := ⟨by decide, by decide⟩
theorem template_normalKernRx : Template pteTemplatePageNormalKernRx := ⟨by decide, by decide⟩
theorem template_normalKernRo : Template pteTemplatePageNormalKernRo := ⟨by decide, by decide⟩
theorem template_normalKernRw : Template pteTemplatePageNormalKernRw := ⟨by decide, by decide⟩
theorem template_deviceKernRw : Template pteTemplatePageDeviceKernRw := ⟨by decide, by decide⟩
theorem template_normalKernBootstrap : Template pteTemplatePageNormalKernBootstrap := ⟨by decide, by decide⟩

end Swink
