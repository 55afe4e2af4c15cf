import Swink.Testing.Debug

namespace Swink.TestPmapPfa
open PfaImage Mem
variable {mdsOffset : Nat → Nat}

/-- The memory and the static variables of test_pmap_pfa.c. -/
structure Statics (mdsOffset : Nat → Nat) where
  image : PfaImage mdsOffset
  pfaOriginalState : List Nat
  oomSweepRunCnt : Int

/-- `pfa_metadata_m` as `setup` leaves it. -/
def pfaMetadata : BitVec 8 := PmapPageType.kernelData.metadata

def setup (rounds : Nat) (t : Statics mdsOffset) : Except Fault (Int × Statics mdsOffset) := do
  let (state, image) ← pmapPfaGetState rounds buddyLevels t.image
  .ok (0, { t with image, pfaOriginalState := state })

/-- The end of every test: whether the allocator is back where it was. -/
def compareState (rounds : Nat) (t : Statics mdsOffset) : Except Fault (Int × Statics mdsOffset) := do
  let (tempState, image) ← pmapPfaGetState rounds buddyLevels t.image
  if tempState ≠ t.pfaOriginalState then
    let _ ← pmapPfaDumpState rounds image
    .ok (-1, { t with image })
  else .ok (0, { t with image })

/-- `for (pg_count = 1; pg_count < 32; pg_count++)` and `for (pg_count = 31; pg_count >= 1; pg_count--)` -/
def ascending : List Nat := List.range' 1 31
def descending : List Nat := ascending.reverse

def simpleSweepLoop (rounds : Nat) : List Nat → Statics mdsOffset → Except Fault (Int × Statics mdsOffset)
  | [], t => .ok (0, t)
  | pgCount :: counts, t => do
    let (addr, image) ← pmapPfaAllocContig (pageSize * pgCount) pfaMetadata t.image
    let image ← pmapPfaFreeContig addr (pageSize * pgCount) image
    let (result, t) ← compareState rounds { t with image }
    if result < 0 then .ok (result, t) else simpleSweepLoop rounds counts t

def simpleSweep (rounds : Nat) (t : Statics mdsOffset) : Except Fault (Int × Statics mdsOffset) :=
  simpleSweepLoop rounds ascending t

def allocLoop : List Nat → (Nat → Nat) → PfaImage mdsOffset → Except Fault ((Nat → Nat) × PfaImage mdsOffset)
  | [], addrs, image => .ok (addrs, image)
  | pgCount :: counts, addrs, image => do
    let (addr, image) ← pmapPfaAllocContig (pageSize * pgCount) pfaMetadata image
    allocLoop counts (Function.update addrs (pgCount - 1) addr) image

def freeLoop (addrs : Nat → Nat) : List Nat → PfaImage mdsOffset → Except Fault (PfaImage mdsOffset)
  | [], image => .ok image
  | pgCount :: counts, image => do
    let image ← pmapPfaFreeContig (addrs (pgCount - 1)) (pageSize * pgCount) image
    freeLoop addrs counts image

/-- The array `addrs` starts with whatever is on the stack. -/
def multiSweep (rounds : Nat) (addrs : Nat → Nat) (t : Statics mdsOffset) : Except Fault (Int × Statics mdsOffset) := do
  let (addrs, image) ← allocLoop ascending addrs t.image
  let image ← freeLoop addrs descending image
  let (addrs, image) ← allocLoop ascending addrs image
  let image ← freeLoop addrs ascending image
  let (addrs, image) ← allocLoop descending addrs image
  let image ← freeLoop addrs ascending image
  compareState rounds { t with image }

def OOM_SWEEP_MAGIC : BitVec 64 := 0xAAAAAAAACAFECAFE

def INT_MAX : Int := 2 ^ 31 - 1

/-- `OOM_SWEEP_MAGIC + oom_sweep_run_cnt` -/
def magicOf (cnt : Int) : BitVec 64 := OOM_SWEEP_MAGIC + BitVec.ofInt 64 cnt

/-- Where `elem` lies in `struct oom_sweep_page`. -/
def elemOffset : Nat := 8

/-- The loop that takes all pages; `true` when a page was already marked. `l` is the list on the stack. -/
def oomAllocLoop (l : Nat) (magic : BitVec 64) : Nat → PfaImage mdsOffset → Except Fault (Bool × PfaImage mdsOffset)
  | 0, _ => .error .fuel
  | rounds + 1, image => do
    let (addr, image) ← pmapPfaAllocContig pageSize pfaMetadata image
    if addr = physAddrInvalid then .ok (false, image)
    else
      let osp := pmapPaToKva image.physmapVmBase addr
      if image.mem.load64 osp = magic then .ok (true, image)
      else
        let mem := image.mem.store64 osp magic
        let mem ← listPushFront l (osp + elemOffset) mem
        oomAllocLoop l magic rounds (image.withMem mem)

/-- The loop that gives all pages back. -/
def oomFreeLoop (l : Nat) : Nat → Nat → PfaImage mdsOffset → Except Fault (PfaImage mdsOffset)
  | 0, _, _ => .error .fuel
  | rounds + 1, e, image => do
    let last ← listEnd l
    if e = last then .ok image
    else
      let eNext ← listNext e image.mem
      let mem ← listRemove e image.mem
      let addr ← pmapPhysmapKvaToPa image.physmapVmBase (e - elemOffset)
      let image ← pmapPfaFreeContig addr pageSize (image.withMem mem)
      oomFreeLoop l rounds eNext image

def oomSweep (rounds l : Nat) (t : Statics mdsOffset) : Except Fault (Int × Statics mdsOffset) := do
  let mem ← listInit l t.image.mem
  if t.oomSweepRunCnt = INT_MAX then .error (.undefined "signed overflow")
  else
    let cnt := t.oomSweepRunCnt + 1
    let (again, image) ← oomAllocLoop l (magicOf cnt) rounds (t.image.withMem mem)
    if again then .ok (-1, { t with image, oomSweepRunCnt := cnt })
    else
      let e ← listBegin l image.mem
      let image ← oomFreeLoop l rounds e image
      compareState rounds { t with image, oomSweepRunCnt := cnt }

/-- `cases` -/
inductive Case
  | simpleSweep | multiSweep | oomSweep
  deriving DecidableEq, Repr

def cases : List Case := [.simpleSweep, .multiSweep, .oomSweep]

/-- A case with the stack it runs on: where its list lies and what its array holds. -/
def Case.function (rounds l : Nat) (addrs : Nat → Nat) : Case → Statics mdsOffset → Except Fault (Int × Statics mdsOffset)
  | simpleSweep => TestPmapPfa.simpleSweep rounds
  | multiSweep => TestPmapPfa.multiSweep rounds addrs
  | oomSweep => TestPmapPfa.oomSweep rounds l

/-- The loop of `test_runner_run` over the cases of a suite, with the number of passed ones. -/
def runCases (rounds l : Nat) (addrs : Nat → Nat) : List Case → Nat → Statics mdsOffset →
    Except Fault (Nat × Statics mdsOffset)
  | [], passed, t => .ok (passed, t)
  | case :: cases, passed, t => do
    let (result, t) ← case.function rounds l addrs t
    runCases rounds l addrs cases (if result < 0 then passed else passed + 1) t

/-- `test_runner_run` on the suite `test_pmap_pfa`, which has no teardown, up to the shutdown:
`test_pass_count` and `test_count`. -/
def testRunnerRun (rounds l : Nat) (addrs : Nat → Nat) (suite : List Case) (t : Statics mdsOffset) :
    Except Fault ((Nat × Nat) × Statics mdsOffset) := do
  let (result, t) ← setup rounds t
  if result < 0 then .error (.panic "Test suite setup failed")
  else
    let (passed, t) ← runCases rounds l addrs suite 0 t
    .ok ((passed, suite.length), t)

end Swink.TestPmapPfa
