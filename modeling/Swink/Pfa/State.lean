import Swink.Pfa.Allocator
import Mathlib.Logic.Function.Basic
import Mathlib.Data.List.Nodup

namespace Swink

/-- The allocator with its bitmaps and its metadata store as arrays of their own and its buddy
lists as lists of node addresses, front first. -/
structure Pfa where
  physmapVmBase : Nat
  pageBase : Nat
  pageCount : Nat
  lock : Nat
  buddyLists : Nat → List Nat
  buddyBitmaps : Nat → Nat → BitVec 64
  metadata : Nat → BitVec 8
  /-- whether the memory at an address is the allocator's to write a list node to -/
  mayLink : Nat → Bool

namespace Pfa

/-- `pmap_pfa_init` leaves the metadata of free pages as it finds the memory. -/
def create (pageBase pageCount : Nat) (s : Pfa) : Pfa where
  physmapVmBase := s.physmapVmBase
  pageBase := pageBase
  pageCount := pageCount
  lock := 1
  buddyLists := fun _ => []
  buddyBitmaps := fun _ _ => 0
  metadata := s.metadata
  mayLink := s.mayLink

def bitmapWord (level idx : Nat) (s : Pfa) : Except Fault (BitVec 64) :=
  if level < buddyLevels ∧ idx < bitmapWords s.pageCount level then .ok (s.buddyBitmaps level idx)
  else .error (.undefined "pfa->buddy_bitmaps")

def setBitmapWord (level idx : Nat) (word : BitVec 64) (s : Pfa) : Except Fault Pfa :=
  if level < buddyLevels ∧ idx < bitmapWords s.pageCount level then
    .ok { s with
      buddyBitmaps := Function.update s.buddyBitmaps level (Function.update (s.buddyBitmaps level) idx word) }
  else .error (.undefined "pfa->buddy_bitmaps")

/-- Whether a node is on one of the buddy lists. -/
def linked (elem : Nat) (s : Pfa) : Bool := (List.range buddyLevels).any fun level => (s.buddyLists level).contains elem

def listEmpty (level : Nat) (s : Pfa) : Except Fault Bool :=
  if level < buddyLevels then .ok (s.buddyLists level).isEmpty else .error (.undefined "pfa->buddy_lists")

def listFront (level : Nat) (s : Pfa) : Except Fault Nat :=
  if level < buddyLevels then
    match s.buddyLists level with
    | [] => .error (.panic "Assertion failed: !list_empty(list)")
    | front :: _ => .ok front
  else .error (.undefined "pfa->buddy_lists")

/-- Linking a node that is already on a list would tie two lists together, and linking one in
memory that is in use would overwrite that memory. -/
def listPushFront (level elem : Nat) (s : Pfa) : Except Fault Pfa :=
  if ¬level < buddyLevels then .error (.undefined "pfa->buddy_lists")
  else if elem = 0 then .error (.panic "Assertion failed: elem != NULL")
  else if s.linked elem then .error (.undefined "elem is on a list")
  else if ¬s.mayLink elem then .error (.undefined "elem is in use")
  else .ok { s with buddyLists := Function.update s.buddyLists level (elem :: s.buddyLists level) }

/-- `list_remove` takes a node off whatever list it is on; the links of a node that is on no
list lead anywhere. -/
def listRemove (elem : Nat) (s : Pfa) : Except Fault Pfa :=
  if s.linked elem then .ok { s with buddyLists := fun level => (s.buddyLists level).erase elem }
  else .error (.undefined "elem is on no list")

def metadataByte (idx : Nat) (s : Pfa) : Except Fault (BitVec 8) :=
  if idx < s.pageCount then .ok (s.metadata idx) else .error (.undefined "pfa->metadata")

def fillMetadata (idx count : Nat) (byte : BitVec 8) (s : Pfa) : Except Fault Pfa :=
  if idx + count ≤ s.pageCount then
    .ok { s with metadata := fun i => if idx ≤ i ∧ i < idx + count then byte else s.metadata i }
  else .error (.undefined "pfa->metadata")

instance : PfaStore Pfa where
  physmapVmBase := Pfa.physmapVmBase
  pageBase := Pfa.pageBase
  pageCount := Pfa.pageCount
  lockValue := Pfa.lock
  setLockValue value s := { s with lock := value }
  create _ pageBase pageCount s := .ok (s.create pageBase pageCount)
  bitmapWord := Pfa.bitmapWord
  setBitmapWord := Pfa.setBitmapWord
  listEmpty := Pfa.listEmpty
  listFront := Pfa.listFront
  listPushFront := Pfa.listPushFront
  listRemove := Pfa.listRemove
  metadataByte := Pfa.metadataByte
  fillMetadata := Pfa.fillMetadata

end Pfa

end Swink
