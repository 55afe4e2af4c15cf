import Swink.Lib.Links
import Swink.Machine.Fault
import Swink.Machine.Memory
import Swink.Machine.Word
import Mathlib.Data.Set.Basic

namespace Swink

namespace Mem

/-- A pointer in memory. -/
def ptr (mem : Mem) (a : Nat) : Nat := (mem.load64 a).toNat
def setPtr (mem : Mem) (a value : Nat) : Mem := mem.store64 a (BitVec.ofNat 64 value)

/-- The fields of `struct list_elem`. -/
def prev (mem : Mem) (elem : Nat) : Nat := mem.ptr elem
def next (mem : Mem) (elem : Nat) : Nat := mem.ptr (elem + 8)
def setPrev (mem : Mem) (elem value : Nat) : Mem := mem.setPtr elem value
def setNext (mem : Mem) (elem value : Nat) : Mem := mem.setPtr (elem + 8) value

def isInterior (elem : Nat) (mem : Mem) : Prop := elem ≠ 0 ∧ mem.prev elem ≠ 0 ∧ mem.next elem ≠ 0
def isTail (elem : Nat) (mem : Mem) : Prop := elem ≠ 0 ∧ mem.prev elem ≠ 0 ∧ mem.next elem = 0

instance (elem : Nat) (mem : Mem) : Decidable (isInterior elem mem) :=
  inferInstanceAs (Decidable (_ ∧ _))
instance (elem : Nat) (mem : Mem) : Decidable (isTail elem mem) :=
  inferInstanceAs (Decidable (_ ∧ _))

/-- Addresses of the two nodes of a `struct list`. -/
def listHead (list : Nat) : Nat := list
def listTail (list : Nat) : Nat := list + 16

def listInit (list : Nat) (mem : Mem) : Except Fault Mem := do
  assert (list ≠ 0) "list != NULL"
  let mem := mem.setPrev (listHead list) 0
  let mem := mem.setNext (listHead list) (listTail list)
  let mem := mem.setPrev (listTail list) (listHead list)
  .ok (mem.setNext (listTail list) 0)

def listBegin (list : Nat) (mem : Mem) : Except Fault Nat := do
  assert (list ≠ 0) "list != NULL"
  .ok (mem.next (listHead list))

def listEnd (list : Nat) : Except Fault Nat := do
  assert (list ≠ 0) "list != NULL"
  .ok (listTail list)

def listInsert (before elem : Nat) (mem : Mem) : Except Fault Mem := do
  assert (isInterior before mem ∨ isTail before mem) "is_interior(before) || is_tail(before)"
  assert (elem ≠ 0) "elem != NULL"
  let mem := mem.setPrev elem (mem.prev before)
  let mem := mem.setNext elem before
  let mem := mem.setNext (mem.prev before) elem
  .ok (mem.setPrev before elem)

def listPushFront (list elem : Nat) (mem : Mem) : Except Fault Mem := do
  let before ← listBegin list mem
  listInsert before elem mem

def listRemove (elem : Nat) (mem : Mem) : Except Fault Mem := do
  assert (isInterior elem mem) "is_interior(elem)"
  let mem := mem.setNext (mem.prev elem) (mem.next elem)
  .ok (mem.setPrev (mem.next elem) (mem.prev elem))

def listEmpty (list : Nat) (mem : Mem) : Except Fault Bool := do
  let first ← listBegin list mem
  let last ← listEnd list
  .ok (first == last)

def listFront (list : Nat) (mem : Mem) : Except Fault Nat := do
  let empty ← listEmpty list mem
  assert (¬empty = true) "!list_empty(list)"
  .ok (mem.next (listHead list))

/-- Nodes that do not overlap, wrap or lie at `NULL`. -/
structure Cells (cells : Set Nat) : Prop where
  pos : ∀ a ∈ cells, 0 < a
  fits : ∀ a ∈ cells, a + 16 ≤ 2 ^ 64
  apart : ∀ a ∈ cells, ∀ b ∈ cells, a ≠ b → a + 16 ≤ b ∨ b + 16 ≤ a

/-- Two memories agree outside the nodes. -/
def Untouched (cells : Set Nat) (mem mem' : Mem) : Prop :=
  ∀ a, (∀ c ∈ cells, a < c ∨ c + 16 ≤ a) → mem' a = mem a

variable {cells : Set Nat} {mem mem' : Mem} {a b v : Nat}

theorem Untouched.trans {mem'' : Mem} (first : Untouched cells mem mem') (second : Untouched cells mem' mem'') :
    Untouched cells mem mem'' :=
  fun a outside => (second a outside).trans (first a outside)

/-- The memory `mem'` is `mem` up to the links of the nodes, which are `next` and `prev`. -/
structure Relinked (cells : Set Nat) (mem mem' : Mem) (next prev : Nat → Nat) : Prop where
  next_eq : ∀ a ∈ cells, mem'.next a = next a
  prev_eq : ∀ a ∈ cells, mem'.prev a = prev a
  untouched : Untouched cells mem mem'

theorem Relinked.refl (cells : Set Nat) (mem : Mem) : Relinked cells mem mem mem.next mem.prev :=
  ⟨fun _ _ => rfl, fun _ _ => rfl, fun _ _ => rfl⟩

variable {next prev : Nat → Nat}

theorem ptr_setPtr (mem : Mem) (a : Nat) {v : Nat} (small : v < 2 ^ 64) : (mem.setPtr a v).ptr a = v := by
  rw [ptr, setPtr, load64_store64, BitVec.toNat_ofNat, Nat.mod_eq_of_lt small]

theorem ptr_setPtr_of_apart (apart : b + 8 ≤ a ∨ a + 8 ≤ b) : (mem.setPtr a v).ptr b = mem.ptr b := by
  rw [ptr, setPtr, load64_store64_of_apart apart, ptr]

/-- Writing one forward link. -/
theorem Relinked.setNext (nodes : Cells cells) (so : Relinked cells mem mem' next prev) (member : b ∈ cells)
    (small : v < 2 ^ 64) : Relinked cells mem (mem'.setNext b v) (Function.update next b v) prev where
  next_eq a inside := by
    by_cases same : a = b
    · subst same
      rw [Function.update_self]
      exact ptr_setPtr _ _ small
    · have apart := nodes.apart a inside b member same
      rw [Function.update_of_ne same, ← so.next_eq a inside]
      exact ptr_setPtr_of_apart (by omega)
  prev_eq a inside := by
    rw [← so.prev_eq a inside]
    refine ptr_setPtr_of_apart ?_
    by_cases same : a = b
    · omega
    · have apart := nodes.apart a inside b member same
      omega
  untouched a outside := by
    rw [← so.untouched a outside]
    have := outside b member
    exact store64_of_outside (by omega)

/-- Writing one backward link. -/
theorem Relinked.setPrev (nodes : Cells cells) (so : Relinked cells mem mem' next prev) (member : b ∈ cells)
    (small : v < 2 ^ 64) : Relinked cells mem (mem'.setPrev b v) next (Function.update prev b v) where
  next_eq a inside := by
    rw [← so.next_eq a inside]
    refine ptr_setPtr_of_apart ?_
    by_cases same : a = b
    · omega
    · have apart := nodes.apart a inside b member same
      omega
  prev_eq a inside := by
    by_cases same : a = b
    · subst same
      rw [Function.update_self]
      exact ptr_setPtr _ _ small
    · have apart := nodes.apart a inside b member same
      rw [Function.update_of_ne same, ← so.prev_eq a inside]
      exact ptr_setPtr_of_apart (by omega)
  untouched a outside := by
    rw [← so.untouched a outside]
    have := outside b member
    exact store64_of_outside (by omega)

/-- Inserting a fresh node before `before`: four links change. -/
theorem listInsert_spec (nodes : Cells cells) {before elem : Nat} (atBefore : before ∈ cells) (atElem : elem ∈ cells)
    (atPrev : mem.prev before ∈ cells) (fresh : elem ≠ before) :
    ∃ mem', listInsert before elem mem = .ok mem' ∧ Relinked cells mem mem'
      (Function.update (Function.update mem.next elem before) (mem.prev before) elem)
      (Function.update (Function.update mem.prev elem (mem.prev before)) before elem) := by
  have beforePos := nodes.pos before atBefore
  have prevPos := nodes.pos _ atPrev
  have elemPos := nodes.pos elem atElem
  have small (c : Nat) (member : c ∈ cells) : c < 2 ^ 64 := by
    have := nodes.fits c member
    omega
  have one := (Relinked.refl cells mem).setPrev nodes atElem (small _ atPrev)
  have two := one.setNext nodes atElem (small _ atBefore)
  have kept : ((mem.setPrev elem (mem.prev before)).setNext elem before).prev before = mem.prev before := by
    rw [two.prev_eq before atBefore, Function.update_of_ne (Ne.symm fresh)]
  have three := two.setNext nodes atPrev (small _ atElem)
  refine ⟨_, ?_, three.setPrev nodes atBefore (small _ atElem)⟩
  have valid : isInterior before mem ∨ isTail before mem := by
    by_cases zero : mem.next before = 0
    · exact Or.inr ⟨by omega, by omega, zero⟩
    · exact Or.inl ⟨by omega, by omega, zero⟩
  rw [listInsert, assert_of valid, ok_bind, assert_of (show elem ≠ 0 by omega), ok_bind]
  simp only [kept]

/-- Unlinking an interior node: two links change. -/
theorem listRemove_spec (nodes : Cells cells) {elem : Nat} (atElem : elem ∈ cells) (atPrev : mem.prev elem ∈ cells)
    (atNext : mem.next elem ∈ cells) (different : mem.prev elem ≠ elem) :
    ∃ mem', listRemove elem mem = .ok mem' ∧ Relinked cells mem mem'
      (Function.update mem.next (mem.prev elem) (mem.next elem))
      (Function.update mem.prev (mem.next elem) (mem.prev elem)) := by
  have elemPos := nodes.pos elem atElem
  have prevPos := nodes.pos _ atPrev
  have nextPos := nodes.pos _ atNext
  have small (c : Nat) (member : c ∈ cells) : c < 2 ^ 64 := by
    have := nodes.fits c member
    omega
  have one := (Relinked.refl cells mem).setNext nodes atPrev (small _ atNext)
  have keptNext : (mem.setNext (mem.prev elem) (mem.next elem)).next elem = mem.next elem := by
    rw [one.next_eq elem atElem, Function.update_of_ne (Ne.symm different)]
  have keptPrev : (mem.setNext (mem.prev elem) (mem.next elem)).prev elem = mem.prev elem := one.prev_eq elem atElem
  refine ⟨_, ?_, one.setPrev nodes atNext (small _ atPrev)⟩
  rw [listRemove, assert_of (show isInterior elem mem from ⟨by omega, by omega, by omega⟩), ok_bind]
  simp only [keptNext, keptPrev]

/-- Initialising a list links its two sentinel nodes and writes nothing else. -/
theorem listInit_spec {list : Nat} (pos : 0 < list) (fits : list + 32 ≤ 2 ^ 64) (mem : Mem) :
    ∃ mem', listInit list mem = .ok mem' ∧ mem'.next (listHead list) = listTail list ∧
      mem'.prev (listTail list) = listHead list ∧ ∀ a, a < list ∨ list + 32 ≤ a → mem' a = mem a := by
  let head := (mem.setPrev (listHead list) 0).setNext (listHead list) (listTail list)
  let linked := head.setPrev (listTail list) (listHead list)
  have nextHead : head.next (listHead list) = listTail list := ptr_setPtr _ _ (by unfold listTail; omega)
  have nextLinked : linked.next (listHead list) = listTail list :=
    (ptr_setPtr_of_apart (by unfold listHead listTail; omega)).trans nextHead
  have prevLinked : linked.prev (listTail list) = listHead list := ptr_setPtr _ _ (by unfold listHead; omega)
  refine ⟨linked.setNext (listTail list) 0, ?_, ?_, ?_, fun a outside => ?_⟩
  · rw [listInit, assert_of (show list ≠ 0 by omega)]
    rfl
  · exact (ptr_setPtr_of_apart (by unfold listHead listTail; omega)).trans nextLinked
  · exact (ptr_setPtr_of_apart (by omega)).trans prevLinked
  · show ((((mem.setPtr list 0).setPtr (list + 8) (list + 16)).setPtr (list + 16) list).setPtr (list + 16 + 8) 0) a =
      mem a
    unfold setPtr
    rw [store64_of_outside (by omega), store64_of_outside (by omega), store64_of_outside (by omega),
      store64_of_outside (by omega)]

end Mem

end Swink
