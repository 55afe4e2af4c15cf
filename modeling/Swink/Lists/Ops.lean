import Swink.Machine.LinkedList

namespace Swink.Mem

/-- Comparisons of list elements with their auxiliary data. They read what the elements are
embedded in, which no function of list.c writes. -/
abbrev ListLessFunc := Nat → Nat → Bool

def isHead (elem : Nat) (mem : Mem) : Prop := elem ≠ 0 ∧ mem.prev elem = 0 ∧ mem.next elem ≠ 0

instance (elem : Nat) (mem : Mem) : Decidable (isHead elem mem) :=
  inferInstanceAs (Decidable (_ ∧ _))

def listNext (elem : Nat) (mem : Mem) : Except Fault Nat := do
  assert (isHead elem mem ∨ isInterior elem mem) "is_head(elem) || is_interior(elem)"
  .ok (mem.next elem)

def listPrev (elem : Nat) (mem : Mem) : Except Fault Nat := do
  assert (isInterior elem mem ∨ isTail elem mem) "is_interior(elem) || is_tail(elem)"
  .ok (mem.prev elem)

def listRbegin (list : Nat) (mem : Mem) : Except Fault Nat := do
  assert (list ≠ 0) "list != NULL"
  .ok (mem.prev (listTail list))

def listRend (list : Nat) : Except Fault Nat := do
  assert (list ≠ 0) "list != NULL"
  .ok (listHead list)

def listSplice (before first last : Nat) (mem : Mem) : Except Fault Mem := do
  assert (isInterior before mem ∨ isTail before mem) "is_interior(before) || is_tail(before)"
  if first = last then .ok mem
  else
    let last ← listPrev last mem
    assert (isInterior first mem) "is_interior(first)"
    assert (isInterior last mem) "is_interior(last)"
    let mem := mem.setNext (mem.prev first) (mem.next last)
    let mem := mem.setPrev (mem.next last) (mem.prev first)
    let mem := mem.setPrev first (mem.prev before)
    let mem := mem.setNext last before
    let mem := mem.setNext (mem.prev before) first
    .ok (mem.setPrev before last)

def listPushBack (list elem : Nat) (mem : Mem) : Except Fault Mem := do
  let before ← listEnd list
  listInsert before elem mem

/-- `list_remove` with the element that it returns. -/
def listRemoveNext (elem : Nat) (mem : Mem) : Except Fault (Nat × Mem) := do
  let mem ← listRemove elem mem
  .ok (mem.next elem, mem)

def listBack (list : Nat) (mem : Mem) : Except Fault Nat := do
  let empty ← listEmpty list mem
  assert (¬empty = true) "!list_empty(list)"
  .ok (mem.prev (listTail list))

def listPopFront (list : Nat) (mem : Mem) : Except Fault (Nat × Mem) := do
  let front ← listFront list mem
  let mem ← listRemove front mem
  .ok (front, mem)

def listPopBack (list : Nat) (mem : Mem) : Except Fault (Nat × Mem) := do
  let back ← listBack list mem
  let mem ← listRemove back mem
  .ok (back, mem)

def sizeLoop (list : Nat) (mem : Mem) : Nat → Nat → Nat → Except Fault Nat
  | 0, _, _ => .error .fuel
  | rounds + 1, e, cnt => do
    let last ← listEnd list
    if e = last then .ok cnt
    else
      let e ← listNext e mem
      sizeLoop list mem rounds e ((cnt + 1) % 2 ^ 64)

def listSize (rounds list : Nat) (mem : Mem) : Except Fault Nat := do
  let first ← listBegin list mem
  sizeLoop list mem rounds first 0

/-- Exchanges two pointers in memory. -/
def swap (a b : Nat) (mem : Mem) : Mem := (mem.setPtr a (mem.ptr b)).setPtr b (mem.ptr a)

def reverseLoop (list : Nat) : Nat → Nat → Mem → Except Fault Mem
  | 0, _, _ => .error .fuel
  | rounds + 1, e, mem => do
    let last ← listEnd list
    if e = last then .ok mem
    else
      let mem := mem.swap e (e + 8)
      reverseLoop list rounds (mem.prev e) mem

def listReverse (rounds list : Nat) (mem : Mem) : Except Fault Mem := do
  let empty ← listEmpty list mem
  if empty then .ok mem
  else
    let first ← listBegin list mem
    let mem ← reverseLoop list rounds first mem
    let mem := mem.swap (listHead list + 8) (listTail list)
    .ok (mem.swap (mem.next (listHead list)) (mem.prev (listTail list) + 8))

section Ordered

variable (less : ListLessFunc)

def isSortedLoop (b : Nat) (mem : Mem) : Nat → Nat → Except Fault Bool
  | 0, _ => .error .fuel
  | rounds + 1, a => do
    let a ← listNext a mem
    if a = b then .ok true
    else
      let before ← listPrev a mem
      if less a before then .ok false else isSortedLoop b mem rounds a

def isSorted (rounds a b : Nat) (mem : Mem) : Except Fault Bool :=
  if a ≠ b then isSortedLoop less b mem rounds a else .ok true

def findEndLoop (b : Nat) (mem : Mem) : Nat → Nat → Except Fault Nat
  | 0, _ => .error .fuel
  | rounds + 1, a => do
    let a ← listNext a mem
    if a = b then .ok a
    else
      let before ← listPrev a mem
      if less a before then .ok a else findEndLoop b mem rounds a

def findEndOfRun (rounds a b : Nat) (mem : Mem) : Except Fault Nat := do
  assert (a ≠ 0) "a != NULL"
  assert (b ≠ 0) "b != NULL"
  assert (a ≠ b) "a != b"
  findEndLoop less b mem rounds a

def mergeLoop (b1 : Nat) : Nat → Nat → Nat → Mem → Except Fault Mem
  | 0, _, _, _ => .error .fuel
  | rounds + 1, a0, a1b0, mem =>
    if a0 ≠ a1b0 ∧ a1b0 ≠ b1 then
      if ¬less a1b0 a0 = true then do
        let a0 ← listNext a0 mem
        mergeLoop b1 rounds a0 a1b0 mem
      else do
        let a1b0 ← listNext a1b0 mem
        let moved ← listPrev a1b0 mem
        let mem ← listSplice a0 moved a1b0 mem
        mergeLoop b1 rounds a0 a1b0 mem
    else .ok mem

def inplaceMerge (rounds a0 a1b0 b1 : Nat) (mem : Mem) : Except Fault Mem := do
  assert (a0 ≠ 0) "a0 != NULL"
  assert (a1b0 ≠ 0) "a1b0 != NULL"
  assert (b1 ≠ 0) "b1 != NULL"
  let first ← isSorted less rounds a0 a1b0 mem
  assert (first = true) "is_sorted(a0, a1b0, less, aux)"
  let second ← isSorted less rounds a1b0 b1 mem
  assert (second = true) "is_sorted(a1b0, b1, less, aux)"
  mergeLoop less b1 rounds a0 a1b0 mem

/-- One pass of `list_sort` from `a0` on, with the number of runs written. -/
def sortPass (rounds list : Nat) : Nat → Nat → Nat → Mem → Except Fault (Nat × Mem)
  | 0, _, _, _ => .error .fuel
  | passRounds + 1, a0, outputRunCnt, mem => do
    let last ← listEnd list
    if a0 = last then .ok (outputRunCnt, mem)
    else
      let outputRunCnt := (outputRunCnt + 1) % 2 ^ 64
      let a1b0 ← findEndOfRun less rounds a0 last mem
      if a1b0 = last then .ok (outputRunCnt, mem)
      else
        let b1 ← findEndOfRun less rounds a1b0 last mem
        let mem ← inplaceMerge less rounds a0 a1b0 b1 mem
        sortPass rounds list passRounds b1 outputRunCnt mem

def sortLoop (rounds list : Nat) : Nat → Mem → Except Fault Mem
  | 0, _ => .error .fuel
  | passes + 1, mem => do
    let first ← listBegin list mem
    let (outputRunCnt, mem) ← sortPass less rounds list rounds first 0 mem
    if outputRunCnt > 1 then sortLoop rounds list passes mem else .ok mem

def listSort (rounds list : Nat) (mem : Mem) : Except Fault Mem := do
  assert (list ≠ 0) "list != NULL"
  let mem ← sortLoop less rounds list rounds mem
  let first ← listBegin list mem
  let last ← listEnd list
  let sorted ← isSorted less rounds first last mem
  assert (sorted = true) "is_sorted(list_begin(list), list_end(list), less, aux)"
  .ok mem

def insertOrderedLoop (list elem : Nat) (mem : Mem) : Nat → Nat → Except Fault Nat
  | 0, _ => .error .fuel
  | rounds + 1, e => do
    let last ← listEnd list
    if e = last then .ok e
    else if less elem e then .ok e
    else
      let e ← listNext e mem
      insertOrderedLoop list elem mem rounds e

def listInsertOrdered (rounds list elem : Nat) (mem : Mem) : Except Fault Mem := do
  assert (list ≠ 0) "list != NULL"
  assert (elem ≠ 0) "elem != NULL"
  let first ← listBegin list mem
  let e ← insertOrderedLoop less list elem mem rounds first
  listInsert e elem mem

/-- `if (duplicates != NULL) list_push_back(duplicates, next)` -/
def appendDuplicate (duplicates next : Nat) (mem : Mem) : Except Fault Mem :=
  if duplicates ≠ 0 then listPushBack duplicates next mem else .ok mem

def uniqueLoop (list duplicates : Nat) : Nat → Nat → Mem → Except Fault Mem
  | 0, _, _ => .error .fuel
  | rounds + 1, elem, mem => do
    let next ← listNext elem mem
    let last ← listEnd list
    if next = last then .ok mem
    else if ¬less elem next = true ∧ ¬less next elem = true then
      let mem ← listRemove next mem
      let mem ← appendDuplicate duplicates next mem
      uniqueLoop list duplicates rounds elem mem
    else uniqueLoop list duplicates rounds next mem

def listUnique (rounds list duplicates : Nat) (mem : Mem) : Except Fault Mem := do
  assert (list ≠ 0) "list != NULL"
  let empty ← listEmpty list mem
  if empty then .ok mem
  else
    let elem ← listBegin list mem
    uniqueLoop less list duplicates rounds elem mem

/-- The loop of `list_max` and `list_min`, where `better` says which element replaces the one
found so far. -/
def extremeLoop (better : Nat → Nat → Bool) (list : Nat) (mem : Mem) : Nat → Nat → Nat → Except Fault Nat
  | 0, _, _ => .error .fuel
  | rounds + 1, best, e => do
    let last ← listEnd list
    if e = last then .ok best
    else
      let best := if better best e then e else best
      let e ← listNext e mem
      extremeLoop better list mem rounds best e

def listExtreme (better : Nat → Nat → Bool) (rounds list : Nat) (mem : Mem) : Except Fault Nat := do
  let best ← listBegin list mem
  let last ← listEnd list
  if best ≠ last then
    let e ← listNext best mem
    extremeLoop better list mem rounds best e
  else .ok best

def listMax (rounds list : Nat) (mem : Mem) : Except Fault Nat :=
  listExtreme (fun max e => less max e) rounds list mem

def listMin (rounds list : Nat) (mem : Mem) : Except Fault Nat :=
  listExtreme (fun min e => less e min) rounds list mem

end Ordered

end Swink.Mem
