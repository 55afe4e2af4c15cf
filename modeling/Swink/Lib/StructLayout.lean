import Swink.Lib.ByteMemory

namespace StructLayout

mutual

/-- Object types of C: scalars by their size, arrays, and structures with their members in order. -/
inductive CType (Name : Type)
  | scalar (bytes : Nat)
  | array (element : CType Name) (count : Nat)
  | struct (members : Members Name)

inductive Members (Name : Type)
  | nil
  | cons (name : Name) (type : CType Name) (rest : Members Name)

end

/-- The next multiple of an alignment. -/
def alignUp (offset alignment : Nat) : Nat := (offset + (alignment - 1)) / alignment * alignment

variable {Name : Type}

mutual

/-- Natural alignment: a scalar is aligned to its size, an aggregate like its strictest part. -/
def CType.align : CType Name → Nat
  | .scalar bytes => bytes
  | .array element _ => element.align
  | .struct members => members.align

def Members.align : Members Name → Nat
  | .nil => 1
  | .cons _ type rest => max type.align rest.align

end

mutual

/-- `sizeof`; a structure is padded to its alignment. -/
def CType.size : CType Name → Nat
  | .scalar bytes => bytes
  | .array element count => count * element.size
  | .struct members => alignUp (members.stop 0) members.align

/-- The end of the last member when the members are placed from an offset on. -/
def Members.stop : Members Name → Nat → Nat
  | .nil, offset => offset
  | .cons _ type rest, offset => rest.stop (alignUp offset type.align + type.size)

end

variable [DecidableEq Name]

/-- The offset and the type of the named member when the members are placed from an offset on. -/
def Members.locate (name : Name) : Members Name → Nat → Option (Nat × CType Name)
  | .nil, _ => none
  | .cons own type rest, offset =>
    if own = name then some (alignUp offset type.align, type)
    else rest.locate name (alignUp offset type.align + type.size)

/-- One step of an access such as `context->gp.x[3]`. -/
inductive Step (Name : Type)
  | member (name : Name)
  | index (i : Nat)

/-- The offset and the type of what an access reaches. -/
def CType.locate : CType Name → List (Step Name) → Option (Nat × CType Name)
  | type, [] => some (0, type)
  | .struct members, .member name :: rest => do
    let (offset, type) ← members.locate name 0
    let (inner, found) ← type.locate rest
    some (offset + inner, found)
  | .array element count, .index i :: rest =>
    if i < count then do
      let (inner, found) ← element.locate rest
      some (i * element.size + inner, found)
    else none
  | _, _ => none

/-- An access goes on inside the member it names. -/
theorem CType.locate_member {members : Members Name} {name : Name} {type found : CType Name} {offset inner : Nat}
    {rest : List (Step Name)} (placed : members.locate name 0 = some (offset, type))
    (located : type.locate rest = some (inner, found)) :
    (CType.struct members).locate (.member name :: rest) = some (offset + inner, found) := by
  rw [CType.locate, placed]
  show (type.locate rest >>= fun part => some (offset + part.1, part.2)) = _
  rw [located]
  rfl

theorem CType.locate_scalar_index {bytes count i : Nat} (inside : i < count) :
    (CType.array (.scalar bytes) count : CType Name).locate [.index i] = some (i * bytes, .scalar bytes) := by
  rw [CType.locate, if_pos inside]
  rfl

/-- The value of a scalar of a given size that an access reaches in the object whose bytes are at
`pos 0`, `pos 1`, …; the access reaches no such scalar otherwise. -/
def CType.read {A : Type} (type : CType Name) (access : List (Step Name)) (bytes : Nat) (mem : A → BitVec 8)
    (pos : Nat → A) : Option (BitVec (8 * bytes)) :=
  match type.locate access with
  | some (offset, .scalar size) =>
    if size = bytes then some (ByteMemory.load (8 * bytes) mem (fun i => pos (offset + i)) bytes) else none
  | _ => none

theorem CType.read_of_locate {A : Type} {type : CType Name} {access : List (Step Name)} {offset bytes : Nat}
    (located : type.locate access = some (offset, .scalar bytes)) (mem : A → BitVec 8) (pos : Nat → A) :
    type.read access bytes mem pos = some (ByteMemory.load (8 * bytes) mem (fun i => pos (offset + i)) bytes) := by
  rw [CType.read, located]
  exact if_pos rfl

end StructLayout
