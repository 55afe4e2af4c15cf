import Swink.Printf.Pieces
import Swink.Printf.Reads

namespace Swink.Printf

variable {c : Conversion} {mem : Mem} {limit : Nat} {args rest : List (BitVec 64)} {arg : BitVec 64}

/-- The part of a string that is printed: all of it or as much as the precision allows. -/
structure Extent (string : Nat → Char) (precision : Int) (length : Nat) : Prop where
  inside : ∀ i < length, string i ≠ '\x00'
  within : 0 ≤ precision → (length : Int) ≤ precision
  ends : string length = '\x00' ∨ 0 ≤ precision ∧ (length : Int) = precision

/-- What C asks of the argument of a conversion: a number whose absolute value exists, a string that ends,
a `double` whose whole part is an `int` with an absolute value. -/
def Supplied (mem : Mem) (limit : Nat) (c : Conversion) (arg : BitVec 64) (spec : Char) : Prop :=
  ((spec = 'd' ∨ spec = 'i') → signedValue c.type arg ≠ -2 ^ 63) ∧
    (spec = 's' → ∃ length, length < limit ∧ length < 2 ^ 31 ∧ Extent (stringOf mem arg) c.precision length) ∧
    (spec = 'f' → ∃ first rest,
      splitDouble arg (powers.getD (floatPrecision c).toNat 0) = .ok (first, rest) ∧ first ≠ -2 ^ 31)

/-- One part of a format. -/
inductive Piece
  | literal (ch : Char) (plain : ch ≠ '\x00' ∧ ch ≠ '%')
  | percent
  | directive (d : Directive)

/-- The text printed in the place of a directive that is not supported. -/
def notice (spec : Char) : List Char :=
  "<<no %".toList ++ (Char.ofNat ((BitVec.ofNat 64 spec.toNat).setWidth 8).toNat ::
    (if spec ∈ ['e', 'E', 'g', 'G', 'n'] then " in kernel>>" else " conversion>>").toList)

/-- The arguments are what the pieces ask for. -/
def Ready (mem : Mem) (limit : Nat) : List Piece → List (BitVec 64) → Prop
  | [], _ => True
  | .literal _ _ :: pieces, args => Ready mem limit pieces args
  | .percent :: pieces, args => Ready mem limit pieces args
  | .directive d :: pieces, args => ∃ c args', d.conversion args = .ok (c, args') ∧
    if d.spec ∈ supported then
      ∃ arg args'', args' = arg :: args'' ∧ Supplied mem limit c arg d.spec ∧ Ready mem limit pieces args''
    else Ready mem limit pieces args'

/-- 3.14159265 to six places. -/
example : splitDouble 0x400921FB53C8D4F1 (powers.getD 6 0) = .ok (3, 141592) := by decide +kernel

section Runs

variable {σ : Type} {output : Char → σ → Except Fault σ} {format : List Char} {aux : σ} {rounds : Nat}

end Runs

end Swink.Printf
