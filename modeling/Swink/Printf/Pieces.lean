import Swink.Printf.Emit

namespace Swink.Printf

/-- The flag characters. -/
inductive Flag
  | minus | plus | space | pound | zero | group
  deriving DecidableEq, Repr

def Flag.char : Flag → Char
  | minus => '-'
  | plus => '+'
  | space => ' '
  | pound => '#'
  | zero => '0'
  | group => '\''

def Flag.set (flags : Flags) : Flag → Flags
  | minus => { flags with minus := true }
  | plus => { flags with plus := true }
  | space => { flags with space := true }
  | pound => { flags with pound := true }
  | zero => { flags with zero := true }
  | group => { flags with group := true }

/-- A width or a precision: the next argument or the number that the digits show. -/
inductive Amount
  | star
  | digits (digits : List (Fin 10))
  deriving DecidableEq, Repr

def digitChar (d : Fin 10) : Char := Char.ofNat (48 + d.val)

def Amount.text : Amount → List Char
  | star => ['*']
  | digits ds => ds.map digitChar

def number (n : Nat) (ds : List (Fin 10)) : Nat := ds.foldl (fun n d => n * 10 + d.val) n

def Amount.value (args : List (BitVec 64)) : Amount → Except Fault (Int × List (BitVec 64))
  | star => vaArgInt args
  | digits ds => if (number 0 ds : Int) + 48 ≤ INT_MAX then .ok (number 0 ds, args) else .error (.undefined "signed overflow")

def LengthType.text : LengthType → List Char
  | char => ['h', 'h']
  | short => ['h']
  | int => []
  | intmax => ['j']
  | long => ['l']
  | longlong => ['l', 'l']
  | ptrdifft => ['t']
  | sizet => ['z']

/-- The characters that cannot end a directive, whatever stands in front. -/
def reserved : List Char := '\x00' :: "%-+ #0123456789'*.hjltz".toList

/-- A directive of a format, such as `%-8.3lx`. A width does not start with a zero, which would be a
flag, and the last character is none that belongs to the options in front of it. -/
structure Directive where
  flags : List Flag
  width : Amount
  precision : Option Amount
  type : LengthType
  spec : Char
  nonzero : ∀ d ds, width = .digits (d :: ds) → d ≠ 0
  ends : spec ∉ reserved

/-- The precision that a directive asks for. -/
def precisionValue (args : List (BitVec 64)) : Option Amount → Except Fault (Int × List (BitVec 64))
  | none => .ok (-1, args)
  | some amount => do
    let (precision, args) ← amount.value args
    .ok (if precision < 0 then -1 else precision, args)

/-- What a directive asks for, and the arguments left when its stars have taken theirs. -/
def Directive.conversion (d : Directive) (args : List (BitVec 64)) : Except Fault (Conversion × List (BitVec 64)) := do
  let flags := settleFlags (d.flags.foldl Flag.set {})
  let (width, args) ← d.width.value args
  let (flags, width) ← settleWidth flags width
  let (precision, args) ← precisionValue args d.precision
  .ok (⟨{ flags with zero := flags.zero && decide (precision < 0) }, width, precision, d.type⟩, args)

section Parsing

variable {flags : Flags} {format : List Char} {c : Char}

end Parsing

end Swink.Printf
