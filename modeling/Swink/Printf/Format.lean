import Mathlib.Algebra.GroupWithZero.Nat
import Mathlib.Algebra.Ring.Int.Defs
import Swink.Machine.Fault
import Swink.Machine.Memory

namespace Swink.Printf

/-- The flags of a conversion. -/
structure Flags where
  minus : Bool := false
  plus : Bool := false
  space : Bool := false
  pound : Bool := false
  zero : Bool := false
  group : Bool := false
  deriving DecidableEq, Repr

/-- The argument types that a conversion can name. -/
inductive LengthType
  | char | short | int | intmax | long | longlong | ptrdifft | sizet
  deriving DecidableEq, Repr

/-- `struct printf_conversion` -/
structure Conversion where
  flags : Flags := {}
  width : Int := 0
  precision : Int := -1
  type : LengthType := .int
  deriving DecidableEq, Repr

/-- `struct integer_base` -/
structure IntegerBase where
  base : Nat
  digits : List Char
  x : Option Char
  group : Nat
  deriving DecidableEq, Repr

def base_d : IntegerBase := ⟨10, "0123456789".toList, none, 3⟩
def base_o : IntegerBase := ⟨8, "01234567".toList, none, 3⟩
def base_x : IntegerBase := ⟨16, "0123456789abcdef".toList, some 'x', 4⟩
def base_X : IntegerBase := ⟨16, "0123456789ABCDEF".toList, some 'X', 4⟩

def INT_MAX : Int := 2 ^ 31 - 1

-- stdint.h falls back to its 32-bit limits, because nothing defines __WORDSIZE
def SIZE_MAX : Int := 4294967295
def PTRDIFF_MAX : BitVec 64 := 2147483647

def DEFAULT_FLOAT_PRECISION : Int := 6
def MAX_FLOAT_PRECISION : Int := 9

def powers : List Nat := [0, 10, 100, 1000, 10000, 100000, 1000000, 10000000, 100000000, 1000000000]

def isdigit (c : Char) : Bool := '0' ≤ c && c ≤ '9'

/-- The next variadic argument: 8 bytes for every integer, pointer or `double`. -/
def vaArg : List (BitVec 64) → Except Fault (BitVec 64 × List (BitVec 64))
  | [] => .error (.undefined "va_arg")
  | arg :: args => .ok (arg, args)

/-- `va_arg(args, int)` -/
def vaArgInt (args : List (BitVec 64)) : Except Fault (Int × List (BitVec 64)) := do
  let (arg, args) ← vaArg args
  .ok ((arg.setWidth 32).toInt, args)

/-- The flag characters in front. The end of the list is the null byte of the format. -/
def parseFlags (flags : Flags) : List Char → Flags × List Char
  | '-' :: format => parseFlags { flags with minus := true } format
  | '+' :: format => parseFlags { flags with plus := true } format
  | ' ' :: format => parseFlags { flags with space := true } format
  | '#' :: format => parseFlags { flags with pound := true } format
  | '0' :: format => parseFlags { flags with zero := true } format
  | '\'' :: format => parseFlags { flags with group := true } format
  | format => (flags, format)

/-- `n * 10 + c - '0'` in the type `int` -/
def addDigit (n : Int) (c : Char) : Except Fault Int :=
  if n * 10 + c.toNat ≤ INT_MAX then .ok (n * 10 + c.toNat - 48) else .error (.undefined "signed overflow")

def parseDigits (n : Int) : List Char → Except Fault (Int × List Char)
  | [] => .ok (n, [])
  | c :: format =>
    if isdigit c then do
      let n ← addDigit n c
      parseDigits n format
    else .ok (n, c :: format)

def parseWidth (args : List (BitVec 64)) : List Char → Except Fault (Int × List Char × List (BitVec 64))
  | '*' :: format => do
    let (width, args) ← vaArgInt args
    .ok (width, format, args)
  | format => do
    let (width, format) ← parseDigits 0 format
    .ok (width, format, args)

def parsePrecision (args : List (BitVec 64)) : List Char → Except Fault (Int × List Char × List (BitVec 64))
  | '.' :: '*' :: format => do
    let (precision, args) ← vaArgInt args
    .ok (if precision < 0 then -1 else precision, format, args)
  | '.' :: format => do
    let (precision, format) ← parseDigits 0 format
    .ok (if precision < 0 then -1 else precision, format, args)
  | format => .ok (-1, format, args)

def parseType : List Char → LengthType × List Char
  | 'h' :: 'h' :: format => (.char, format)
  | 'h' :: format => (.short, format)
  | 'j' :: format => (.intmax, format)
  | 'l' :: 'l' :: format => (.longlong, format)
  | 'l' :: format => (.long, format)
  | 't' :: format => (.ptrdifft, format)
  | 'z' :: format => (.sizet, format)
  | format => (.int, format)

/-- A negative width asks for `-` and its absolute value. -/
def settleWidth (flags : Flags) (width : Int) : Except Fault (Flags × Int) :=
  if width < 0 then
    if -width ≤ INT_MAX then .ok ({ flags with minus := true }, -width) else .error (.undefined "signed overflow")
  else .ok (flags, width)

/-- The flags that others switch off. -/
def settleFlags (flags : Flags) : Flags :=
  { flags with zero := flags.zero && !flags.minus, space := flags.space && !flags.plus }

def parseConversion (format : List Char) (args : List (BitVec 64)) :
    Except Fault (Conversion × List Char × List (BitVec 64)) := do
  let (flags, format) := parseFlags {} format
  let flags := settleFlags flags
  let (width, format, args) ← parseWidth args format
  let (flags, width) ← settleWidth flags width
  let (precision, format, args) ← parsePrecision args format
  let flags := { flags with zero := flags.zero && decide (precision < 0) }
  let (type, format) := parseType format
  .ok (⟨flags, width, precision, type⟩, format, args)

section Output

variable {σ : Type} (output : Char → σ → Except Fault σ)

def outputDup (ch : Char) : Nat → σ → Except Fault σ
  | 0, aux => .ok aux
  | cnt + 1, aux => do
    let aux ← output ch aux
    outputDup ch cnt aux

/-- Writes one after the other. -/
def outputAll : List Char → σ → Except Fault σ
  | [], aux => .ok aux
  | ch :: text, aux => do
    let aux ← output ch aux
    outputAll text aux

def outputPad (wanted : Bool) (ch : Char) (cnt : Nat) (aux : σ) : Except Fault σ :=
  if wanted then outputDup output ch cnt aux else .ok aux

end Output

/-- Appends to `char buf[64]`, kept with its last character first, as it is put out. -/
def push (ch : Char) (buf : List Char) : Except Fault (List Char) :=
  if buf.length < 64 then .ok (ch :: buf) else .error (.undefined "buf[64]")

/-- The comma before a new group of digits. -/
def separate (b : IntegerBase) (group : Bool) (digitCnt : Nat) (buf : List Char) : Except Fault (List Char) :=
  if group ∧ digitCnt > 0 ∧ digitCnt % b.group = 0 then push ',' buf else .ok buf

/-- The digits of a number, separated into groups. -/
def digitLoop (b : IntegerBase) (group : Bool) : Nat → Nat → Nat → List Char → Except Fault (List Char)
  | 0, _, _, _ => .error .fuel
  | rounds + 1, value, digitCnt, buf =>
    if value > 0 then do
      let buf ← separate b group digitCnt buf
      let buf ← push (b.digits.getD (value % b.base) '\x00') buf
      digitLoop b group rounds (value / b.base) (digitCnt + 1) buf
    else .ok buf

/-- Zeros up to the precision, as far as they fit. -/
def zeroLoop (precision : Int) : Nat → List Char → Except Fault (List Char)
  | 0, _ => .error .fuel
  | rounds + 1, buf =>
    if (buf.length : Int) < precision ∧ buf.length < 63 then do
      let buf ← push '0' buf
      zeroLoop precision rounds buf
    else .ok buf

/-- The sign character, if any. -/
def signOf (isSigned negative : Bool) (flags : Flags) : Option Char :=
  if isSigned then
    if flags.plus then some (if negative then '-' else '+')
    else if flags.space then some (if negative then '-' else ' ')
    else if negative then some '-' else none
  else none

/-- What `format_integer` accumulates in its buffer. -/
def integerBuf (value : Nat) (b : IntegerBase) (c : Conversion) : Except Fault (List Char) := do
  let buf ← digitLoop b c.flags.group 65 value 0 []
  let buf ← zeroLoop (if c.precision < 0 then 1 else c.precision) 65 buf
  if c.flags.pound ∧ b.base = 8 ∧ buf.head? ≠ some '0' then push '0' buf else .ok buf

/-- `0x` or `0X`, if any. -/
def prefixOf (x : Option Char) : List Char :=
  match x with
  | some ch => ['0', ch]
  | none => []

def padCount (width : Int) (buf : List Char) (x sign : Option Char) : Nat :=
  (width - buf.length - (if x.isSome then 2 else 0) - (if sign.isSome then 1 else 0)).toNat

section Conversions

variable {σ : Type} (output : Char → σ → Except Fault σ)

def formatInteger (value : Nat) (isSigned negative : Bool) (b : IntegerBase) (c : Conversion) (aux : σ) :
    Except Fault σ := do
  let sign := signOf isSigned negative c.flags
  let x := if c.flags.pound ∧ value ≠ 0 then b.x else none
  let buf ← integerBuf value b c
  let padCnt := padCount c.width buf x sign
  let aux ← outputPad output (!(c.flags.minus || c.flags.zero)) ' ' padCnt aux
  let aux ← outputAll output sign.toList aux
  let aux ← outputAll output (prefixOf x) aux
  let aux ← outputPad output c.flags.zero '0' padCnt aux
  let aux ← outputAll output buf aux
  outputPad output c.flags.minus ' ' padCnt aux

/-- `strnlen`, which looks at one character more than `maxlen`. -/
def strnlenLoop (string : Nat → Char) (maxlen : Nat) : Nat → Nat → Except Fault Nat
  | 0, _ => .error .fuel
  | rounds + 1, length =>
    if string length ≠ '\x00' ∧ length < maxlen then strnlenLoop string maxlen rounds (length + 1) else .ok length

/-- Each character of the string is read when it is its turn. -/
def outputString (string : σ → Nat → Char) : Nat → Nat → σ → Except Fault σ
  | 0, _, aux => .ok aux
  | cnt + 1, i, aux => do
    let aux ← output (string aux i) aux
    outputString string cnt (i + 1) aux

def formatString (string : σ → Nat → Char) (length : Int) (c : Conversion) (aux : σ) : Except Fault σ := do
  if c.width > length ∧ c.width - length > INT_MAX then .error (.undefined "signed overflow")
  else
    let aux ← outputPad output (decide (c.width > length) && !c.flags.minus) ' ' (c.width - length).toNat aux
    let aux ← outputString output string length.toNat 0 aux
    outputPad output (decide (c.width > length) && c.flags.minus) ' ' (c.width - length).toNat aux

/-- The value of a signed conversion. -/
def signedValue (type : LengthType) (arg : BitVec 64) : Int :=
  match type with
  | .char => (arg.setWidth 8).toInt
  | .short => (arg.setWidth 16).toInt
  | .int => (arg.setWidth 32).toInt
  | .intmax | .long | .longlong | .ptrdifft => arg.toInt
  | .sizet => if arg.toInt > SIZE_MAX / 2 then arg.toInt - SIZE_MAX - 1 else arg.toInt

/-- The value of an unsigned conversion. -/
def unsignedValue (type : LengthType) (arg : BitVec 64) : Nat :=
  match type with
  | .char => (arg.setWidth 8).toNat
  | .short => (arg.setWidth 16).toNat
  | .int => (arg.setWidth 32).toNat
  | .ptrdifft => (arg &&& (PTRDIFF_MAX <<< 1 ||| 1)).toNat
  | .intmax | .long | .longlong | .sizet => arg.toNat

/-- The base of an unsigned conversion. -/
def unsignedBase (spec : Char) : IntegerBase :=
  match spec with
  | 'o' => base_o
  | 'x' => base_x
  | 'X' => base_X
  | _ => base_d

def charAt (mem : Mem) (a : Nat) : Char := Char.ofNat (mem a).toNat

/-- The string that `%s` prints for a pointer. -/
def stringOf (mem : Mem) (arg : BitVec 64) : Nat → Char :=
  if arg = 0 then fun i => "(null)".toList.getD i '\x00' else fun i => charAt mem (arg.toNat + i)

/-- The absolute value of a finite `double`, in units of its smallest positive number. -/
def doubleUnits (bits : BitVec 64) : Option Nat :=
  let exponent := bits.toNat / 2 ^ 52 % 2048
  let fraction := bits.toNat % 2 ^ 52
  if exponent = 2047 then none
  else if exponent = 0 then some fraction
  else some ((2 ^ 52 + fraction) * 2 ^ (exponent - 1))

def unitsOfOne : Nat := 2 ^ 1074

/-- The nearest number with 53 significant bits; of two, the one that is even. -/
def roundUnits (n : Nat) : Nat :=
  let ulp := 2 ^ (n.log2 - 52)
  let down := n / ulp
  if 2 * (n % ulp) > ulp ∨ 2 * (n % ulp) = ulp ∧ down % 2 = 1 then (down + 1) * ulp else down * ulp

/-- `(int)` of a `double` with this sign and absolute value -/
def intOfUnits (negative : Bool) (units : Nat) : Except Fault Int :=
  let n : Int := if negative then -(units / unitsOfOne : Nat) else (units / unitsOfOne : Nat)
  if -2 ^ 31 ≤ n ∧ n ≤ INT_MAX then .ok n else .error (.undefined "conversion to int")

/-- `first` and `rest` of a `double`. What is left behind the point needs no rounding, but its
product does. -/
def splitDouble (bits : BitVec 64) (power : Nat) : Except Fault (Int × Int) :=
  match doubleUnits bits with
  | none => .error (.undefined "conversion to int")
  | some units => do
    let first ← intOfUnits bits.msb units
    let rest ← intOfUnits bits.msb (roundUnits (units % unitsOfOne * power))
    .ok (first, rest)

/-- `d < 0` -/
def isNegative (bits : BitVec 64) : Bool := bits.msb && decide (doubleUnits bits ≠ some 0)

def floatPrecision (c : Conversion) : Int :=
  min (if c.precision < 0 then DEFAULT_FLOAT_PRECISION else c.precision) MAX_FLOAT_PRECISION

def formatFloat (bits : BitVec 64) (c : Conversion) (aux : σ) : Except Fault σ := do
  let precision := floatPrecision c
  let (first, rest) ← splitDouble bits (powers.getD precision.toNat 0)
  if first = -2 ^ 31 then .error (.undefined "signed overflow")
  else
    let aux ← formatInteger output first.natAbs true (isNegative bits) base_d { c with precision := -1 } aux
    let aux ← output '.' aux
    formatInteger output rest.natAbs false false base_d { c with precision := if precision = 0 then 1 else precision } aux

/-- One conversion. `view` is the memory that the output leaves, `other` prints the text for a conversion
that is not supported, and no string is followed further than `limit`. -/
def convert (view : σ → Mem) (limit : Nat) (other : String → Char → σ → Except Fault σ) (spec : Char) (c : Conversion)
    (args : List (BitVec 64)) (aux : σ) : Except Fault (List (BitVec 64) × σ) :=
  match spec with
  | 'd' | 'i' => do
    let (arg, args) ← vaArg args
    let value := signedValue c.type arg
    if value = -2 ^ 63 then .error (.undefined "signed overflow")
    else
      let aux ← formatInteger output value.natAbs true (decide (value < 0)) base_d c aux
      .ok (args, aux)
  | 'o' | 'u' | 'x' | 'X' => do
    let (arg, args) ← vaArg args
    let aux ← formatInteger output (unsignedValue c.type arg) false false (unsignedBase spec) c aux
    .ok (args, aux)
  | 'c' => do
    let (arg, args) ← vaArg args
    let aux ← formatString output (fun _ _ => Char.ofNat (arg.setWidth 8).toNat) 1 c aux
    .ok (args, aux)
  | 's' => do
    let (arg, args) ← vaArg args
    let length ← strnlenLoop (stringOf (view aux) arg) (BitVec.ofInt 64 c.precision).toNat limit 0
    let aux ← formatString output (fun aux => stringOf (view aux) arg) (BitVec.ofNat 32 length).toInt c aux
    .ok (args, aux)
  | 'p' => do
    let (arg, args) ← vaArg args
    let aux ← formatInteger output arg.toNat false false base_x { c with flags := { pound := true } } aux
    .ok (args, aux)
  | 'f' => do
    let (arg, args) ← vaArg args
    let aux ← formatFloat output arg c aux
    .ok (args, aux)
  | 'e' | 'E' | 'g' | 'G' | 'n' => do
    let aux ← other "<<no %%%c in kernel>>" spec aux
    .ok (args, aux)
  | _ => do
    let aux ← other "<<no %%%c conversion>>" spec aux
    .ok (args, aux)

/-- `__vprintf` on a format, given up to its null byte, which the list need not hold. -/
def vprintf (view : σ → Mem) (limit : Nat) : Nat → List Char → List (BitVec 64) → σ → Except Fault σ
  | 0, _, _, _ => .error .fuel
  | _ + 1, [], _, aux => .ok aux
  | rounds + 1, ch :: format, args, aux =>
    if ch = '\x00' then .ok aux
    else if ch ≠ '%' then do
      let aux ← output ch aux
      vprintf view limit rounds format args aux
    else
      match format with
      | '%' :: format => do
        let aux ← output '%' aux
        vprintf view limit rounds format args aux
      | format => do
        let (c, format, args) ← parseConversion format args
        let other (text : String) (spec : Char) (aux : σ) : Except Fault σ :=
          vprintf view limit rounds text.toList [BitVec.ofNat 64 spec.toNat] aux
        let (args, aux) ← convert output view limit other (format.headD '\x00') c args aux
        match format with
        | [] => .error (.undefined "format past its null byte")
        | _ :: format => vprintf view limit rounds format args aux

end Conversions

end Swink.Printf
