import Swink.Printf.Integer
import Mathlib.Tactic.FinCases

namespace Swink.Printf

variable {σ : Type} {output : Char → σ → Except Fault σ} {aux : σ} {c : Conversion} {mem : Mem} {limit : Nat}

/-- Writes a text and then ends, normally or with a fault. -/
def finish (output : Char → σ → Except Fault σ) (text : List Char) (fault : Option Fault) (aux : σ) :
    Except Fault σ := do
  let aux ← outputAll output text aux
  match fault with
  | none => .ok aux
  | some fault => .error fault

/-- Routines that write to whatever output they are given. -/
abbrev Routine : Type 1 := (σ : Type) → (Char → σ → Except Fault σ) → σ → Except Fault σ

/-- What the routine writes, and how it ends, is the same for every output. -/
def Oblivious (routine : Routine) : Prop :=
  ∃ text fault, ∀ (σ : Type) (output : Char → σ → Except Fault σ) (aux : σ),
    routine σ output aux = finish output text fault aux

theorem finish_none (text : List Char) (aux : σ) : finish output text none aux = outputAll output text aux := by
  rw [finish]
  cases outputAll output text aux <;> rfl

theorem oblivious_ok : Oblivious fun _ _ aux => .ok aux := ⟨[], none, fun _ _ _ => rfl⟩

theorem oblivious_error (fault : Fault) : Oblivious fun _ _ _ => .error fault := ⟨[], some fault, fun _ _ _ => rfl⟩

theorem oblivious_all (text : List Char) : Oblivious fun _ output aux => outputAll output text aux :=
  ⟨text, none, fun _ _ aux => (finish_none text aux).symm⟩

theorem oblivious_char (ch : Char) : Oblivious fun _ output aux => output ch aux := by
  refine ⟨[ch], none, fun σ output aux => ?_⟩
  beta_reduce
  rw [finish_none, outputAll]
  cases output ch aux <;> rfl

/-- One routine after the other. -/
theorem Oblivious.bind {first second : Routine} (one : Oblivious first) (two : Oblivious second) :
    Oblivious fun σ output aux => first σ output aux >>= second σ output := by
  obtain ⟨text, fault, runs⟩ := one
  cases fault with
  | some fault =>
    refine ⟨text, some fault, fun σ output aux => ?_⟩
    beta_reduce
    rw [runs, finish]
    cases outputAll output text aux <;> rfl
  | none =>
    obtain ⟨text', fault', runs'⟩ := two
    refine ⟨text ++ text', fault', fun σ output aux => ?_⟩
    beta_reduce
    rw [runs, finish_none, finish, outputAll_append]
    cases outputAll output text aux with
    | error fault => rfl
    | ok aux => exact runs' σ output aux

theorem oblivious_integer (value : Nat) (isSigned negative : Bool) (b : IntegerBase) (c : Conversion) :
    Oblivious fun _ output aux => formatInteger output value isSigned negative b c aux := by
  cases run : integerBuf value b c with
  | error fault =>
    refine ⟨[], some fault, fun σ output aux => ?_⟩
    simp only [formatInteger, run, error_bind]
    rfl
  | ok buf => exact ⟨_, none, fun σ output aux => (formatInteger_eq run).trans (finish_none _ aux).symm⟩

/-- A string that does not change is written as a whole. -/
theorem outputString_eq (string : Nat → Char) (cnt i : Nat) (aux : σ) :
    outputString output (fun _ => string) cnt i aux = outputAll output ((List.range' i cnt).map string) aux := by
  induction cnt generalizing i aux with
  | zero => rfl
  | succ cnt ih =>
    rw [outputString, List.range'_succ, List.map_cons, outputAll]
    cases output (string i) aux with
    | error fault => rfl
    | ok aux => exact ih (i + 1) aux

theorem oblivious_string (string : Nat → Char) (length : Int) (c : Conversion) :
    Oblivious fun _ output aux => formatString output (fun _ => string) length c aux := by
  by_cases overflow : c.width > length ∧ c.width - length > INT_MAX
  · refine ⟨[], some (.undefined "signed overflow"), fun σ output aux => ?_⟩
    unfold formatString
    beta_reduce
    rw [if_pos overflow]
    rfl
  · obtain ⟨text, fault, runs⟩ := (oblivious_all (padding (decide (c.width > length) && !c.flags.minus) ' '
      (c.width - length).toNat)).bind ((oblivious_all ((List.range length.toNat).map string)).bind
        (oblivious_all (padding (decide (c.width > length) && c.flags.minus) ' ' (c.width - length).toNat)))
    refine ⟨text, fault, fun σ output aux => ?_⟩
    rw [← runs]
    unfold formatString
    beta_reduce
    rw [if_neg overflow]
    simp only [outputPad_eq, outputString_eq, ← List.range_eq_range']

theorem oblivious_float (bits : BitVec 64) (c : Conversion) :
    Oblivious fun _ output aux => formatFloat output bits c aux := by
  cases split : splitDouble bits (powers.getD (floatPrecision c).toNat 0) with
  | error fault =>
    refine ⟨[], some fault, fun σ output aux => ?_⟩
    simp only [formatFloat, split, error_bind]
    rfl
  | ok parts =>
    obtain ⟨first, rest⟩ := parts
    by_cases overflow : first = -2 ^ 31
    · refine ⟨[], some (.undefined "signed overflow"), fun σ output aux => ?_⟩
      simp only [formatFloat, split, ok_bind]
      exact if_pos overflow
    · obtain ⟨text, fault, runs⟩ := (oblivious_integer first.natAbs true (isNegative bits) base_d
        { c with precision := -1 }).bind ((oblivious_char '.').bind (oblivious_integer rest.natAbs false false base_d
          { c with precision := if floatPrecision c = 0 then 1 else floatPrecision c }))
      refine ⟨text, fault, fun σ output aux => ?_⟩
      rw [← runs]
      simp only [formatFloat, split, ok_bind]
      exact if_neg overflow

theorem bind_assoc' {α β γ : Type} (x : Except Fault α) (f : α → Except Fault β) (g : β → Except Fault γ) :
    (x >>= f) >>= g = x >>= fun a => f a >>= g := by
  cases x <;> rfl

/-- The characters that end a conversion with a case of its own. -/
def specs : List Char := ['d', 'i', 'o', 'u', 'x', 'X', 'c', 's', 'p', 'f', 'e', 'E', 'g', 'G', 'n']

/-- The conversions that take an argument and print it. -/
def supported : List Char := ['d', 'i', 'o', 'u', 'x', 'X', 'c', 's', 'p', 'f']

/-- The arguments that a conversion leaves. -/
def leaves (spec : Char) (args : List (BitVec 64)) : List (BitVec 64) := if spec ∈ supported then args.tail else args

section Cases

variable {view : σ → Mem} {other : String → Char → σ → Except Fault σ} {spec : Char} {arg : BitVec 64} {args : List (BitVec 64)}

theorem convert_signed (which : spec = 'd' ∨ spec = 'i') (fits : signedValue c.type arg ≠ -2 ^ 63) :
    convert output view limit other spec c (arg :: args) aux =
      formatInteger output (signedValue c.type arg).natAbs true (decide (signedValue c.type arg < 0)) base_d c aux >>=
        fun aux => .ok (args, aux) := by
  rcases which with rfl | rfl
  · exact if_neg fits
  · exact if_neg fits

theorem convert_signed_overflow (which : spec = 'd' ∨ spec = 'i') (overflow : signedValue c.type arg = -2 ^ 63) :
    convert output view limit other spec c (arg :: args) aux = .error (.undefined "signed overflow") := by
  rcases which with rfl | rfl
  · exact if_pos overflow
  · exact if_pos overflow

theorem convert_unsigned (which : spec ∈ ['o', 'u', 'x', 'X']) :
    convert output view limit other spec c (arg :: args) aux =
      formatInteger output (unsignedValue c.type arg) false false (unsignedBase spec) c aux >>=
        fun aux => .ok (args, aux) := by
  fin_cases which <;> rfl

theorem convert_char : convert output view limit other 'c' c (arg :: args) aux =
    formatString output (fun _ _ => Char.ofNat (arg.setWidth 8).toNat) 1 c aux >>= fun aux => .ok (args, aux) := rfl

theorem convert_string : convert output view limit other 's' c (arg :: args) aux =
    strnlenLoop (stringOf (view aux) arg) (BitVec.ofInt 64 c.precision).toNat limit 0 >>= fun length =>
      formatString output (fun aux => stringOf (view aux) arg) (BitVec.ofNat 32 length).toInt c aux >>=
        fun aux => .ok (args, aux) := rfl

theorem convert_pointer : convert output view limit other 'p' c (arg :: args) aux =
    formatInteger output arg.toNat false false base_x { c with flags := { pound := true } } aux >>=
      fun aux => .ok (args, aux) := rfl

theorem convert_float : convert output view limit other 'f' c (arg :: args) aux =
    formatFloat output arg c aux >>= fun aux => .ok (args, aux) := rfl

theorem convert_kernel (which : spec ∈ ['e', 'E', 'g', 'G', 'n']) :
    convert output view limit other spec c args aux =
      other "<<no %%%c in kernel>>" spec aux >>= fun aux => .ok (args, aux) := by
  fin_cases which <;> rfl

theorem convert_missing (which : spec ∈ supported) :
    convert output view limit other spec c [] aux = .error (.undefined "va_arg") := by
  fin_cases which <;> rfl

theorem convert_other (unknown : spec ∉ specs) :
    convert output view limit other spec c args aux =
      other "<<no %%%c conversion>>" spec aux >>= fun aux => .ok (args, aux) := by
  unfold convert
  split <;> first | rfl | exact absurd (by decide) unknown

end Cases

section Oblivious

variable {other : (σ : Type) → (Char → σ → Except Fault σ) → String → Char → σ → Except Fault σ}
  {next : (σ : Type) → (Char → σ → Except Fault σ) → List (BitVec 64) → σ → Except Fault σ}

/-- A routine that hands on its arguments. -/
theorem oblivious_then (nexts : ∀ args, Oblivious fun σ output aux => next σ output args aux) {body : Routine}
    (one : Oblivious body) (args : List (BitVec 64)) :
    Oblivious fun σ output aux => (body σ output aux >>= fun aux => .ok (args, aux)) >>=
      fun (args, aux) => next σ output args aux := by
  obtain ⟨text, fault, runs⟩ := one.bind (nexts args)
  refine ⟨text, fault, fun σ output aux => ?_⟩
  rw [← runs]
  beta_reduce
  rw [bind_assoc']
  rfl

theorem Oblivious.congr {routine routine' : Routine} (one : Oblivious routine)
    (same : ∀ (σ : Type) (output : Char → σ → Except Fault σ) (aux : σ), routine' σ output aux = routine σ output aux) :
    Oblivious routine' := by
  obtain ⟨text, fault, runs⟩ := one
  exact ⟨text, fault, fun σ output aux => (same σ output aux).trans (runs σ output aux)⟩

/-- Every conversion is a routine that hands on the arguments it leaves. -/
theorem convert_oblivious (mem : Mem) (limit : Nat) (spec : Char) (c : Conversion) (args : List (BitVec 64))
    (others : ∀ text, Oblivious fun σ output aux => other σ output text spec aux) :
    ∃ body : Routine, Oblivious body ∧ ∀ (σ : Type) (output : Char → σ → Except Fault σ) (aux : σ),
      convert output (fun _ => mem) limit (other σ output) spec c args aux =
        body σ output aux >>= fun aux => .ok (leaves spec args, aux) := by
  by_cases unknown : spec ∉ specs
  · have left : leaves spec args = args := if_neg fun member => unknown (by
      simp only [specs, supported, List.mem_cons, List.not_mem_nil, or_false] at member ⊢
      tauto)
    exact ⟨_, others _, fun σ output aux => by rw [convert_other unknown, left]⟩
  by_cases kernel : spec ∈ ['e', 'E', 'g', 'G', 'n']
  · have left : leaves spec args = args := if_neg (by fin_cases kernel <;> decide)
    exact ⟨_, others _, fun σ output aux => by rw [convert_kernel kernel, left]⟩
  have rest : spec ∈ supported := by
    simp only [specs, supported, List.mem_cons, List.not_mem_nil, or_false, not_not] at unknown kernel ⊢
    tauto
  cases args with
  | nil => exact ⟨_, oblivious_error (.undefined "va_arg"), fun σ output aux => by rw [convert_missing rest, error_bind]⟩
  | cons arg args =>
    have left : leaves spec (arg :: args) = args := if_pos rest
    rw [left]
    by_cases signed : spec = 'd' ∨ spec = 'i'
    · by_cases overflow : signedValue c.type arg = -2 ^ 63
      · exact ⟨_, oblivious_error _, fun σ output aux => by rw [convert_signed_overflow signed overflow, error_bind]⟩
      · exact ⟨_, oblivious_integer _ _ _ _ c, fun σ output aux => by rw [convert_signed signed overflow]⟩
    by_cases unsigned : spec ∈ ['o', 'u', 'x', 'X']
    · exact ⟨_, oblivious_integer _ _ _ _ c, fun σ output aux => by rw [convert_unsigned unsigned]⟩
    have last : spec = 'c' ∨ spec = 's' ∨ spec = 'p' ∨ spec = 'f' := by
      simp only [supported, List.mem_cons, List.not_mem_nil, or_false] at rest signed unsigned
      tauto
    rcases last with rfl | rfl | rfl | rfl
    · exact ⟨_, oblivious_string _ 1 c, fun σ output aux => by rw [convert_char]⟩
    · cases length : strnlenLoop (stringOf mem arg) (BitVec.ofInt 64 c.precision).toNat limit 0 with
      | error fault =>
        exact ⟨_, oblivious_error fault, fun σ output aux => by rw [convert_string, length, error_bind, error_bind]⟩
      | ok length' => exact ⟨_, oblivious_string _ _ c, fun σ output aux => by rw [convert_string, length, ok_bind]⟩
    · exact ⟨_, oblivious_integer _ _ _ _ _, fun σ output aux => by rw [convert_pointer]⟩
    · exact ⟨_, oblivious_float _ c, fun σ output aux => by rw [convert_float]⟩

/-- A conversion and whatever comes next. -/
theorem oblivious_convert (mem : Mem) (limit : Nat) (spec : Char) (c : Conversion) (args : List (BitVec 64))
    (others : ∀ text, Oblivious fun σ output aux => other σ output text spec aux)
    (nexts : ∀ args, Oblivious fun σ output aux => next σ output args aux) :
    Oblivious fun σ output aux =>
      convert output (fun _ => mem) limit (other σ output) spec c args aux >>= fun (args, aux) => next σ output args aux := by
  obtain ⟨body, one, same⟩ := convert_oblivious mem limit spec c args others
  exact (oblivious_then nexts one (leaves spec args)).congr fun σ output aux => by rw [same]

/-- `__vprintf` at the conversion behind a `%`. -/
def conversionStep (output : Char → σ → Except Fault σ) (view : σ → Mem) (limit rounds : Nat) (format : List Char)
    (args : List (BitVec 64)) (aux : σ) : Except Fault σ := do
  let (c, format, args) ← parseConversion format args
  let other (text : String) (spec : Char) (aux : σ) : Except Fault σ :=
    vprintf output view limit rounds text.toList [BitVec.ofNat 64 spec.toNat] aux
  let (args, aux) ← convert output view limit other (format.headD '\x00') c args aux
  match format with
  | [] => .error (.undefined "format past its null byte")
  | _ :: format => vprintf output view limit rounds format args aux

section Steps

variable {view : σ → Mem} {rounds : Nat} {ch : Char} {format : List Char} {args : List (BitVec 64)}

theorem vprintf_null : vprintf output view limit (rounds + 1) ('\x00' :: format) args aux = .ok aux := by
  unfold vprintf
  rw [if_pos rfl]

theorem vprintf_literal (null : ch ≠ '\x00') (literal : ch ≠ '%') :
    vprintf output view limit (rounds + 1) (ch :: format) args aux =
      output ch aux >>= vprintf output view limit rounds format args := by
  conv_lhs => unfold vprintf
  rw [if_neg null, if_pos literal]

theorem vprintf_percent : vprintf output view limit (rounds + 1) ('%' :: '%' :: format) args aux =
    output '%' aux >>= vprintf output view limit rounds format args := by
  conv_lhs => unfold vprintf
  rw [if_neg (by decide), if_neg (by decide)]
  rfl

theorem vprintf_conversion (percent : format.head? ≠ some '%') :
    vprintf output view limit (rounds + 1) ('%' :: format) args aux =
      conversionStep output view limit rounds format args aux := by
  conv_lhs => unfold vprintf
  rw [if_neg (by decide), if_neg (by decide)]
  split
  · exact absurd rfl percent
  · rfl

end Steps

/-- What `__vprintf` writes and how it ends do not depend on where it writes: neither where it is
cut short by a fault nor where it returns. -/
theorem vprintf_oblivious (mem : Mem) (limit rounds : Nat) (format : List Char) (args : List (BitVec 64)) :
    ∃ text fault, ∀ (σ : Type) (output : Char → σ → Except Fault σ) (aux : σ),
      vprintf output (fun _ => mem) limit rounds format args aux = finish output text fault aux := by
  show Oblivious fun σ output aux => vprintf output (fun _ => mem) limit rounds format args aux
  induction rounds generalizing format args with
  | zero => exact oblivious_error .fuel
  | succ rounds ih =>
    cases format with
    | nil => exact oblivious_ok
    | cons ch format =>
      by_cases null : ch = '\x00'
      · subst null
        exact oblivious_ok.congr fun σ output aux => vprintf_null
      by_cases literal : ch ≠ '%'
      · exact ((oblivious_char ch).bind (ih format args)).congr fun σ output aux => vprintf_literal null literal
      rw [not_not] at literal
      subst literal
      by_cases percent : format.head? = some '%'
      · obtain ⟨format', rfl⟩ : ∃ format', format = '%' :: format' := by
          cases format with
          | nil => cases percent
          | cons ch format' => exact ⟨format', by rw [Option.some.inj percent]⟩
        exact ((oblivious_char '%').bind (ih format' args)).congr fun σ output aux => vprintf_percent
      cases parsed : parseConversion format args with
      | error fault =>
        exact (oblivious_error fault).congr fun σ output aux => by
          rw [vprintf_conversion percent, conversionStep, parsed, error_bind]
      | ok read =>
        obtain ⟨c, format', args'⟩ := read
        have others : ∀ text : String, Oblivious fun σ output aux =>
            vprintf output (fun _ => mem) limit rounds text.toList [BitVec.ofNat 64 (format'.headD '\x00').toNat] aux :=
          fun text => ih text.toList _
        cases format' with
        | nil =>
          let past (σ : Type) (_ : Char → σ → Except Fault σ) (_ : List (BitVec 64)) (_ : σ) : Except Fault σ :=
            .error (.undefined "format past its null byte")
          have ends : ∀ args, Oblivious fun σ output aux => past σ output args aux := fun _ => oblivious_error _
          exact (oblivious_convert mem limit '\x00' c args' others ends).congr fun σ output aux => by
              rw [vprintf_conversion percent, conversionStep, parsed, ok_bind]
              rfl
        | cons spec format' =>
          exact (oblivious_convert mem limit spec c args' others fun args => ih format' args).congr
            fun σ output aux => by
              rw [vprintf_conversion percent, conversionStep, parsed, ok_bind]
              rfl

end Oblivious

end Swink.Printf
