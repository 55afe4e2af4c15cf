import Mathlib.Data.List.Basic
import Mathlib.Tactic.Ring
import Swink.Printf.Format

namespace Swink.Printf

variable {σ : Type} {output : Char → σ → Except Fault σ} {aux : σ} {b : IntegerBase} {c : Conversion} {text buf : List Char}
  {value : Nat}

theorem outputAll_append (output : Char → σ → Except Fault σ) (text text' : List Char) (aux : σ) :
    outputAll output (text ++ text') aux = outputAll output text aux >>= fun aux => outputAll output text' aux := by
  induction text generalizing aux with
  | nil => rfl
  | cons ch text ih =>
    rw [List.cons_append, outputAll, outputAll]
    cases output ch aux with
    | error fault => rfl
    | ok aux => exact ih aux

theorem outputDup_eq (ch : Char) (cnt : Nat) (aux : σ) :
    outputDup output ch cnt aux = outputAll output (List.replicate cnt ch) aux := by
  induction cnt generalizing aux with
  | zero => rfl
  | succ cnt ih =>
    rw [outputDup, List.replicate_succ, outputAll]
    cases output ch aux with
    | error fault => rfl
    | ok aux => exact ih aux

/-- The text of a wanted padding. -/
def padding (wanted : Bool) (ch : Char) (cnt : Nat) : List Char := if wanted then List.replicate cnt ch else []

theorem outputPad_eq (wanted : Bool) (ch : Char) (cnt : Nat) (aux : σ) :
    outputPad output wanted ch cnt aux = outputAll output (padding wanted ch cnt) aux := by
  cases wanted with
  | false => rfl
  | true => exact outputDup_eq ch cnt aux

/-- The value of a digit of any base. -/
def digitOf (ch : Char) : Option Nat :=
  if '0' ≤ ch ∧ ch ≤ '9' then some (ch.toNat - 48)
  else if 'a' ≤ ch ∧ ch ≤ 'f' then some (ch.toNat - 87)
  else if 'A' ≤ ch ∧ ch ≤ 'F' then some (ch.toNat - 55)
  else none

/-- The number that a reader finds in a text, who skips whatever is no digit. -/
def readOn (base : Nat) (n : Nat) (text : List Char) : Nat :=
  text.foldl (fun n ch => match digitOf ch with
    | some d => n * base + d
    | none => n) n

def readBack (base : Nat) (text : List Char) : Nat := readOn base 0 text

/-- How many digits a text has. -/
def digitCount (text : List Char) : Nat := (text.filter fun ch => (digitOf ch).isSome).length

theorem readOn_append (base n : Nat) (text text' : List Char) :
    readOn base n (text ++ text') = readOn base (readOn base n text) text' := List.foldl_append ..

theorem readOn_eq (base n : Nat) (text : List Char) :
    readOn base n text = n * base ^ digitCount text + readBack base text := by
  induction text generalizing n with
  | nil => simp [readOn, readBack, digitCount]
  | cons ch text ih =>
    have step (m : Nat) : readOn base m (ch :: text) = readOn base (match digitOf ch with
      | some d => m * base + d
      | none => m) text := rfl
    rw [readBack, step, step, ih, ih]
    cases digit : digitOf ch with
    | none => simp [digitCount, digit, readBack, readOn]
    | some d =>
      simp only [digitCount, digit, Option.isSome_some, List.filter_cons_of_pos, List.length_cons]
      ring

theorem readBack_append (base : Nat) (text text' : List Char) :
    readBack base (text ++ text') = readBack base text * base ^ digitCount text' + readBack base text' := by
  rw [readBack, readOn_append, readOn_eq]
  rfl

theorem readBack_single {base d : Nat} {ch : Char} (digit : digitOf ch = some d) : readBack base [ch] = d := by
  simp only [readBack, readOn, List.foldl_cons, List.foldl_nil, digit, Nat.zero_mul, Nat.zero_add]

/-- A text without digits is worth nothing, in front or behind. -/
theorem readBack_of_blank {text : List Char} (blank : ∀ ch ∈ text, digitOf ch = none) (base : Nat) :
    readBack base text = 0 ∧ digitCount text = 0 := by
  have empty : text.filter (fun ch => (digitOf ch).isSome) = [] :=
    List.filter_eq_nil_iff.mpr fun ch member => by simp [blank ch member]
  have count : digitCount text = 0 := by rw [digitCount, empty, List.length_nil]
  refine ⟨?_, count⟩
  induction text with
  | nil => rfl
  | cons ch text ih =>
    have none := blank ch (List.mem_cons_self ..)
    have step : readBack base (ch :: text) = readOn base 0 text := by
      rw [readBack, readOn, List.foldl_cons, none]
      rfl
    rw [step]
    refine ih (fun c member => blank c (List.mem_cons_of_mem _ member)) ?_ ?_
    · exact List.filter_eq_nil_iff.mpr fun c member => by simp [blank c (List.mem_cons_of_mem _ member)]
    · rw [digitCount, List.filter_eq_nil_iff.mpr fun c member => by simp [blank c (List.mem_cons_of_mem _ member)],
        List.length_nil]

theorem readBack_zeros (base cnt : Nat) : readBack base (List.replicate cnt '0') = 0 := by
  induction cnt with
  | zero => rfl
  | succ cnt ih =>
    have step : readBack base (List.replicate (cnt + 1) '0') = readOn base 0 (List.replicate cnt '0') := by
      rw [readBack, List.replicate_succ, readOn, List.foldl_cons]
      simp [digitOf, readOn]
    rw [step]
    exact ih

/-- The bases of the conversions. -/
structure Proper (b : IntegerBase) : Prop where
  big : 8 ≤ b.base
  digit : ∀ d < b.base, digitOf (b.digits.getD d '\x00') = some d
  notMinus : ∀ d < b.base, b.digits.getD d '\x00' ≠ '-'
  mark : ∀ ch ∈ b.x, digitOf ch = none ∧ ch ≠ '-'

theorem proper_d : Proper base_d := ⟨by decide, by decide, by decide, nofun⟩
theorem push_of (ch : Char) (room : buf.length < 64) : push ch buf = .ok (ch :: buf) := if_pos room

/-- Digits and commas. -/
def Numeral (text : List Char) : Prop := ∀ ch ∈ text, ch ≠ '-'

/-- The loop puts the digits of the value in front of the buffer, at most two characters for each
factor of the base that is left. -/
theorem digitLoop_spec (proper : Proper b) (group : Bool) {left : Nat} :
    ∀ (value digitCnt rounds : Nat) (buf : List Char), value < b.base ^ left → left < rounds →
      buf.length + 2 * left ≤ 64 → Numeral buf → digitCount buf = digitCnt →
      ∃ buf', digitLoop b group rounds value digitCnt buf = .ok buf' ∧ buf'.length ≤ buf.length + 2 * left ∧
        Numeral buf' ∧ readBack b.base buf' = value * b.base ^ digitCnt + readBack b.base buf := by
  induction left with
  | zero =>
    intro value digitCnt rounds buf small enough _ numeral _
    obtain ⟨rounds, rfl⟩ := Nat.exists_eq_succ_of_ne_zero (by omega : rounds ≠ 0)
    rw [Nat.pow_zero, Nat.lt_one_iff] at small
    subst small
    exact ⟨buf, by rw [digitLoop, if_neg (Nat.lt_irrefl 0)], by omega, numeral, by rw [Nat.zero_mul, Nat.zero_add]⟩
  | succ left ih =>
    intro value digitCnt rounds buf small enough room numeral count
    obtain ⟨rounds, rfl⟩ := Nat.exists_eq_succ_of_ne_zero (by omega : rounds ≠ 0)
    have big := proper.big
    by_cases zero : value = 0
    · subst zero
      exact ⟨buf, by rw [digitLoop, if_neg (Nat.lt_irrefl 0)], by omega, numeral, by rw [Nat.zero_mul, Nat.zero_add]⟩
    · have digitLt : value % b.base < b.base := Nat.mod_lt _ (by omega)
      have quotient : value / b.base < b.base ^ left := by
        rw [Nat.div_lt_iff_lt_mul (by omega)]
        rwa [Nat.pow_succ] at small
      -- a comma is no digit
      obtain ⟨spaced, separated, shorter, numeral', count', worth⟩ : ∃ spaced, separate b group digitCnt buf = .ok spaced ∧
          spaced.length ≤ buf.length + 1 ∧ Numeral spaced ∧ digitCount spaced = digitCnt ∧
          readBack b.base spaced = readBack b.base buf := by
        unfold separate
        split
        · refine ⟨',' :: buf, push_of _ (by omega), by simp, ?_, ?_, rfl⟩
          · exact List.forall_mem_cons.mpr ⟨by decide, numeral⟩
          · rw [← count]
            rfl
        · exact ⟨buf, rfl, by omega, numeral, count, rfl⟩
      obtain ⟨buf', run, length, numeral'', value'⟩ := ih (value / b.base) (digitCnt + 1) rounds
        (b.digits.getD (value % b.base) '\x00' :: spaced) quotient (by omega)
        (by simp only [List.length_cons]; omega) (List.forall_mem_cons.mpr ⟨proper.notMinus _ digitLt, numeral'⟩) (by
          rw [digitCount, List.filter_cons_of_pos (by rw [proper.digit _ digitLt]; rfl), List.length_cons, ← count']
          rfl)
      refine ⟨buf', ?_, ?_, numeral'', ?_⟩
      · rw [digitLoop, if_pos (Nat.pos_of_ne_zero zero), separated, ok_bind, push_of _ (by omega), ok_bind, run]
      · simp only [List.length_cons] at length
        omega
      · have head : readBack b.base (b.digits.getD (value % b.base) '\x00' :: spaced) =
            value % b.base * b.base ^ digitCnt + readBack b.base buf := by
          have split := readBack_append b.base [b.digits.getD (value % b.base) '\x00'] spaced
          rw [List.singleton_append] at split
          rw [split, count', worth, readBack_single (proper.digit _ digitLt)]
        rw [value', head, ← Nat.add_assoc]
        congr 1
        conv => rhs; rw [← Nat.div_add_mod value b.base]
        ring

theorem readBack_zero_cons (base : Nat) (buf : List Char) : readBack base ('0' :: buf) = readBack base buf := by
  have split := readBack_append base ['0'] buf
  rw [List.singleton_append, readBack_single (d := 0) (by decide), Nat.zero_mul, Nat.zero_add] at split
  exact split

/-- Zeros are added up to the precision, but the last place of the buffer stays free. -/
theorem zeroLoop_spec (base : Nat) (precision : Int) (buf : List Char) {rounds : Nat} (enough : 63 - buf.length < rounds)
    (numeral : Numeral buf) (room : buf.length ≤ 63) :
    ∃ buf', zeroLoop precision rounds buf = .ok buf' ∧ buf'.length ≤ 63 ∧ Numeral buf' ∧
      readBack base buf' = readBack base buf ∧ min precision 63 ≤ buf'.length ∧ buf.length ≤ buf'.length := by
  induction rounds generalizing buf with
  | zero => exact absurd enough (Nat.not_lt_zero _)
  | succ rounds ih =>
    rw [zeroLoop]
    by_cases more : (buf.length : Int) < precision ∧ buf.length < 63
    · rw [if_pos more, push_of _ (by omega), ok_bind]
      obtain ⟨buf', run, length, numeral', worth, least, longer⟩ := ih ('0' :: buf)
        (by simp only [List.length_cons]; omega) (List.forall_mem_cons.mpr ⟨by decide, numeral⟩)
        (by simp only [List.length_cons]; omega)
      refine ⟨buf', run, length, numeral', by rw [worth, readBack_zero_cons], least, ?_⟩
      simp only [List.length_cons] at longer
      omega
    · rw [if_neg more]
      exact ⟨buf, rfl, room, numeral, rfl, by omega, Nat.le_refl _⟩

/-- The buffer of `format_integer` never overflows, and holds the number. -/
theorem integerBuf_spec (proper : Proper b) (small : value < 2 ^ 64) (c : Conversion) :
    ∃ buf, integerBuf value b c = .ok buf ∧ buf.length ≤ 64 ∧ Numeral buf ∧ readBack b.base buf = value ∧
      min (if c.precision < 0 then 1 else c.precision) 63 ≤ buf.length := by
  have fits : value < b.base ^ 22 := by
    have wide : (8 : Nat) ^ 22 ≤ b.base ^ 22 := Nat.pow_le_pow_left proper.big 22
    have : (2 : Nat) ^ 64 ≤ 8 ^ 22 := by decide
    omega
  obtain ⟨digits, first, length, numeral, worth⟩ := digitLoop_spec proper c.flags.group value 0 65 [] fits (by decide) (by decide) (fun _ none => absurd none List.not_mem_nil) rfl
  have short : digits.length ≤ 44 := by simpa using length
  obtain ⟨padded, second, length', numeral', worth', least, -⟩ := zeroLoop_spec b.base
    (if c.precision < 0 then 1 else c.precision) digits (show 63 - digits.length < 65 by omega) numeral (by omega)
  have same : readBack b.base padded = value := by
    rw [worth', worth]
    simp [readBack, readOn]
  rw [integerBuf, first, ok_bind, second, ok_bind]
  split
  · refine ⟨'0' :: padded, push_of _ (by omega), by simpa using by omega, List.forall_mem_cons.mpr ⟨by decide, numeral'⟩,
      by rw [readBack_zero_cons, same], ?_⟩
    simp only [List.length_cons]
    omega
  · exact ⟨padded, rfl, by omega, numeral', same, least⟩

/-- The sign and the mark of the base. -/
def markOf (value : Nat) (b : IntegerBase) (c : Conversion) : Option Char :=
  if c.flags.pound ∧ value ≠ 0 then b.x else none

/-- The whole field of an integer conversion. -/
def integerText (value : Nat) (isSigned negative : Bool) (b : IntegerBase) (c : Conversion) (buf : List Char) :
    List Char :=
  let sign := signOf isSigned negative c.flags
  let x := markOf value b c
  let pad := padCount c.width buf x sign
  padding (!(c.flags.minus || c.flags.zero)) ' ' pad ++ (sign.toList ++ (prefixOf x ++ (padding c.flags.zero '0' pad ++
    (buf ++ padding c.flags.minus ' ' pad))))

theorem formatInteger_eq {isSigned negative : Bool} (run : integerBuf value b c = .ok buf) :
    formatInteger output value isSigned negative b c aux =
      outputAll output (integerText value isSigned negative b c buf) aux := by
  simp only [formatInteger, run, ok_bind, outputPad_eq, integerText, outputAll_append, markOf]

theorem padding_zero (wanted : Bool) (ch : Char) : padding wanted ch 0 = [] := by
  cases wanted <;> rfl

/-- Without a width nothing is padded. -/
theorem integerText_zero (value : Nat) (isSigned negative : Bool) (b : IntegerBase) (c : Conversion) (buf : List Char) :
    integerText value isSigned negative b { c with width := 0 } buf =
      (signOf isSigned negative c.flags).toList ++ (prefixOf (markOf value b c) ++ buf) := by
  have none (x sign : Option Char) : padCount 0 buf x sign = 0 := by
    unfold padCount
    omega
  simp only [integerText, none, padding_zero, List.nil_append, List.append_nil]
  rfl

/-- Output that is collected. -/
theorem outputAll_collect (text s : List Char) :
    outputAll (fun ch (s : List Char) => .ok (s ++ [ch])) text s = .ok (s ++ text) := by
  induction text generalizing s with
  | nil => rw [List.append_nil]; rfl
  | cons ch text ih =>
    rw [outputAll, ok_bind]
    exact (ih (s ++ [ch])).trans (by rw [List.append_assoc, List.singleton_append])

theorem readBack_front {base : Nat} {front : List Char} (zero : readBack base front = 0) (text : List Char) :
    readBack base (front ++ text) = readBack base text := by
  rw [readBack_append, zero, Nat.zero_mul, Nat.zero_add]

theorem readBack_padding (base : Nat) (wanted : Bool) (cnt : Nat) :
    readBack base (padding wanted '0' cnt) = 0 ∧ readBack base (padding wanted ' ' cnt) = 0 ∧
      digitCount (padding wanted ' ' cnt) = 0 := by
  cases wanted with
  | false => exact ⟨rfl, rfl, rfl⟩
  | true =>
    have blank : ∀ ch ∈ List.replicate cnt ' ', digitOf ch = none := fun ch member => by
      rw [List.eq_of_mem_replicate member]
      decide
    obtain ⟨spaces, none⟩ := readBack_of_blank blank base
    exact ⟨readBack_zeros base cnt, spaces, none⟩

theorem signOf_blank (isSigned negative : Bool) (flags : Flags) :
    (∀ ch ∈ (signOf isSigned negative flags).toList, digitOf ch = none) ∧
      ('-' ∈ (signOf isSigned negative flags).toList ↔ isSigned = true ∧ negative = true) := by
  obtain ⟨minus, plus, space, pound, zero, group⟩ := flags
  cases isSigned <;> cases negative <;> cases plus <;> cases space <;> simp [signOf] <;> decide

theorem readBack_prefix (proper : Proper b) (value : Nat) (c : Conversion) :
    readBack b.base (prefixOf (markOf value b c)) = 0 ∧ '-' ∉ prefixOf (markOf value b c) := by
  cases shape : markOf value b c with
  | none => exact ⟨rfl, List.not_mem_nil⟩
  | some ch =>
    have mark : ch ∈ b.x := by
      rw [markOf] at shape
      split at shape
      · exact shape
      · exact absurd shape (by simp)
    obtain ⟨blank, notMinus⟩ := proper.mark ch mark
    refine ⟨?_, by simpa [prefixOf] using notMinus.symm⟩
    rw [prefixOf, readBack_zero_cons]
    exact (readBack_of_blank (fun d member => List.mem_singleton.mp member ▸ blank) b.base).1

theorem not_mem_padding {wanted : Bool} {ch d : Char} (different : d ≠ ch) (cnt : Nat) : d ∉ padding wanted ch cnt := by
  cases wanted with
  | false => exact List.not_mem_nil
  | true => exact fun member => different (List.eq_of_mem_replicate member)

theorem length_padding (wanted : Bool) (ch : Char) (cnt : Nat) :
    (padding wanted ch cnt).length = if wanted then cnt else 0 := by
  cases wanted with
  | false => rfl
  | true => exact List.length_replicate

theorem length_prefixOf (x : Option Char) : (prefixOf x).length = if x.isSome then 2 else 0 := by
  cases x <;> rfl

theorem length_toList (x : Option Char) : x.toList.length = if x.isSome then 1 else 0 := by
  cases x <;> rfl

/-- The field around what is printed without a width. With both `-` and `0` it is padded twice. -/
def fieldLength (c : Conversion) (bare : Nat) : Int :=
  if c.flags.minus && c.flags.zero then bare + 2 * ((c.width - bare).toNat : Int) else max c.width bare

theorem readBack_integerText (proper : Proper b) (worth : readBack b.base buf = value) (isSigned negative : Bool)
    (c : Conversion) : readBack b.base (integerText value isSigned negative b c buf) = value := by
  obtain ⟨blank, -⟩ := signOf_blank isSigned negative c.flags
  obtain ⟨prefixZero, -⟩ := readBack_prefix proper value c
  rw [integerText, readBack_front (readBack_padding _ _ _).2.1, readBack_front (readBack_of_blank blank _).1,
    readBack_front prefixZero, readBack_front (readBack_padding _ _ _).1, readBack_append, worth,
    (readBack_padding _ _ _).2.1, (readBack_padding b.base _ _).2.2, Nat.pow_zero, Nat.mul_one, Nat.add_zero]

theorem minus_mem_integerText (proper : Proper b) (numeral : Numeral buf) (isSigned negative : Bool) (c : Conversion) :
    '-' ∈ integerText value isSigned negative b c buf ↔ isSigned = true ∧ negative = true := by
  obtain ⟨-, minus⟩ := signOf_blank isSigned negative c.flags
  obtain ⟨-, notMinus⟩ := readBack_prefix proper value c
  have spaces (wanted : Bool) (cnt : Nat) : '-' ∉ padding wanted ' ' cnt := not_mem_padding (by decide) cnt
  have zeros (wanted : Bool) (cnt : Nat) : '-' ∉ padding wanted '0' cnt := not_mem_padding (by decide) cnt
  have inBuf : '-' ∉ buf := fun member => numeral '-' member rfl
  simp only [integerText, List.mem_append, minus]
  simp [spaces, zeros, notMinus, inBuf]

theorem length_integerText (value : Nat) (isSigned negative : Bool) (b : IntegerBase) (c : Conversion) (buf : List Char) :
    ((integerText value isSigned negative b c buf).length : Int) = fieldLength c
      ((signOf isSigned negative c.flags).toList ++ (prefixOf (markOf value b c) ++ buf)).length := by
  simp only [fieldLength, integerText, List.length_append, length_padding, length_toList, length_prefixOf, padCount]
  cases c.flags.minus <;> cases c.flags.zero <;> simp <;> split <;> split <;> omega

/-- Whatever the flags, the width and the precision: an integer conversion writes one text to any
output, the text reads back as the number and shows a minus sign exactly for a negative one, and it
fills the field around the sign, the prefix and the digits that are printed without a width. The one
exception is a field with both `-` and `0`, which is padded twice. -/
theorem formatInteger_readBack (proper : Proper b) (small : value < 2 ^ 64) (isSigned negative : Bool) (c : Conversion) :
    ∃ text digits bare : List Char,
      (∀ {σ : Type} (output : Char → σ → Except Fault σ) (aux : σ),
        formatInteger output value isSigned negative b c aux = outputAll output text aux) ∧
      readBack b.base text = value ∧ ('-' ∈ text ↔ isSigned = true ∧ negative = true) ∧
      (∀ {σ : Type} (output : Char → σ → Except Fault σ) (aux : σ),
        formatInteger output value isSigned negative b { c with width := 0 } aux = outputAll output bare aux) ∧
      integerBuf value b c = .ok digits ∧ digits.length ≤ 64 ∧
      bare = (signOf isSigned negative c.flags).toList ++ (prefixOf (markOf value b c) ++ digits) ∧
      (text.length : Int) = if c.flags.minus && c.flags.zero then bare.length + 2 * ((c.width - bare.length).toNat : Int)
        else max c.width bare.length := by
  obtain ⟨buf, run, length, numeral, worth, -⟩ := integerBuf_spec proper small c
  refine ⟨integerText value isSigned negative b c buf, buf, _, fun output aux => formatInteger_eq run,
    readBack_integerText proper worth isSigned negative c, minus_mem_integerText proper numeral isSigned negative c,
    fun output aux => ?_, run, length, rfl, length_integerText ..⟩
  rw [formatInteger_eq (c := { c with width := 0 }) run, integerText_zero]

/-- `%-8d` of -42. -/
theorem formatInteger_readBack_sample :
    (∀ {σ : Type} (output : Char → σ → Except Fault σ) (aux : σ),
      formatInteger output 42 true true base_d { flags := { minus := true }, width := 8 } aux =
        outputAll output ['-', '4', '2', ' ', ' ', ' ', ' ', ' '] aux) ∧
    readBack 10 ['-', '4', '2', ' ', ' ', ' ', ' ', ' '] = 42 := by
  obtain ⟨text, digits, bare, writes, worth, -⟩ :=
    formatInteger_readBack proper_d (show 42 < 2 ^ 64 by decide) true true { flags := { minus := true }, width := 8 }
  have shown := (writes (fun ch (s : List Char) => .ok (s ++ [ch])) []).symm.trans
    (show _ = Except.ok ['-', '4', '2', ' ', ' ', ' ', ' ', ' '] by decide +kernel)
  rw [outputAll_collect, List.nil_append] at shown
  obtain rfl := Except.ok.inj shown
  exact ⟨writes, worth⟩

end Swink.Printf
