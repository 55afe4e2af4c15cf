import Swink.Printf.Emit

namespace Swink.Printf

variable {σ : Type} {output : Char → σ → Except Fault σ} {view : σ → Mem} {mem : Mem} {limit : Nat} {keeps : σ → Prop}
  {seen : Nat → Prop} {aux aux' : σ}

/-- How far a search for the end of a string looks. -/
def lookedUpTo (found : Except Fault Nat) (limit : Nat) : Nat :=
  match found with
  | .ok length => length + 1
  | .error _ => limit

/-- The addresses of the characters that `%s` looks at. -/
def convertReads (mem : Mem) (limit : Nat) (c : Conversion) : List (BitVec 64) → List Nat
  | [] => []
  | arg :: _ =>
    if arg = 0 then []
    else (List.range (lookedUpTo (strnlenLoop (stringOf mem arg) (BitVec.ofInt 64 c.precision).toNat limit 0) limit)).map
      (arg.toNat + ·)

/-- The addresses that `__vprintf` looks at for the strings that it prints. -/
def stringReads (mem : Mem) (limit : Nat) : Nat → List Char → List (BitVec 64) → List Nat
  | 0, _, _ => []
  | _ + 1, [], _ => []
  | rounds + 1, ch :: format, args =>
    if ch = '\x00' then []
    else if ch ≠ '%' then stringReads mem limit rounds format args
    else
      match format with
      | '%' :: format => stringReads mem limit rounds format args
      | format =>
        match parseConversion format args with
        | .error _ => []
        | .ok (c, format, args) =>
          (if format.headD '\x00' = 's' then convertReads mem limit c args else []) ++
            stringReads mem limit rounds format.tail (leaves (format.headD '\x00') args)

/-- An output that leaves the bytes at some addresses as they are in `mem`, as long as `keeps` holds, which
it does from then on. -/
structure Steady (output : Char → σ → Except Fault σ) (view : σ → Mem) (mem : Mem) (seen : Nat → Prop) (keeps : σ → Prop) :
    Prop where
  kept : ∀ ch aux aux', keeps aux → output ch aux = .ok aux' → keeps aux'
  same : ∀ aux, keeps aux → ∀ a, seen a → view aux a = mem a

theorem Steady.all (steady : Steady output view mem seen keeps) {text : List Char} (start : keeps aux)
    (run : outputAll output text aux = .ok aux') : keeps aux' := by
  induction text generalizing aux with
  | nil =>
    cases run
    exact start
  | cons ch text ih =>
    obtain ⟨next, first, run⟩ := bind_eq_ok.mp run
    exact ih (steady.kept ch aux next start first) run

theorem Steady.oblivious (steady : Steady output view mem seen keeps) {routine : Routine} (one : Oblivious routine)
    (start : keeps aux) (run : routine σ output aux = .ok aux') : keeps aux' := by
  obtain ⟨text, fault, runs⟩ := one
  rw [runs, finish] at run
  obtain ⟨last, written, run⟩ := bind_eq_ok.mp run
  cases fault with
  | none =>
    cases run
    exact steady.all start written
  | some fault => cases run

/-- Behind a text, two continuations that agree wherever `keeps` holds. -/
theorem Steady.then (steady : Steady output view mem seen keeps) {text : List Char} {α : Type} {f g : σ → Except Fault α}
    (start : keeps aux) (agree : ∀ aux, keeps aux → f aux = g aux) :
    outputAll output text aux >>= f = outputAll output text aux >>= g := by
  cases run : outputAll output text aux with
  | error fault => rfl
  | ok aux' => exact agree aux' (steady.all start run)

theorem strnlenLoop_ge {string : Nat → Char} {maxlen rounds i length : Nat}
    (run : strnlenLoop string maxlen rounds i = .ok length) : i ≤ length := by
  induction rounds generalizing i with
  | zero => cases run
  | succ rounds ih =>
    rw [strnlenLoop] at run
    split at run
    · exact Nat.le_of_succ_le (ih run)
    · cases run
      exact Nat.le_refl _

/-- `strnlen` depends on no character behind the last one that it looks at. -/
theorem strnlenLoop_congr {string string' : Nat → Char} {maxlen : Nat} (rounds i : Nat)
    (agree : ∀ j, i ≤ j → j < lookedUpTo (strnlenLoop string maxlen rounds i) (i + rounds) → string' j = string j) :
    strnlenLoop string' maxlen rounds i = strnlenLoop string maxlen rounds i := by
  induction rounds generalizing i with
  | zero => rfl
  | succ rounds ih =>
    rw [strnlenLoop] at agree ⊢
    rw [strnlenLoop]
    by_cases more : string i ≠ '\x00' ∧ i < maxlen
    · have bound : i + (rounds + 1) = i + 1 + rounds := by omega
      rw [if_pos more, bound] at agree
      have far : i < lookedUpTo (strnlenLoop string maxlen rounds (i + 1)) (i + 1 + rounds) := by
        cases run : strnlenLoop string maxlen rounds (i + 1) with
        | error fault => exact Nat.lt_of_lt_of_le (Nat.lt_succ_self i) (Nat.le_add_right _ _)
        | ok length => exact Nat.lt_succ_of_lt (strnlenLoop_ge run)
      rw [agree i (Nat.le_refl i) far, if_pos more, if_pos more]
      exact ih (i + 1) fun j after => agree j (Nat.le_of_succ_le after)
    · rw [if_neg more] at agree
      rw [agree i (Nat.le_refl i) (Nat.lt_succ_self i), if_neg more, if_neg more]

/-- The cast of a `size_t` to `int` makes no number larger. -/
theorem toNat_int_le (n : Nat) : (BitVec.ofNat 32 n).toInt.toNat ≤ n := by
  have low : (BitVec.ofNat 32 n).toInt ≤ (BitVec.ofNat 32 n).toNat := by
    rw [BitVec.toInt_eq_toNat_cond]
    split <;> omega
  have small : (BitVec.ofNat 32 n).toNat ≤ n := by
    rw [BitVec.toNat_ofNat]
    exact Nat.mod_le _ _
  omega

section Strings

variable {string : σ → Nat → Char} {constant : Nat → Char} {c : Conversion}

theorem Steady.outputString (steady : Steady output view mem seen keeps) (cnt i : Nat) (start : keeps aux)
    (agree : ∀ aux, keeps aux → ∀ j < i + cnt, string aux j = constant j) :
    Printf.outputString output string cnt i aux = Printf.outputString output (fun _ => constant) cnt i aux := by
  induction cnt generalizing i aux with
  | zero => rfl
  | succ cnt ih =>
    rw [Printf.outputString, Printf.outputString, agree aux start i (by omega)]
    cases run : output (constant i) aux with
    | error fault => rfl
    | ok aux' =>
      exact ih (i + 1) (steady.kept _ aux aux' start run) fun aux keeps j before => agree aux keeps j (by omega)

theorem Steady.formatString (steady : Steady output view mem seen keeps) (length : Int) (start : keeps aux)
    (agree : ∀ aux, keeps aux → ∀ j < length.toNat, string aux j = constant j) :
    Printf.formatString output string length c aux = Printf.formatString output (fun _ => constant) length c aux := by
  unfold Printf.formatString
  split
  · rfl
  · simp only [outputPad_eq]
    refine steady.then start fun aux keeps => ?_
    rw [steady.outputString length.toNat 0 keeps fun aux keeps j before => agree aux keeps j (by omega)]

end Strings

section Conversions

variable {other other' : String → Char → σ → Except Fault σ} {spec : Char} {c : Conversion} {args : List (BitVec 64)}

/-- The two texts printed for a conversion that is not supported. -/
def notices : List String := ["<<no %%%c in kernel>>", "<<no %%%c conversion>>"]

/-- Only `%s` looks at memory. -/
theorem convert_view (string : spec ≠ 's') (others : ∀ text ∈ notices, other text spec aux = other' text spec aux) :
    convert output view limit other spec c args aux = convert output (fun _ => mem) limit other' spec c args aux := by
  by_cases unknown : spec ∉ specs
  · rw [convert_other unknown, convert_other unknown, others _ (by decide)]
  by_cases kernel : spec ∈ ['e', 'E', 'g', 'G', 'n']
  · rw [convert_kernel kernel, convert_kernel kernel, others _ (by decide)]
  have rest : spec ∈ ['d', 'i', 'o', 'u', 'x', 'X', 'c', 'p', 'f'] := by
    simp only [specs, List.mem_cons, List.not_mem_nil, or_false, not_not] at unknown kernel ⊢
    tauto
  fin_cases rest <;> rfl

theorem Steady.convert (steady : Steady output view mem seen keeps) (start : keeps aux)
    (reads : spec = 's' → ∀ a ∈ convertReads mem limit c args, seen a)
    (others : ∀ text ∈ notices, other text spec aux = other' text spec aux) :
    Printf.convert output view limit other spec c args aux =
      Printf.convert output (fun _ => mem) limit other' spec c args aux := by
  by_cases string : spec = 's'
  · subst string
    cases args with
    | nil => rfl
    | cons arg args =>
      have agree (aux : σ) (kept : keeps aux) : ∀ j < lookedUpTo (strnlenLoop (stringOf mem arg)
          (BitVec.ofInt 64 c.precision).toNat limit 0) limit, stringOf (view aux) arg j = stringOf mem arg j := by
        intro j before
        unfold stringOf
        by_cases null : arg = 0
        · rw [if_pos null, if_pos null]
        · rw [if_neg null, if_neg null, charAt, charAt]
          rw [steady.same aux kept]
          apply reads rfl
          rw [convertReads, if_neg null]
          exact List.mem_map.mpr ⟨j, List.mem_range.mpr before, rfl⟩
      have found : strnlenLoop (stringOf (view aux) arg) (BitVec.ofInt 64 c.precision).toNat limit 0 =
          strnlenLoop (stringOf mem arg) (BitVec.ofInt 64 c.precision).toNat limit 0 :=
        strnlenLoop_congr limit 0 fun j _ before => agree aux start j (by rwa [Nat.zero_add] at before)
      rw [convert_string, convert_string, found]
      cases length : strnlenLoop (stringOf mem arg) (BitVec.ofInt 64 c.precision).toNat limit 0 with
      | error fault => rfl
      | ok length' =>
        rw [length] at agree
        rw [ok_bind, ok_bind, steady.formatString _ start fun aux kept j before =>
          agree aux kept j (Nat.lt_succ_of_lt (Nat.lt_of_lt_of_le before (toNat_int_le length')))]
  · exact convert_view string others

/-- A conversion keeps what every output keeps. -/
theorem Steady.convert_keeps (steady : Steady output view mem seen keeps) {rounds : Nat} {args' : List (BitVec 64)}
    (start : keeps aux) (run : Printf.convert output (fun _ => mem) limit (fun text spec aux =>
      vprintf output (fun _ => mem) limit rounds text.toList [BitVec.ofNat 64 spec.toNat] aux) spec c args aux =
        .ok (args', aux')) : args' = leaves spec args ∧ keeps aux' := by
  have split : ∃ body : Routine, Oblivious body ∧ ∀ (σ : Type) (output : Char → σ → Except Fault σ) (aux : σ),
      Printf.convert output (fun _ => mem) limit (fun text spec aux =>
        vprintf output (fun _ => mem) limit rounds text.toList [BitVec.ofNat 64 spec.toNat] aux) spec c args aux =
          body σ output aux >>= fun aux => .ok (leaves spec args, aux) :=
    convert_oblivious mem limit spec c args fun text =>
      vprintf_oblivious mem limit rounds text.toList [BitVec.ofNat 64 spec.toNat]
  obtain ⟨body, one, same⟩ := split
  obtain ⟨last, ran, result⟩ := bind_eq_ok.mp ((same σ output aux).symm.trans run)
  cases result
  exact ⟨rfl, steady.oblivious one start ran⟩

end Conversions

section Notices

variable {rounds : Nat} {ch : Char} {format : List Char} {args : List (BitVec 64)}

theorem stringReads_null : stringReads mem limit (rounds + 1) ('\x00' :: format) args = [] := by
  unfold stringReads
  exact if_pos rfl

theorem stringReads_literal (null : ch ≠ '\x00') (literal : ch ≠ '%') :
    stringReads mem limit (rounds + 1) (ch :: format) args = stringReads mem limit rounds format args := by
  conv_lhs => unfold stringReads
  rw [if_neg null, if_pos literal]

theorem stringReads_percent :
    stringReads mem limit (rounds + 1) ('%' :: '%' :: format) args = stringReads mem limit rounds format args := by
  conv_lhs => unfold stringReads
  rw [if_neg (by decide), if_neg (by decide)]
  rfl

theorem stringReads_conversion {c : Conversion} {format' : List Char} {args' : List (BitVec 64)}
    (percent : format.head? ≠ some '%') (parsed : parseConversion format args = .ok (c, format', args')) :
    stringReads mem limit (rounds + 1) ('%' :: format) args =
      (if format'.headD '\x00' = 's' then convertReads mem limit c args' else []) ++
        stringReads mem limit rounds format'.tail (leaves (format'.headD '\x00') args') := by
  conv_lhs => unfold stringReads
  rw [if_neg (by decide), if_neg (by decide)]
  split
  · exact absurd rfl percent
  · rw [parsed]

/-- Plain characters look at nothing. -/
theorem stringReads_text (text : List Char) (plain : '%' ∉ text)
    (rest : ∀ rounds, stringReads mem limit rounds format args = []) (rounds : Nat) :
    stringReads mem limit rounds (text ++ format) args = [] := by
  induction text generalizing rounds with
  | nil => exact rest rounds
  | cons ch text ih =>
    cases rounds with
    | zero => rfl
    | succ rounds =>
      have literal : ch ≠ '%' := fun same => plain (List.mem_cons.mpr (.inl same.symm))
      rw [List.cons_append]
      by_cases null : ch = '\x00'
      · subst null
        exact stringReads_null
      · rw [stringReads_literal null literal]
        exact ih (List.not_mem_of_not_mem_cons plain) rounds

/-- Neither does a notice. -/
theorem stringReads_notice {text : String} (notice : text ∈ notices) (rounds : Nat) :
    stringReads mem limit rounds text.toList args = [] := by
  have ending (tail : List Char) (plain : '%' ∉ tail) (args : List (BitVec 64)) (rounds : Nat) :
      stringReads mem limit rounds tail args = [] := by
    have none : stringReads mem limit rounds (tail ++ []) args = [] :=
      stringReads_text tail plain (fun rounds => by cases rounds <;> rfl) rounds
    rwa [List.append_nil] at none
  have middle (tail : List Char) (plain : '%' ∉ tail) (rounds : Nat) :
      stringReads mem limit rounds ('%' :: '%' :: '%' :: 'c' :: tail) args = [] := by
    cases rounds with
    | zero => rfl
    | succ rounds =>
      show stringReads mem limit rounds ('%' :: 'c' :: tail) args = []
      cases rounds with
      | zero => rfl
      | succ rounds => exact ending tail plain _ rounds
  have lead (format : List Char) (rest : ∀ rounds, stringReads mem limit rounds format args = []) :
      stringReads mem limit rounds ("<<no ".toList ++ format) args = [] := stringReads_text _ (by decide) rest rounds
  simp only [notices, List.mem_cons, List.not_mem_nil, or_false] at notice
  rcases notice with rfl | rfl
  · exact lead _ (middle " in kernel>>".toList (by decide))
  · exact lead _ (middle " conversion>>".toList (by decide))

end Notices

/-- The conversion behind a `%`, if what comes next makes no difference either. -/
theorem Steady.conversionStep (steady : Steady output view mem seen keeps) {rounds : Nat} {format : List Char}
    {args : List (BitVec 64)} (ih : ∀ format args {aux}, keeps aux → (∀ a ∈ stringReads mem limit rounds format args, seen a) →
      vprintf output view limit rounds format args aux = vprintf output (fun _ => mem) limit rounds format args aux)
    (percent : format.head? ≠ some '%') (start : keeps aux)
    (reads : ∀ a ∈ stringReads mem limit (rounds + 1) ('%' :: format) args, seen a) :
    Printf.conversionStep output view limit rounds format args aux =
      Printf.conversionStep output (fun _ => mem) limit rounds format args aux := by
  rw [Printf.conversionStep, Printf.conversionStep]
  cases parsed : parseConversion format args with
  | error fault => rw [error_bind, error_bind]
  | ok read =>
    obtain ⟨c, format', args'⟩ := read
    rw [stringReads_conversion percent parsed] at reads
    have others : ∀ text ∈ notices, vprintf output view limit rounds text.toList
        [BitVec.ofNat 64 (format'.headD '\x00').toNat] aux = vprintf output (fun _ => mem) limit rounds text.toList
          [BitVec.ofNat 64 (format'.headD '\x00').toNat] aux := fun text notice =>
      ih text.toList _ start fun a member => absurd member (by
        rw [stringReads_notice notice]
        exact List.not_mem_nil)
    have converts : Printf.convert output view limit (fun text spec aux => vprintf output view limit rounds text.toList
        [BitVec.ofNat 64 spec.toNat] aux) (format'.headD '\x00') c args' aux = Printf.convert output (fun _ => mem) limit
          (fun text spec aux => vprintf output (fun _ => mem) limit rounds text.toList [BitVec.ofNat 64 spec.toNat] aux)
            (format'.headD '\x00') c args' aux :=
      steady.convert start (fun string a member => reads a (List.mem_append_left _ (by rwa [if_pos string]))) others
    simp only [ok_bind, converts]
    cases ran : Printf.convert output (fun _ => mem) limit (fun text spec aux => vprintf output (fun _ => mem) limit
        rounds text.toList [BitVec.ofNat 64 spec.toNat] aux) (format'.headD '\x00') c args' aux with
    | error fault => rw [error_bind, error_bind]
    | ok result =>
      obtain ⟨args'', aux'⟩ := result
      obtain ⟨rfl, kept⟩ := steady.convert_keeps start ran
      cases format' with
      | nil => rfl
      | cons spec format'' => exact ih format'' _ kept fun a member => reads a (List.mem_append_right _ member)

/-- Where the strings that are printed stay as they are, it makes no difference that each of their
characters is read when it is its turn. -/
theorem vprintf_steady (steady : Steady output view mem seen keeps) (rounds : Nat) (format : List Char)
    (args : List (BitVec 64)) (start : keeps aux) (reads : ∀ a ∈ stringReads mem limit rounds format args, seen a) :
    vprintf output view limit rounds format args aux = vprintf output (fun _ => mem) limit rounds format args aux := by
  induction rounds generalizing format args aux with
  | zero => rfl
  | succ rounds ih =>
    cases format with
    | nil => rfl
    | cons ch format =>
      by_cases null : ch = '\x00'
      · subst null
        rw [vprintf_null, vprintf_null]
      have plain (c : Char) (format : List Char) (reads : ∀ a ∈ stringReads mem limit rounds format args, seen a) :
          output c aux >>= vprintf output view limit rounds format args =
            output c aux >>= vprintf output (fun _ => mem) limit rounds format args := by
        cases run : output c aux with
        | error fault => rw [error_bind, error_bind]
        | ok aux' => exact ih format args (steady.kept c aux aux' start run) reads
      by_cases literal : ch ≠ '%'
      · rw [stringReads_literal null literal] at reads
        rw [vprintf_literal null literal, vprintf_literal null literal]
        exact plain ch format reads
      rw [not_not] at literal
      subst literal
      by_cases percent : format.head? = some '%'
      · obtain ⟨format', rfl⟩ : ∃ format', format = '%' :: format' := by
          cases format with
          | nil => cases percent
          | cons ch format' => exact ⟨format', by rw [Option.some.inj percent]⟩
        rw [stringReads_percent] at reads
        rw [vprintf_percent, vprintf_percent]
        exact plain '%' format' reads
      rw [vprintf_conversion percent, vprintf_conversion percent]
      exact steady.conversionStep (fun format args _ start reads => ih format args start reads) percent start reads

end Swink.Printf
