import Swink.Lib.Spans
import Swink.Printf.Reads

namespace Swink.Printf

/-- The mini UART: whether it is set up, and what went to `AUX_MU_IO`. Waiting until it can send
always ends. -/
structure MiniUart where
  initilized : Bool
  sent : List Char
  deriving DecidableEq, Repr

def MiniUart.put (uart : MiniUart) (c : Char) : MiniUart := { uart with sent := uart.sent ++ [c] }

def miniUartSendChar (c : Char) (uart : MiniUart) : MiniUart :=
  if c = '\n' then (uart.put c).put '\r' else uart.put c

/-- `vprintf_helper` of console.c, with the count that it is given a pointer to. -/
def vprintfHelper (c : Char) (aux : MiniUart × Int) : Except Fault (MiniUart × Int) :=
  if aux.2 < INT_MAX then .ok (miniUartSendChar c aux.1, aux.2 + 1) else .error (.undefined "signed overflow")

def consoleVprintf (mem : Mem) (limit rounds : Nat) (format : List Char) (args : List (BitVec 64)) (uart : MiniUart) :
    Except Fault (Int × MiniUart) :=
  if !uart.initilized then .ok (-1, uart)
  else do
    let (uart, char_cnt) ← vprintf vprintfHelper (fun _ => mem) limit rounds format args (uart, 0)
    .ok (char_cnt, uart)

/-- `struct vsnprintf_aux` -/
structure VsnprintfAux where
  p : Nat
  length : Int
  max_length : Int
  deriving DecidableEq, Repr

def byteOf (ch : Char) : BitVec 8 := BitVec.ofNat 8 ch.toNat

def vsnprintfHelper (ch : Char) (state : Mem × VsnprintfAux) : Except Fault (Mem × VsnprintfAux) :=
  let (mem, aux) := state
  if aux.length < INT_MAX then
    if aux.length < aux.max_length then
      .ok (Function.update mem aux.p (byteOf ch), { aux with p := aux.p + 1, length := aux.length + 1 })
    else .ok (mem, { aux with length := aux.length + 1 })
  else .error (.undefined "signed overflow")

/-- `buf_size > 0 ? buf_size - 1 : 0` in the type `int` -/
def maxLength (buf_size : Nat) : Int := if buf_size > 0 then (BitVec.ofNat 32 (buf_size - 1)).toInt else 0

/-- `vsnprintf`, which reads the strings that it prints while it writes the buffer. -/
def vsnprintf (mem : Mem) (limit rounds : Nat) (buffer buf_size : Nat) (format : List Char) (args : List (BitVec 64)) :
    Except Fault (Int × Mem) := do
  let (mem', aux) ← vprintf vsnprintfHelper Prod.fst limit rounds format args (mem, ⟨buffer, 0, maxLength buf_size⟩)
  .ok (aux.length, if buf_size > 0 then Function.update mem' aux.p 0 else mem')

section Counting

variable {σ : Type} {output : Char → σ → Except Fault σ} {state : List Char → σ} {text done : List Char} {fault : Option Fault}

/-- An output that counts its characters in an `int`; `state` is where a text leaves it. -/
structure Counts (output : Char → σ → Except Fault σ) (state : List Char → σ) : Prop where
  step : ∀ (done : List Char) (ch : Char), (done.length : Int) < INT_MAX → output ch (state done) = .ok (state (done ++ [ch]))
  full : ∀ (done : List Char) (ch : Char), (done.length : Int) = INT_MAX →
    output ch (state done) = .error (.undefined "signed overflow")

theorem Counts.all (counts : Counts output state) (done : List Char) (short : ((done ++ text).length : Int) ≤ INT_MAX) :
    outputAll output text (state done) = .ok (state (done ++ text)) := by
  induction text generalizing done with
  | nil => rw [outputAll, List.append_nil]
  | cons ch text ih =>
    have here : (done.length : Int) < INT_MAX := by
      simp only [List.length_append, List.length_cons] at short
      omega
    have joined : done ++ ch :: text = done ++ [ch] ++ text := by simp only [List.append_assoc, List.singleton_append]
    rw [joined] at short ⊢
    rw [outputAll, counts.step done ch here, ok_bind, ih _ short]

theorem Counts.overflow (counts : Counts output state) (done : List Char) (start : (done.length : Int) ≤ INT_MAX)
    (long : INT_MAX < ((done ++ text).length : Int)) :
    outputAll output text (state done) = .error (.undefined "signed overflow") := by
  induction text generalizing done with
  | nil =>
    rw [List.append_nil] at long
    omega
  | cons ch text ih =>
    rw [outputAll]
    by_cases last : (done.length : Int) = INT_MAX
    · rw [counts.full done ch last, error_bind]
    · have joined : done ++ ch :: text = done ++ [ch] ++ text := by simp only [List.append_assoc, List.singleton_append]
      rw [joined] at long
      rw [counts.step done ch (by omega), ok_bind]
      exact ih _ (by simp only [List.length_append, List.length_singleton]; omega) long

/-- How a run ends that wrote a text: with the state it leaves or with a fault. -/
def ended {α : Type} (fault : Option Fault) (a : α) : Except Fault α :=
  match fault with
  | none => .ok a
  | some fault => .error fault

/-- Whatever a routine does at its end, a text too long to count stops it before. -/
def stopped (text : List Char) (fault : Option Fault) : Option Fault :=
  if (text.length : Int) ≤ INT_MAX then fault else some (.undefined "signed overflow")

theorem Counts.finish (counts : Counts output state) (text : List Char) (fault : Option Fault) :
    finish output text fault (state []) = ended (stopped text fault) (state text) := by
  by_cases short : (text.length : Int) ≤ INT_MAX
  · rw [Printf.finish, counts.all [] short, ok_bind, stopped, if_pos short]
    cases fault <;> rfl
  · rw [Printf.finish, counts.overflow [] (by decide) (not_le.mp short), error_bind, stopped,
      if_neg short]
    rfl

end Counting

/-- Whatever a counting output has done, it has written a text. -/
theorem Counts.steady {view : σ → Mem} {mem : Mem} {seen : Nat → Prop} (counts : Counts output state)
    (same : ∀ text a, seen a → view (state text) a = mem a) :
    Steady output view mem seen fun aux => ∃ text, aux = state text ∧ (text.length : Int) ≤ INT_MAX where
  kept ch aux aux' := by
    rintro ⟨text, rfl, short⟩ run
    by_cases last : (text.length : Int) = INT_MAX
    · cases (counts.full text ch last).symm.trans run
    · have room : (text.length : Int) < INT_MAX := by omega
      cases (counts.step text ch room).symm.trans run
      refine ⟨text ++ [ch], rfl, ?_⟩
      simp only [List.length_append, List.length_singleton]
      omega
  same := by
    rintro aux ⟨text, rfl, -⟩ a looked
    exact same text a looked

/-- What the line carries for a text. -/
def onLine (text : List Char) : List Char := text.flatMap fun ch => if ch = '\n' then ['\n', '\r'] else [ch]

theorem counts_console (uart : MiniUart) :
    Counts vprintfHelper fun text => ({ uart with sent := uart.sent ++ onLine text }, (text.length : Int)) where
  step done ch room := by
    unfold vprintfHelper
    rw [if_pos room]
    by_cases newline : ch = '\n'
    · subst newline
      simp [miniUartSendChar, MiniUart.put, onLine]
    · simp [miniUartSendChar, MiniUart.put, onLine, newline]
  full done ch full := by
    unfold vprintfHelper
    exact if_neg (by omega)

theorem counts_buffer (mem : Mem) (buffer : Nat) (max_length : Int) :
    Counts vsnprintfHelper fun text => (Spans.write mem buffer ((text.take max_length.toNat).map byteOf),
      ⟨buffer + (text.take max_length.toNat).length, text.length, max_length⟩) where
  step done ch room := by
    have longer : ((done ++ [ch]).length : Int) = done.length + 1 := by simp
    simp only [vsnprintfHelper, if_pos room, longer]
    by_cases stored : (done.length : Int) < max_length
    · have short : done.length ≤ max_length.toNat := by omega
      have short' : (done ++ [ch]).length ≤ max_length.toNat := by simp only [List.length_append, List.length_singleton]; omega
      rw [if_pos stored, List.take_of_length_le short, List.take_of_length_le short', List.map_append, List.map_singleton,
        Spans.write_concat, List.length_map, List.length_append, List.length_singleton, Nat.add_assoc]
    · have same : (done ++ [ch]).take max_length.toNat = done.take max_length.toNat :=
        List.take_append_of_le_length (by omega)
      rw [if_neg stored, same]
  full done ch full := by
    unfold vsnprintfHelper
    exact if_neg (show ¬(done.length : Int) < INT_MAX by omega)

/-- The bytes that `vsnprintf` leaves in its buffer for a text. -/
def stored (buf_size : Nat) (text : List Char) : List Char :=
  if buf_size > 0 then text.take (maxLength buf_size).toNat ++ ['\x00'] else []

theorem maxLength_le (buf_size : Nat) : (maxLength buf_size).toNat ≤ buf_size - 1 := by
  unfold maxLength
  split
  · exact toNat_int_le (buf_size - 1)
  · exact Nat.zero_le _

theorem maxLength_of_small {buf_size : Nat} (small : buf_size ≤ 2 ^ 31) : (maxLength buf_size).toNat = buf_size - 1 := by
  unfold maxLength
  split
  · have within : (BitVec.ofNat 32 (buf_size - 1)).toNat = buf_size - 1 := by
      rw [BitVec.toNat_ofNat]
      exact Nat.mod_eq_of_lt (by omega)
    rw [BitVec.toInt_eq_toNat_cond, within, if_pos (by omega)]
    rfl
  · next empty =>
    have zero : buf_size = 0 := by omega
    subst zero
    rfl

theorem length_stored (buf_size : Nat) (text : List Char) : (stored buf_size text).length ≤ buf_size := by
  have le := maxLength_le buf_size
  unfold stored
  split
  · simp only [List.length_append, List.length_take, List.length_singleton]
    omega
  · exact Nat.zero_le _

theorem stored_of_small {buf_size : Nat} (some : 0 < buf_size) (small : buf_size ≤ 2 ^ 31) (text : List Char) :
    stored buf_size text = text.take (buf_size - 1) ++ ['\x00'] := by
  rw [stored, if_pos some, maxLength_of_small small]

/-- Where the buffer holds none of the strings that are printed, it is as if they were read beforehand. -/
theorem vsnprintf_reads {mem : Mem} {limit rounds buffer buf_size : Nat} {format : List Char} {args : List (BitVec 64)}
    (apart : ∀ a ∈ stringReads mem limit rounds format args, a < buffer ∨ buffer + buf_size ≤ a) :
    vprintf vsnprintfHelper Prod.fst limit rounds format args (mem, ⟨buffer, 0, maxLength buf_size⟩) =
      vprintf vsnprintfHelper (fun _ => mem) limit rounds format args (mem, ⟨buffer, 0, maxLength buf_size⟩) := by
  have same (text : List Char) (a : Nat) (outside : a < buffer ∨ buffer + buf_size ≤ a) :
      Spans.write mem buffer ((text.take (maxLength buf_size).toNat).map byteOf) a = mem a := by
    have le := maxLength_le buf_size
    apply Spans.write_of_outside
    rw [List.length_map, List.length_take]
    omega
  have start : (mem, (⟨buffer, 0, maxLength buf_size⟩ : VsnprintfAux)) =
      (Spans.write mem buffer ((([] : List Char).take (maxLength buf_size).toNat).map byteOf),
        ⟨buffer + (([] : List Char).take (maxLength buf_size).toNat).length, ([] : List Char).length, maxLength buf_size⟩) := by
    rw [List.take_nil, List.map_nil, Spans.write_nil]
    rfl
  exact vprintf_steady ((counts_buffer mem buffer (maxLength buf_size)).steady same) rounds format args
    ⟨[], start, by decide⟩ apart

/-- `vsnprintf` and the console print the same text and end the same way, whatever the format and its
arguments are, if the buffer holds none of the strings that are printed: the console sends the text, with
a carriage return behind each newline; the buffer gets its first `buf_size - 1` characters and a null
byte, and nothing outside the buffer changes. Both return the length of the text, or stop with the same
fault. -/
theorem vsnprintf_as_console (mem : Mem) (limit rounds : Nat) (format : List Char) (args : List (BitVec 64)) :
    ∃ text fault,
      (∀ uart : MiniUart, uart.initilized = true → consoleVprintf mem limit rounds format args uart =
        ended fault ((text.length : Int), { uart with sent := uart.sent ++ onLine text })) ∧
      ∀ buffer buf_size : Nat, (∀ a ∈ stringReads mem limit rounds format args, a < buffer ∨ buffer + buf_size ≤ a) →
        ∃ kept : List Char, kept.length ≤ buf_size ∧
        (0 < buf_size → buf_size ≤ 2 ^ 31 → kept = text.take (buf_size - 1) ++ ['\x00']) ∧
        vsnprintf mem limit rounds buffer buf_size format args =
          ended fault ((text.length : Int), Spans.write mem buffer (kept.map byteOf)) := by
  obtain ⟨text, fault, runs⟩ := vprintf_oblivious mem limit rounds format args
  refine ⟨text, stopped text fault, fun uart ready => ?_, fun buffer buf_size apart =>
    ⟨stored buf_size text, length_stored buf_size text, fun some small => stored_of_small some small text, ?_⟩⟩
  · obtain ⟨initilized, sent⟩ := uart
    subst ready
    have printed := (counts_console ⟨true, sent⟩).finish text fault
    simp only [onLine, List.flatMap_nil, List.append_nil, List.length_nil, Int.ofNat_zero] at printed
    unfold consoleVprintf
    rw [runs, printed]
    cases stopped text fault <;> rfl
  · have printed := (counts_buffer mem buffer (maxLength buf_size)).finish text fault
    simp only [List.take_nil, List.map_nil, Spans.write_nil, List.length_nil, Nat.add_zero, Int.ofNat_zero] at printed
    unfold vsnprintf
    rw [vsnprintf_reads apart, runs, printed]
    cases stopped text fault with
    | some fault => rfl
    | none =>
      simp only [ended, ok_bind, stored]
      split
      · rw [List.map_append, List.map_singleton, Spans.write_concat, List.length_map]
        rfl
      · next empty =>
        have zero : buf_size = 0 := by omega
        subst zero
        rw [maxLength_of_small (by decide), Nat.zero_sub, List.take_zero, List.map_nil]

/-- `hi` at 100 -/
def sampleString : Mem := fun a => if a = 100 then 104 else if a = 101 then 105 else 0

/-- `%3s!` of a string, on the line and in a buffer that is too small. -/
theorem vsnprintf_as_console_sample :
    ∃ text, onLine text = " hi!".toList ∧ vsnprintf sampleString 8 8 200 4 "%3s!".toList [100] =
      .ok (4, Spans.write sampleString 200 ((text.take 3 ++ ['\x00']).map byteOf)) := by
  obtain ⟨text, fault, console, buffer⟩ := vsnprintf_as_console sampleString 8 8 "%3s!".toList [100]
  have printed : ended fault ((text.length : Int), (⟨true, [] ++ onLine text⟩ : MiniUart)) =
      .ok (4, ⟨true, " hi!".toList⟩) := (console ⟨true, []⟩ rfl).symm.trans (by decide +kernel)
  obtain ⟨kept, -, shown, run⟩ := buffer 200 4 (by decide +kernel)
  cases fault with
  | some fault => cases printed
  | none =>
    obtain ⟨length, line⟩ := Prod.mk.inj (Except.ok.inj printed)
    refine ⟨text, (MiniUart.mk.inj line).2, run.trans ?_⟩
    rw [shown (by decide) (by decide), length]
    rfl

end Swink.Printf
