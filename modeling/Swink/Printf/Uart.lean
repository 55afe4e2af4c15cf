import Swink.Lib.Texts
import Swink.Printf.Sinks

namespace Swink.Printf

/-- The bit of `AUX_MU_LSR` that `mini_uart_send_char` waits for. -/
def auxMuLsrSpace : BitVec 32 := 0x20

/-- Where the CPU stands in `mini_uart_send_str`, at the character at `str`, or in a call of
`mini_uart_send_char` alone. -/
inductive UartPc
  | outside
  /-- before it reads `*str` -/
  | next (str : Nat)
  /-- before it reads `AUX_MU_LSR` -/
  | wait (c : Char) (str : Option Nat)
  /-- before it writes to `AUX_MU_IO` -/
  | send (c : Char) (str : Option Nat)
  deriving DecidableEq

/-- Where it goes on behind a character. -/
def UartPc.behind : Option Nat → UartPc
  | none => .outside
  | some str => .next (str + 1)

/-- The transmitter: what it has put on the line, and the characters that wait in its FIFO. -/
structure Uart where
  line : List Char
  fifo : List Char
  pc : UartPc
  deriving DecidableEq

/-- What the CPU and the transmitter do. -/
inductive UartEvent
  | sendChar (c : Char)
  | sendStr (str : Nat)
  /-- the next access of the call; the other bits of the status may be anything -/
  | access (other : BitVec 32)
  /-- the transmitter puts the oldest character on the line -/
  | shift
  /-- an exception takes the CPU out of its call for good -/
  | interrupt
  deriving DecidableEq

namespace Uart

/-- `*AUX_MU_LSR` for a FIFO of `depth` characters. -/
def lsr (depth : Nat) (other : BitVec 32) (s : Uart) : BitVec 32 :=
  other &&& ~~~auxMuLsrSpace ||| (if s.fifo.length < depth then auxMuLsrSpace else 0)

/-- The next access of a call. A character that is written to a full FIFO is lost. -/
def access (mem : Mem) (depth : Nat) (other : BitVec 32) (s : Uart) : Option Uart :=
  match s.pc with
  | .outside => none
  | .next str =>
    if charAt mem str ≠ '\x00' then some { s with pc := .wait (charAt mem str) (some str) }
    else some { s with pc := .outside }
  | .wait c str => if s.lsr depth other &&& auxMuLsrSpace = 0 then some s else some { s with pc := .send c str }
  | .send c str =>
    -- the recursive call for the carriage return waits again
    some { s with
      fifo := if s.fifo.length < depth then s.fifo ++ [c] else s.fifo
      pc := if c = '\n' then .wait '\r' str else .behind str }

def next (mem : Mem) (depth : Nat) (s : Uart) : UartEvent → Option Uart
  | .sendChar c => if s.pc = .outside then some { s with pc := .wait c none } else none
  | .sendStr str => if s.pc = .outside then some { s with pc := .next str } else none
  | .access other => s.access mem depth other
  | .shift =>
    match s.fifo with
    | [] => none
    | c :: fifo => some { s with line := s.line ++ [c], fifo }
  | .interrupt => some { s with pc := .outside }

def run (mem : Mem) (depth : Nat) (s : Uart) (events : List UartEvent) : Option Uart := events.foldlM (next mem depth) s

end Uart

/-- The text that an event asks for, where `strings` are the strings in memory. -/
def UartEvent.asked (strings : Nat → List Char) : UartEvent → List (List Char)
  | .sendChar c => [[c]]
  | .sendStr str => [strings str]
  | .access _ | .shift | .interrupt => []

def UartEvent.isAccess : UartEvent → Bool
  | .access _ => true
  | .sendChar _ | .sendStr _ | .shift | .interrupt => false

/-- What a call has still to write. -/
inductive Owes (mem : Mem) : UartPc → List Char → Prop
  | outside : Owes mem .outside []
  | next {str : Nat} {text : List Char} (at_ : Text '\x00' (charAt mem) str text) : Owes mem (.next str) (onLine text)
  | wait {c : Char} {str : Option Nat} {left : List Char} (behind : Owes mem (.behind str) left) :
    Owes mem (.wait c str) (onLine [c] ++ left)
  | send {c : Char} {str : Option Nat} {left : List Char} (behind : Owes mem (.behind str) left) :
    Owes mem (.send c str) (onLine [c] ++ left)

/-- How many accesses it takes at most to write `n` characters, if none finds the FIFO full. -/
def UartPc.due : UartPc → Nat → Nat
  | outside, _ => 0
  | next _, n => 3 * n + 1
  | wait _ _, n => 3 * n
  | send _ _, n => 3 * n - 1

/-- Pieces of texts, of which at most so many are cut short. -/
inductive CutShort {α : Type} : Nat → List (List α) → List (List α) → Prop
  | nil {n : Nat} : CutShort n [] []
  | whole {n : Nat} {text : List α} {pieces texts : List (List α)} (rest : CutShort n pieces texts) :
    CutShort n (text :: pieces) (text :: texts)
  | cut {n : Nat} {piece text : List α} {pieces texts : List (List α)} (front : piece <+: text)
    (rest : CutShort n pieces texts) : CutShort (n + 1) (piece :: pieces) (text :: texts)

namespace CutShort

variable {α : Type} {n : Nat} {pieces texts : List (List α)} {sent left : List α}

theorem added (holds : CutShort n pieces texts) (text : List α) : CutShort n (pieces ++ [text]) (texts ++ [text]) := by
  induction holds with
  | nil => exact .whole .nil
  | whole rest ih => exact .whole ih
  | cut front rest ih => exact .cut front ih

theorem mono (holds : CutShort n pieces texts) : CutShort (n + 1) pieces texts := by
  induction holds with
  | nil => exact .nil
  | whole rest ih => exact .whole ih
  | cut front rest ih => exact .cut front ih

/-- Cutting off the last piece. -/
theorem last (holds : CutShort n (pieces ++ [sent ++ left]) texts) : CutShort (n + 1) (pieces ++ [sent]) texts := by
  induction pieces generalizing n texts with
  | nil =>
    cases holds with
    | whole rest => exact .cut (List.prefix_append sent left) rest
    | cut front rest => exact .cut ((List.prefix_append sent left).trans front) rest.mono
  | cons piece pieces ih =>
    cases holds with
    | whole rest => exact .whole (ih rest)
    | cut front rest => exact .cut front (ih rest)

theorem eq_of_zero (holds : CutShort 0 pieces texts) : pieces = texts := by
  generalize none : 0 = n at holds
  induction holds with
  | nil => rfl
  | whole rest ih => rw [ih none]
  | cut front rest ih => cases none

end CutShort

namespace Uart

variable {mem : Mem} {depth : Nat} {other : BitVec 32} {s s' : Uart} {e : UartEvent} {events : List UartEvent}
  {strings : Nat → List Char} {left before : List Char} {pieces calls : List (List Char)} {n : Nat}

/-- The next access finds the FIFO full. -/
def stalled (depth : Nat) (s : Uart) : Bool :=
  match s.pc with
  | .wait _ _ => s.fifo.length == depth
  | _ => false

/-- The FIFO holds what it can, and the CPU writes only where it has seen room. -/
structure Fits (depth : Nat) (s : Uart) : Prop where
  small : s.fifo.length ≤ depth
  room : ∀ c str, s.pc = .send c str → s.fifo.length < depth

theorem lsr_full : s.lsr depth other &&& auxMuLsrSpace = 0 ↔ depth ≤ s.fifo.length := by
  have cleared : other &&& ~~~auxMuLsrSpace &&& auxMuLsrSpace = 0 := by
    rw [BitVec.and_assoc, show ~~~auxMuLsrSpace &&& auxMuLsrSpace = 0#32 by decide, BitVec.and_zero]
    rfl
  have distributed (x : BitVec 32) : (other &&& ~~~auxMuLsrSpace ||| x) &&& auxMuLsrSpace = x &&& auxMuLsrSpace := by
    rw [BitVec.and_or_distrib_right, cleared]
    exact BitVec.zero_or
  rw [lsr, distributed]
  by_cases room : s.fifo.length < depth
  · rw [if_pos room]
    exact ⟨fun zero => absurd zero (by decide), fun full => absurd room (not_lt.mpr full)⟩
  · rw [if_neg room]
    exact ⟨fun _ => not_lt.mp room, fun _ => rfl⟩

theorem onLine_cons (c : Char) (text : List Char) : onLine (c :: text) = onLine [c] ++ onLine text := by
  simp [onLine]

/-- One access moves what it writes from what is owed to the end of the FIFO, and brings the end of
the call nearer unless the FIFO is full. -/
theorem access_spec (fits : Fits depth s) (owes : Owes mem s.pc left) (accessed : s.access mem depth other = some s') :
    ∃ moved left', left = moved ++ left' ∧ Owes mem s'.pc left' ∧ s'.line = s.line ∧ s'.fifo = s.fifo ++ moved ∧
      Fits depth s' ∧ (s'.pc.due left'.length < s.pc.due left.length ∨ s.stalled depth = true ∧ s' = s) := by
  obtain ⟨line, fifo, pc⟩ := s
  cases owes with
  | outside => cases accessed
  | @next str text at_ =>
    cases at_ with
    | nil ends =>
      simp only [access, if_neg (not_not.mpr ends)] at accessed
      cases accessed
      exact ⟨[], [], rfl, .outside, rfl, (List.append_nil _).symm, ⟨fits.small, fun _ _ at_ => by cases at_⟩,
        Or.inl (Nat.succ_pos _)⟩
    | @cons _ c text here nonzero rest =>
      simp only [access, here, if_pos nonzero] at accessed
      cases accessed
      refine ⟨[], onLine (c :: text), rfl, ?_, rfl, (List.append_nil _).symm, ⟨fits.small, fun _ _ at_ => by cases at_⟩,
        Or.inl (Nat.lt_succ_self _)⟩
      rw [onLine_cons]
      exact .wait (.next rest)
  | @wait c str left behind =>
    -- only here is the full FIFO seen, and only here does an access change nothing
    simp only [access] at accessed
    split at accessed
    · next full =>
      cases accessed
      have same : fifo.length = depth := le_antisymm fits.small (lsr_full.mp full)
      exact ⟨[], _, rfl, .wait behind, rfl, (List.append_nil _).symm, fits, Or.inr ⟨beq_iff_eq.mpr same, rfl⟩⟩
    · next space =>
      cases accessed
      have some : 0 < (onLine [c] ++ left).length := by
        by_cases newline : c = '\n' <;> simp [onLine, newline]
      refine ⟨[], _, rfl, .send behind, rfl, (List.append_nil _).symm, ⟨fits.small, fun _ _ _ => ?_⟩, Or.inl ?_⟩
      · exact not_le.mp (mt lsr_full.mpr space)
      · exact Nat.sub_lt (Nat.mul_pos (by decide) some) Nat.one_pos
  | @send c str left behind =>
    have room : fifo.length < depth := fits.room c str rfl
    have small : (fifo ++ [c]).length ≤ depth := by
      rw [List.length_append, List.length_singleton]
      omega
    simp only [access, if_pos room] at accessed
    cases accessed
    -- a newline still owes its carriage return, which waits for room of its own
    by_cases newline : c = '\n'
    · subst newline
      refine ⟨['\n'], onLine ['\r'] ++ left, by simp [onLine], ?_, rfl, rfl, ⟨small, ?_⟩, Or.inl ?_⟩
      · exact .wait behind
      · rintro _ _ ⟨⟩
      · simp [UartPc.due, onLine]
        omega
    · rw [if_neg newline]
      refine ⟨[c], left, by simp [onLine, newline], behind, rfl, rfl, ⟨small, ?_⟩, Or.inl ?_⟩
      · intro _ _ at_
        cases str <;> cases at_
      · cases str with
        | none => simp [UartPc.behind, UartPc.due, onLine, newline]; omega
        | some str => simp [UartPc.behind, UartPc.due, onLine, newline]; omega

theorem access_busy (accessed : s.access mem depth other = some s') : s.pc ≠ .outside := by
  intro idle
  rw [access, idle] at accessed
  cases accessed

/-- A run so far: `pieces` are what its calls put on the line, the last one with what the call under
way has still to write. -/
structure Printing (mem : Mem) (depth : Nat) (before : List Char) (pieces : List (List Char)) (s : Uart) : Prop
    extends Fits depth s where
  idle : s.pc = .outside → s.line ++ s.fifo = before ++ pieces.flatten
  busy : s.pc ≠ .outside → ∃ done sent left, pieces = done ++ [sent ++ left] ∧ Owes mem s.pc left ∧
    s.line ++ s.fifo = before ++ (done.flatten ++ sent)

theorem Printing.call (printing : Printing mem depth before pieces s) (idle : s.pc = .outside) {pc : UartPc} {text : List Char}
    (owes : Owes mem pc (onLine text)) (busy : pc ≠ .outside) (waits : ∀ c str, pc ≠ .send c str) :
    Printing mem depth before (pieces ++ [onLine text]) { s with pc } where
  small := printing.small
  room c str at_ := absurd at_ (waits c str)
  idle at_ := absurd at_ busy
  busy _ := ⟨pieces, [], onLine text, rfl, owes, by rw [List.append_nil]; exact printing.idle idle⟩

theorem Printing.access (printing : Printing mem depth before pieces s) (accessed : s.access mem depth other = some s') :
    Printing mem depth before pieces s' := by
  obtain ⟨done, sent, left, shape, owes, written⟩ := printing.busy (access_busy accessed)
  obtain ⟨moved, left', split, owes', line, fifo, fits, -⟩ := access_spec printing.toFits owes accessed
  have written' : s'.line ++ s'.fifo = before ++ (done.flatten ++ (sent ++ moved)) := by
    rw [line, fifo, ← List.append_assoc, written, List.append_assoc, List.append_assoc]
  have shape' : pieces = done ++ [(sent ++ moved) ++ left'] := by rw [shape, split, List.append_assoc]
  refine ⟨fits, fun idle => ?_, fun _ => ⟨done, sent ++ moved, left', shape', owes', written'⟩⟩
  rw [idle] at owes'
  cases owes'
  rw [written', shape']
  simp

theorem Printing.shift {c : Char} {fifo : List Char} (printing : Printing mem depth before pieces s)
    (oldest : s.fifo = c :: fifo) : Printing mem depth before pieces { s with line := s.line ++ [c], fifo } := by
  have same : s.line ++ [c] ++ fifo = s.line ++ s.fifo := by rw [oldest, List.append_assoc, List.singleton_append]
  have shorter : fifo.length < s.fifo.length := by rw [oldest]; exact Nat.lt_succ_self _
  refine ⟨⟨shorter.le.trans printing.small, fun c str at_ => shorter.trans (printing.room c str at_)⟩,
    fun idle => ?_, fun busy => ?_⟩
  · exact same.trans (printing.idle idle)
  · obtain ⟨done, sent, left, shape, owes, written⟩ := printing.busy busy
    exact ⟨done, sent, left, shape, owes, same.trans written⟩

/-- What is on the line and in the FIFO, and what the call under way will add, are the pieces. -/
theorem Printing.output (printing : Printing mem depth before pieces s) :
    ∃ left, Owes mem s.pc left ∧ s.line ++ s.fifo ++ left = before ++ pieces.flatten := by
  by_cases idle : s.pc = .outside
  · exact ⟨[], idle ▸ .outside, (List.append_nil _).trans (printing.idle idle)⟩
  · obtain ⟨done, sent, left, shape, owes, written⟩ := printing.busy idle
    refine ⟨left, owes, ?_⟩
    rw [written, shape]
    simp

/-- An exception cuts off the last piece. -/
theorem Printing.cut (printing : Printing mem depth before pieces s) (cuts : CutShort n pieces calls) :
    ∃ pieces', Printing mem depth before pieces' { s with pc := .outside } ∧ CutShort (n + 1) pieces' calls := by
  by_cases idle : s.pc = .outside
  · exact ⟨pieces, ⟨⟨printing.small, nofun⟩, fun _ => printing.idle idle, fun busy => absurd rfl busy⟩, cuts.mono⟩
  · obtain ⟨done, sent, left, shape, -, written⟩ := printing.busy idle
    rw [shape] at cuts
    refine ⟨done ++ [sent], ⟨⟨printing.small, nofun⟩, fun _ => ?_, fun busy => absurd rfl busy⟩, cuts.last⟩
    rw [written]
    simp

/-- One event: a call adds its text, an exception cuts off the last one. -/
theorem Printing.step (printing : Printing mem depth before pieces s) (cuts : CutShort n pieces (calls.map onLine))
    (step : s.next mem depth e = some s') (texts : ∀ str, e = .sendStr str → Text '\x00' (charAt mem) str (strings str)) :
    ∃ pieces', Printing mem depth before pieces' s' ∧
      CutShort (n + [e].count .interrupt) pieces' ((calls ++ e.asked strings).map onLine) := by
  have added (text : List Char) : CutShort n (pieces ++ [onLine text]) ((calls ++ [text]).map onLine) := by
    rw [List.map_append]
    exact cuts.added (onLine text)
  have same : CutShort n pieces ((calls ++ []).map onLine) := by rwa [List.append_nil]
  cases e with
  | sendChar c =>
    rw [next] at step
    split at step
    · next idle =>
      cases step
      have owes : Owes mem (.wait c none) (onLine [c]) := (List.append_nil (onLine [c])) ▸ .wait .outside
      exact ⟨_, printing.call idle owes nofun nofun, added [c]⟩
    · cases step
  | sendStr str =>
    rw [next] at step
    split at step
    · next idle =>
      cases step
      exact ⟨_, printing.call idle (.next (texts str rfl)) nofun nofun, added (strings str)⟩
    · cases step
  | access other => exact ⟨pieces, printing.access step, same⟩
  | shift =>
    rw [next] at step
    split at step
    · cases step
    · next c fifo oldest =>
      cases step
      exact ⟨pieces, printing.shift oldest, same⟩
  | interrupt =>
    cases step
    exact printing.cut same

theorem run_cons (ran : s.run mem depth (e :: events) = some s') :
    ∃ after, s.next mem depth e = some after ∧ after.run mem depth events = some s' :=
  Option.bind_eq_some_iff.mp (by rwa [run, List.foldlM_cons] at ran)

theorem Printing.start (small : s.fifo.length ≤ depth) (idle : s.pc = .outside) :
    Printing mem depth (s.line ++ s.fifo) (([] : List (List Char)).map onLine) s where
  small := small
  room c str at_ := by rw [idle] at at_; cases at_
  idle _ := (List.append_nil _).symm
  busy at_ := absurd idle at_

theorem Printing.run (printing : Printing mem depth before pieces s) (cuts : CutShort n pieces (calls.map onLine))
    (ran : s.run mem depth events = some s')
    (texts : ∀ str, .sendStr str ∈ events → Text '\x00' (charAt mem) str (strings str)) :
    ∃ pieces', Printing mem depth before pieces' s' ∧ CutShort (n + events.count .interrupt) pieces'
      ((calls ++ events.flatMap (UartEvent.asked strings)).map onLine) := by
  induction events generalizing s calls pieces n with
  | nil =>
    cases ran
    rw [List.flatMap_nil, List.append_nil]
    exact ⟨pieces, printing, cuts⟩
  | cons e events ih =>
    obtain ⟨after, step, rest⟩ := run_cons ran
    obtain ⟨middle, printing', cuts'⟩ := printing.step cuts step fun str at_ => texts str (at_ ▸ List.mem_cons_self ..)
    obtain ⟨pieces', final, cuts''⟩ := ih printing' cuts' rest fun str member => texts str (List.mem_cons_of_mem _ member)
    rw [List.append_assoc, ← List.flatMap_cons, Nat.add_assoc, ← List.count_append] at cuts''
    exact ⟨pieces', final, cuts''⟩

/-- A run of calls. -/
theorem printing_of_run (small : s.fifo.length ≤ depth) (idle : s.pc = .outside) (ran : s.run mem depth events = some s')
    (texts : ∀ str, .sendStr str ∈ events → Text '\x00' (charAt mem) str (strings str)) :
    ∃ pieces, Printing mem depth (s.line ++ s.fifo) pieces s' ∧
      CutShort (events.count .interrupt) pieces ((events.flatMap (UartEvent.asked strings)).map onLine) := by
  have none : CutShort 0 (([] : List (List Char)).map onLine) (([] : List (List Char)).map onLine) := .nil
  obtain ⟨pieces, printing, cuts⟩ := (Printing.start small idle).run none ran texts
  rw [List.nil_append, Nat.zero_add] at cuts
  exact ⟨pieces, printing, cuts⟩

/-- The texts on a mini UART that never makes the CPU wait. -/
def sendAll (text : List Char) (uart : MiniUart) : MiniUart := text.foldl (fun uart c => miniUartSendChar c uart) uart

theorem sendAll_sent (text : List Char) (uart : MiniUart) :
    sendAll text uart = { uart with sent := uart.sent ++ onLine text } := by
  induction text generalizing uart with
  | nil => simp [sendAll, onLine]
  | cons c text ih =>
    have first : miniUartSendChar c uart = { uart with sent := uart.sent ++ onLine [c] } := by
      by_cases newline : c = '\n' <;> simp [miniUartSendChar, MiniUart.put, onLine, newline]
    rw [sendAll, List.foldl_cons, first]
    refine (ih _).trans ?_
    rw [onLine_cons c text, List.append_assoc]

theorem flatten_onLine (calls : List (List Char)) : (calls.map onLine).flatten = onLine calls.flatten := by
  induction calls with
  | nil => rfl
  | cons call calls ih =>
    rw [List.map_cons, List.flatten_cons, ih, List.flatten_cons, onLine, onLine, onLine, List.flatMap_append]

/-- In every run of calls, with the transmitter as fast or slow as it likes and exceptions at any
place: no character is written to a full FIFO, and what goes to the line are the texts in the order
of the calls, with at most one of them cut short for each exception, up to what the call under way
has still to write. Without exceptions the line and the FIFO hold what a mini UART gets that never
makes the CPU wait. -/
theorem uart_prints_in_order (mem : Mem) (depth : Nat) (strings : Nat → List Char) (s s' : Uart) (events : List UartEvent)
    (small : s.fifo.length ≤ depth) (idle : s.pc = .outside)
    (texts : ∀ str, .sendStr str ∈ events → Text '\x00' (charAt mem) str (strings str))
    (ran : s.run mem depth events = some s') :
    s'.fifo.length ≤ depth ∧ (∀ c str, s'.pc = .send c str → s'.fifo.length < depth) ∧
    ∃ pieces left, Owes mem s'.pc left ∧ s'.line ++ s'.fifo ++ left = s.line ++ s.fifo ++ pieces.flatten ∧
      CutShort (events.count .interrupt) pieces ((events.flatMap (UartEvent.asked strings)).map onLine) ∧
      (.interrupt ∉ events → sendAll (events.flatMap (UartEvent.asked strings)).flatten ⟨true, s.line ++ s.fifo⟩ =
        ⟨true, s'.line ++ s'.fifo ++ left⟩) := by
  obtain ⟨pieces, printing, cuts⟩ := printing_of_run small idle ran texts
  obtain ⟨left, owes, written⟩ := printing.output
  refine ⟨printing.small, printing.room, pieces, left, owes, written, cuts, fun calm => ?_⟩
  rw [List.count_eq_zero_of_not_mem calm] at cuts
  rw [sendAll_sent, ← flatten_onLine, ← cuts.eq_of_zero, written]

/-- The string `"A\n"`; two characters fit into the FIFO, and the carriage return waits. -/
def sampleUart : Mem := fun a => if a = 100 then 65 else if a = 101 then 10 else 0

def sampleSends : List UartEvent := List.replicate 7 (.access 0xFFFFFFFF) ++ .shift :: List.replicate 3 (.access 0)

theorem sampleUart_text : Text '\x00' (charAt sampleUart) 100 ['A', '\n'] :=
  .cons (by decide) (by decide) (.cons (by decide) (by decide) (.nil (by decide)))

theorem uart_prints_in_order_sample :
    ∃ s', Uart.run sampleUart 2 ⟨[], [], .outside⟩
        (.sendStr 100 :: sampleSends ++ [.sendChar 'B', .access 0, .interrupt]) = some s' ∧ s'.fifo.length ≤ 2 := by
  refine ⟨⟨['A'], ['\n', '\r'], .outside⟩, by decide, ?_⟩
  refine (uart_prints_in_order sampleUart 2 (fun _ => ['A', '\n']) ⟨[], [], .outside⟩ _
    (.sendStr 100 :: sampleSends ++ [.sendChar 'B', .access 0, .interrupt]) (by decide) rfl ?_ (by decide)).1
  intro str member
  have place : str = 100 := by simpa [sampleSends] using member
  subst place
  exact sampleUart_text

/-- The accesses of a run that find the FIFO full. -/
def stalls (mem : Mem) (depth : Nat) : Uart → List UartEvent → Nat
  | _, [] => 0
  | s, e :: events =>
    (e.isAccess && s.stalled depth).toNat + (s.next mem depth e).elim 0 fun after => stalls mem depth after events

/-- Whatever the transmitter does, the other accesses use up what is due. -/
theorem due_run (fits : Fits depth s) (owes : Owes mem s.pc left) (ran : s.run mem depth events = some s')
    (steps : ∀ e ∈ events, e = .shift ∨ e.isAccess = true) :
    Fits depth s' ∧ ∃ left', Owes mem s'.pc left' ∧
      events.countP UartEvent.isAccess + s'.pc.due left'.length ≤ s.pc.due left.length + stalls mem depth s events := by
  induction events generalizing s left with
  | nil =>
    cases ran
    exact ⟨fits, left, owes, by simp [stalls]⟩
  | cons e events ih =>
    obtain ⟨after, step, rest⟩ := run_cons ran
    have later := fun e member => steps e (List.mem_cons_of_mem _ member)
    rw [List.countP_cons, stalls, step, Option.elim_some]
    rcases steps e (List.mem_cons_self ..) with rfl | accesses
    · obtain ⟨line, fifo, pc⟩ := s
      cases fifo with
      | nil => cases step
      | cons c fifo =>
        cases step
        have shorter : fifo.length < (c :: fifo).length := Nat.lt_succ_self _
        have fits' : Fits depth ⟨line ++ [c], fifo, pc⟩ :=
          ⟨shorter.le.trans fits.small, fun d str at_ => shorter.trans (fits.room d str at_)⟩
        obtain ⟨final, left', owes', used⟩ := ih fits' owes rest later
        refine ⟨final, left', owes', ?_⟩
        simp only [UartEvent.isAccess, Bool.false_and, Bool.toNat_false]
        simpa using used
    · cases e with
      | access other =>
        obtain ⟨moved, left', split, owes', line, fifo, fits', nearer⟩ := access_spec fits owes step
        obtain ⟨final, left'', owes'', used⟩ := ih fits' owes' rest later
        refine ⟨final, left'', owes'', ?_⟩
        rcases nearer with nearer | ⟨full, same⟩
        · simp only [UartEvent.isAccess, if_true]
          omega
        · subst same
          have nothing : moved = [] := by simpa using fifo
          rw [split, nothing, List.nil_append, full]
          simp only [UartEvent.isAccess, if_true, Bool.and_self, Bool.toNat_true]
          omega
      | _ => cases accesses

theorem next_call {text : List Char} (asked : e.asked strings = [text]) (call : s.next mem depth e = some s')
    (texts : ∀ str, e = .sendStr str → Text '\x00' (charAt mem) str (strings str)) :
    s'.fifo = s.fifo ∧ Owes mem s'.pc (onLine text) ∧ (∀ c str, s'.pc ≠ .send c str) ∧
      s'.pc.due (onLine text).length ≤ 3 * (onLine text).length + 1 := by
  cases e with
  | sendChar c =>
    cases asked
    rw [next] at call
    split at call
    · cases call
      exact ⟨rfl, (List.append_nil (onLine [c])) ▸ .wait .outside, nofun, Nat.le_succ _⟩
    · cases call
  | sendStr str =>
    cases asked
    rw [next] at call
    split at call
    · cases call
      exact ⟨rfl, .next (texts str rfl), nofun, le_rfl⟩
    · cases call
  | _ => cases asked

theorem access_some (busy : s.pc ≠ .outside) : ∃ after, s.access mem depth other = some after := by
  unfold access
  split
  · next idle => exact absurd idle busy
  · split <;> exact ⟨_, rfl⟩
  · split <;> exact ⟨_, rfl⟩
  · exact ⟨_, rfl⟩

theorem shift_makes_room (positive : 0 < depth) (full : s.stalled depth = true) :
    ∃ after, s.next mem depth .shift = some after ∧ after.stalled depth = false := by
  obtain ⟨line, fifo, pc⟩ := s
  cases pc with
  | wait c str =>
    have length : fifo.length = depth := beq_iff_eq.mp full
    cases fifo with
    | nil => exact absurd length positive.ne
    | cons d fifo =>
      have shorter : fifo.length ≠ depth := by
        rw [← length]
        exact (Nat.lt_succ_self _).ne
      exact ⟨_, rfl, beq_eq_false_iff_ne.mpr shorter⟩
  | _ => cases full

/-- After any run, a call with a text that puts `n` characters on the line is over after `3 n + 1`
accesses, not counting those that find the FIFO full; until then the CPU has a next access, and a
FIFO that is full has room as soon as the transmitter shifts. -/
theorem uart_calls_end (mem : Mem) (depth : Nat) (strings : Nat → List Char) (s s₁ s₂ s₃ : Uart) (e : UartEvent)
    (events later : List UartEvent) (text : List Char) (positive : 0 < depth) (small : s.fifo.length ≤ depth)
    (idle : s.pc = .outside)
    (texts : ∀ str, .sendStr str ∈ events ++ [e] → Text '\x00' (charAt mem) str (strings str))
    (ran : s.run mem depth events = some s₁) (call : s₁.next mem depth e = some s₂) (asked : e.asked strings = [text])
    (ran' : s₂.run mem depth later = some s₃) (steps : ∀ e ∈ later, e = .shift ∨ e.isAccess = true) :
    later.countP UartEvent.isAccess ≤ 3 * (onLine text).length + 1 + stalls mem depth s₂ later ∧
    (s₃.pc ≠ .outside → ∀ other, ∃ after, s₃.next mem depth (.access other) = some after) ∧
    (s₃.stalled depth = true → ∃ after, s₃.next mem depth .shift = some after ∧ after.stalled depth = false) := by
  obtain ⟨_, printing, -⟩ := printing_of_run small idle ran fun str member => texts str (List.mem_append_left _ member)
  obtain ⟨same, owes, waits, due⟩ := next_call asked call fun str at_ => texts str (by simp [at_])
  have fits : Fits depth s₂ := ⟨same ▸ printing.small, fun c str at_ => absurd at_ (waits c str)⟩
  obtain ⟨-, left, owes', used⟩ := due_run fits owes ran' steps
  exact ⟨by omega, fun busy other => access_some busy, fun full => shift_makes_room positive full⟩

theorem uart_calls_end_sample :
    sampleSends.countP UartEvent.isAccess ≤ 3 * 3 + 1 + stalls sampleUart 2 ⟨[], [], .next 100⟩ sampleSends := by
  refine (uart_calls_end sampleUart 2 (fun _ => ['A', '\n']) ⟨[], [], .outside⟩ _ ⟨[], [], .next 100⟩
    ⟨['A'], ['\n', '\r'], .outside⟩ (.sendStr 100) [] sampleSends ['A', '\n'] (by decide) (by decide) rfl ?_ rfl rfl rfl
    (by decide) (by decide)).1
  intro str member
  obtain rfl : str = 100 := by simpa using member
  exact sampleUart_text

end Uart

end Swink.Printf
