import Mathlib.Data.List.Forall2
import Swink.Lib.Tokens
import Swink.Strings.Scan

namespace Swink.Strings

/-- `while (strchr(delimiters, *s) != NULL)`: where it ends, and whether at the null byte. -/
def skipLoop (limit : Nat) (mem : Mem) (delimiters : Nat) : Nat → Nat → Except Fault (Nat × Bool)
  | 0, _ => .error .fuel
  | rounds + 1, s => do
    if ← among limit mem delimiters s then
      if mem s = 0 then .ok (s, true) else skipLoop limit mem delimiters rounds (s + 1)
    else .ok (s, false)

/-- `while (strchr(delimiters, *s) == NULL)` -/
def tokenLoop (limit : Nat) (mem : Mem) (delimiters : Nat) : Nat → Nat → Except Fault Nat
  | 0, _ => .error .fuel
  | rounds + 1, s => do
    if ← among limit mem delimiters s then .ok s else tokenLoop limit mem delimiters rounds (s + 1)

/-- The token, `*save_ptr` and the memory. -/
def strtokR (rounds : Nat) (s delimiters savePtr : Nat) (mem : Mem) : Except Fault (Nat × Nat × Mem) := do
  assert (delimiters ≠ 0) "delimiters != NULL"
  let s := if s = 0 then savePtr else s
  assert (s ≠ 0) "s != NULL"
  let skipped ← skipLoop rounds mem delimiters rounds s
  if skipped.2 then .ok (0, skipped.1, mem) else
  let token := skipped.1
  let s ← tokenLoop rounds mem delimiters rounds token
  if mem s ≠ 0 then .ok (token, s + 1, Function.update mem s 0) else .ok (token, s, mem)

/-- Calls of `strtok_r`, each with its own delimiters: the first on a string, the others on `NULL`. -/
def strtokEach (rounds : Nat) : List Nat → Nat → Nat → Mem → Except Fault (List Nat × Mem)
  | [], _, _, mem => .ok ([], mem)
  | delimiters :: more, s, savePtr, mem => do
    let called ← strtokR rounds s delimiters savePtr mem
    let later ← strtokEach rounds more 0 called.2.1 called.2.2
    .ok (called.1 :: later.1, later.2)

/-- `for (token = strtok_r(s, delimiters, &save_ptr); token != NULL; token = strtok_r(NULL, delimiters, &save_ptr))` -/
def strtokLoop (limit delimiters : Nat) : Nat → Nat → Nat → Mem → Except Fault (List Nat × Mem)
  | 0, _, _, _ => .error .fuel
  | rounds + 1, s, savePtr, mem => do
    let called ← strtokR limit s delimiters savePtr mem
    if called.1 = 0 then .ok ([], called.2.2) else
    let later ← strtokLoop limit delimiters rounds 0 called.2.1 called.2.2
    .ok (called.1 :: later.1, later.2)

variable {mem mem' : Mem} {limit rounds s savePtr start delimiters set : Nat} {text skip token rest stop : List (BitVec 8)}

section Loops
variable (holdsSet : Text 0 mem set stop) (object : set ≠ 0) (enoughSet : stop.length < limit)
include holdsSet object enoughSet

theorem skipLoop_through (holds : Text 0 mem start (skip ++ text)) (delimiters : ∀ c ∈ skip, inSet stop c = true) :
    skipLoop limit mem set (skip.length + rounds) start = skipLoop limit mem set rounds (start + skip.length) := by
  induction skip generalizing start with
  | nil => rw [List.length_nil, Nat.zero_add, Nat.add_zero]
  | cons c skip ih =>
    rw [List.cons_append] at holds
    cases holds with
    | cons here nonzero rest =>
      have character : mem start ≠ 0 := here ▸ nonzero
      have found : decide (mem start ∈ stop) = true := here ▸ delimiters c (List.mem_cons_self ..)
      rw [List.length_cons, show skip.length + 1 + rounds = skip.length + rounds + 1 by omega, skipLoop,
        among_of_nonzero holdsSet object enoughSet character, ok_bind, if_pos found, if_neg character,
        ih rest fun c member => delimiters c (List.mem_cons_of_mem _ member),
        show start + (skip.length + 1) = start + 1 + skip.length by omega]

theorem tokenLoop_through (holds : Text 0 mem start (token ++ text)) (free : ∀ c ∈ token, inSet stop c = false) :
    tokenLoop limit mem set (token.length + rounds) start = tokenLoop limit mem set rounds (start + token.length) := by
  induction token generalizing start with
  | nil => rw [List.length_nil, Nat.zero_add, Nat.add_zero]
  | cons c token ih =>
    rw [List.cons_append] at holds
    cases holds with
    | cons here nonzero rest =>
      have missing : decide (mem start ∈ stop) = false := here ▸ free c (List.mem_cons_self ..)
      rw [List.length_cons, show token.length + 1 + rounds = token.length + rounds + 1 by omega, tokenLoop,
        among_of_nonzero holdsSet object enoughSet (here ▸ nonzero), ok_bind, if_neg (by rw [missing]; exact Bool.false_ne_true),
        ih rest fun c member => free c (List.mem_cons_of_mem _ member),
        show start + (token.length + 1) = start + 1 + token.length by omega]

/-- Behind the delimiters the text is at its end. -/
theorem skipLoop_ends (holds : Text 0 mem start skip) (delimiters : ∀ c ∈ skip, inSet stop c = true)
    (enough : skip.length < rounds) : skipLoop limit mem set rounds start = .ok (start + skip.length, true) := by
  obtain ⟨more, rfl⟩ := Nat.exists_eq_add_of_le (Nat.succ_le_of_lt enough)
  have zero := holds.ends
  rw [show skip.length.succ + more = skip.length + (more + 1) by omega,
    skipLoop_through holdsSet object enoughSet (by rwa [List.append_nil]) delimiters, skipLoop,
    among_text holdsSet object enoughSet, ok_bind, if_pos (by simp [zero]), if_pos zero]

/-- Behind the delimiters a token begins. -/
theorem skipLoop_stops {c : BitVec 8} (holds : Text 0 mem start (skip ++ c :: text))
    (delimiters : ∀ c ∈ skip, inSet stop c = true) (free : inSet stop c = false)
    (enough : skip.length < rounds) : skipLoop limit mem set rounds start = .ok (start + skip.length, false) := by
  obtain ⟨more, rfl⟩ := Nat.exists_eq_add_of_le (Nat.succ_le_of_lt enough)
  rw [show skip.length.succ + more = skip.length + (more + 1) by omega,
    skipLoop_through holdsSet object enoughSet holds delimiters]
  cases holds.rest_of_append with
  | cons here nonzero rest =>
    have missing : decide (mem (start + skip.length) ∈ stop) = false := here ▸ free
    rw [skipLoop, among_of_nonzero holdsSet object enoughSet (here ▸ nonzero), ok_bind,
      if_neg (by rw [missing]; exact Bool.false_ne_true)]

/-- Behind the token there is a delimiter or the end. -/
theorem tokenLoop_stops (holds : Text 0 mem start (token ++ text)) (free : ∀ c ∈ token, inSet stop c = false)
    (behind : mem (start + token.length) ∈ stop ++ [0]) (enough : token.length < rounds) :
    tokenLoop limit mem set rounds start = .ok (start + token.length) := by
  obtain ⟨more, rfl⟩ := Nat.exists_eq_add_of_le (Nat.succ_le_of_lt enough)
  rw [show token.length.succ + more = token.length + (more + 1) by omega,
    tokenLoop_through holdsSet object enoughSet holds free, tokenLoop, among_text holdsSet object enoughSet, ok_bind,
    if_pos (by simpa using behind)]

end Loops

section Call
variable (from_ : (if s = 0 then savePtr else s) = start) (object : start ≠ 0) (holdsSet : Text 0 mem set stop) (objectSet : set ≠ 0)
  (enoughSet : stop.length < rounds)
include from_ object holdsSet objectSet enoughSet

theorem strtokR_none (holds : Text 0 mem start skip) (delimiters : ∀ c ∈ skip, inSet stop c = true)
    (enough : skip.length < rounds) : strtokR rounds s set savePtr mem = .ok (0, start + skip.length, mem) := by
  simp only [strtokR, assert_of objectSet, ok_bind, from_, assert_of object,
    skipLoop_ends holdsSet objectSet enoughSet holds delimiters enough, if_true]

theorem strtokR_some (holds : Text 0 mem start (skip ++ (token ++ rest))) (delimiters : ∀ c ∈ skip, inSet stop c = true)
    (free : ∀ c ∈ token, inSet stop c = false) (nonempty : token ≠ [])
    (behind : mem (start + skip.length + token.length) ∈ stop ++ [0]) (enough : (skip ++ (token ++ rest)).length < rounds) :
    strtokR rounds s set savePtr mem =
      if mem (start + skip.length + token.length) ≠ 0 then .ok (start + skip.length, start + skip.length + token.length + 1,
        Function.update mem (start + skip.length + token.length) 0)
      else .ok (start + skip.length, start + skip.length + token.length, mem) := by
  obtain ⟨c, more, rfl⟩ := List.exists_cons_of_ne_nil nonempty
  rw [List.length_append, List.length_append] at enough
  simp only [strtokR, assert_of objectSet, ok_bind, from_, assert_of object,
    skipLoop_stops holdsSet objectSet enoughSet (show Text 0 mem start (skip ++ c :: (more ++ rest)) from holds) delimiters
      (free c (List.mem_cons_self ..)) (show skip.length < rounds by omega), Bool.false_eq_true, if_false,
    tokenLoop_stops holdsSet objectSet enoughSet holds.rest_of_append free behind (show (c :: more).length < rounds by omega)]

end Call

/-- The character behind a token: a delimiter with the rest behind it. -/
theorem behind_cut {d : BitVec 8} (holds : Text 0 mem start (skip ++ (token ++ d :: rest))) :
    mem (start + skip.length + token.length) = d ∧ d ≠ 0 ∧ Text 0 mem (start + skip.length + token.length + 1) rest := by
  cases holds.rest_of_append.rest_of_append with
  | cons here nonzero rest => exact ⟨here, nonzero, rest⟩

/-- What one call does with the text from its start up to its end: it returns the token as a string of
its own, or `NULL`, and leaves the rest behind; only a delimiter may have been overwritten. -/
structure Takes (mem : Mem) (start upper : Nat) (stop : List (BitVec 8)) (found : Option (List (BitVec 8) × List (BitVec 8)))
    (p save : Nat) (mem' : Mem) : Prop where
  missing : found = none → p = 0
  token : ∀ token rest, found = some (token, rest) →
    start ≤ p ∧ Text 0 mem' p token ∧ (p + token.length < save ∨ p + token.length = upper ∧ save = upper) ∧ p + token.length ≤ upper
  after : start ≤ save
  later : Text 0 mem' save (Tokens.left found)
  inside : save + (Tokens.left found).length = upper
  frame : ∀ a, mem' a = mem a ∨ (mem' a = 0 ∧ start ≤ a ∧ a < save ∧ a < upper ∧ mem a ∈ stop)

theorem strtokR_takes {upper : Nat} (holds : Text 0 mem start text) (from_ : (if s = 0 then savePtr else s) = start)
    (object : start ≠ 0) (upto : start + text.length = upper) (holdsSet : Text 0 mem set stop) (objectSet : set ≠ 0)
    (enough : text.length < rounds) (enoughSet : stop.length < rounds) :
    ∃ p save mem', strtokR rounds s set savePtr mem = .ok (p, save, mem') ∧
      Takes mem start upper stop (Tokens.next (inSet stop) text) p save mem' := by
  have zero := holds.ends
  cases Tokens.shape (inSet stop) text with
  | none delimiters =>
    rw [strtokR_none from_ object holdsSet objectSet enoughSet holds delimiters enough, Tokens.next_none delimiters]
    exact ⟨_, _, _, rfl, fun _ => rfl, fun _ _ found => absurd found.symm (Option.some_ne_none _), Nat.le_add_right .., .nil zero,
      upto, fun a => Or.inl rfl⟩
  | @last skip token delimiters free nonempty =>
    have end_ : start + skip.length + token.length = upper := by
      rw [List.length_append] at upto
      omega
    rw [show start + (skip ++ token).length = start + skip.length + token.length by rw [List.length_append]; omega] at zero
    have whole : skip ++ token = skip ++ (token ++ []) := by rw [List.append_nil]
    rw [strtokR_some from_ object holdsSet objectSet enoughSet (whole ▸ holds) delimiters free nonempty
      (by rw [zero]; exact List.mem_append_right _ (List.mem_singleton.mpr rfl)) (whole ▸ enough), if_neg (not_not.mpr zero),
      Tokens.next_last delimiters free nonempty]
    refine ⟨_, _, _, rfl, fun none => absurd none (Option.some_ne_none _), fun token rest found => ?_, by omega, .nil zero, end_,
      fun a => Or.inl rfl⟩
    cases found
    exact ⟨Nat.le_add_right .., holds.rest_of_append, Or.inr ⟨end_, end_⟩, end_.le⟩
  | @cut skip token rest d delimiters free nonempty ends =>
    obtain ⟨behind, nonzero, later⟩ := behind_cut holds
    have delimiter : d ∈ stop := of_decide_eq_true ends
    rw [strtokR_some from_ object holdsSet objectSet enoughSet holds delimiters free nonempty
      (by rw [behind]; exact List.mem_append_left _ delimiter) enough, if_pos (behind ▸ nonzero),
      Tokens.next_cut delimiters free nonempty ends]
    rw [List.length_append, List.length_append, List.length_cons] at upto
    refine ⟨_, _, _, rfl, fun none => absurd none (Option.some_ne_none _), fun token rest found => ?_, by omega,
      later.congr fun a above below => Function.update_of_ne (by omega) .., ?_, fun a => ?_⟩
    · cases found
      exact ⟨by omega, holds.rest_of_append.cut, Or.inl (by omega), by omega⟩
    · show _ + rest.length = upper
      omega
    · by_cases here : a = start + skip.length + token.length
      · subst here
        exact Or.inr ⟨Function.update_self .., by omega, by omega, by omega, behind ▸ delimiter⟩
      · exact Or.inl (Function.update_of_ne here ..)

/-- What a caller holds of a token in the end: `NULL` where there was none, otherwise a string inside
the one that was taken apart. -/
def TokenAt (mem : Mem) (lower upper p : Nat) : Option (List (BitVec 8)) → Prop
  | none => p = 0
  | some token => p ≠ 0 ∧ lower ≤ p ∧ p + token.length ≤ upper ∧ Text 0 mem p token

theorem TokenAt.mono {lower lower' upper p : Nat} {token : Option (List (BitVec 8))} (holds : TokenAt mem lower upper p token)
    (le : lower' ≤ lower) : TokenAt mem lower' upper p token := by
  cases token with
  | none => exact holds
  | some token => exact ⟨holds.1, Nat.le_trans le holds.2.1, holds.2.2⟩

/-- Memory changes only where a delimiter of the string was, which is then null. -/
def Cleared (mem mem' : Mem) (lower upper : Nat) (stops : List (List (BitVec 8))) : Prop :=
  ∀ a, mem' a = mem a ∨ (mem' a = 0 ∧ lower ≤ a ∧ a < upper ∧ ∃ stop ∈ stops, mem a ∈ stop)

/-- The strings with the delimiters of the calls, which do not lie in the string that is taken apart. -/
def Sets (mem : Mem) (rounds lower upper : Nat) (sets : List (Nat × List (BitVec 8))) : Prop :=
  ∀ set ∈ sets, set.1 ≠ 0 ∧ Text 0 mem set.1 set.2 ∧ set.2.length < rounds ∧ (set.1 + set.2.length < lower ∨ upper ≤ set.1)

section After
variable {upper p save : Nat} {found : Option (List (BitVec 8) × List (BitVec 8))} {mem₁ : Mem} {stops : List (List (BitVec 8))}
  (takes : Takes mem start upper stop found p save mem₁)
include takes

theorem Takes.sets {sets : List (Nat × List (BitVec 8))} (known : Sets mem rounds start upper sets) :
    Sets mem₁ rounds save upper sets := fun set member => by
  obtain ⟨object, holds, enough, apart⟩ := known set member
  have after := takes.after
  refine ⟨object, holds.congr fun a above below => ?_, enough, by omega⟩
  rcases takes.frame a with same | ⟨-, inside, -, inside', -⟩
  · exact same
  · omega

theorem Takes.cleared (cleared : Cleared mem₁ mem' save upper stops) : Cleared mem mem' start upper (stop :: stops) := by
  intro a
  have after := takes.after
  rcases cleared a with same | ⟨zero, above, below, other, member, delimiter⟩ <;>
    rcases takes.frame a with unchanged | ⟨zero', above', before, below', delimiter'⟩
  · exact Or.inl (same.trans unchanged)
  · exact Or.inr ⟨same.trans zero', above', below', stop, List.mem_cons_self .., delimiter'⟩
  · exact Or.inr ⟨zero, by omega, below, other, List.mem_cons_of_mem _ member, unchanged ▸ delimiter⟩
  · omega

/-- Later calls leave the token as it is. -/
theorem Takes.tokenAt (object : start ≠ 0) (cleared : Cleared mem₁ mem' save upper stops) :
    TokenAt mem' start upper p (found.map Prod.fst) := by
  cases found with
  | none => exact takes.missing rfl
  | some parts =>
    obtain ⟨above, holds, behind, below⟩ := takes.token parts.1 parts.2 rfl
    refine ⟨by omega, above, below, holds.congr fun a from_ upto => ?_⟩
    rcases cleared a with same | ⟨-, late, inside, -⟩
    · exact same
    · omega

end After

theorem strtokEach_from {sets : List (Nat × List (BitVec 8))} {upper : Nat} (holds : Text 0 mem start text)
    (from_ : (if s = 0 then savePtr else s) = start) (object : start ≠ 0) (upto : start + text.length = upper)
    (enough : text.length < rounds) (known : Sets mem rounds start upper sets) :
    ∃ tokens mem', strtokEach rounds (sets.map Prod.fst) s savePtr mem = .ok (tokens, mem') ∧
      List.Forall₂ (TokenAt mem' start upper) tokens (Tokens.nexts (sets.map fun set => inSet set.2) text) ∧
      Cleared mem mem' start upper (sets.map Prod.snd) := by
  induction sets generalizing mem start s savePtr text with
  | nil => exact ⟨[], mem, rfl, .nil, fun a => Or.inl rfl⟩
  | cons set sets ih =>
    obtain ⟨objectSet, holdsSet, enoughSet, -⟩ := known set (List.mem_cons_self ..)
    have others : Sets mem rounds start upper sets := fun set member => known set (List.mem_cons_of_mem _ member)
    obtain ⟨p, save, mem₁, run, takes⟩ := strtokR_takes holds from_ object upto holdsSet objectSet enough enoughSet
    have after := takes.after
    have inside := takes.inside
    obtain ⟨tokens, mem', later, all, cleared⟩ :=
      ih takes.later (if_pos rfl) (by omega) inside (by omega) (takes.sets others)
    refine ⟨p :: tokens, mem', ?_, .cons (takes.tokenAt object cleared) (all.imp fun _ _ held => held.mono after),
      takes.cleared cleared⟩
    simp only [List.map_cons, strtokEach, run, ok_bind, later]

/-- A string that is taken apart with calls of `strtok_r`, whose delimiters may change from call to
call: each call returns the next token, or `NULL` where only delimiters are left; in the end all tokens
stand in the string's own memory one behind the other, none damaged by a later call, and nothing has
changed but delimiters, which are null. -/
theorem strtokEach_takes_apart {sets : List (Nat × List (BitVec 8))} (savePtr : Nat) (holds : Text 0 mem s text) (object : s ≠ 0)
    (enough : text.length < rounds) (known : Sets mem rounds s (s + text.length) sets) :
    ∃ tokens mem', strtokEach rounds (sets.map Prod.fst) s savePtr mem = .ok (tokens, mem') ∧
      List.Forall₂ (TokenAt mem' s (s + text.length)) tokens (Tokens.nexts (sets.map fun set => inSet set.2) text) ∧
      Cleared mem mem' s (s + text.length) (sets.map Prod.snd) :=
  strtokEach_from holds (if_neg object) object rfl enough known

/-- The string of the usage example in string.c, and two strings of delimiters. -/
def sampleText : List (BitVec 8) := bytesOf "  String to  tokenize. "

def sampleMem : Mem :=
  Spans.write (Spans.write (fun _ => 0) 0x100 (sampleText ++ [0])) 0x200 (bytesOf " " ++ 0 :: bytesOf "on" ++ [0])

theorem sampleMem_text : Text 0 sampleMem 0x100 sampleText :=
  .of_read (by decide +kernel) (by decide +kernel) (by decide +kernel)

theorem sampleMem_sets : Sets sampleMem 30 0x100 0x117 [(0x200, bytesOf " "), (0x202, bytesOf "on")] := by
  intro set member
  rcases List.mem_cons.mp member with rfl | member
  · exact ⟨by decide, .of_read (by decide +kernel) (by decide +kernel) (by decide +kernel), by decide +kernel, by decide +kernel⟩
  · cases List.mem_singleton.mp member
    exact ⟨by decide, .of_read (by decide +kernel) (by decide +kernel) (by decide +kernel), by decide +kernel, by decide +kernel⟩

theorem strtokEach_takes_apart_sample :
    ∃ tokens mem', strtokEach 30 [0x200, 0x202] 0x100 0 sampleMem = .ok (tokens, mem') ∧
      List.Forall₂ (TokenAt mem' 0x100 0x117) tokens [some (bytesOf "String"), some (bytesOf "t")] := by
  obtain ⟨tokens, mem', run, all, -⟩ := strtokEach_takes_apart 0 sampleMem_text (by decide) (by decide +kernel) sampleMem_sets
  have expected : Tokens.nexts ([(0x200, bytesOf " "), (0x202, bytesOf "on")].map fun set => inSet set.2) sampleText =
      [some (bytesOf "String"), some (bytesOf "t")] := by decide +kernel
  exact ⟨tokens, mem', run, expected ▸ all⟩

theorem strtokLoop_from {upper : Nat} (holds : Text 0 mem start text) (from_ : (if s = 0 then savePtr else s) = start)
    (object : start ≠ 0) (upto : start + text.length = upper) (enough : text.length < rounds) (enoughAll : text.length < limit)
    (known : Sets mem limit start upper [(set, stop)]) :
    ∃ tokens mem', strtokLoop limit set rounds s savePtr mem = .ok (tokens, mem') ∧
      List.Forall₂ (fun p token => TokenAt mem' start upper p (some token)) tokens (Tokens.pieces (inSet stop) text) ∧
      Cleared mem mem' start upper [stop] := by
  induction rounds generalizing mem start s savePtr text with
  | zero => omega
  | succ rounds ih =>
    obtain ⟨objectSet, holdsSet, enoughSet, apart⟩ := known _ (List.mem_singleton.mpr rfl)
    obtain ⟨p, save, mem₁, run, takes⟩ := strtokR_takes holds from_ object upto holdsSet objectSet enoughAll enoughSet
    have after := takes.after
    have inside := takes.inside
    have object' : save ≠ 0 := by omega
    rcases Tokens.pieces_of_next (inSet stop) text with ⟨ended, none⟩ | ⟨token, rest, found, pieces, shorter⟩
    · rw [ended] at takes
      have null := takes.missing rfl
      refine ⟨[], mem₁, by simp only [strtokLoop, run, ok_bind, null, if_true], none ▸ .nil, fun a => ?_⟩
      rcases takes.frame a with same | ⟨zero, above, -, below, delimiter⟩
      · exact Or.inl same
      · exact Or.inr ⟨zero, above, below, stop, List.mem_singleton.mpr rfl, delimiter⟩
    · rw [found] at takes
      obtain ⟨tokens, mem', later, all, cleared⟩ := ih takes.later (if_pos rfl) object' takes.inside
        (show rest.length < rounds by omega) (show rest.length < limit by omega) (takes.sets known)
      have first := takes.tokenAt object cleared
      refine ⟨p :: tokens, mem', ?_, pieces ▸ .cons first (all.imp fun _ _ held => held.mono after), ?_⟩
      · simp only [strtokLoop, run, ok_bind, if_neg first.1, later]
      · intro a
        rcases takes.cleared cleared a with same | ⟨zero, above, below, other, member, delimiter⟩
        · exact Or.inl same
        · exact Or.inr ⟨zero, above, below, other, by simpa using member, delimiter⟩

/-- The loop over the tokens of a string finds the parts between the delimiters, in order and without
the empty ones, and stops; in the end all of them stand in the string's own memory as strings, and
nothing has changed but delimiters, which are null. -/
theorem strtokLoop_finds_pieces (savePtr : Nat) (holds : Text 0 mem s text) (object : s ≠ 0) (enough : text.length < rounds)
    (known : Sets mem rounds s (s + text.length) [(set, stop)]) :
    ∃ tokens mem', strtokLoop rounds set rounds s savePtr mem = .ok (tokens, mem') ∧
      List.Forall₂ (fun p token => TokenAt mem' s (s + text.length) p (some token)) tokens
        (Tokens.pieces (inSet stop) text) ∧
      Cleared mem mem' s (s + text.length) [stop] :=
  strtokLoop_from holds (if_neg object) object rfl enough enough known

theorem strtokLoop_finds_pieces_sample :
    ∃ tokens mem', strtokLoop 30 0x200 30 0x100 0 sampleMem = .ok (tokens, mem') ∧
      List.Forall₂ (fun p token => TokenAt mem' 0x100 0x117 p (some token)) tokens
        [bytesOf "String", bytesOf "to", bytesOf "tokenize."] := by
  have known : Sets sampleMem 30 0x100 0x117 [(0x200, bytesOf " ")] := fun set member =>
    sampleMem_sets set (List.mem_cons.mpr (Or.inl (List.mem_singleton.mp member)))
  obtain ⟨tokens, mem', run, all, -⟩ := strtokLoop_finds_pieces 0 sampleMem_text (by decide) (by decide +kernel) known
  have expected : Tokens.pieces (inSet (bytesOf " ")) sampleText =
      [bytesOf "String", bytesOf "to", bytesOf "tokenize."] := by decide +kernel
  exact ⟨tokens, mem', run, expected ▸ all⟩

end Swink.Strings
