import Swink.Strings.Tokens

namespace Swink.Strings

/-- `strtok_r` with `strspn` and `strcspn` for its loops. -/
def strtokSpans (rounds : Nat) (s delimiters savePtr : Nat) (mem : Mem) : Except Fault (Nat × Nat × Mem) := do
  let s := if s = 0 then savePtr else s
  let skip ← strspn rounds mem s delimiters
  let token := s + skip
  if mem token = 0 then .ok (0, token, mem) else
  let length ← strcspn rounds mem token delimiters
  let s := token + length
  if mem s ≠ 0 then .ok (token, s + 1, Function.update mem s 0) else .ok (token, s, mem)

/-- `strpbrk` with `strcspn` for its loop. -/
def strpbrkSpan (rounds : Nat) (mem : Mem) (string stop : Nat) : Except Fault Nat := do
  let length ← strcspn rounds mem string stop
  if mem (string + length) ≠ 0 then .ok (string + length) else .ok 0

variable {mem : Mem} {rounds s savePtr start set : Nat} {text skip token rest stop : List (BitVec 8)}

theorem takeWhile_front {p : BitVec 8 → Bool} (front : ∀ c ∈ skip, p c = true) (behind : ∀ c ∈ rest.head?, p c = false) :
    (skip ++ rest).takeWhile p = skip := by
  rw [List.takeWhile_append_of_pos front]
  cases rest with
  | nil => rw [List.takeWhile_nil, List.append_nil]
  | cons c rest => rw [List.takeWhile_cons_of_neg (by simp [behind c rfl]), List.append_nil]

section Spans
variable (holdsSet : Text 0 mem set stop) (objectSet : set ≠ 0) (enoughSet : stop.length < rounds)
include holdsSet objectSet enoughSet

theorem strspn_front (holds : Text 0 mem start (skip ++ rest)) (delimiters : ∀ c ∈ skip, inSet stop c = true)
    (behind : ∀ c ∈ rest.head?, inSet stop c = false) (enough : (skip ++ rest).length < rounds) :
    strspn rounds mem start set = .ok skip.length := by
  rw [strspn, spanLoop_text holds rfl holdsSet objectSet enough enoughSet,
    takeWhile_front (fun c member => decide_eq_true (delimiters c member)) fun c member => decide_eq_false (by simp [behind c member]), Nat.zero_add]

theorem strcspn_front (holds : Text 0 mem start (token ++ rest)) (free : ∀ c ∈ token, inSet stop c = false)
    (behind : ∀ c ∈ rest.head?, inSet stop c = true) (enough : (token ++ rest).length < rounds) :
    strcspn rounds mem start set = .ok token.length := by
  rw [strcspn, spanLoop_text holds rfl holdsSet objectSet enough enoughSet,
    takeWhile_front (fun c member => decide_eq_true (free c member)) fun c member => decide_eq_false (by simp [behind c member]), Nat.zero_add]

/-- Where a token ends, there is no character or a delimiter. -/
theorem strtokSpans_some (holds : Text 0 mem start (skip ++ (token ++ rest))) (from_ : (if s = 0 then savePtr else s) = start)
    (delimiters : ∀ c ∈ skip, inSet stop c = true) (free : ∀ c ∈ token, inSet stop c = false) (nonempty : token ≠ [])
    (behind : ∀ c ∈ rest.head?, inSet stop c = true) (enough : (skip ++ (token ++ rest)).length < rounds) :
    strtokSpans rounds s set savePtr mem =
      if mem (start + skip.length + token.length) ≠ 0 then .ok (start + skip.length, start + skip.length + token.length + 1,
        Function.update mem (start + skip.length + token.length) 0)
      else .ok (start + skip.length, start + skip.length + token.length, mem) := by
  obtain ⟨c, more, rfl⟩ := List.exists_cons_of_ne_nil nonempty
  have place := holds.rest_of_append
  have first : mem (start + skip.length) ≠ 0 := by
    cases place with
    | cons here nonzero rest => exact here ▸ nonzero
  have front : ∀ d ∈ (c :: more ++ rest).head?, inSet stop d = false := by
    rintro d ⟨⟩
    exact free c (List.mem_cons_self ..)
  have shorter : (c :: more ++ rest).length < rounds := by
    rw [List.length_append] at enough
    omega
  simp only [strtokSpans, from_, strspn_front holdsSet objectSet enoughSet holds delimiters front enough, ok_bind, if_neg first,
    strcspn_front holdsSet objectSet enoughSet place free behind shorter]

end Spans

/-- Two routines that are written apart do the same: `strtok_r` takes what `strspn` and `strcspn` measure,
and `strpbrk` finds the end that `strcspn` measures. -/
theorem scanners_agree (holds : Text 0 mem start text) (from_ : (if s = 0 then savePtr else s) = start) (object : start ≠ 0)
    (holdsSet : Text 0 mem set stop) (objectSet : set ≠ 0) (enough : text.length < rounds) (enoughSet : stop.length < rounds) :
    strtokR rounds s set savePtr mem = strtokSpans rounds s set savePtr mem ∧
      strpbrk rounds mem start set = strpbrkSpan rounds mem start set := by
  constructor
  · have zero := holds.ends
    cases Tokens.shape (inSet stop) text with
    | none delimiters =>
      have whole : Text 0 mem start (text ++ []) := by rwa [List.append_nil]
      have measured := strspn_front holdsSet objectSet enoughSet whole delimiters (by simp) (by rwa [List.append_nil])
      rw [strtokR_none from_ object holdsSet objectSet enoughSet holds delimiters enough]
      simp only [strtokSpans, from_, measured, ok_bind, if_pos zero]
    | @last skip token delimiters free nonempty =>
      rw [List.length_append, ← Nat.add_assoc] at zero
      have whole : skip ++ token = skip ++ (token ++ []) := by rw [List.append_nil]
      rw [whole] at holds enough
      rw [strtokR_some from_ object holdsSet objectSet enoughSet holds delimiters free nonempty
        (by rw [zero]; exact List.mem_append_right _ (List.mem_singleton.mpr rfl)) enough,
        strtokSpans_some holdsSet objectSet enoughSet holds from_ delimiters free nonempty (by simp) enough]
    | @cut skip token rest d delimiters free nonempty ends =>
      obtain ⟨behind, -, -⟩ := behind_cut holds
      rw [strtokR_some from_ object holdsSet objectSet enoughSet holds delimiters free nonempty
        (by rw [behind]; exact List.mem_append_left _ (of_decide_eq_true ends)) enough,
        strtokSpans_some holdsSet objectSet enoughSet holds from_ delimiters free nonempty (by rintro _ ⟨⟩; exact ends) enough]
  · rw [strpbrk, strpbrkLoop_text holds holdsSet objectSet enough enoughSet, strpbrkSpan, strcspn,
      spanLoop_text holds rfl holdsSet objectSet enough enoughSet, Nat.zero_add]
    rfl

theorem scanners_agree_sample :
    strtokR 30 0x100 0x200 0 sampleMem = strtokSpans 30 0x100 0x200 0 sampleMem ∧
      strpbrk 30 sampleMem 0x100 0x200 = strpbrkSpan 30 sampleMem 0x100 0x200 := by
  obtain ⟨object, holdsSet, enough, -⟩ := sampleMem_sets _ (List.mem_cons_self ..)
  exact scanners_agree sampleMem_text rfl (by decide) holdsSet object (by decide +kernel) enough

end Swink.Strings
