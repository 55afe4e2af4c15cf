import Swink.Strings.Copy
import Swink.Strings.Scan

namespace Swink.Strings

def strlcpy (rounds dst src size : Nat) (mem : Mem) : Except Fault (Nat × Mem) := do
  assert (dst ≠ 0) "dst != NULL"
  assert (src ≠ 0) "src != NULL"
  let srcLen ← strlen rounds mem src
  if size > 0 then do
    let dstLen := if srcLen < size - 1 then srcLen else size - 1
    let copy ← memcpy dst src dstLen mem
    .ok (srcLen, Function.update copy.2 (dst + dstLen) 0)
  else .ok (srcLen, mem)

def strlcat (rounds dst src size : Nat) (mem : Mem) : Except Fault (Nat × Mem) := do
  assert (dst ≠ 0) "dst != NULL"
  assert (src ≠ 0) "src != NULL"
  let srcLen ← strlen rounds mem src
  let dstLen ← strlen rounds mem dst
  if size > 0 ∧ dstLen < size then do
    let copyCnt := if srcLen < size - dstLen - 1 then srcLen else size - dstLen - 1
    let copy ← memcpy (dst + dstLen) src copyCnt mem
    .ok (srcLen + dstLen, Function.update copy.2 (dst + dstLen + copyCnt) 0)
  else .ok (srcLen + dstLen, mem)

/-- More strings added to the one in the buffer, with what the calls return. -/
def strlcatEach (rounds dst size : Nat) : List Nat → Mem → Except Fault (List Nat × Mem)
  | [], mem => .ok ([], mem)
  | src :: more, mem => do
    let called ← strlcat rounds dst src size mem
    let later ← strlcatEach rounds dst size more called.2
    .ok (called.1 :: later.1, later.2)

/-- A string put together in a buffer. -/
def strlBuild (rounds dst size src : Nat) (more : List Nat) (mem : Mem) : Except Fault (List Nat × Mem) := do
  let called ← strlcpy rounds dst src size mem
  let later ← strlcatEach rounds dst size more called.2
  .ok (called.1 :: later.1, later.2)

variable {mem : Mem} {rounds dst src size : Nat} {front text : List (BitVec 8)}

theorem read_take (holds : Text 0 mem src text) {n : Nat} (le : n ≤ text.length) : Spans.read mem src n = text.take n := by
  apply List.ext_getElem?
  intro i
  by_cases inside : i < n
  · rw [Spans.getElem?_read inside, List.getElem?_take_of_lt inside, List.getElem?_eq_getElem (by omega),
      holds.getElem (show i < text.length by omega)]
  · rw [List.getElem?_eq_none (by rw [Spans.length_read]; omega), List.getElem?_eq_none (by rw [List.length_take]; omega)]

/-- The copy of both functions: as much of the string as there is room for, and a null byte. -/
theorem copy_text (holds : Text 0 mem src text) (object : src ≠ 0) (object' : dst ≠ 0) {room count : Nat}
    (is : count = if text.length < room then text.length else room) (apart : src + text.length < dst ∨ dst + room ≤ src) :
    ∃ copy, memcpy dst src count mem = .ok copy ∧
      Function.update copy.2 (dst + count) 0 = Spans.write mem dst (text.take room ++ [0]) := by
  have least : count = min room text.length := by
    rw [is]
    split <;> omega
  have taken : text.take count = text.take room := by rw [least, ← List.take_eq_take_min]
  have long : (text.take room).length = count := by rw [List.length_take, least]
  refine ⟨_, memcpy_apart (Or.inl object') (Or.inl object) (by omega), ?_⟩
  rw [read_take holds (show count ≤ text.length by omega), taken, Spans.write_concat, long]

theorem strlcpy_text (holds : Text 0 mem src text) (object : src ≠ 0) (object' : dst ≠ 0) (enough : text.length < rounds)
    (apart : src + text.length < dst ∨ dst + size ≤ src) (positive : 0 < size) :
    strlcpy rounds dst src size mem = .ok (text.length, Spans.write mem dst (text.take (size - 1) ++ [0])) := by
  obtain ⟨copy, run, after⟩ := copy_text holds object object' rfl (show src + text.length < dst ∨ dst + (size - 1) ≤ src by omega)
  simp only [strlcpy, assert_of object', assert_of object, ok_bind, strlen_text holds object enough, if_pos positive, run, after]

theorem strlcat_text (holds : Text 0 mem src text) (holds' : Text 0 mem dst front) (object : src ≠ 0) (object' : dst ≠ 0)
    (enough : text.length < rounds) (enough' : front.length < rounds) (apart : src + text.length < dst ∨ dst + size ≤ src)
    (fits : front.length < size) :
    strlcat rounds dst src size mem =
      .ok (text.length + front.length, Spans.write mem (dst + front.length) (text.take (size - front.length - 1) ++ [0])) := by
  obtain ⟨copy, run, after⟩ := copy_text holds object (show dst + front.length ≠ 0 by omega) rfl
    (show src + text.length < dst + front.length ∨ dst + front.length + (size - front.length - 1) ≤ src by omega)
  simp only [strlcat, assert_of object', assert_of object, ok_bind, strlen_text holds object enough,
    strlen_text holds' object' enough', if_pos (show size > 0 ∧ front.length < size by omega), run, after]

/-- The strings to put together, none of which lies in the buffer. -/
def Sources (mem : Mem) (rounds dst size : Nat) (sources : List (Nat × List (BitVec 8))) : Prop :=
  ∀ source ∈ sources, source.1 ≠ 0 ∧ Text 0 mem source.1 source.2 ∧ source.2.length < rounds ∧
    (source.1 + source.2.length < dst ∨ dst + size ≤ source.1)

theorem Sources.of_same {mem' : Mem} {sources : List (Nat × List (BitVec 8))} (known : Sources mem rounds dst size sources)
    (same : ∀ a, a < dst ∨ dst + size ≤ a → mem' a = mem a) : Sources mem' rounds dst size sources := fun source member => by
  obtain ⟨object, holds, enough, apart⟩ := known source member
  exact ⟨object, holds.congr fun a above below => same a (by omega), enough, apart⟩

/-- What fits of a text that has been cut to size already. -/
theorem take_append_take (x y : List (BitVec 8)) (n : Nat) : (x.take n ++ y).take n = (x ++ y).take n := by
  by_cases short : x.length ≤ n
  · rw [List.take_of_length_le short]
  · have full : (x.take n).length = n := by
      rw [List.length_take]
      omega
    rw [List.take_append_of_le_length full.ge, List.take_append_of_le_length (by omega), List.take_take, Nat.min_self]

/-- The buffer holds what fits of a text, nothing outside of it has changed, and one of the results is
the size or more just if something did not fit. -/
structure Built (mem : Mem) (dst size : Nat) (whole : List (BitVec 8)) (results : List Nat) (mem' : Mem) : Prop where
  holds : Text 0 mem' dst (whole.take (size - 1))
  frame : ∀ a, a < dst ∨ dst + size ≤ a → mem' a = mem a
  truncated : (∃ result ∈ results, size ≤ result) ↔ size ≤ whole.length

/-- One call in front of others, which returns the length that it would have needed. -/
theorem Built.cons {mem₁ mem' : Mem} {rest : List (BitVec 8)} {results : List Nat}
    (later : Built mem₁ dst size ((front ++ text).take (size - 1) ++ rest) results mem') (positive : 0 < size)
    (frame : ∀ a, a < dst ∨ dst + size ≤ a → mem₁ a = mem a) :
    Built mem dst size (front ++ (text ++ rest)) ((text.length + front.length) :: results) mem' := by
  refine ⟨?_, fun a outside => (later.frame a outside).trans (frame a outside), ?_⟩
  · have held := later.holds
    rwa [take_append_take, List.append_assoc] at held
  · rw [← List.append_assoc]
    by_cases large : size ≤ (front ++ text).length
    · have first : ∃ result ∈ (text.length + front.length) :: results, size ≤ result :=
        ⟨_, List.mem_cons_self .., by rw [List.length_append] at large; omega⟩
      refine iff_of_true first ?_
      rw [List.length_append]
      omega
    · have truncated := later.truncated
      rw [List.take_of_length_le (by omega)] at truncated
      rw [← truncated, List.exists_mem_cons_iff, or_iff_right]
      rw [List.length_append] at large
      omega

theorem strlcatEach_from {sources : List (Nat × List (BitVec 8))} (object' : dst ≠ 0) (holds' : Text 0 mem dst front)
    (fits : front.length < size) (room : size ≤ rounds) (known : Sources mem rounds dst size sources) :
    ∃ results mem', strlcatEach rounds dst size (sources.map Prod.fst) mem = .ok (results, mem') ∧
      Built mem dst size (front ++ (sources.map Prod.snd).flatten) results mem' := by
  induction sources generalizing mem front with
  | nil =>
    refine ⟨[], mem, rfl, ?_, fun _ _ => rfl, ?_⟩
    · rw [List.map_nil, List.flatten_nil, List.append_nil, List.take_of_length_le (by omega)]
      exact holds'
    · simp only [List.map_nil, List.flatten_nil, List.append_nil, List.not_mem_nil, false_and, exists_false, false_iff]
      omega
  | cons source sources ih =>
    obtain ⟨src, text⟩ := source
    obtain ⟨object, holds, enough, apart⟩ := known _ (List.mem_cons_self ..)
    have run := strlcat_text holds holds' object object' enough (by omega) apart fits
    have whole : (front ++ text).take (size - 1) = front ++ text.take (size - front.length - 1) := by
      rw [List.take_append, List.take_of_length_le (by omega), show size - 1 - front.length = size - front.length - 1 by omega]
    have holds₁ : Text 0 (Spans.write mem (dst + front.length) (text.take (size - front.length - 1) ++ [0])) dst
        (front ++ text.take (size - front.length - 1)) :=
      holds'.append_write fun c member => holds.nonzero c (List.mem_of_mem_take member)
    rw [← whole] at holds₁
    have cut : ((front ++ text).take (size - 1)).length < size := by
      rw [List.length_take]
      omega
    have frame (a : Nat) (outside : a < dst ∨ dst + size ≤ a) :
        Spans.write mem (dst + front.length) (text.take (size - front.length - 1) ++ [0]) a = mem a := by
      refine Spans.write_of_outside ?_
      rw [List.length_append, List.length_take, List.length_singleton]
      omega
    obtain ⟨results, mem', later, built⟩ := ih holds₁ cut
      (Sources.of_same (fun other member => known other (List.mem_cons_of_mem _ member)) frame)
    refine ⟨(text.length + front.length) :: results, mem', ?_, built.cons (by omega) frame⟩
    simp only [List.map_cons, strlcatEach, run, ok_bind, later]

/-- A string put together with `strlcpy` and any number of `strlcat`: the buffer holds what fits of all
the strings one behind the other, as a string; nothing outside of the buffer changes; and one of the
calls returns the size or more just if something did not fit. -/
theorem strlBuild_truncates {sources : List (Nat × List (BitVec 8))} (object' : dst ≠ 0) (positive : 0 < size)
    (room : size ≤ rounds) (known : Sources mem rounds dst size ((src, text) :: sources)) :
    ∃ results mem', strlBuild rounds dst size src (sources.map Prod.fst) mem = .ok (results, mem') ∧
      Built mem dst size (text ++ (sources.map Prod.snd).flatten) results mem' := by
  obtain ⟨object, holds, enough, apart⟩ := known _ (List.mem_cons_self ..)
  have run := strlcpy_text holds object object' enough apart positive
  have holds₁ : Text 0 (Spans.write mem dst (text.take (size - 1) ++ [0])) dst (text.take (size - 1)) :=
    .of_write fun c member => holds.nonzero c (List.mem_of_mem_take member)
  have cut : (text.take (size - 1)).length < size := by
    rw [List.length_take]
    omega
  have frame (a : Nat) (outside : a < dst ∨ dst + size ≤ a) : Spans.write mem dst (text.take (size - 1) ++ [0]) a = mem a := by
    refine Spans.write_of_outside ?_
    rw [List.length_append, List.length_singleton]
    omega
  obtain ⟨results, mem', later, built⟩ := strlcatEach_from object' holds₁ cut room
    (Sources.of_same (fun other member => known other (List.mem_cons_of_mem _ member)) frame)
  have all : Built mem dst size ([] ++ (text ++ (sources.map Prod.snd).flatten)) ((text.length + [].length) :: results) mem' :=
    Built.cons built positive frame
  refine ⟨text.length :: results, mem', ?_, all⟩
  simp only [strlBuild, run, ok_bind, later]

theorem strlBuild_truncates_sample :
    ∃ results mem', strlBuild 9 0x200 9 0x100 [0x108] (Spans.write (fun _ => 0) 0x100 (bytesOf "boot: " ++ [0, 0] ++ bytesOf "failed")) =
        .ok (results, mem') ∧ Text 0 mem' 0x200 (bytesOf "boot: fa") ∧ ∃ result ∈ results, 9 ≤ result := by
  have known : Sources (Spans.write (fun _ => 0) 0x100 (bytesOf "boot: " ++ [0, 0] ++ bytesOf "failed")) 9 0x200 9
      [(0x100, bytesOf "boot: "), (0x108, bytesOf "failed")] := by
    intro source member
    rcases List.mem_cons.mp member with rfl | member
    · exact ⟨by decide, .of_read (by decide +kernel) (by decide +kernel) (by decide +kernel), by decide +kernel, by decide +kernel⟩
    · cases List.mem_singleton.mp member
      exact ⟨by decide, .of_read (by decide +kernel) (by decide +kernel) (by decide +kernel), by decide +kernel, by decide +kernel⟩
  obtain ⟨results, mem', run, built⟩ := strlBuild_truncates (by decide) (by decide) (by decide) known
  exact ⟨results, mem', run, built.holds, built.truncated.mpr (by decide +kernel)⟩

end Swink.Strings
