import Swink.Lib.Spans
import Swink.Machine.Fault
import Swink.Machine.Memory

namespace Swink.Strings

/-- `*dst++ = *src++` for each byte: the memory and `dst` in the end. -/
def copyUp (mem : Mem) (dst src : Nat) : Nat → Mem × Nat
  | 0 => (mem, dst)
  | size + 1 => copyUp (Function.update mem dst (mem src)) (dst + 1) (src + 1) size

/-- `*--dst = *--src` for each byte. -/
def copyDown (mem : Mem) (dst src : Nat) : Nat → Mem × Nat
  | 0 => (mem, dst)
  | size + 1 => copyDown (Function.update mem (dst - 1) (mem (src - 1))) (dst - 1) (src - 1) size

def memcpy (dst_ src_ size : Nat) (mem : Mem) : Except Fault (Nat × Mem) := do
  assert (dst_ ≠ 0 ∨ size = 0) "dst != NULL || size == 0"
  assert (src_ ≠ 0 ∨ size = 0) "src != NULL || size == 0"
  .ok (dst_, (copyUp mem dst_ src_ size).1)

/-- Unlike its comment says, it returns `dst` as its loop leaves it. -/
def memmove (dst_ src_ size : Nat) (mem : Mem) : Except Fault (Nat × Mem) := do
  assert (dst_ ≠ 0 ∨ size = 0) "dst != NULL || size == 0"
  assert (src_ ≠ 0 ∨ size = 0) "src != NULL || size == 0"
  if dst_ < src_ then .ok ((copyUp mem dst_ src_ size).2, (copyUp mem dst_ src_ size).1)
  else .ok ((copyDown mem (dst_ + size) (src_ + size) size).2, (copyDown mem (dst_ + size) (src_ + size) size).1)

variable {mem : Mem} {dst src size k : Nat}

/-- The byte of the source that an upward copy puts at a place: it copies its own bytes again when
it has run into them. -/
def origin (dst src i : Nat) : Nat := if src < dst then i % (dst - src) else i

/-- The memory after an upward copy of so many bytes. -/
def copied (mem : Mem) (dst src k : Nat) : Mem :=
  fun a => if dst ≤ a ∧ a < dst + k then mem (src + origin dst src (a - dst)) else mem a

theorem copied_source (mem : Mem) (dst src k : Nat) : copied mem dst src k (src + k) = mem (src + origin dst src k) := by
  unfold copied origin
  by_cases before : src < dst
  · rw [if_pos before, if_pos before]
    by_cases own : dst ≤ src + k
    · have shift : k = src + k - dst + (dst - src) := by omega
      have same : k % (dst - src) = (src + k - dst) % (dst - src) := by
        conv_lhs => rw [shift]
        exact Nat.add_mod_right ..
      rw [if_pos ⟨own, by omega⟩, same]
    · rw [if_neg (by omega), Nat.mod_eq_of_lt (by omega)]
  · rw [if_neg before, if_neg before, if_neg (by omega)]

theorem copied_succ (mem : Mem) (dst src k : Nat) :
    Function.update (copied mem dst src k) (dst + k) (copied mem dst src k (src + k)) = copied mem dst src (k + 1) := by
  rw [copied_source]
  funext a
  by_cases here : a = dst + k
  · subst here
    rw [Function.update_self, copied, if_pos ⟨by omega, by omega⟩, Nat.add_sub_cancel_left]
  · have same : (dst ≤ a ∧ a < dst + k) ↔ dst ≤ a ∧ a < dst + (k + 1) := by omega
    rw [Function.update_of_ne here]
    simp only [copied, same]

theorem copyUp_from (mem : Mem) (dst src k size : Nat) :
    copyUp (copied mem dst src k) (dst + k) (src + k) size = (copied mem dst src (k + size), dst + k + size) := by
  induction size generalizing k with
  | zero => rfl
  | succ size ih =>
    rw [copyUp, copied_succ, Nat.add_assoc, Nat.add_assoc, ih (k + 1), Nat.add_right_comm k 1 size, ← Nat.add_assoc dst]
    congr 1
    omega

theorem copyUp_eq (mem : Mem) (dst src size : Nat) : copyUp mem dst src size = (copied mem dst src size, dst + size) := by
  have start : copied mem dst src 0 = mem := funext fun a => if_neg (by omega)
  have run := copyUp_from mem dst src 0 size
  rwa [start, Nat.zero_add] at run

/-- Without such an overlap it copies the source as it was. -/
theorem copied_eq_write (apart : dst ≤ src ∨ src + size ≤ dst) :
    copied mem dst src size = Spans.write mem dst (Spans.read mem src size) := by
  funext a
  rw [Spans.write_read, copied]
  by_cases inside : dst ≤ a ∧ a < dst + size
  · have plain : origin dst src (a - dst) = a - dst := by
      unfold origin
      split
      · exact Nat.mod_eq_of_lt (by omega)
      · rfl
    rw [if_pos inside, if_pos inside, plain]
  · rw [if_neg inside, if_neg inside]

/-- A downward copy, of which the bytes from `k` on are done. -/
theorem copyDown_from (after : src ≤ dst) (le : k ≤ size) :
    copyDown (Spans.write mem (dst + k) (Spans.read mem (src + k) (size - k))) (dst + k) (src + k) k =
      (Spans.write mem dst (Spans.read mem src size), dst) := by
  induction k with
  | zero => rfl
  | succ k ih =>
    have source : Spans.write mem (dst + (k + 1)) (Spans.read mem (src + (k + 1)) (size - (k + 1))) (src + k) = mem (src + k) :=
      Spans.write_of_outside (Or.inl (by omega))
    have step : Function.update (Spans.write mem (dst + (k + 1)) (Spans.read mem (src + (k + 1)) (size - (k + 1)))) (dst + k)
        (mem (src + k)) = Spans.write mem (dst + k) (Spans.read mem (src + k) (size - k)) := by
      funext a
      by_cases here : a = dst + k
      · subst here
        rw [Function.update_self, Spans.write_read, if_pos ⟨Nat.le_refl _, by omega⟩, Nat.sub_self]
        rfl
      · rw [Function.update_of_ne here, Spans.write_read, Spans.write_read]
        by_cases inside : dst + (k + 1) ≤ a ∧ a < dst + (k + 1) + (size - (k + 1))
        · rw [if_pos inside, if_pos (by omega), show src + (k + 1) + (a - (dst + (k + 1))) = src + k + (a - (dst + k)) by omega]
        · rw [if_neg inside, if_neg (by omega)]
    rw [copyDown, show dst + (k + 1) - 1 = dst + k by omega, show src + (k + 1) - 1 = src + k by omega, source, step]
    exact ih (by omega)

theorem copyDown_eq (after : src ≤ dst) :
    copyDown mem (dst + size) (src + size) size = (Spans.write mem dst (Spans.read mem src size), dst) := by
  have run := @copyDown_from mem dst src size size after (Nat.le_refl size)
  rwa [Nat.sub_self, Spans.read_zero, Spans.write_nil] at run

theorem memcpy_apart (object : dst ≠ 0 ∨ size = 0) (object' : src ≠ 0 ∨ size = 0) (apart : dst ≤ src ∨ src + size ≤ dst) :
    memcpy dst src size mem = .ok (dst, Spans.write mem dst (Spans.read mem src size)) := by
  simp only [memcpy, assert_of object, assert_of object', ok_bind, copyUp_eq, copied_eq_write apart]

/-- `memmove` copies the source as it was however the two blocks overlap; it returns the end of the
destination where it copies upward. `memcpy` does the same unless the destination begins inside the
source: then it repeats what lies between the two beginnings. -/
theorem moves_are_exact (mem : Mem) {dst src size : Nat} (object : dst ≠ 0 ∨ size = 0) (object' : src ≠ 0 ∨ size = 0) :
    memmove dst src size mem = .ok (if dst < src then dst + size else dst, Spans.write mem dst (Spans.read mem src size)) ∧
    ∃ mem', memcpy dst src size mem = .ok (dst, mem') ∧ (∀ a, a < dst ∨ dst + size ≤ a → mem' a = mem a) ∧
      (∀ i < size, mem' (dst + i) = mem (src + if src < dst then i % (dst - src) else i)) ∧
      (dst ≤ src ∨ src + size ≤ dst → mem' = Spans.write mem dst (Spans.read mem src size)) := by
  refine ⟨?_, copied mem dst src size, ?_, fun a outside => if_neg (by omega), fun i inside => ?_, copied_eq_write⟩
  · simp only [memmove, assert_of object, assert_of object', ok_bind]
    by_cases before : dst < src
    · rw [if_pos before, if_pos before, copyUp_eq, copied_eq_write (Or.inl (Nat.le_of_lt before))]
    · rw [if_neg before, if_neg before, copyDown_eq (Nat.le_of_not_lt before)]
  · simp only [memcpy, assert_of object, assert_of object', ok_bind, copyUp_eq]
  · rw [copied, if_pos ⟨by omega, by omega⟩, Nat.add_sub_cancel_left]
    rfl

theorem moves_are_exact_sample :
    ∃ mem', memcpy 0x102 0x100 5 (fun a => BitVec.ofNat 8 a) = .ok (0x102, mem') ∧ mem' 0x106 = 0 := by
  obtain ⟨-, mem', run, -, bytes, -⟩ :=
    moves_are_exact (fun a => BitVec.ofNat 8 a) (show 0x102 ≠ 0 ∨ 5 = 0 by decide) (show 0x100 ≠ 0 ∨ 5 = 0 by decide)
  exact ⟨mem', run, bytes 4 (by decide)⟩

end Swink.Strings
