import Swink.Lib.Texts
import Swink.Machine.Fault
import Swink.Machine.Memory

namespace Swink.Strings

/-- `for (p = string; *p != '\0'; p++)` of `strlen`. -/
def strlenLoop (mem : Mem) : Nat → Nat → Except Fault Nat
  | 0, _ => .error .fuel
  | rounds + 1, p => if mem p ≠ 0 then strlenLoop mem rounds (p + 1) else .ok p

def strlen (rounds : Nat) (mem : Mem) (string : Nat) : Except Fault Nat := do
  assert (string ≠ 0) "string != NULL"
  let p ← strlenLoop mem rounds string
  .ok (p - string)

def strchrLoop (mem : Mem) (c : BitVec 8) : Nat → Nat → Except Fault Nat
  | 0, _ => .error .fuel
  | rounds + 1, string =>
    if mem string = c then .ok string
    else if mem string = 0 then .ok 0
    else strchrLoop mem c rounds (string + 1)

def strchr (rounds : Nat) (mem : Mem) (string : Nat) (c_ : BitVec 32) : Except Fault Nat := do
  assert (string ≠ 0) "string != NULL"
  strchrLoop mem (c_.setWidth 8) rounds string

/-- `strchr(set, *string) != NULL` -/
def among (rounds : Nat) (mem : Mem) (set string : Nat) : Except Fault Bool := do
  let found ← strchr rounds mem set ((mem string).setWidth 32)
  .ok (decide (found ≠ 0))

/-- The loop of `strspn` for `wanted`, that of `strcspn` otherwise. -/
def spanLoop (wanted : Bool) (limit : Nat) (mem : Mem) (string set : Nat) : Nat → Nat → Except Fault Nat
  | 0, _ => .error .fuel
  | rounds + 1, length =>
    if mem (string + length) ≠ 0 then do
      if (← among limit mem set (string + length)) = wanted then spanLoop wanted limit mem string set rounds (length + 1)
      else .ok length
    else .ok length

def strspn (rounds : Nat) (mem : Mem) (string skip : Nat) : Except Fault Nat := spanLoop true rounds mem string skip rounds 0
def strcspn (rounds : Nat) (mem : Mem) (string stop : Nat) : Except Fault Nat := spanLoop false rounds mem string stop rounds 0

def strpbrkLoop (limit : Nat) (mem : Mem) (stop : Nat) : Nat → Nat → Except Fault Nat
  | 0, _ => .error .fuel
  | rounds + 1, string =>
    if mem string ≠ 0 then do
      if ← among limit mem stop string then .ok string else strpbrkLoop limit mem stop rounds (string + 1)
    else .ok 0

def strpbrk (rounds : Nat) (mem : Mem) (string stop : Nat) : Except Fault Nat := strpbrkLoop rounds mem stop rounds string

def bytesOf (text : String) : List (BitVec 8) := text.toList.map fun c => BitVec.ofNat 8 c.toNat

def inSet (set : List (BitVec 8)) (c : BitVec 8) : Bool := decide (c ∈ set)

variable {mem : Mem} {rounds limit p set : Nat} {text stop : List (BitVec 8)} {c : BitVec 8}

theorem strlenLoop_text (holds : Text 0 mem p text) (enough : text.length < rounds) :
    strlenLoop mem rounds p = .ok (p + text.length) := by
  induction holds generalizing rounds with
  | nil ends =>
    obtain ⟨rounds, rfl⟩ := Nat.exists_eq_succ_of_ne_zero (Nat.ne_of_gt enough)
    rw [strlenLoop, if_neg (not_not.mpr ends)]
    rfl
  | @cons p c text here nonzero rest ih =>
    obtain ⟨rounds, rfl⟩ := Nat.exists_eq_succ_of_ne_zero (Nat.ne_of_gt (Nat.zero_lt_of_lt enough))
    rw [List.length_cons] at enough
    rw [strlenLoop, if_pos (here ▸ nonzero), ih (by omega), List.length_cons]
    exact congrArg Except.ok (by omega)

theorem strlen_text (holds : Text 0 mem p text) (object : p ≠ 0) (enough : text.length < rounds) :
    strlen rounds mem p = .ok text.length := by
  rw [strlen, assert_of object, ok_bind, strlenLoop_text holds enough, ok_bind, Nat.add_sub_cancel_left]

theorem strchrLoop_text (holds : Text 0 mem p text) (enough : text.length < rounds) :
    strchrLoop mem c rounds p = .ok (if c ∈ text ++ [0] then p + (text ++ [0]).idxOf c else 0) := by
  induction holds generalizing rounds with
  | nil ends =>
    obtain ⟨rounds, rfl⟩ := Nat.exists_eq_succ_of_ne_zero (Nat.ne_of_gt enough)
    rw [strchrLoop, ends]
    by_cases zero : 0 = c
    · subst zero
      simp
    · rw [if_neg zero, if_pos rfl, if_neg (by simpa using Ne.symm zero)]
  | @cons p d text here nonzero rest ih =>
    obtain ⟨rounds, rfl⟩ := Nat.exists_eq_succ_of_ne_zero (Nat.ne_of_gt (Nat.zero_lt_of_lt enough))
    rw [List.length_cons] at enough
    rw [strchrLoop, here]
    by_cases found : d = c
    · subst found
      simp
    · rw [if_neg found, if_neg nonzero, ih (by omega), List.cons_append, List.idxOf_cons_ne _ found]
      have same : c ∈ d :: (text ++ [0]) ↔ c ∈ text ++ [0] := by simp [Ne.symm found]
      simp only [same]
      congr 2
      omega

/-- Every string has a null byte to be found. -/
theorem among_text (holds : Text 0 mem set stop) (object : set ≠ 0) (enough : stop.length < rounds) :
    among rounds mem set p = .ok (decide (mem p ∈ stop ++ [0])) := by
  have narrow : ((mem p).setWidth 32).setWidth 8 = mem p := by simp
  rw [among, strchr, assert_of object, ok_bind, narrow, strchrLoop_text holds enough, ok_bind]
  by_cases found : mem p ∈ stop ++ [0]
  · rw [if_pos found, decide_eq_true found, decide_eq_true (by omega)]
  · rw [if_neg found, decide_eq_false found]
    rfl

theorem among_of_nonzero (holds : Text 0 mem set stop) (object : set ≠ 0) (enough : stop.length < rounds) (nonzero : mem p ≠ 0) :
    among rounds mem set p = .ok (decide (mem p ∈ stop)) := by
  have same : mem p ∈ stop ++ [0] ↔ mem p ∈ stop := by
    rw [List.mem_append, List.mem_singleton]
    exact or_iff_left nonzero
  rw [among_text holds object enough, decide_eq_decide.mpr same]

theorem spanLoop_text {wanted : Bool} {string length : Nat} (holds : Text 0 mem p text) (inside : p = string + length)
    (holdsSet : Text 0 mem set stop) (object : set ≠ 0) (enough : text.length < rounds) (enoughSet : stop.length < limit) :
    spanLoop wanted limit mem string set rounds length =
      .ok (length + (text.takeWhile fun c => decide (inSet stop c = wanted)).length) := by
  induction holds generalizing rounds length with
  | nil ends =>
    obtain ⟨rounds, rfl⟩ := Nat.exists_eq_succ_of_ne_zero (Nat.ne_of_gt enough)
    rw [spanLoop, ← inside, if_neg (not_not.mpr ends)]
    rfl
  | @cons p c text here nonzero rest ih =>
    obtain ⟨rounds, rfl⟩ := Nat.exists_eq_succ_of_ne_zero (Nat.ne_of_gt (Nat.zero_lt_of_lt enough))
    rw [List.length_cons] at enough
    have character : mem p ≠ 0 := here ▸ nonzero
    rw [spanLoop, ← inside, if_pos character, among_of_nonzero holdsSet object enoughSet character, ok_bind, here,
      List.takeWhile_cons]
    by_cases goes : inSet stop c = wanted
    · rw [if_pos (show decide (c ∈ stop) = wanted from goes), if_pos (decide_eq_true goes), ih (by omega) (by omega), List.length_cons]
      exact congrArg Except.ok (by omega)
    · rw [if_neg (show ¬decide (c ∈ stop) = wanted from goes), if_neg (by simpa using goes)]
      rfl

theorem strpbrkLoop_text (holds : Text 0 mem p text) (holdsSet : Text 0 mem set stop) (object : set ≠ 0)
    (enough : text.length < rounds) (enoughSet : stop.length < limit) :
    strpbrkLoop limit mem set rounds p =
      if mem (p + (text.takeWhile fun c => decide (inSet stop c = false)).length) ≠ 0 then
        .ok (p + (text.takeWhile fun c => decide (inSet stop c = false)).length)
      else .ok 0 := by
  induction holds generalizing rounds with
  | @nil p ends =>
    obtain ⟨rounds, rfl⟩ := Nat.exists_eq_succ_of_ne_zero (Nat.ne_of_gt enough)
    have here : mem (p + ([] : List (BitVec 8)).length) = 0 := ends
    rw [List.takeWhile_nil, strpbrkLoop, if_neg (not_not.mpr ends), if_neg (not_not.mpr here)]
  | @cons p c text here nonzero rest ih =>
    obtain ⟨rounds, rfl⟩ := Nat.exists_eq_succ_of_ne_zero (Nat.ne_of_gt (Nat.zero_lt_of_lt enough))
    rw [List.length_cons] at enough
    have character : mem p ≠ 0 := here ▸ nonzero
    rw [strpbrkLoop, if_pos character, among_of_nonzero holdsSet object enoughSet character, ok_bind, here, List.takeWhile_cons]
    by_cases stops : c ∈ stop
    · have none : ¬decide (inSet stop c = false) = true := by simp [inSet, stops]
      rw [if_pos (decide_eq_true stops), if_neg none, List.length_nil, Nat.add_zero, if_pos character]
    · have goes : decide (inSet stop c = false) = true := by simp [inSet, stops]
      have next (l : List (BitVec 8)) : p + (c :: l).length = p + 1 + l.length := by
        rw [List.length_cons]
        omega
      rw [if_neg (by simpa using stops), if_pos goes, ih (by omega), next]

end Swink.Strings
