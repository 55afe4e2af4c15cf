import Swink.Strings.Scan

namespace Swink.Strings

/-- The loop of `memcmp`. -/
def memcmpLoop (mem : Mem) : Nat → Nat → Nat → Int
  | 0, _, _ => 0
  | size + 1, a, b =>
    if mem a ≠ mem b then (if (mem a).toNat > (mem b).toNat then 1 else -1) else memcmpLoop mem size (a + 1) (b + 1)

def memcmp (mem : Mem) (a_ b_ size : Nat) : Except Fault Int := do
  assert (a_ ≠ 0 ∨ size = 0) "a != NULL || size == 0"
  assert (b_ ≠ 0 ∨ size = 0) "b != NULL || size == 0"
  .ok (memcmpLoop mem size a_ b_)

/-- The loop of `strcmp`, and the comparison where it stops. -/
def strcmpLoop (mem : Mem) : Nat → Nat → Nat → Except Fault Int
  | 0, _, _ => .error .fuel
  | rounds + 1, a, b =>
    if mem a ≠ 0 ∧ mem a = mem b then strcmpLoop mem rounds (a + 1) (b + 1)
    else .ok (if (mem a).toNat < (mem b).toNat then -1 else if (mem a).toNat > (mem b).toNat then 1 else 0)

def strcmp (rounds : Nat) (mem : Mem) (a_ b_ : Nat) : Except Fault Int := do
  assert (a_ ≠ 0) "a != NULL"
  assert (b_ ≠ 0) "b != NULL"
  strcmpLoop mem rounds a_ b_

/-- `for (i = 0; i <= haystack_len - needle_len; i++)` of `strstr`, with the rounds that are left. -/
def strstrLoop (mem : Mem) (haystack needle needleLen : Nat) : Nat → Nat → Except Fault Nat
  | 0, _ => .ok 0
  | rounds + 1, i => do
    if (← memcmp mem (haystack + i) needle needleLen) = 0 then .ok (haystack + i)
    else strstrLoop mem haystack needle needleLen rounds (i + 1)

def strstr (rounds : Nat) (mem : Mem) (haystack needle : Nat) : Except Fault Nat := do
  let haystackLen ← strlen rounds mem haystack
  let needleLen ← strlen rounds mem needle
  if haystackLen ≥ needleLen then strstrLoop mem haystack needle needleLen (haystackLen - needleLen + 1) 0 else .ok 0

/-- The order of a dictionary, by the characters as unsigned numbers. -/
def Before : List (BitVec 8) → List (BitVec 8) → Prop := List.Lex fun c d => c.toNat < d.toNat

/-- The result of a comparison. -/
def Orders (result : Int) (x y : List (BitVec 8)) : Prop :=
  result = -1 ∧ Before x y ∨ result = 0 ∧ x = y ∨ result = 1 ∧ Before y x

variable {mem : Mem} {rounds a b size : Nat} {x y : List (BitVec 8)} {c d : BitVec 8} {result : Int}

theorem Orders.cons (orders : Orders result x y) (c : BitVec 8) : Orders result (c :: x) (c :: y) := by
  rcases orders with ⟨is, before⟩ | ⟨is, same⟩ | ⟨is, before⟩
  · exact Or.inl ⟨is, .cons before⟩
  · exact Or.inr (Or.inl ⟨is, by rw [same]⟩)
  · exact Or.inr (Or.inr ⟨is, .cons before⟩)

/-- The first character that differs decides. -/
theorem orders_of_ne (differ : c ≠ d) (x y : List (BitVec 8)) :
    Orders (if c.toNat > d.toNat then 1 else -1) (c :: x) (d :: y) := by
  by_cases more : c.toNat > d.toNat
  · rw [if_pos more]
    exact Or.inr (Or.inr ⟨rfl, .rel more⟩)
  · have less : c.toNat < d.toNat := Nat.lt_of_le_of_ne (Nat.le_of_not_lt more) fun same => differ (BitVec.eq_of_toNat_eq same)
    rw [if_neg more]
    exact Or.inl ⟨rfl, .rel less⟩

/-- No two strings come before each other, and none before itself. -/
theorem Orders.iff (orders : Orders result x y) :
    (result < 0 ↔ Before x y) ∧ (result = 0 ↔ x = y) ∧ (0 < result ↔ Before y x) := by
  have irrefl (z : List (BitVec 8)) : ¬Before z z := List.lex_irrefl (fun c : BitVec 8 => Nat.lt_irrefl c.toNat) z
  have asymm {z w : List (BitVec 8)} (before : Before z w) : ¬Before w z := List.lex_asymm (fun less => Nat.lt_asymm less) before
  rcases orders with ⟨rfl, before⟩ | ⟨rfl, rfl⟩ | ⟨rfl, before⟩
  · exact ⟨iff_of_true (by decide) before, iff_of_false (by decide) fun same => irrefl x (same ▸ before),
      iff_of_false (by decide) (asymm before)⟩
  · exact ⟨iff_of_false (by decide) (irrefl x), iff_of_true rfl rfl, iff_of_false (by decide) (irrefl x)⟩
  · exact ⟨iff_of_false (by decide) (asymm before), iff_of_false (by decide) fun same => irrefl x (same ▸ before),
      iff_of_true (by decide) before⟩

theorem memcmpLoop_orders (mem : Mem) (size a b : Nat) :
    Orders (memcmpLoop mem size a b) (Spans.read mem a size) (Spans.read mem b size) := by
  induction size generalizing a b with
  | zero => exact Or.inr (Or.inl ⟨rfl, rfl⟩)
  | succ size ih =>
    rw [Spans.read_cons, Spans.read_cons, memcmpLoop]
    by_cases differ : mem a ≠ mem b
    · rw [if_pos differ]
      exact orders_of_ne differ _ _
    · rw [if_neg differ, not_not.mp differ]
      exact (ih (a + 1) (b + 1)).cons (mem b)

/-- Both comparisons stop at the first character that differs. -/
theorem strcmpLoop_of_ne (differ : mem a ≠ mem b) (rounds size : Nat) :
    strcmpLoop mem (rounds + 1) a b = .ok (memcmpLoop mem (size + 1) a b) := by
  have stops : ¬(mem a ≠ 0 ∧ mem a = mem b) := fun both => differ both.2
  rw [strcmpLoop, if_neg stops, memcmpLoop, if_pos differ]
  by_cases less : (mem a).toNat < (mem b).toNat
  · rw [if_pos less, if_neg (Nat.lt_asymm less)]
  · have more : (mem a).toNat > (mem b).toNat :=
      Nat.lt_of_le_of_ne (Nat.le_of_not_lt less) fun same => differ (BitVec.eq_of_toNat_eq same.symm)
    rw [if_neg less, if_pos more, if_pos more]

/-- `strcmp` is `memcmp` up to the end of the shorter string. -/
theorem strcmpLoop_text (holds : Text 0 mem a x) (holds' : Text 0 mem b y) (enough : x.length < rounds) :
    strcmpLoop mem rounds a b = .ok (memcmpLoop mem (min x.length y.length + 1) a b) ∧
      Orders (memcmpLoop mem (min x.length y.length + 1) a b) x y := by
  induction holds generalizing rounds b y with
  | @nil a ends =>
    obtain ⟨rounds, rfl⟩ := Nat.exists_eq_succ_of_ne_zero (Nat.ne_of_gt enough)
    cases holds' with
    | nil ends' =>
      have same : mem a = mem b := ends.trans ends'.symm
      have equal : memcmpLoop mem (min ([] : List (BitVec 8)).length ([] : List (BitVec 8)).length + 1) a b = 0 :=
        if_neg (not_not.mpr same)
      rw [equal, strcmpLoop, if_neg fun both => both.1 ends, same, if_neg (Nat.lt_irrefl _), if_neg (Nat.lt_irrefl _)]
      exact ⟨rfl, Or.inr (Or.inl ⟨rfl, rfl⟩)⟩
    | @cons b d y here' nonzero' rest' =>
      have differ : mem a ≠ mem b := fun same => nonzero' (here'.symm.trans (same.symm.trans ends))
      have less : ¬(mem a).toNat > (mem b).toNat := by rw [ends]; exact Nat.not_lt_zero _
      refine ⟨strcmpLoop_of_ne differ rounds _, Or.inl ⟨?_, .nil⟩⟩
      rw [memcmpLoop, if_pos differ, if_neg less]
  | @cons a c x here nonzero rest ih =>
    obtain ⟨rounds, rfl⟩ := Nat.exists_eq_succ_of_ne_zero (Nat.ne_of_gt (Nat.zero_lt_of_lt enough))
    cases holds' with
    | nil ends' =>
      have differ : mem a ≠ mem b := fun same => nonzero (here.symm.trans (same.trans ends'))
      have more : (mem a).toNat > (mem b).toNat := by
        rw [ends']
        exact Nat.pos_of_ne_zero fun zero => nonzero (here.symm.trans (BitVec.eq_of_toNat_eq zero))
      refine ⟨strcmpLoop_of_ne differ rounds _, Or.inr (Or.inr ⟨?_, .nil⟩)⟩
      rw [memcmpLoop, if_pos differ, if_pos more]
    | @cons b d y here' nonzero' rest' =>
      rw [List.length_cons, List.length_cons, Nat.succ_min_succ]
      by_cases differ : mem a ≠ mem b
      · refine ⟨strcmpLoop_of_ne differ rounds _, ?_⟩
        rw [memcmpLoop, if_pos differ, here, here']
        exact orders_of_ne (by rwa [← here, ← here']) x y
      · have same := not_not.mp differ
        have both : mem a ≠ 0 ∧ mem a = mem b := ⟨here ▸ nonzero, same⟩
        obtain ⟨run, orders⟩ := ih rest' (Nat.lt_of_succ_lt_succ enough)
        rw [strcmpLoop, if_pos both, memcmpLoop, if_neg differ, run]
        refine ⟨rfl, ?_⟩
        rw [← here, ← here', same]
        exact orders.cons (mem b)

/-- `memcmp` orders any two blocks as a dictionary does, and `strcmp` any two strings; and `strcmp` gives
what `memcmp` gives up to the end of the shorter string. -/
theorem comparisons_order (mem : Mem) :
    (∀ a b size, (a ≠ 0 ∨ size = 0) → (b ≠ 0 ∨ size = 0) → ∃ result, memcmp mem a b size = .ok result ∧
      (result < 0 ↔ Before (Spans.read mem a size) (Spans.read mem b size)) ∧
      (result = 0 ↔ Spans.read mem a size = Spans.read mem b size) ∧
      (0 < result ↔ Before (Spans.read mem b size) (Spans.read mem a size))) ∧
    ∀ a b x y rounds, Text 0 mem a x → Text 0 mem b y → a ≠ 0 → b ≠ 0 → x.length < rounds →
      ∃ result, strcmp rounds mem a b = .ok result ∧ memcmp mem a b (min x.length y.length + 1) = .ok result ∧
        (result < 0 ↔ Before x y) ∧ (result = 0 ↔ x = y) ∧ (0 < result ↔ Before y x) := by
  have compare {a b size : Nat} (object : a ≠ 0 ∨ size = 0) (object' : b ≠ 0 ∨ size = 0) :
      memcmp mem a b size = .ok (memcmpLoop mem size a b) := by
    rw [memcmp, assert_of object, assert_of object', ok_bind, ok_bind]
  constructor
  · intro a b size object object'
    exact ⟨_, compare object object', (memcmpLoop_orders mem size a b).iff⟩
  · intro a b x y rounds holds holds' object object' enough
    obtain ⟨run, orders⟩ := strcmpLoop_text holds holds' enough
    refine ⟨_, ?_, compare (Or.inl object) (Or.inl object'), orders.iff⟩
    rw [strcmp, assert_of object, assert_of object', ok_bind, ok_bind, run]

theorem comparisons_order_sample :
    (∃ result, strcmp 9 (Spans.write (fun _ => 0) 0x100 (bytesOf "page" ++ [0, 0] ++ bytesOf "panic")) 0x100 0x106 =
      .ok result ∧ result < 0) ∧
    ∃ result, memcmp (Spans.write (fun _ => 0) 0x100 (bytesOf "page" ++ [0, 0] ++ bytesOf "panic")) 0x104 0x105 2 =
      .ok result ∧ result < 0 := by
  have holds : Text 0 (Spans.write (fun _ => 0) 0x100 (bytesOf "page" ++ [0, 0] ++ bytesOf "panic")) 0x100 (bytesOf "page") :=
    .of_read (by decide +kernel) (by decide +kernel) (by decide +kernel)
  have holds' : Text 0 (Spans.write (fun _ => 0) 0x100 (bytesOf "page" ++ [0, 0] ++ bytesOf "panic")) 0x106 (bytesOf "panic") :=
    .of_read (by decide +kernel) (by decide +kernel) (by decide +kernel)
  obtain ⟨blocks, strings⟩ :=
    comparisons_order (Spans.write (fun _ => 0) 0x100 (bytesOf "page" ++ [0, 0] ++ bytesOf "panic"))
  obtain ⟨result, run, -, less, -⟩ := strings _ _ _ _ 9 holds holds' (by decide) (by decide) (by decide)
  -- two null bytes against a null byte and a letter
  obtain ⟨result', run', less', -⟩ := blocks 0x104 0x105 2 (Or.inl (by decide)) (Or.inl (by decide))
  have first : Spans.read (Spans.write (fun _ => 0) 0x100 (bytesOf "page" ++ [0, 0] ++ bytesOf "panic")) 0x104 2 = [0, 0] := by
    decide +kernel
  have second : Spans.read (Spans.write (fun _ => 0) 0x100 (bytesOf "page" ++ [0, 0] ++ bytesOf "panic")) 0x105 2 =
      [0, 0x70] := by
    decide +kernel
  rw [first, second] at less'
  exact ⟨⟨result, run, less.mpr (.cons (.cons (.rel (by decide))))⟩, result', run', less'.mpr (.cons (.rel (by decide)))⟩

/-- One round of `strstr` finds the needle just if it begins there. -/
theorem memcmp_needle {haystack needle i : Nat} (holds : Text 0 mem haystack x) (holds' : Text 0 mem needle y)
    (object : haystack ≠ 0) (object' : needle ≠ 0) (inside : i + y.length ≤ x.length) :
    ∃ result, memcmp mem (haystack + i) needle y.length = .ok result ∧ (result = 0 ↔ y <+: x.drop i) := by
  have compared := (memcmpLoop_orders mem y.length (haystack + i) needle).iff.2.1
  have part : Spans.read mem (haystack + i) y.length = (x.drop i).take y.length := by
    have whole := holds.read
    have split : x.length = i + (y.length + (x.length - (i + y.length))) := by omega
    rw [split, Spans.read_append, Spans.read_append] at whole
    have tail : x.drop i = Spans.read mem (haystack + i) y.length ++
        Spans.read mem (haystack + i + y.length) (x.length - (i + y.length)) := by
      conv_lhs => rw [← whole]
      exact List.drop_left' Spans.length_read
    rw [tail, List.take_left' Spans.length_read]
  rw [holds'.read, part] at compared
  refine ⟨_, by rw [memcmp, assert_of (Or.inl (by omega)), assert_of (Or.inl object'), ok_bind, ok_bind], ?_⟩
  rw [compared, List.prefix_iff_eq_take]
  exact eq_comm

theorem strstrLoop_first {haystack needle i : Nat} (holds : Text 0 mem haystack x) (holds' : Text 0 mem needle y)
    (object : haystack ≠ 0) (object' : needle ≠ 0) (upto : i + rounds + y.length ≤ x.length + 1) :
    ∃ p, strstrLoop mem haystack needle y.length rounds i = .ok p ∧
      ((p = 0 ∧ ∀ j, i ≤ j → j < i + rounds → ¬y <+: x.drop j) ∨
        ∃ k, i ≤ k ∧ p = haystack + k ∧ y <+: x.drop k ∧ ∀ j, i ≤ j → j < k → ¬y <+: x.drop j) := by
  induction rounds generalizing i with
  | zero => exact ⟨0, rfl, Or.inl ⟨rfl, fun j above below => by omega⟩⟩
  | succ rounds ih =>
    obtain ⟨result, run, found⟩ := memcmp_needle holds holds' object object' (show i + y.length ≤ x.length by omega)
    rw [strstrLoop, run, ok_bind]
    by_cases zero : result = 0
    · rw [if_pos zero]
      exact ⟨_, rfl, Or.inr ⟨i, Nat.le_refl i, rfl, found.mp zero, fun j above below => by omega⟩⟩
    · have here : ¬y <+: x.drop i := fun begins => zero (found.mpr begins)
      have later {j : Nat} (above : i ≤ j) (other : i + 1 ≤ j → ¬y <+: x.drop j) : ¬y <+: x.drop j := by
        rcases Nat.eq_or_lt_of_le above with rfl | above
        · exact here
        · exact other above
      rw [if_neg zero]
      obtain ⟨p, run', outcome⟩ := ih (show i + 1 + rounds + y.length ≤ x.length + 1 by omega)
      refine ⟨p, run', ?_⟩
      rcases outcome with ⟨null, none⟩ | ⟨k, above, place, begins, first⟩
      · exact Or.inl ⟨null, fun j above below => later above fun above => none j above (by omega)⟩
      · exact Or.inr ⟨k, by omega, place, begins, fun j above below => later above fun above => first j above below⟩

/-- `strstr` finds the first place where the needle begins, and nothing just if the needle is nowhere
in the haystack. -/
theorem strstr_finds_first {haystack needle : Nat} (holds : Text 0 mem haystack x) (holds' : Text 0 mem needle y)
    (object : haystack ≠ 0) (object' : needle ≠ 0) (enough : x.length < rounds) (enough' : y.length < rounds) :
    ∃ p, strstr rounds mem haystack needle = .ok p ∧ (p = 0 ↔ ¬y <:+: x) ∧
      (p ≠ 0 → ∃ k, p = haystack + k ∧ y <+: x.drop k ∧ ∀ j < k, ¬y <+: x.drop j) := by
  have begins_of_infix : y <:+: x → ∃ j, j + y.length ≤ x.length ∧ y <+: x.drop j := by
    rintro ⟨front, back, rfl⟩
    refine ⟨front.length, by simp only [List.length_append]; omega, back, ?_⟩
    rw [List.append_assoc, List.drop_left]
  rw [strstr, strlen_text holds object enough, ok_bind, strlen_text holds' object' enough', ok_bind]
  by_cases fits : x.length ≥ y.length
  · obtain ⟨p, run, outcome⟩ := strstrLoop_first holds holds' object object'
      (show 0 + (x.length - y.length + 1) + y.length ≤ x.length + 1 by omega)
    rw [if_pos fits]
    refine ⟨p, run, ?_⟩
    rcases outcome with ⟨null, none⟩ | ⟨k, -, place, begins, first⟩
    · refine ⟨iff_of_true null fun inside => ?_, fun found => absurd null found⟩
      obtain ⟨j, room, begins⟩ := begins_of_infix inside
      exact none j (Nat.zero_le j) (by omega) begins
    · have found : p ≠ 0 := by omega
      refine ⟨iff_of_false found (not_not.mpr (begins.isInfix.trans (List.drop_suffix k x).isInfix)), fun _ => ?_⟩
      exact ⟨k, place, begins, fun j below => first j (Nat.zero_le j) below⟩
  · rw [if_neg fits]
    refine ⟨0, rfl, iff_of_true rfl fun inside => ?_, fun found => absurd rfl found⟩
    obtain ⟨j, room, -⟩ := begins_of_infix inside
    omega

theorem strstr_finds_first_sample :
    ∃ p, strstr 9 (Spans.write (fun _ => 0) 0x100 (bytesOf "panicked" ++ [0] ++ bytesOf "nick")) 0x100 0x109 = .ok p ∧ p ≠ 0 := by
  have holds : Text 0 (Spans.write (fun _ => 0) 0x100 (bytesOf "panicked" ++ [0] ++ bytesOf "nick")) 0x100 (bytesOf "panicked") :=
    .of_read (by decide +kernel) (by decide +kernel) (by decide +kernel)
  have holds' : Text 0 (Spans.write (fun _ => 0) 0x100 (bytesOf "panicked" ++ [0] ++ bytesOf "nick")) 0x109 (bytesOf "nick") :=
    .of_read (by decide +kernel) (by decide +kernel) (by decide +kernel)
  obtain ⟨p, run, nowhere, -⟩ := strstr_finds_first holds holds' (by decide) (by decide) (show 8 < 9 by decide) (show 4 < 9 by decide)
  exact ⟨p, run, fun null => nowhere.mp null ⟨bytesOf "pa", bytesOf "ed", by decide +kernel⟩⟩

end Swink.Strings
