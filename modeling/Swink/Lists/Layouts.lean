import Swink.Lists.Runs

namespace Swink.Mem
open NaturalMerge Links

variable {cells lists : Set Nat} {contents contents' : Nat → List Nat} {l l' x : Nat} {xs elems : List Nat}
  {mem mem' : Mem} {less : ListLessFunc} {rounds : Nat}

theorem ptr_bytes {a : Nat} (same : mem'.ptr a = mem.ptr a) {i : Nat} (small : i < 8) : mem' (a + i) = mem (a + i) := by
  have words : mem'.load64 a = mem.load64 a := BitVec.eq_of_toNat_eq same
  have byte (m : Mem) : (m.load64 a).extractLsb' (8 * i) (8 * 1) = m (a + i) := by
    rw [load64, ByteMemory.extractLsb'_load (by omega) (by omega)]
    simp [ByteMemory.load]
  rw [← byte mem', ← byte mem, words]

/-- The elements of a list determine the bytes of its nodes. -/
theorem ListAt.bytes_eq (at_ : ListAt l elems mem) (at' : ListAt l elems mem') {a : Nat} (member : a ∈ whole l elems)
    {i : Nat} (small : i < 16) : mem' (a + i) = mem (a + i) := by
  obtain ⟨forward, backward⟩ := at_.linked.determined at'.linked
  have nextSame : mem'.next a = mem.next a := by
    rw [whole, ← List.cons_append] at member forward
    rw [List.dropLast_concat] at forward
    rcases List.mem_append.mp member with inner | isTail
    · exact forward a inner
    · rw [List.mem_singleton.mp isTail, at_.back, at'.back]
  have prevSame : mem'.prev a = mem.prev a := by
    rcases List.mem_cons.mp member with rfl | inner
    · exact at'.front.trans at_.front.symm
    · exact backward a inner
  by_cases low : i < 8
  · exact ptr_bytes prevSame low
  · have high := ptr_bytes nextSame (show i - 8 < 8 by omega)
    rwa [show a + 8 + (i - 8) = a + i by omega] at high

/-- Two memories with the same lists agree but for the links of free nodes. -/
theorem World.bytes_eq {start : Mem} (world : World cells lists contents mem) (world' : World cells lists contents mem')
    (untouched : Untouched cells start mem) (untouched' : Untouched cells start mem') {a : Nat}
    (outside : ∀ c, Free cells lists contents c → a < c ∨ c + 16 ≤ a) : mem' a = mem a := by
  by_cases inNode : ∃ c ∈ cells, c ≤ a ∧ a < c + 16
  · obtain ⟨c, inCells, lower, upper⟩ := inNode
    have listed : ∃ l ∈ lists, c ∈ whole l (contents l) := by
      by_contra none
      push Not at none
      have := outside c ⟨inCells, none⟩
      omega
    obtain ⟨l, known, member⟩ := listed
    have same := (world.at_ l known).bytes_eq (world'.at_ l known) member (show a - c < 16 by omega)
    rwa [Nat.add_sub_cancel' lower] at same
  · have apart (c : Nat) (inCells : c ∈ cells) : a < c ∨ c + 16 ≤ a := by
      by_contra touching
      exact inNode ⟨c, inCells, by omega, by omega⟩
    rw [untouched' a apart, untouched a apart]

theorem World.congr (world : World cells lists contents mem) (same : ∀ l ∈ lists, contents' l = contents l) :
    World cells lists contents' mem where
  nodes := world.nodes
  at_ l known := same l known ▸ world.at_ l known
  inside l known a member := world.inside l known a (same l known ▸ member)
  apart l known l' known' other a member member' :=
    world.apart l known l' known' other a (same l known ▸ member) (same l' known' ▸ member')

theorem Free.stays {y : Nat} (free : Free cells lists contents y) (other : y ≠ x) {elems' : List Nat}
    (perm : elems'.Perm (x :: contents l)) (known : l ∈ lists) :
    Free cells lists (Function.update contents l elems') y := by
  refine ⟨free.1, fun l' known' member => ?_⟩
  by_cases same : l' = l
  · subst same
    rw [Function.update_self, mem_whole, perm.mem_iff, List.mem_cons] at member
    refine free.2 l' known (mem_whole.mpr ?_)
    tauto
  · rw [Function.update_of_ne same] at member
    exact free.2 l' known' member

/-- Two nodes on the first of the two lists. -/
def sampleContents : Nat → List Nat := Function.update (Function.update (fun _ => []) 4096 [8192]) 4096 [8192, 8208]

theorem sample_world : ∃ mem, World sampleCells {l | l ∈ [4096, 4160]} sampleContents mem := by
  have known : 4096 ∈ {l | l ∈ [4096, 4160]} := List.mem_cons_self ..
  have free : Free sampleCells {l | l ∈ [4096, 4160]} (Function.update (fun _ => []) 4096 [8192]) 8208 :=
    Free.stays (sample_free (Or.inr rfl)) (by decide) (List.Perm.refl _) known
  have means : MeansAll sampleCells {l | l ∈ [4096, 4160]} [.pushBack 4096 8192, .pushBack 4096 8208] (fun _ => [])
      [0, 0] sampleContents :=
    .cons (.pushBack known (sample_free (Or.inl rfl))) (.cons (.pushBack known free) (.nil _))
  obtain ⟨mem, empty⟩ := sample_initialised
  obtain ⟨mem', -, world, -⟩ := empty.performs_all means (Nat.lt_succ_self _)
  exact ⟨mem', world⟩

/-- A run that brings back the elements of all lists brings back the memory, up to free nodes. -/
theorem performAll_restores {ops : List ListOp} {results : List Nat} (world : World cells lists contents mem)
    (means : MeansAll cells lists ops contents results contents') (back : ∀ l ∈ lists, contents' l = contents l)
    (enough : 2 ^ 60 < rounds) :
    ∃ mem', performAll rounds ops mem = .ok (results, mem') ∧
      ∀ a, (∀ c, Free cells lists contents c → a < c ∨ c + 16 ≤ a) → mem' a = mem a := by
  obtain ⟨mem', run, world', untouched⟩ := world.performs_all means enough
  have returned := world'.congr fun l known => (back l known).symm
  exact ⟨mem', run, fun a outside => world.bytes_eq returned (fun _ _ => rfl) untouched outside⟩

theorem performAll_restores_sample : ∃ mem mem', World sampleCells {l | l ∈ [4096, 4160]} sampleContents mem ∧
    performAll (2 ^ 60 + 1) [.reverse 4096, .reverse 4096] mem = .ok ([0, 0], mem') ∧
    ∀ a, (∀ c, Free sampleCells {l | l ∈ [4096, 4160]} sampleContents c → a < c ∨ c + 16 ≤ a) → mem' a = mem a := by
  obtain ⟨mem, world⟩ := sample_world
  have known : 4096 ∈ {l | l ∈ [4096, 4160]} := List.mem_cons_self ..
  have twice : MeansAll sampleCells {l | l ∈ [4096, 4160]} [.reverse 4096, .reverse 4096] sampleContents [0, 0] _ :=
    .cons (.reverse known) (.cons (.reverse known) (.nil _))
  obtain ⟨mem', run, same⟩ := performAll_restores world twice (fun l _ => by
    by_cases here : l = 4096
    · subst here
      simp [Function.update_self]
    · simp [Function.update_of_ne here]) (Nat.lt_succ_self _)
  exact ⟨mem, mem', world, run, same⟩

/-- Adding free elements one by one, wherever each call puts its element. -/
theorem meansAll_add (known : l ∈ lists) (call : Nat → ListOp) (add : Nat → List Nat → List Nat)
    (perm : ∀ x elems, (add x elems).Perm (x :: elems))
    (means : ∀ contents x, Free cells lists contents x →
      Means cells lists (call x) contents 0 (Function.update contents l (add x (contents l)))) :
    ∀ (xs : List Nat) (contents : Nat → List Nat), xs.Nodup → (∀ x ∈ xs, Free cells lists contents x) →
      MeansAll cells lists (xs.map call) contents (List.replicate xs.length 0)
        (Function.update contents l (xs.foldl (fun elems x => add x elems) (contents l)))
  | [], contents, _, _ => by
    rw [List.foldl_nil, Function.update_eq_self]
    exact .nil contents
  | x :: xs, contents, nodup, free => by
    obtain ⟨fresh, nodup⟩ := List.nodup_cons.mp nodup
    have other (y : Nat) (member : y ∈ xs) : y ≠ x := fun same => fresh (same ▸ member)
    have rest := meansAll_add known call add perm means xs (Function.update contents l (add x (contents l))) nodup
      fun y member => (free y (List.mem_cons_of_mem _ member)).stays (other y member) (perm x (contents l)) known
    rw [Function.update_self, Function.update_idem] at rest
    exact .cons (means contents x (free x (List.mem_cons_self ..))) rest

theorem foldl_insertOrdered (xs sorted : List Nat) :
    xs.foldl (fun elems x => insertOrdered less x elems) sorted = insertAll less sorted xs := by
  induction xs generalizing sorted with
  | nil => rfl
  | cons x xs ih => exact ih _

theorem foldl_concat (xs elems : List Nat) : xs.foldl (fun elems x => elems ++ [x]) elems = elems ++ xs := by
  induction xs generalizing elems with
  | nil => simp
  | cons x xs ih => rw [List.foldl_cons, ih, List.append_assoc, List.singleton_append]

/-- Building a list with `list_insert_ordered` and building it with `list_push_back` and sorting it
afterwards give the same memory, for every strict weak order. -/
theorem insertOrdered_agrees_with_sort (world : World cells lists contents mem) (known : l ∈ lists)
    (empty : contents l = []) (nodup : xs.Nodup) (free : ∀ x ∈ xs, Free cells lists contents x)
    (order : StrictWeak less) (enough : 2 ^ 60 < rounds) :
    ∃ mem₁ mem₂ results₁ results₂,
      performAll rounds (xs.map fun x => .insertOrdered l x less) mem = .ok (results₁, mem₁) ∧
      performAll rounds ((xs.map fun x => .pushBack l x) ++ [.sort l less]) mem = .ok (results₂, mem₂) ∧
      ListAt l (xs.mergeSort fun a b => !less b a) mem₁ ∧
      ∀ a, (∀ c, Free cells lists contents c → c ∉ xs → a < c ∨ c + 16 ≤ a) → mem₂ a = mem₁ a := by
  have sorted := meansAll_add known (fun x => .insertOrdered l x less) (insertOrdered less)
    (fun x elems => insertOrdered_perm x elems) (fun contents x free => .insertOrdered known free) xs contents nodup free
  have pushed := meansAll_add known (fun x => .pushBack l x) (fun x elems => elems ++ [x])
    (fun x elems => List.perm_append_singleton x elems) (fun contents x free => .pushBack known free) xs contents nodup
    free
  rw [empty, foldl_insertOrdered, insertAll_eq_mergeSort order nodup] at sorted
  rw [empty, foldl_concat, List.nil_append] at pushed
  have both := pushed.append (.cons (.sort known order) (.nil _))
  rw [Function.update_self, Function.update_idem] at both
  obtain ⟨mem₁, run₁, world₁, untouched₁⟩ := world.performs_all sorted enough
  obtain ⟨mem₂, run₂, world₂, untouched₂⟩ := world.performs_all both enough
  refine ⟨mem₁, mem₂, _, _, run₁, run₂, ?_, fun a outside => world₁.bytes_eq world₂ untouched₁ untouched₂ ?_⟩
  · have at_ := world₁.at_ l known
    rwa [Function.update_self] at at_
  · refine fun c stillFree => outside c ⟨stillFree.1, fun l' known' member => stillFree.2 l' known' ?_⟩ fun added => ?_
    · by_cases same : l' = l
      · subst same
        rw [mem_whole, empty] at member
        rw [mem_whole]
        simp only [List.not_mem_nil, false_or] at member
        tauto
      · rwa [Function.update_of_ne same]
    · refine stillFree.2 l known ?_
      rw [Function.update_self, mem_whole]
      exact Or.inr (Or.inl (List.mem_mergeSort.mpr added))

theorem insertOrdered_agrees_with_sort_sample : ∃ mem mem₁ mem₂ results₁ results₂,
    performAll (2 ^ 60 + 1) ([8208, 8192].map fun x => .insertOrdered 4096 x fun a b => decide (a < b)) mem =
      .ok (results₁, mem₁) ∧
    performAll (2 ^ 60 + 1) (([8208, 8192].map fun x => .pushBack 4096 x) ++ [.sort 4096 fun a b => decide (a < b)])
      mem = .ok (results₂, mem₂) ∧
    ListAt 4096 ([8208, 8192].mergeSort fun a b => !decide (b < a)) mem₁ ∧
    ∀ a, (∀ c, Free sampleCells {l | l ∈ [4096, 4160]} (fun _ => []) c → c ∉ [8208, 8192] → a < c ∨ c + 16 ≤ a) →
      mem₂ a = mem₁ a := by
  obtain ⟨mem, world⟩ := sample_initialised
  have free (x : Nat) (member : x ∈ [8208, 8192]) : Free sampleCells {l | l ∈ [4096, 4160]} (fun _ => []) x :=
    sample_free (by simpa [or_comm] using member)
  exact ⟨mem, insertOrdered_agrees_with_sort world (List.mem_cons_self ..) rfl (by decide) free strictWeak_address
    (Nat.lt_succ_self _)⟩

/-- After `list_sort` and `list_unique` a list is strictly ascending; what went to the other list is
tied with an element that stayed and that stood before it at first. -/
theorem sort_unique (world : World cells lists contents mem) (known : l ∈ lists) (known' : l' ∈ lists) (other : l ≠ l')
    (order : StrictWeak less) (enough : 2 ^ 60 < rounds) :
    ∃ mem' kept ties, performAll rounds [.sort l less, .unique l l' less] mem = .ok ([0, 0], mem') ∧
      ListAt l kept mem' ∧ ListAt l' (contents l' ++ ties) mem' ∧ (kept ++ ties).Perm (contents l) ∧
      kept.Pairwise (fun a b => less a b = true) ∧
      ∀ b ∈ ties, ∃ k ∈ kept, Tied less k b ∧ List.Sublist [k, b] (contents l) := by
  have at_ := world.at_ l known
  have distinct : (contents l).Nodup := (List.nodup_append.mp (List.nodup_cons.mp at_.nodup).2).1
  have stable := pairwise_mergeSort_stable order distinct
  have perm := List.mergeSort_perm (contents l) fun a b => !less b a
  cases shape : (contents l).mergeSort fun a b => !less b a with
  | nil =>
    rw [shape] at perm
    have none : contents l = [] := perm.symm.eq_nil
    have sorts : Means cells lists (.sort l less) contents 0 (Function.update contents l []) := shape ▸ .sort known order
    obtain ⟨mem', run, world', -⟩ := world.performs_all
      (.cons sorts (.cons (.uniqueNone known (Function.update_self ..)) (.nil _))) enough
    have atL := world'.at_ l known
    have atL' := world'.at_ l' known'
    rw [Function.update_self] at atL
    rw [Function.update_of_ne other.symm, ← List.append_nil (contents l')] at atL'
    exact ⟨mem', [], [], run, atL, atL', by rw [none]; exact .nil, .nil, fun b member => absurd member List.not_mem_nil⟩
  | cons x rest =>
    have sorts : Means cells lists (.sort l less) contents 0 (Function.update contents l (x :: rest)) :=
      shape ▸ .sort known order
    obtain ⟨mem', run, world', -⟩ := world.performs_all
      (.cons sorts (.cons (.uniqueInto known known' other (Function.update_self ..)) (.nil _))) enough
    rw [shape] at perm stable
    have atL := world'.at_ l known
    have atL' := world'.at_ l' known'
    rw [Function.update_of_ne other, Function.update_self] at atL
    rw [Function.update_self, Function.update_of_ne other.symm] at atL'
    refine ⟨mem', _, _, run, atL, atL', (firsts_others_perm x rest).trans perm,
      firsts_strict order (stable.imp fun both => both.1), fun b member => ?_⟩
    obtain ⟨k, first, tied, pair⟩ := exists_first member
    have placed := List.pairwise_iff_forall_sublist.mp stable pair
    exact ⟨k, first, tied, placed.2.resolve_right (by simp [tied.1])⟩

/-- Of two tied nodes the first one stays. -/
theorem sort_unique_sample : ∃ mem mem', World sampleCells {l | l ∈ [4096, 4160]} sampleContents mem ∧
    performAll (2 ^ 60 + 1) [.sort 4096 fun a b => decide (a / 32 < b / 32),
      .unique 4096 4160 fun a b => decide (a / 32 < b / 32)] mem = .ok ([0, 0], mem') ∧
    ListAt 4096 [8192] mem' ∧ ListAt 4160 [8208] mem' := by
  obtain ⟨mem, world⟩ := sample_world
  obtain ⟨mem', kept, ties, run, at_, into, perm, strict, tied⟩ := sort_unique world (List.mem_cons_self ..)
    (show 4160 ∈ {l | l ∈ [4096, 4160]} by simp) (by decide) (strictWeak_key (· / 32)) (Nat.lt_succ_self _)
  have first : sampleContents 4096 = [8192, 8208] := by simp [sampleContents]
  have second : sampleContents 4160 = [] := by simp [sampleContents, Function.update_of_ne]
  rw [first] at perm tied
  rw [second, List.nil_append] at into
  have count := perm.length_eq
  rw [List.length_append] at count
  rcases ties with _ | ⟨b, more⟩
  · -- both nodes cannot have stayed, as neither is less than the other
    obtain ⟨x, y, rfl⟩ := List.length_eq_two.mp count
    have low := perm.subset (show x ∈ [x, y] ++ [] by simp)
    have high := perm.subset (show y ∈ [x, y] ++ [] by simp)
    have less := (List.pairwise_pair.mp strict)
    simp only [List.mem_cons, List.not_mem_nil, or_false, decide_eq_true_eq] at low high less
    omega
  · obtain ⟨k, stays, -, pair⟩ := tied b (List.mem_cons_self ..)
    cases pair.eq_of_length rfl
    have positive := List.length_pos_of_mem stays
    simp only [List.length_cons, List.length_nil] at count
    obtain ⟨x, rfl⟩ := List.length_eq_one_iff.mp (show kept.length = 1 by omega)
    obtain rfl := List.eq_nil_of_length_eq_zero (show more.length = 0 by omega)
    obtain rfl := List.mem_singleton.mp stays
    exact ⟨mem, mem', world, run, at_, into⟩

/-- `list_max` finds the earliest of the largest elements, `list_min` that of the smallest, and for an
empty list both return its tail. -/
theorem extremes_earliest (at_ : ListAt l elems mem) (order : StrictWeak less) (enough : elems.length < rounds) :
    (elems = [] → listMax less rounds l mem = .ok (listTail l) ∧ listMin less rounds l mem = .ok (listTail l)) ∧
    (elems ≠ [] →
      (∃ m pre post, listMax less rounds l mem = .ok m ∧ elems = pre ++ m :: post ∧ (∀ x ∈ pre, less x m = true) ∧
        ∀ x ∈ elems, less m x = false) ∧
      ∃ m pre post, listMin less rounds l mem = .ok m ∧ elems = pre ++ m :: post ∧ (∀ x ∈ pre, less m x = true) ∧
        ∀ x ∈ elems, less x m = false) := by
  cases elems with
  | nil => exact ⟨fun _ => ⟨at_.extreme_nil rounds, at_.extreme_nil rounds⟩, fun some => absurd rfl some⟩
  | cons x rest =>
    have short := Nat.lt_of_succ_lt enough
    obtain ⟨pre, post, shape, earlier, largest⟩ := best_spec order x rest
    obtain ⟨pre', post', shape', earlier', smallest⟩ := best_spec (StrictWeak.flip order) x rest
    exact ⟨fun none => absurd none (List.cons_ne_nil x rest), fun _ =>
      ⟨⟨_, pre, post, at_.extreme_eq short, shape, earlier, largest⟩,
        ⟨_, pre', post', at_.extreme_eq short, shape', earlier', smallest⟩⟩⟩

theorem pair_split {a b m : Nat} {pre post : List Nat} (shape : [a, b] = pre ++ m :: post) :
    pre = [] ∧ m = a ∨ pre = [a] ∧ m = b := by
  rcases pre with _ | ⟨x, _ | ⟨y, more⟩⟩ <;> simp_all

/-- Of two tied nodes both find the first one. -/
theorem extremes_earliest_pair : ∃ mem, ListAt 4096 [8192, 8208] mem ∧
    listMax (fun a b => decide (a / 32 < b / 32)) 3 4096 mem = .ok 8192 ∧
    listMin (fun a b => decide (a / 32 < b / 32)) 3 4096 mem = .ok 8192 := by
  obtain ⟨mem, at_⟩ := exists_listAt pair_cells.1 pair_cells.2
  obtain ⟨⟨m, pre, post, max, shape, earlier, -⟩, m', pre', post', min, shape', earlier', -⟩ :=
    (extremes_earliest at_ (strictWeak_key (· / 32)) (show 2 < 3 by decide)).2 (by simp)
  rcases pair_split shape with ⟨-, rfl⟩ | ⟨rfl, rfl⟩
  · rcases pair_split shape' with ⟨-, rfl⟩ | ⟨rfl, rfl⟩
    · exact ⟨mem, at_, max, min⟩
    · exact absurd (earlier' 8192 (by simp)) (by decide)
  · exact absurd (earlier 8192 (by simp)) (by decide)

end Swink.Mem
