import Swink.Lists.World

namespace Swink.Mem
open NaturalMerge Links

variable {cells lists : Set Nat} {contents contents' : Nat → List Nat} {l l' x first : Nat}
  {xs ys us vs seg rest : List Nat} {mem mem' : Mem} {less : ListLessFunc} {rounds : Nat}

/-- The statement about one call: what it means is what it does. -/
def Performs (cells lists : Set Nat) (rounds : Nat) (op : ListOp) (mem : Mem) (result : Nat)
    (contents' : Nat → List Nat) : Prop :=
  ∃ mem', op.perform rounds mem = .ok (result, mem') ∧ World cells lists contents' mem' ∧ Untouched cells mem mem'

theorem Performs.query {op : ListOp} {result : Nat} (world : World cells lists contents mem)
    (run : op.perform rounds mem = .ok (result, mem)) : Performs cells lists rounds op mem result contents :=
  ⟨mem, run, world, fun _ _ => rfl⟩

theorem World.performs_init (world : World cells lists contents mem) (known : l ∈ lists) :
    Performs cells lists rounds (.init l) mem 0 (Function.update contents l []) := by
  have sub (a : Nat) (member : a ∈ whole l []) : a ∈ whole l (contents l) := by
    rw [mem_whole] at member ⊢
    exact member.imp_right fun rest => rest.imp_left fun none => absurd none List.not_mem_nil
  obtain ⟨mem', run, at', untouched⟩ := listInit_at ((world.at_ l known).cells.congr sub) mem
  exact ⟨mem', by rw [ListOp.perform, run, ok_bind], world.rearrange known at' (by simp) (untouched.mono sub)⟩

theorem World.performs_insert (world : World cells lists contents mem) (known : l ∈ lists)
    (shape : contents l = xs ++ ys) (free : Free cells lists contents x) :
    Performs cells lists rounds (.insert (cursor l ys) x) mem 0 (Function.update contents l (xs ++ x :: ys)) := by
  have at_ := world.at_ l known
  have fresh := world.fresh known free
  rw [shape] at at_ fresh
  obtain ⟨mem', run, at', untouched⟩ := at_.insert fresh
  refine ⟨mem', by rw [ListOp.perform, run, ok_bind], world.join known free at' ?_ untouched⟩
  rw [shape]
  exact List.perm_middle

theorem World.performs_pushFront (world : World cells lists contents mem) (known : l ∈ lists)
    (free : Free cells lists contents x) :
    Performs cells lists rounds (.pushFront l x) mem 0 (Function.update contents l (x :: contents l)) := by
  obtain ⟨mem', run, at', untouched⟩ := (world.at_ l known).pushed_front (world.fresh known free)
  exact ⟨mem', by rw [ListOp.perform, run, ok_bind], world.join known free at' (List.Perm.refl _) untouched⟩

theorem World.performs_pushBack (world : World cells lists contents mem) (known : l ∈ lists)
    (free : Free cells lists contents x) :
    Performs cells lists rounds (.pushBack l x) mem 0 (Function.update contents l (contents l ++ [x])) := by
  obtain ⟨mem', run, at', untouched⟩ := (world.at_ l known).pushed_back (world.fresh known free)
  exact ⟨mem', by rw [ListOp.perform, run, ok_bind],
    world.join known free at' (List.perm_append_singleton x _) untouched⟩

theorem World.performs_remove (world : World cells lists contents mem) (known : l ∈ lists)
    (shape : contents l = xs ++ x :: ys) :
    Performs cells lists rounds (.remove x) mem (cursor l ys) (Function.update contents l (xs ++ ys)) := by
  have at_ := world.at_ l known
  rw [shape] at at_
  obtain ⟨mem', run, at', successor, untouched⟩ := at_.remove
  rw [← shape] at untouched
  refine ⟨mem', by rw [ListOp.perform, listRemoveNext, run, ok_bind, successor], world.rearrange known at' ?_ untouched⟩
  rw [shape]
  simp only [List.mem_append, List.mem_cons]
  tauto

theorem World.performs_popFront (world : World cells lists contents mem) (known : l ∈ lists)
    (shape : contents l = x :: xs) :
    Performs cells lists rounds (.popFront l) mem x (Function.update contents l xs) := by
  have at_ := world.at_ l known
  rw [shape] at at_
  obtain ⟨mem', run, at', untouched⟩ := at_.popped_front
  rw [← shape] at untouched
  exact ⟨mem', run, world.rearrange known at' (fun a member => shape ▸ List.mem_cons_of_mem _ member) untouched⟩

theorem World.performs_popBack (world : World cells lists contents mem) (known : l ∈ lists)
    (shape : contents l = xs ++ [x]) :
    Performs cells lists rounds (.popBack l) mem x (Function.update contents l xs) := by
  have at_ := world.at_ l known
  rw [shape] at at_
  obtain ⟨mem', run, at', untouched⟩ := at_.popped_back
  rw [← shape] at untouched
  exact ⟨mem', run, world.rearrange known at' (fun a member => shape ▸ List.mem_append_left _ member) untouched⟩

theorem World.performs_splice (world : World cells lists contents mem) (known : l ∈ lists)
    (shape : contents l = xs ++ (seg ++ ys)) (nonempty : seg ≠ []) (split : xs ++ ys = us ++ vs) :
    Performs cells lists rounds (.splice (cursor l vs) (seg.head nonempty) (cursor l ys)) mem 0
      (Function.update contents l (us ++ (seg ++ vs))) := by
  have at_ := world.at_ l known
  rw [shape] at at_
  obtain ⟨mem', run, at', untouched⟩ := at_.splice nonempty split
  rw [← shape] at untouched
  refine ⟨mem', by rw [ListOp.perform, run, ok_bind], world.rearrange known at' (fun a member => ?_) untouched⟩
  exact shape ▸ (moved_perm split seg).mem_iff.mpr member

theorem World.cells_two (world : World cells lists contents mem) (known : l ∈ lists) (known' : l' ∈ lists) :
    Cells {a | a ∈ whole l (contents l) ∨ a ∈ whole l' (contents l')} :=
  world.nodes.congr fun a member => member.elim (world.inside l known a) (world.inside l' known' a)

theorem World.performs_spliceInto (world : World cells lists contents mem) (known : l ∈ lists) (known' : l' ∈ lists)
    (other : l ≠ l') (shape : contents l = xs ++ (seg ++ ys)) (shape' : contents l' = us ++ vs) (nonempty : seg ≠ []) :
    Performs cells lists rounds (.splice (cursor l' vs) (seg.head nonempty) (cursor l ys)) mem 0
      (Function.update (Function.update contents l (xs ++ ys)) l' (us ++ (seg ++ vs))) := by
  have at_ := world.at_ l known
  have into := world.at_ l' known'
  have nodes := world.cells_two known known'
  have apart := world.apart l known l' known' other
  rw [shape] at at_ nodes apart
  rw [shape'] at into nodes apart
  obtain ⟨mem', run, at₁, at₂, untouched⟩ := at_.splice_into into nonempty nodes apart
  have split (a : Nat) (member : a ∈ whole l' (us ++ (seg ++ vs))) : a ∈ seg ∨ a ∈ whole l' (us ++ vs) :=
    List.mem_append.mp ((whole_perm l' us seg vs).mem_iff.mp member)
  refine ⟨mem', by rw [ListOp.perform, run, ok_bind], world.exchange known known' other at₁ at₂ ?_ ?_ ?_ ?_⟩
  · exact fun a member => Or.inl (shape ▸ mem_whole_of_append member)
  · intro a member
    rw [shape, shape']
    exact (split a member).imp_left mem_whole_seg
  · intro a member member'
    rcases split a member' with inSeg | inTarget
    · exact (List.nodup_append.mp at_.fresh.nodup).2.2 a inSeg a member rfl
    · exact apart a (mem_whole_of_append member) inTarget
  · rwa [shape, shape']

theorem World.performs_spliceNone (world : World cells lists contents mem) (known : l ∈ lists)
    (shape : contents l = xs ++ ys) : Performs cells lists rounds (.splice (cursor l ys) first first) mem 0 contents := by
  have at_ := world.at_ l known
  rw [shape] at at_
  refine Performs.query world ?_
  rw [ListOp.perform, listSplice, assert_of at_.interior_or_tail, ok_bind, if_pos rfl, ok_bind]

theorem World.performs_reverse (world : World cells lists contents mem) (known : l ∈ lists) (enough : 2 ^ 60 < rounds) :
    Performs cells lists rounds (.reverse l) mem 0 (Function.update contents l (contents l).reverse) := by
  obtain ⟨mem', run, at', untouched⟩ := (world.at_ l known).reversed (world.length_lt known enough)
  exact ⟨mem', by rw [ListOp.perform, run, ok_bind],
    world.rearrange known at' (fun a member => List.mem_reverse.mp member) untouched⟩

theorem World.performs_sort (world : World cells lists contents mem) (known : l ∈ lists) (order : StrictWeak less)
    (enough : 2 ^ 60 < rounds) :
    Performs cells lists rounds (.sort l less) mem 0
      (Function.update contents l ((contents l).mergeSort fun a b => !less b a)) := by
  obtain ⟨mem', run, at', untouched⟩ := listSort_stable (world.at_ l known) order (world.length_lt known enough)
  exact ⟨mem', by rw [ListOp.perform, run, ok_bind],
    world.rearrange known at' (fun a member => List.mem_mergeSort.mp member) untouched⟩

theorem World.performs_insertOrdered (world : World cells lists contents mem) (known : l ∈ lists)
    (free : Free cells lists contents x) (enough : 2 ^ 60 < rounds) :
    Performs cells lists rounds (.insertOrdered l x less) mem 0
      (Function.update contents l (insertOrdered less x (contents l))) := by
  obtain ⟨mem', run, at', untouched⟩ := (world.at_ l known).inserted_ordered less (world.fresh known free)
    (world.length_lt known enough)
  exact ⟨mem', by rw [ListOp.perform, run, ok_bind], world.join known free at' (insertOrdered_perm x _) untouched⟩

theorem World.performs_unique (world : World cells lists contents mem) (known : l ∈ lists)
    (shape : contents l = x :: rest) (enough : 2 ^ 60 < rounds) :
    Performs cells lists rounds (.unique l 0 less) mem 0 (Function.update contents l (firsts less x rest)) := by
  have at_ := world.at_ l known
  have short := world.length_lt known enough
  rw [shape] at at_ short
  have state : Collecting {a | a ∈ whole l (x :: rest)} l 0 (x :: rest) [] mem :=
    ⟨at_.cells, at_, fun a member => member, fun some => absurd rfl some⟩
  obtain ⟨mem', run, after, untouched⟩ := Collecting.unique less state (Nat.lt_of_succ_lt short)
  rw [← shape] at untouched
  refine ⟨mem', by rw [ListOp.perform, run, ok_bind], world.rearrange known after.at_ (fun a member => ?_) untouched⟩
  exact shape ▸ (firsts_sublist x rest).subset member

theorem World.performs_uniqueInto (world : World cells lists contents mem) (known : l ∈ lists) (known' : l' ∈ lists)
    (other : l ≠ l') (shape : contents l = x :: rest) (enough : 2 ^ 60 < rounds) :
    Performs cells lists rounds (.unique l l' less) mem 0
      (Function.update (Function.update contents l (firsts less x rest)) l' (contents l' ++ others less x rest)) := by
  have at_ := world.at_ l known
  have into := world.at_ l' known'
  have nodes := world.cells_two known known'
  have apart := world.apart l known l' known' other
  have short := world.length_lt known enough
  rw [shape] at at_ nodes apart short
  have state : Collecting {a | a ∈ whole l (x :: rest) ∨ a ∈ whole l' (contents l')} l l' (x :: rest) (contents l') mem :=
    ⟨nodes, at_, fun a member => Or.inl member,
      fun _ => ⟨into, fun a member => ⟨Or.inr member, fun inList => apart a inList member⟩⟩⟩
  obtain ⟨mem', run, after, untouched⟩ := Collecting.unique less state (Nat.lt_of_succ_lt short)
  obtain ⟨at', inside'⟩ := after.into into.list_ne_zero
  refine ⟨mem', by rw [ListOp.perform, run, ok_bind], world.exchange known known' other after.at_ at' ?_ ?_ ?_ ?_⟩
  · intro a member
    rw [shape]
    exact after.inside a member
  · intro a member
    rw [shape]
    exact (inside' a member).1
  · exact fun a member member' => (inside' a member').2 member
  · rwa [shape]

theorem World.performs_uniqueNone (world : World cells lists contents mem) (known : l ∈ lists) (shape : contents l = [])
    (duplicates : Nat) : Performs cells lists rounds (.unique l duplicates less) mem 0 contents := by
  have at_ := world.at_ l known
  refine Performs.query world ?_
  rw [ListOp.perform, listUnique, assert_of at_.list_ne_zero, ok_bind, at_.empty_eq, ok_bind, shape]
  rfl

theorem ListAt.extremum {better : Nat → Nat → Bool} {elems : List Nat} (at_ : ListAt l elems mem)
    (enough : elems.length < rounds) : listExtreme better rounds l mem = .ok (extremeOf better l elems) := by
  cases elems with
  | nil => exact at_.extreme_nil rounds
  | cons x rest => exact at_.extreme_eq (Nat.lt_of_succ_lt enough)

theorem ListAt.rbegin_eq {elems : List Nat} (at_ : ListAt l elems mem) : listRbegin l mem = .ok (behind l elems) := by
  rw [listRbegin, assert_of at_.list_ne_zero, ok_bind, at_.behind_back]

/-- Every call does what it means. -/
theorem World.performs {op : ListOp} {result : Nat} (world : World cells lists contents mem)
    (means : Means cells lists op contents result contents') (enough : 2 ^ 60 < rounds) :
    Performs cells lists rounds op mem result contents' := by
  cases means with
  | init known => exact world.performs_init known
  | insert known shape free => exact world.performs_insert known shape free
  | pushFront known free => exact world.performs_pushFront known free
  | pushBack known free => exact world.performs_pushBack known free
  | remove known shape => exact world.performs_remove known shape
  | popFront known shape => exact world.performs_popFront known shape
  | popBack known shape => exact world.performs_popBack known shape
  | splice known shape nonempty split => exact world.performs_splice known shape nonempty split
  | spliceInto known known' other shape shape' nonempty =>
    exact world.performs_spliceInto known known' other shape shape' nonempty
  | spliceNone known shape => exact world.performs_spliceNone known shape
  | reverse known => exact world.performs_reverse known enough
  | sort known order => exact world.performs_sort known order enough
  | insertOrdered known free => exact world.performs_insertOrdered known free enough
  | unique known shape => exact world.performs_unique known shape enough
  | uniqueInto known known' other shape => exact world.performs_uniqueInto known known' other shape enough
  | uniqueNone known shape => exact world.performs_uniqueNone known shape _
  | begin known => exact .query world (by rw [ListOp.perform, (world.at_ _ known).begin_eq, ok_bind])
  | rbegin known => exact .query world (by rw [ListOp.perform, (world.at_ _ known).rbegin_eq, ok_bind])
  | next known shape =>
    have at_ := world.at_ _ known
    rw [shape] at at_
    exact .query world (by rw [ListOp.perform, at_.next_eq, ok_bind])
  | prev known shape =>
    have at_ := world.at_ _ known
    rw [shape] at at_
    exact .query world (by rw [ListOp.perform, at_.prev_eq, ok_bind])
  | front known shape =>
    have at_ := world.at_ _ known
    rw [shape] at at_
    exact .query world (by rw [ListOp.perform, at_.front_eq, ok_bind])
  | back known shape =>
    have at_ := world.at_ _ known
    rw [shape] at at_
    exact .query world (by rw [ListOp.perform, at_.back_eq, ok_bind])
  | empty known => exact .query world (by rw [ListOp.perform, (world.at_ _ known).empty_eq, ok_bind])
  | size known =>
    exact .query world (by rw [ListOp.perform, (world.at_ _ known).size_eq (world.length_lt known enough), ok_bind])
  | max known =>
    exact .query world (by rw [ListOp.perform, listMax, (world.at_ _ known).extremum (world.length_lt known enough),
      ok_bind])
  | min known =>
    exact .query world (by rw [ListOp.perform, listMin, (world.at_ _ known).extremum (world.length_lt known enough),
      ok_bind])

/-- Calls one after the other, with the values that they return. -/
def performAll (rounds : Nat) : List ListOp → Mem → Except Fault (List Nat × Mem)
  | [], mem => .ok ([], mem)
  | op :: ops, mem => do
    let (result, mem) ← op.perform rounds mem
    let (results, mem) ← performAll rounds ops mem
    .ok (result :: results, mem)

inductive MeansAll (cells lists : Set Nat) : List ListOp → (Nat → List Nat) → List Nat → (Nat → List Nat) → Prop
  | nil (contents : Nat → List Nat) : MeansAll cells lists [] contents [] contents
  | cons {op : ListOp} {ops : List ListOp} {contents contents₁ contents₂ : Nat → List Nat} {result : Nat}
      {results : List Nat} (first : Means cells lists op contents result contents₁)
      (rest : MeansAll cells lists ops contents₁ results contents₂) :
      MeansAll cells lists (op :: ops) contents (result :: results) contents₂

/-- Calls one after the other do what they mean one after the other. -/
theorem World.performs_all {ops : List ListOp} {results : List Nat} (world : World cells lists contents mem)
    (means : MeansAll cells lists ops contents results contents') (enough : 2 ^ 60 < rounds) :
    ∃ mem', performAll rounds ops mem = .ok (results, mem') ∧ World cells lists contents' mem' ∧
      Untouched cells mem mem' := by
  induction means generalizing mem with
  | nil => exact ⟨mem, rfl, world, fun _ _ => rfl⟩
  | cons first _ ih =>
    obtain ⟨mem₁, run, world₁, untouched⟩ := world.performs first enough
    obtain ⟨mem₂, runs, world₂, untouched'⟩ := ih world₁
    exact ⟨mem₂, by simp only [performAll, run, ok_bind, runs], world₂, untouched.trans untouched'⟩

theorem MeansAll.append {ops ops' : List ListOp} {results results' : List Nat} {contents₁ contents₂ : Nat → List Nat}
    (first : MeansAll cells lists ops contents results contents₁)
    (second : MeansAll cells lists ops' contents₁ results' contents₂) :
    MeansAll cells lists (ops ++ ops') contents (results ++ results') contents₂ := by
  induction first with
  | nil => exact second
  | cons step _ ih => exact .cons step (ih second)

theorem performAll_append {ops ops' : List ListOp} {results results' : List Nat} {mem₁ mem₂ : Mem}
    (first : performAll rounds ops mem = .ok (results, mem₁))
    (second : performAll rounds ops' mem₁ = .ok (results', mem₂)) :
    performAll rounds (ops ++ ops') mem = .ok (results ++ results', mem₂) := by
  induction ops generalizing mem results with
  | nil =>
    obtain ⟨rfl, rfl⟩ := Prod.mk.inj (Except.ok.inj first)
    exact second
  | cons op ops ih =>
    obtain ⟨⟨result, mem'⟩, run, rest⟩ := bind_eq_ok.mp first
    obtain ⟨⟨others, mem''⟩, runs, shape⟩ := bind_eq_ok.mp rest
    obtain ⟨rfl, rfl⟩ := Prod.mk.inj (Except.ok.inj shape)
    simp only [List.cons_append, performAll, run, ok_bind, ih runs]

/-- Headers of lists that are not in use yet: their nodes are among `cells` and shared with none. -/
structure Headers (cells : Set Nat) (headers : List Nat) : Prop where
  nodes : Cells cells
  inside : ∀ l ∈ headers, ∀ a ∈ whole l [], a ∈ cells
  apart : headers.Pairwise fun l l' => ∀ a ∈ whole l [], a ∉ whole l' []

theorem World.nil (nodes : Cells cells) (contents : Nat → List Nat) (mem : Mem) : World cells ∅ contents mem :=
  ⟨nodes, fun _ none => none.elim, fun _ none => none.elim, fun _ none => none.elim⟩

/-- `list_init` adds an empty list. -/
theorem World.init_header (world : World cells lists (fun _ => []) mem) (inside : ∀ a ∈ whole l [], a ∈ cells)
    (apart : ∀ l' ∈ lists, ∀ a ∈ whole l' [], a ∉ whole l []) :
    ∃ mem', listInit l mem = .ok mem' ∧ World cells (insert l lists) (fun _ => []) mem' ∧ Untouched cells mem mem' := by
  obtain ⟨mem', run, at', untouched⟩ := listInit_at (world.nodes.congr inside) mem
  refine ⟨mem', run, ⟨world.nodes, fun l' which => ?_, fun l' which => ?_, fun l₁ which₁ l₂ which₂ other => ?_⟩,
    untouched.mono inside⟩
  · rcases which with rfl | old
    · exact at'
    · refine (world.at_ l' old).frame untouched fun a member c inHeader => ?_
      exact world.nodes.apart a (world.inside l' old a member) c (inside c inHeader)
        fun same => apart l' old a member (same ▸ inHeader)
  · rcases which with rfl | old
    · exact inside
    · exact world.inside l' old
  · rcases which₁ with rfl | old₁ <;> rcases which₂ with rfl | old₂
    · exact absurd rfl other
    · exact fun a member member' => apart l₂ old₂ a member' member
    · exact apart l₁ old₁
    · exact world.apart l₁ old₁ l₂ old₂ other

theorem World.init_headers {headers : List Nat} (world : World cells lists (fun _ => []) mem)
    (unused : Headers cells headers) (apart : ∀ l ∈ headers, ∀ l' ∈ lists, ∀ a ∈ whole l' [], a ∉ whole l []) :
    ∃ mem', performAll rounds (headers.map .init) mem = .ok (List.replicate headers.length 0, mem') ∧
      World cells (lists ∪ {l | l ∈ headers}) (fun _ => []) mem' ∧ Untouched cells mem mem' := by
  induction headers generalizing lists mem with
  | nil =>
    refine ⟨mem, rfl, ?_, fun _ _ => rfl⟩
    simpa using world
  | cons l headers ih =>
    obtain ⟨fresh, others⟩ := List.pairwise_cons.mp unused.apart
    obtain ⟨mem₁, run, world₁, untouched⟩ := world.init_header (unused.inside l (List.mem_cons_self ..))
      (apart l (List.mem_cons_self ..))
    have left : Headers cells headers :=
      ⟨unused.nodes, fun l' member => unused.inside l' (List.mem_cons_of_mem _ member), others⟩
    obtain ⟨mem₂, runs, world₂, untouched'⟩ := ih world₁ left fun l' member l'' which => by
      rcases which with rfl | old
      · exact fresh l' member
      · exact apart l' (List.mem_cons_of_mem _ member) l'' old
    refine ⟨mem₂, ?_, ?_, untouched.trans untouched'⟩
    · simp only [List.map_cons, performAll, ListOp.perform, run, ok_bind, runs]
      rfl
    · have same : insert l lists ∪ {l' | l' ∈ headers} = lists ∪ {l' | l' ∈ l :: headers} := by
        ext l'
        simp only [Set.mem_union, Set.mem_insert_iff, Set.mem_ofPred_eq, List.mem_cons]
        tauto
      rwa [← same]

/-- From any memory: initialised lists, and then any run of calls on them, hold and return what the
same calls make of lists of elements; bytes outside the nodes are never written. -/
theorem listCalls_refine {headers : List Nat} {ops : List ListOp} {results : List Nat} (unused : Headers cells headers)
    (means : MeansAll cells {l | l ∈ headers} ops (fun _ => []) results contents') (enough : 2 ^ 60 < rounds)
    (mem : Mem) :
    ∃ mem', performAll rounds (headers.map .init ++ ops) mem =
        .ok (List.replicate headers.length 0 ++ results, mem') ∧
      World cells {l | l ∈ headers} contents' mem' ∧ Untouched cells mem mem' := by
  obtain ⟨mem₁, run, world, untouched⟩ := (World.nil unused.nodes (fun _ => []) mem).init_headers unused
    fun _ _ _ none => none.elim
  rw [Set.empty_union] at world
  obtain ⟨mem₂, runs, world', untouched'⟩ := world.performs_all means enough
  exact ⟨mem₂, performAll_append run runs, world', untouched.trans untouched'⟩

/-- Two lists at 4096 and 4160, and two nodes for them. -/
def sampleCells : Set Nat := {a | a ∈ [4096, 4112, 4160, 4176, 8192, 8208]}

theorem sample_headers : Headers sampleCells [4096, 4160] := by
  refine ⟨⟨fun a member => ?_, fun a member => ?_, fun a member b member' different => ?_⟩, fun l which a member => ?_,
    List.pairwise_pair.mpr fun a member member' => ?_⟩
  all_goals simp only [sampleCells, whole, listHead, listTail, Set.mem_ofPred_eq, List.mem_cons, List.nil_append,
    List.not_mem_nil, or_false] at *
  all_goals omega

theorem sample_free {x : Nat} (which : x = 8192 ∨ x = 8208) :
    Free sampleCells {l | l ∈ [4096, 4160]} (fun _ => []) x := by
  refine ⟨?_, fun l member inList => ?_⟩
  all_goals simp only [sampleCells, whole, listHead, listTail, Set.mem_ofPred_eq, List.mem_cons, List.nil_append,
    List.not_mem_nil, or_false] at *
  all_goals omega

theorem sample_initialised : ∃ mem, World sampleCells {l | l ∈ [4096, 4160]} (fun _ => []) mem := by
  obtain ⟨mem, run⟩ : ∃ mem', performAll 0 _ (fun _ => 0) = _ ∧ _ :=
    (World.nil sample_headers.nodes (fun _ => []) fun _ => 0).init_headers sample_headers fun _ _ _ none => none.elim
  rw [Set.empty_union] at run
  exact ⟨mem, run.2.1⟩

theorem listCalls_refine_sample : ∃ mem', performAll (2 ^ 60 + 1) ([.init 4096, .init 4160] ++
      [.pushBack 4096 8192, .size 4096, .popFront 4096]) (fun _ => 0) = .ok ([0, 0] ++ [0, 1, 8192], mem') ∧
    World sampleCells {l | l ∈ [4096, 4160]} (Function.update (Function.update (fun _ => []) 4096 [8192]) 4096 []) mem' ∧
    Untouched sampleCells (fun _ => 0) mem' := by
  have known : 4096 ∈ {l | l ∈ [4096, 4160]} := List.mem_cons_self ..
  have size : Means sampleCells {l | l ∈ [4096, 4160]} (.size 4096) (Function.update (fun _ => []) 4096 [8192]) 1
      (Function.update (fun _ => []) 4096 [8192]) := .size known
  exact listCalls_refine sample_headers (.cons (.pushBack known (sample_free (Or.inl rfl))) (.cons size
    (.cons (.popFront known (Function.update_self ..)) (.nil _)))) (Nat.lt_succ_self _) _

end Swink.Mem
