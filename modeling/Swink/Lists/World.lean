import Swink.Lists.Order
import Swink.Lists.Reverse

namespace Swink.Mem
open NaturalMerge Links

/-- Lists at the given addresses that share no node, all among the given nodes. -/
structure World (cells lists : Set Nat) (contents : Nat → List Nat) (mem : Mem) : Prop where
  nodes : Cells cells
  at_ : ∀ l ∈ lists, ListAt l (contents l) mem
  inside : ∀ l ∈ lists, ∀ a ∈ whole l (contents l), a ∈ cells
  apart : ∀ l ∈ lists, ∀ l' ∈ lists, l ≠ l' → ∀ a ∈ whole l (contents l), a ∉ whole l' (contents l')

/-- A node that is on no list. -/
def Free (cells lists : Set Nat) (contents : Nat → List Nat) (elem : Nat) : Prop :=
  elem ∈ cells ∧ ∀ l ∈ lists, elem ∉ whole l (contents l)

/-- Calls of the functions of list.c. -/
inductive ListOp
  | init (list : Nat)
  | insert (before elem : Nat)
  | pushFront (list elem : Nat)
  | pushBack (list elem : Nat)
  | remove (elem : Nat)
  | popFront (list : Nat)
  | popBack (list : Nat)
  | splice (before first last : Nat)
  | reverse (list : Nat)
  | sort (list : Nat) (less : ListLessFunc)
  | insertOrdered (list elem : Nat) (less : ListLessFunc)
  | unique (list duplicates : Nat) (less : ListLessFunc)
  | begin (list : Nat)
  | rbegin (list : Nat)
  | next (elem : Nat)
  | prev (elem : Nat)
  | front (list : Nat)
  | back (list : Nat)
  | empty (list : Nat)
  | size (list : Nat)
  | max (list : Nat) (less : ListLessFunc)
  | min (list : Nat) (less : ListLessFunc)

/-- A call with the value that it returns, 0 where it returns none. -/
def ListOp.perform (rounds : Nat) : ListOp → Mem → Except Fault (Nat × Mem)
  | .init list, mem => do .ok (0, ← listInit list mem)
  | .insert before elem, mem => do .ok (0, ← listInsert before elem mem)
  | .pushFront list elem, mem => do .ok (0, ← listPushFront list elem mem)
  | .pushBack list elem, mem => do .ok (0, ← listPushBack list elem mem)
  | .remove elem, mem => listRemoveNext elem mem
  | .popFront list, mem => listPopFront list mem
  | .popBack list, mem => listPopBack list mem
  | .splice before first last, mem => do .ok (0, ← listSplice before first last mem)
  | .reverse list, mem => do .ok (0, ← listReverse rounds list mem)
  | .sort list less, mem => do .ok (0, ← listSort less rounds list mem)
  | .insertOrdered list elem less, mem => do .ok (0, ← listInsertOrdered less rounds list elem mem)
  | .unique list duplicates less, mem => do .ok (0, ← listUnique less rounds list duplicates mem)
  | .begin list, mem => do .ok (← listBegin list mem, mem)
  | .rbegin list, mem => do .ok (← listRbegin list mem, mem)
  | .next elem, mem => do .ok (← listNext elem mem, mem)
  | .prev elem, mem => do .ok (← listPrev elem mem, mem)
  | .front list, mem => do .ok (← listFront list mem, mem)
  | .back list, mem => do .ok (← listBack list mem, mem)
  | .empty list, mem => do .ok ((← listEmpty list mem).toNat, mem)
  | .size list, mem => do .ok (← listSize rounds list mem, mem)
  | .max list less, mem => do .ok (← listMax less rounds list mem, mem)
  | .min list less, mem => do .ok (← listMin less rounds list mem, mem)

/-- What `list_max` and `list_min` find, the tail of an empty list. -/
def extremeOf (better : Nat → Nat → Bool) (list : Nat) : List Nat → Nat
  | [] => listTail list
  | x :: rest => best better x rest

variable (cells lists : Set Nat)

/-- What a call is for, in terms of the elements of the lists: the value returned and the lists
afterwards. A call outside its documented use has no meaning. -/
inductive Means : ListOp → (Nat → List Nat) → Nat → (Nat → List Nat) → Prop
  | init {contents l} (known : l ∈ lists) : Means (.init l) contents 0 (Function.update contents l [])
  | insert {contents l xs ys x} (known : l ∈ lists) (shape : contents l = xs ++ ys)
      (free : Free cells lists contents x) :
      Means (.insert (cursor l ys) x) contents 0 (Function.update contents l (xs ++ x :: ys))
  | pushFront {contents l x} (known : l ∈ lists) (free : Free cells lists contents x) :
      Means (.pushFront l x) contents 0 (Function.update contents l (x :: contents l))
  | pushBack {contents l x} (known : l ∈ lists) (free : Free cells lists contents x) :
      Means (.pushBack l x) contents 0 (Function.update contents l (contents l ++ [x]))
  | remove {contents l xs ys x} (known : l ∈ lists) (shape : contents l = xs ++ x :: ys) :
      Means (.remove x) contents (cursor l ys) (Function.update contents l (xs ++ ys))
  | popFront {contents l xs x} (known : l ∈ lists) (shape : contents l = x :: xs) :
      Means (.popFront l) contents x (Function.update contents l xs)
  | popBack {contents l xs x} (known : l ∈ lists) (shape : contents l = xs ++ [x]) :
      Means (.popBack l) contents x (Function.update contents l xs)
  | splice {contents l xs ys us vs seg} (known : l ∈ lists) (shape : contents l = xs ++ (seg ++ ys))
      (nonempty : seg ≠ []) (split : xs ++ ys = us ++ vs) :
      Means (.splice (cursor l vs) (seg.head nonempty) (cursor l ys)) contents 0
        (Function.update contents l (us ++ (seg ++ vs)))
  | spliceInto {contents l l' xs ys us vs seg} (known : l ∈ lists) (known' : l' ∈ lists) (other : l ≠ l')
      (shape : contents l = xs ++ (seg ++ ys)) (shape' : contents l' = us ++ vs) (nonempty : seg ≠ []) :
      Means (.splice (cursor l' vs) (seg.head nonempty) (cursor l ys)) contents 0
        (Function.update (Function.update contents l (xs ++ ys)) l' (us ++ (seg ++ vs)))
  | spliceNone {contents l xs ys first} (known : l ∈ lists) (shape : contents l = xs ++ ys) :
      Means (.splice (cursor l ys) first first) contents 0 contents
  | reverse {contents l} (known : l ∈ lists) :
      Means (.reverse l) contents 0 (Function.update contents l (contents l).reverse)
  | sort {contents l less} (known : l ∈ lists) (order : StrictWeak less) :
      Means (.sort l less) contents 0
        (Function.update contents l ((contents l).mergeSort fun a b => !less b a))
  | insertOrdered {contents l less x} (known : l ∈ lists) (free : Free cells lists contents x) :
      Means (.insertOrdered l x less) contents 0 (Function.update contents l (insertOrdered less x (contents l)))
  | unique {contents l less x rest} (known : l ∈ lists) (shape : contents l = x :: rest) :
      Means (.unique l 0 less) contents 0 (Function.update contents l (firsts less x rest))
  | uniqueInto {contents l l' less x rest} (known : l ∈ lists) (known' : l' ∈ lists) (other : l ≠ l')
      (shape : contents l = x :: rest) :
      Means (.unique l l' less) contents 0
        (Function.update (Function.update contents l (firsts less x rest)) l' (contents l' ++ others less x rest))
  | uniqueNone {contents l duplicates less} (known : l ∈ lists) (shape : contents l = []) :
      Means (.unique l duplicates less) contents 0 contents
  | begin {contents l} (known : l ∈ lists) : Means (.begin l) contents (cursor l (contents l)) contents
  | rbegin {contents l} (known : l ∈ lists) : Means (.rbegin l) contents (behind l (contents l)) contents
  | next {contents l xs ys x} (known : l ∈ lists) (shape : contents l = xs ++ x :: ys) :
      Means (.next x) contents (cursor l ys) contents
  | prev {contents l xs ys} (known : l ∈ lists) (shape : contents l = xs ++ ys) :
      Means (.prev (cursor l ys)) contents (behind l xs) contents
  | front {contents l xs x} (known : l ∈ lists) (shape : contents l = x :: xs) : Means (.front l) contents x contents
  | back {contents l xs x} (known : l ∈ lists) (shape : contents l = xs ++ [x]) : Means (.back l) contents x contents
  | empty {contents l} (known : l ∈ lists) : Means (.empty l) contents (contents l).isEmpty.toNat contents
  | size {contents l} (known : l ∈ lists) : Means (.size l) contents (contents l).length contents
  | max {contents l less} (known : l ∈ lists) :
      Means (.max l less) contents (extremeOf less l (contents l)) contents
  | min {contents l less} (known : l ∈ lists) :
      Means (.min l less) contents (extremeOf (fun min e => less e min) l (contents l)) contents

variable {cells lists} {contents contents' : Nat → List Nat} {l x : Nat} {xs ys : List Nat} {mem mem' : Mem}

theorem World.length_lt (world : World cells lists contents mem) (known : l ∈ lists) {rounds : Nat}
    (enough : 2 ^ 60 < rounds) : (contents l).length < rounds := by
  have := (world.at_ l known).cells.length_le (fun a member => member) (world.at_ l known).nodup
  simp only [whole, List.length_cons, List.length_append] at this
  omega

theorem World.fresh (world : World cells lists contents mem) (known : l ∈ lists) (free : Free cells lists contents x) :
    Fresh l (contents l) [x] := by
  refine ⟨world.nodes.congr fun a member => ?_, List.nodup_cons.mpr ⟨free.2 l known, (world.at_ l known).nodup⟩⟩
  rcases List.mem_cons.mp member with rfl | inList
  · exact free.1
  · exact world.inside l known a inList

/-- A node that no list but `l` has. -/
def Own (cells lists : Set Nat) (contents : Nat → List Nat) (changed : Set Nat) (a : Nat) : Prop :=
  a ∈ cells ∧ ∀ l ∈ lists, l ∉ changed → a ∉ whole l (contents l)

/-- Lists change, the others stay. -/
theorem World.change (world : World cells lists contents mem) (changed : Set Nat) {touched : Set Nat}
    (same : ∀ l ∈ lists, l ∉ changed → contents' l = contents l)
    (at' : ∀ l ∈ lists, l ∈ changed → ListAt l (contents' l) mem')
    (own : ∀ l ∈ lists, l ∈ changed → ∀ a ∈ whole l (contents' l), Own cells lists contents changed a)
    (apart' : ∀ l ∈ lists, l ∈ changed → ∀ l' ∈ lists, l' ∈ changed → l ≠ l' → ∀ a ∈ whole l (contents' l),
      a ∉ whole l' (contents' l'))
    (reach : ∀ a ∈ touched, Own cells lists contents changed a) (untouched : Untouched touched mem mem') :
    World cells lists contents' mem' ∧ Untouched cells mem mem' := by
  refine ⟨⟨world.nodes, fun l known => ?_, fun l known a member => ?_, fun l known l' known' other a member member' => ?_⟩,
    untouched.mono fun a member => (reach a member).1⟩
  · by_cases altered : l ∈ changed
    · exact at' l known altered
    · rw [same l known altered]
      refine (world.at_ l known).frame untouched fun a member c inside => ?_
      exact world.nodes.apart a (world.inside l known a member) c (reach c inside).1
        fun eq => (reach c inside).2 l known altered (eq ▸ member)
  · by_cases altered : l ∈ changed
    · exact (own l known altered a member).1
    · exact world.inside l known a (same l known altered ▸ member)
  · by_cases altered : l ∈ changed
    · by_cases altered' : l' ∈ changed
      · exact apart' l known altered l' known' altered' other a member member'
      · exact (own l known altered a member).2 l' known' altered' (same l' known' altered' ▸ member')
    · have old := same l known altered ▸ member
      by_cases altered' : l' ∈ changed
      · exact (own l' known' altered' a member').2 l known altered old
      · exact world.apart l known l' known' other a old (same l' known' altered' ▸ member')

/-- One list changes, perhaps by free nodes. -/
theorem World.change_one (world : World cells lists contents mem) (known : l ∈ lists) {elems' : List Nat}
    (at' : ListAt l elems' mem') {touched : Set Nat}
    (own : ∀ a ∈ whole l elems', a ∈ whole l (contents l) ∨ Free cells lists contents a)
    (reach : ∀ a ∈ touched, a ∈ whole l (contents l) ∨ Free cells lists contents a)
    (untouched : Untouched touched mem mem') :
    World cells lists (Function.update contents l elems') mem' ∧ Untouched cells mem mem' := by
  have owned (a : Nat) (source : a ∈ whole l (contents l) ∨ Free cells lists contents a) :
      Own cells lists contents {l} a := by
    rcases source with inList | free
    · refine ⟨world.inside l known a inList, fun l' known' other inOther => ?_⟩
      exact world.apart l known l' known' (fun same => other same.symm) a inList inOther
    · exact ⟨free.1, fun l' known' _ => free.2 l' known'⟩
  refine world.change {l} (fun l' _ other => Function.update_of_ne other _ _) (fun l' _ same => ?_)
    (fun l' _ same a member => ?_) (fun l₁ _ same₁ l₂ _ same₂ other => ?_) (fun a member => owned a (reach a member))
    untouched
  · rw [Set.mem_singleton_iff] at same
    subst same
    rwa [Function.update_self]
  · rw [Set.mem_singleton_iff] at same
    subst same
    rw [Function.update_self] at member
    exact owned a (own a member)
  · rw [Set.mem_singleton_iff] at same₁ same₂
    exact absurd (same₁.trans same₂.symm) other

/-- The same nodes in another order, or fewer. -/
theorem World.rearrange (world : World cells lists contents mem) (known : l ∈ lists) {elems' : List Nat}
    (at' : ListAt l elems' mem') (sub : ∀ a ∈ elems', a ∈ contents l)
    (untouched : Untouched {a | a ∈ whole l (contents l)} mem mem') :
    World cells lists (Function.update contents l elems') mem' ∧ Untouched cells mem mem' := by
  refine world.change_one known at' (fun a member => Or.inl ?_) (fun a member => Or.inl member) untouched
  rw [mem_whole] at member ⊢
  exact member.imp_right fun rest => rest.imp_left (sub a)

/-- A free node joins a list. -/
theorem World.join (world : World cells lists contents mem) (known : l ∈ lists) {elems' : List Nat}
    (free : Free cells lists contents x) (at' : ListAt l elems' mem') (perm : elems'.Perm (x :: contents l))
    (untouched : Untouched {a | a ∈ whole l elems'} mem mem') :
    World cells lists (Function.update contents l elems') mem' ∧ Untouched cells mem mem' := by
  have source (a : Nat) (member : a ∈ whole l elems') : a ∈ whole l (contents l) ∨ Free cells lists contents a := by
    rw [mem_whole, perm.mem_iff, List.mem_cons] at member
    rw [mem_whole]
    rcases member with isHead | (rfl | inside) | isTail
    · exact Or.inl (Or.inl isHead)
    · exact Or.inr free
    · exact Or.inl (Or.inr (Or.inl inside))
    · exact Or.inl (Or.inr (Or.inr isTail))
  exact world.change_one known at' source source untouched

/-- Two lists change, with the nodes that they had. -/
theorem World.exchange (world : World cells lists contents mem) {l' : Nat} (known : l ∈ lists) (known' : l' ∈ lists)
    (other : l ≠ l') {elems elems' : List Nat} (at_ : ListAt l elems mem') (at' : ListAt l' elems' mem')
    (own : ∀ a ∈ whole l elems, a ∈ whole l (contents l) ∨ a ∈ whole l' (contents l'))
    (own' : ∀ a ∈ whole l' elems', a ∈ whole l (contents l) ∨ a ∈ whole l' (contents l'))
    (disjoint : ∀ a ∈ whole l elems, a ∉ whole l' elems')
    (untouched : Untouched {a | a ∈ whole l (contents l) ∨ a ∈ whole l' (contents l')} mem mem') :
    World cells lists (Function.update (Function.update contents l elems) l' elems') mem' ∧
      Untouched cells mem mem' := by
  have atL : Function.update (Function.update contents l elems) l' elems' l = elems := by
    rw [Function.update_of_ne other, Function.update_self]
  have atL' : Function.update (Function.update contents l elems) l' elems' l' = elems' := Function.update_self ..
  have owned (a : Nat) (source : a ∈ whole l (contents l) ∨ a ∈ whole l' (contents l')) :
      Own cells lists contents {l, l'} a := by
    rcases source with inList | inList
    · refine ⟨world.inside l known a inList, fun m knownM notChanged inM => ?_⟩
      exact world.apart l known m knownM (fun same => notChanged (by simp [same])) a inList inM
    · refine ⟨world.inside l' known' a inList, fun m knownM notChanged inM => ?_⟩
      exact world.apart l' known' m knownM (fun same => notChanged (by simp [same])) a inList inM
  refine world.change {l, l'} (fun m _ notChanged => ?_) (fun m _ which => ?_) (fun m _ which a member => ?_)
    (fun m _ which m' _ which' differ a member member' => ?_) (fun a member => owned a member) untouched
  · rw [Set.mem_insert_iff, Set.mem_singleton_iff, not_or] at notChanged
    rw [Function.update_of_ne notChanged.2, Function.update_of_ne notChanged.1]
  · rcases which with rfl | rfl
    · rwa [atL]
    · rwa [atL']
  · rcases which with rfl | rfl
    · exact owned a (own a (atL ▸ member))
    · exact owned a (own' a (atL' ▸ member))
  · rcases which with rfl | rfl <;> rcases which' with rfl | rfl
    · exact differ rfl
    · exact disjoint a (atL ▸ member) (atL' ▸ member')
    · exact disjoint a (atL ▸ member') (atL' ▸ member)
    · exact differ rfl

end Swink.Mem
