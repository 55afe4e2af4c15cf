import Swink.Lib.Dyadic

namespace Dyadic

/-- The coalesced blocks of a set of points: aligned blocks of level at most `top`
inside the set whose enclosing block of the next level is not inside it. -/
def Maximal (top : Nat) (points : Set Nat) (level start : Nat) : Prop :=
  level ≤ top ∧ 2 ^ level ∣ start ∧ block level start ⊆ points ∧
    (level < top → ¬block (level + 1) (root (level + 1) start) ⊆ points)

section
variable {top level start : Nat} {points : Set Nat}

theorem Maximal.root_eq (maximal : Maximal top points level start) {point : Nat}
    (member : point ∈ block level start) : root level point = start :=
  root_eq_of_mem maximal.2.1 member

/-- Every point lies in a maximal block: the largest aligned block around it that fits. -/
theorem Maximal.exists_cover (top : Nat) {point : Nat} (member : point ∈ points) :
    ∃ level, Maximal top points level (root level point) := by
  classical
  let fits : Nat → Prop := fun level => block level (root level point) ⊆ points
  have zeroFits : fits 0 := by
    intro x inside
    have bounds := mem_block.mp inside
    rw [root_zero] at bounds
    exact (show x = point by simp at bounds; omega) ▸ member
  have largest : fits (Nat.findGreatest fits top) := Nat.findGreatest_spec (Nat.zero_le top) zeroFits
  refine ⟨Nat.findGreatest fits top, Nat.findGreatest_le top, root_dvd .., largest, ?_⟩
  intro below larger
  rw [root_root (Nat.le_succ _)] at larger
  exact Nat.findGreatest_is_greatest (Nat.lt_succ_self _) below larger

theorem Maximal.mem_iff (top : Nat) {point : Nat} :
    point ∈ points ↔ ∃ level start, Maximal top points level start ∧ point ∈ block level start := by
  constructor
  · intro member
    obtain ⟨level, maximal⟩ := Maximal.exists_cover top member
    exact ⟨level, _, maximal, mem_block_root level point⟩
  · rintro ⟨level, start, maximal, member⟩
    exact maximal.2.2.1 member

/-- A maximal block is contained in no larger aligned block of points. -/
theorem Maximal.level_max (maximal : Maximal top points level start) {point larger : Nat}
    (member : point ∈ block level start) (within : larger ≤ top)
    (inside : block larger (root larger point) ⊆ points) : larger ≤ level := by
  by_contra above
  have grow : level + 1 ≤ larger := by omega
  have nested := block_root_mono grow point
  rw [← root_root (Nat.le_succ level), maximal.root_eq member] at nested
  exact maximal.2.2.2 (by omega) (nested.trans inside)

/-- Two maximal blocks that share a point are the same block. -/
theorem Maximal.eq_of_mem (maximal : Maximal top points level start) {level' start' : Nat}
    (maximal' : Maximal top points level' start') {point : Nat} (member : point ∈ block level start)
    (member' : point ∈ block level' start') : level = level' ∧ start = start' := by
  have inside : block level (root level point) ⊆ points := maximal.root_eq member ▸ maximal.2.2.1
  have inside' : block level' (root level' point) ⊆ points := maximal'.root_eq member' ▸ maximal'.2.2.1
  have same : level = level' :=
    Nat.le_antisymm (maximal'.level_max member' maximal.1 inside) (maximal.level_max member maximal'.1 inside')
  subst same
  exact ⟨rfl, (maximal.root_eq member).symm.trans (maximal'.root_eq member')⟩

theorem Maximal.disjoint (maximal : Maximal top points level start) {level' start' : Nat}
    (maximal' : Maximal top points level' start') (different : ¬(level = level' ∧ start = start')) :
    Disjoint (block level start) (block level' start') :=
  Set.disjoint_left.mpr fun _ member member' => different (maximal.eq_of_mem maximal' member member')

theorem Maximal.start_mem (maximal : Maximal top points level start) : start ∈ points :=
  maximal.2.2.1 (start_mem_block ..)

/-- Replacing one maximal block by a part of it replaces it by the maximal blocks of that part. -/
theorem Maximal.replace_iff (maximal : Maximal top points level start) {part : Set Nat}
    (within : part ⊆ block level start) {k x : Nat} :
    Maximal top (points \ block level start ∪ part) k x ↔
      Maximal top points k x ∧ ¬(k = level ∧ x = start) ∨ Maximal top part k x := by
  have shrinks : points \ block level start ∪ part ⊆ points :=
    Set.union_subset Set.sdiff_subset (within.trans maximal.2.2.1)
  -- what is left inside the replaced block is the part
  have inner {y : Nat} (member : y ∈ points \ block level start ∪ part) (inBlock : y ∈ block level start) :
      y ∈ part := member.resolve_left fun outside => outside.2 inBlock
  -- no aligned block of remaining points strictly contains the replaced block
  have small {j y : Nat} (bound : j ≤ top) (inBlock : y ∈ block level start)
      (inside : block j (root j y) ⊆ points \ block level start ∪ part) : block j (root j y) ⊆ block level start := by
    have le := maximal.level_max inBlock bound (inside.trans shrinks)
    exact maximal.root_eq inBlock ▸ block_root_mono le y
  constructor
  · rintro ⟨bound, aligned, inside, limit⟩
    by_cases meets : x ∈ block level start
    · have own := small bound meets (by rwa [root_eq_self aligned])
      rw [root_eq_self aligned] at own
      refine Or.inr ⟨bound, aligned, fun y member => inner (inside member) (own member), fun below larger => ?_⟩
      exact limit below (larger.trans Set.subset_union_right)
    · refine Or.inl ⟨⟨bound, aligned, inside.trans shrinks, fun below larger => limit below fun y member => ?_⟩, ?_⟩
      · refine Or.inl ⟨larger member, fun inBlock => ?_⟩
        have same := root_eq_of_mem (root_dvd ..) member
        have le := maximal.level_max inBlock below (same ▸ larger)
        have nested := block_root_mono le y
        rw [same, maximal.root_eq inBlock] at nested
        exact meets (nested (mem_block_root ..))
      · rintro ⟨rfl, rfl⟩
        exact meets (start_mem_block ..)
  · rintro (⟨⟨bound, aligned, inside, limit⟩, different⟩ | ⟨bound, aligned, inside, limit⟩)
    · have apart := Maximal.disjoint ⟨bound, aligned, inside, limit⟩ maximal different
      refine ⟨bound, aligned, fun y member => Or.inl ⟨inside member, ?_⟩, fun below larger => ?_⟩
      · exact Set.disjoint_left.mp apart member
      · exact limit below (larger.trans shrinks)
    · refine ⟨bound, aligned, inside.trans Set.subset_union_right, fun below larger => limit below fun y member => ?_⟩
      have inBlock : x ∈ block level start := within (inside (start_mem_block ..))
      have own := small below inBlock larger
      exact inner (larger member) (own member)

/-- Keeping only the end of a maximal block takes out its beginning. -/
theorem Maximal.keep_end (maximal : Maximal top points level start) {middle : Nat} (above : start ≤ middle)
    (within : middle ≤ start + 2 ^ level) :
    points \ block level start ∪ Set.Ico middle (start + 2 ^ level) = points \ Set.Ico start middle := by
  ext x
  simp only [block, Set.mem_union, Set.mem_sdiff, Set.mem_Ico]
  have own : start ≤ x ∧ x < start + 2 ^ level → x ∈ points := fun member => maximal.2.2.1 member
  constructor
  · rintro (⟨member, outside⟩ | member)
    · exact ⟨member, by omega⟩
    · exact ⟨own (by omega), by omega⟩
  · rintro ⟨member, outside⟩
    by_cases inBlock : start ≤ x ∧ x < start + 2 ^ level
    · exact Or.inr (by omega)
    · exact Or.inl ⟨member, inBlock⟩

/-- The block that a point reaches by merging consists of the point and its lower siblings. -/
theorem Maximal.merged_subset {point stop : Nat} (merged : ∀ j < stop, Maximal top points j (sibling j point)) :
    ∀ j ≤ stop, block j (root j point) ⊆ insert point points := by
  intro j le
  induction j with
  | zero =>
    intro y member
    have bounds := mem_block.mp member
    rw [root_zero] at bounds
    exact Or.inl (by simp at bounds; omega)
  | succ j ih =>
    rw [block_succ]
    exact Set.union_subset (ih (by omega)) ((merged j (by omega)).2.2.1.trans (Set.subset_insert ..))

/-- A maximal block whose enclosing block is completed by a new point is the sibling of the block
around that point. -/
theorem Maximal.eq_sibling {point : Nat} (maximal : Maximal top points level start) (fresh : point ∉ points)
    (below : level < top) (larger : block (level + 1) (root (level + 1) start) ⊆ insert point points) :
    start = sibling level point := by
  have gained : point ∈ block (level + 1) (root (level + 1) start) := by
    by_contra outside
    exact maximal.2.2.2 below fun z member => (larger member).resolve_left fun same => outside (same ▸ member)
  exact sibling_of_mem maximal.2.1 gained fun member => fresh (maximal.2.2.1 member)

/-- Merging stops where the sibling is not maximal: no larger block around the point is complete. -/
theorem Maximal.merge_stops {point stop : Nat} (fresh : point ∉ points)
    (last : stop = top ∨ ¬Maximal top points stop (sibling stop point)) {j : Nat} (above : stop < j)
    (within : j ≤ top) :
    ¬block j (root j point) ⊆ insert point points := by
  intro inside
  have below : stop < top := by omega
  have notMaximal := last.resolve_left (by omega)
  have next : block (stop + 1) (root (stop + 1) point) ⊆ insert point points :=
    (block_root_mono (by omega) point).trans inside
  have other : block stop (sibling stop point) ⊆ points := by
    intro z member
    have outside : z ≠ point := fun same => not_mem_sibling stop point (same ▸ member)
    exact (next (block_succ stop point ▸ Or.inr member)).resolve_left outside
  obtain ⟨m, cover⟩ := Maximal.exists_cover top (other (start_mem_block ..))
  have rootSame := root_eq_self (sibling_dvd stop point)
  have le : stop ≤ m := cover.level_max (mem_block_root ..) below.le (by rwa [rootSame])
  have strict : stop < m := by
    refine lt_of_le_of_ne le fun same => notMaximal ?_
    subst same
    rwa [rootSame] at cover
  -- the maximal block around the sibling would contain the point
  have covers := block_root_mono (show stop + 1 ≤ m by omega) (sibling stop point)
  rw [root_succ_sibling] at covers
  exact fresh (cover.2.2.1 (covers (mem_block_root ..)))

/-- Freeing one point: it merges with its siblings level by level as long as they are
maximal, and the block reached is maximal together with all untouched blocks. -/
theorem Maximal.insert_iff {point stop : Nat} (fresh : point ∉ points) (bound : stop ≤ top)
    (merged : ∀ j < stop, Maximal top points j (sibling j point))
    (last : stop = top ∨ ¬Maximal top points stop (sibling stop point)) {k x : Nat} :
    Maximal top (insert point points) k x ↔
      (k = stop ∧ x = root stop point) ∨
        (Maximal top points k x ∧ ∀ j < stop, ¬(k = j ∧ x = sibling j point)) := by
  have grown := Maximal.merged_subset merged
  constructor
  · rintro ⟨le, aligned, inside, limit⟩
    by_cases own : point ∈ block k x
    · have same := root_eq_of_mem aligned own
      subst same
      have eq : k = stop := by
        by_contra different
        rcases Nat.lt_or_gt_of_ne different with lower | upper
        · exact limit (by omega) (by rw [root_root (Nat.le_succ k)]; exact grown (k + 1) (by omega))
        · exact Maximal.merge_stops fresh last upper le inside
      subst eq
      exact Or.inl ⟨rfl, rfl⟩
    · have old : block k x ⊆ points := fun y member =>
        (inside member).resolve_left fun same => own (same ▸ member)
      refine Or.inr ⟨⟨le, aligned, old, fun below larger => limit below (larger.trans (Set.subset_insert ..))⟩, ?_⟩
      rintro j lower ⟨rfl, rfl⟩
      exact limit (by omega) (by rw [root_succ_sibling]; exact grown (k + 1) (by omega))
  · rintro (⟨rfl, rfl⟩ | ⟨maximal, kept⟩)
    · refine ⟨bound, root_dvd .., grown k le_rfl, fun below larger => ?_⟩
      rw [root_root (Nat.le_succ k)] at larger
      exact Maximal.merge_stops fresh last (Nat.lt_succ_self k) below larger
    · refine ⟨maximal.1, maximal.2.1, maximal.2.2.1.trans (Set.subset_insert ..), fun below larger => ?_⟩
      obtain rfl := maximal.eq_sibling fresh below larger
      have above : stop ≤ k := Nat.le_of_not_lt fun lower => kept k lower ⟨rfl, rfl⟩
      rw [root_succ_sibling] at larger
      exact Maximal.merge_stops fresh last (Nat.lt_succ_of_le above) below larger

/-- No maximal block lies on both sides of a position. -/
def Uncut (top : Nat) (points : Set Nat) (x : Nat) : Prop :=
  ∀ k y, Maximal top points k y → y < x → y + 2 ^ k ≤ x

/-- Behind a maximal block no other one is cut. -/
theorem Uncut.next {x : Nat} (uncut : Uncut top points x) (maximal : Maximal top points level x) :
    Uncut top points (x + 2 ^ level) := by
  intro k y cover early
  rcases Nat.lt_or_ge y x with before | late
  · exact (uncut k y cover before).trans (Nat.le_add_right ..)
  · obtain ⟨rfl, rfl⟩ := maximal.eq_of_mem cover (mem_block.mpr ⟨late, early⟩) (start_mem_block ..)
    exact le_rfl

/-- Greedy tiling of an interval: where no maximal block is cut, the largest aligned
block that fits is maximal. -/
theorem Maximal.of_greedy {lower upper x : Nat} (inside : x ∈ Set.Ico lower upper)
    (uncut : Uncut top (Set.Ico lower upper) x) (bound : level ≤ top)
    (aligned : 2 ^ level ∣ x) (fits : x + 2 ^ level ≤ upper)
    (largest : ∀ k ≤ top, 2 ^ k ∣ x → x + 2 ^ k ≤ upper → k ≤ level) :
    Maximal top (Set.Ico lower upper) level x := by
  obtain ⟨m, cover⟩ := Maximal.exists_cover top inside
  have around := mem_block.mp (mem_block_root m x)
  have starts : root m x = x := by
    by_contra different
    have := uncut m _ cover (by omega)
    omega
  rw [starts] at cover
  have within : block level (root level x) ⊆ Set.Ico lower upper := by
    rw [root_eq_self aligned]
    exact Set.Ico_subset_Ico inside.1 fits
  have le : level ≤ m := cover.level_max (start_mem_block ..) bound within
  have room : x + 2 ^ m ≤ upper := by
    have positive := Nat.two_pow_pos m
    have last : x + 2 ^ m - 1 ∈ Set.Ico lower upper := cover.2.2.1 (mem_block.mpr ⟨by omega, by omega⟩)
    have := last.2
    omega
  have ge : m ≤ level := largest m cover.1 cover.2.1 room
  exact Nat.le_antisymm le ge ▸ cover

end

end Dyadic
