import Swink.Lib.MaximalBlocks
import Mathlib.Data.List.Nodup
import Mathlib.Data.List.Perm.Subperm

namespace Dyadic

/-- A list of blocks (level and start) that follow each other from `lower` to `upper`,
each aligned to its size and of level at most `top`. -/
def Tiles (top : Nat) : List (Nat × Nat) → Nat → Nat → Prop
  | [], lower, upper => lower = upper
  | (level, start) :: rest, lower, upper =>
    level ≤ top ∧ start = lower ∧ 2 ^ level ∣ start ∧ start + 2 ^ level ≤ upper ∧
      Tiles top rest (start + 2 ^ level) upper

/-- No level up to `top` that alignment and remaining length allow is above the block's own. -/
def LargestFit (top upper : Nat) (tile : Nat × Nat) : Prop :=
  ∀ level ≤ top, 2 ^ level ∣ tile.2 → tile.2 + 2 ^ level ≤ upper → level ≤ tile.1

/-- Aligned blocks of level at most `top` whose union is the set of points, in any order and
possibly overlapping. -/
def Covers (top : Nat) (tiles : List (Nat × Nat)) (points : Set Nat) : Prop :=
  (∀ tile ∈ tiles, tile.1 ≤ top ∧ 2 ^ tile.1 ∣ tile.2 ∧ block tile.1 tile.2 ⊆ points) ∧
    ∀ x ∈ points, ∃ tile ∈ tiles, x ∈ block tile.1 tile.2

section
variable {top lower upper : Nat} {tiles : List (Nat × Nat)}

theorem Tiles.lower_le (tiling : Tiles top tiles lower upper) {tile : Nat × Nat} (member : tile ∈ tiles) :
    lower ≤ tile.2 := by
  induction tiles generalizing lower with
  | nil => simp at member
  | cons first rest ih =>
    obtain ⟨_, start, _, _, later⟩ := tiling
    rcases List.mem_cons.mp member with rfl | old
    · exact start.ge
    · have := ih later old
      omega

/-- Every point of the interval lies in one of the tiles. -/
theorem Tiles.exists_mem (tiling : Tiles top tiles lower upper) {x : Nat} (inside : x ∈ Set.Ico lower upper) :
    ∃ tile ∈ tiles, x ∈ block tile.1 tile.2 := by
  induction tiles generalizing lower with
  | nil =>
    have same : lower = upper := tiling
    have := inside.1.trans_lt inside.2
    omega
  | cons first rest ih =>
    obtain ⟨_, rfl, _, _, later⟩ := tiling
    rcases Nat.lt_or_ge x (first.2 + 2 ^ first.1) with here | behind
    · exact ⟨first, List.mem_cons_self .., mem_block.mpr ⟨inside.1, here⟩⟩
    · obtain ⟨tile, member, covers⟩ := ih later ⟨behind, inside.2⟩
      exact ⟨tile, List.mem_cons_of_mem _ member, covers⟩

theorem Tiles.nodup (tiling : Tiles top tiles lower upper) : tiles.Nodup := by
  induction tiles generalizing lower with
  | nil => exact List.nodup_nil
  | cons first rest ih =>
    obtain ⟨_, _, _, _, later⟩ := tiling
    refine List.nodup_cons.mpr ⟨fun member => ?_, ih later⟩
    have behind := later.lower_le member
    have := Nat.two_pow_pos first.1
    omega

/-- Behind a position that cuts no maximal block, a tiling by largest fits consists of maximal blocks. -/
theorem Tiles.maximal {position : Nat} (tiling : Tiles top tiles position upper) (above : lower ≤ position)
    (uncut : Uncut top (Set.Ico lower upper) position) (greedy : ∀ tile ∈ tiles, LargestFit top upper tile) :
    ∀ tile ∈ tiles, Maximal top (Set.Ico lower upper) tile.1 tile.2 := by
  induction tiles generalizing position with
  | nil => simp
  | cons first rest ih =>
    obtain ⟨bound, rfl, aligned, fits, later⟩ := tiling
    have positive := Nat.two_pow_pos first.1
    have maximal : Maximal top (Set.Ico lower upper) first.1 first.2 :=
      .of_greedy ⟨above, by omega⟩ uncut bound aligned fits (greedy first (List.mem_cons_self ..))
    intro tile member
    rcases List.mem_cons.mp member with rfl | old
    · exact maximal
    · exact ih later (by omega) (uncut.next maximal) (fun tile inside => greedy tile (.tail _ inside)) tile old

/-- Two halves of one block are not both maximal. -/
theorem Maximal.not_sibling {points : Set Nat} {level start : Nat} (maximal : Maximal top points level start)
    (below : level < top) : ¬Maximal top points level (sibling level start) := by
  intro other
  refine maximal.2.2.2 below ?_
  rw [block_succ, root_eq_self maximal.2.1]
  exact Set.union_subset maximal.2.2.1 other.2.2.1

/-- A covering block that meets the start of a maximal block lies inside it. -/
theorem Covers.exists_within {points : Set Nat} {level start : Nat} (covers : Covers top tiles points)
    (maximal : Maximal top points level start) :
    ∃ tile ∈ tiles, block tile.1 tile.2 ⊆ block level start := by
  obtain ⟨tile, member, inside⟩ := covers.2 start maximal.start_mem
  obtain ⟨bound, aligned, within⟩ := covers.1 tile member
  have same := root_eq_of_mem aligned inside
  have le : tile.1 ≤ level := maximal.level_max (start_mem_block ..) bound (same ▸ within)
  refine ⟨tile, member, ?_⟩
  have nested := block_root_mono le start
  rwa [same, root_eq_self maximal.2.1] at nested

/-- Distinct maximal blocks are no more than the blocks of any cover: each holds one of its own. -/
theorem Covers.length_le {points : Set Nat} {cover : List (Nat × Nat)} (covers : Covers top cover points)
    (nodup : tiles.Nodup) (maximal : ∀ tile ∈ tiles, Maximal top points tile.1 tile.2) :
    tiles.length ≤ cover.length := by
  have exists_part (tile : Nat × Nat) : ∃ part : Nat × Nat,
      tile ∈ tiles → part ∈ cover ∧ block part.1 part.2 ⊆ block tile.1 tile.2 := by
    by_cases member : tile ∈ tiles
    · obtain ⟨part, inCover, within⟩ := covers.exists_within (maximal tile member)
      exact ⟨part, fun _ => ⟨inCover, within⟩⟩
    · exact ⟨tile, fun inside => absurd inside member⟩
  choose part spec using exists_part
  have distinct : (tiles.map part).Nodup := by
    refine nodup.map_on fun one inTiles other otherIn same => ?_
    have here := (spec one inTiles).2 (start_mem_block ..)
    have there := (spec other otherIn).2 (start_mem_block ..)
    rw [← same] at there
    exact Prod.ext_iff.mpr ((maximal one inTiles).eq_of_mem (maximal other otherIn) here there)
  have subset : tiles.map part ⊆ cover := by
    intro image member
    obtain ⟨tile, inTiles, rfl⟩ := List.mem_map.mp member
    exact (spec tile inTiles).1
  have le := (distinct.subperm subset).length_le
  rwa [List.length_map] at le

/-- A tiling of an interval by largest fits from its lower end consists of maximal blocks. -/
theorem Tiles.maximal_Ico (tiling : Tiles top tiles lower upper)
    (greedy : ∀ tile ∈ tiles, LargestFit top upper tile) {tile : Nat × Nat} (member : tile ∈ tiles) :
    Maximal top (Set.Ico lower upper) tile.1 tile.2 := by
  refine tiling.maximal le_rfl (fun k y cover early => ?_) greedy tile member
  have := cover.start_mem.1
  omega

/-- It consists of all of them. -/
theorem Tiles.mem_iff (tiling : Tiles top tiles lower upper)
    (greedy : ∀ tile ∈ tiles, LargestFit top upper tile) {level start : Nat} :
    (level, start) ∈ tiles ↔ Maximal top (Set.Ico lower upper) level start := by
  constructor
  · exact fun member => tiling.maximal_Ico greedy member
  · intro maximal
    obtain ⟨tile, member, covers⟩ := tiling.exists_mem maximal.start_mem
    obtain ⟨rfl, rfl⟩ := maximal.eq_of_mem (tiling.maximal_Ico greedy member) (start_mem_block ..) covers
    exact member

/-- A tiling by largest fits holds no two halves of one block below the top level. -/
theorem Tiles.no_siblings (tiling : Tiles top tiles lower upper)
    (greedy : ∀ tile ∈ tiles, LargestFit top upper tile) {level start : Nat} (member : (level, start) ∈ tiles)
    (below : level < top) : (level, sibling level start) ∉ tiles :=
  fun other => (tiling.maximal_Ico greedy member).not_sibling below (tiling.maximal_Ico greedy other)

/-- A tiling by largest fits is a shortest cover of its interval. -/
theorem Tiles.length_le (tiling : Tiles top tiles lower upper)
    (greedy : ∀ tile ∈ tiles, LargestFit top upper tile) {cover : List (Nat × Nat)}
    (covers : Covers top cover (Set.Ico lower upper)) : tiles.length ≤ cover.length :=
  covers.length_le tiling.nodup fun _ member => tiling.maximal_Ico greedy member

end

end Dyadic
