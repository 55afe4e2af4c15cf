import Swink.Testing.Holding

namespace Swink.TestPmapPfa
open PfaImage Mem Pfa Blocks Dyadic
variable {mdsOffset : Nat → Nat} {b : BootParams} {image : PfaImage mdsOffset} {base held : Set Nat} {past : Int}
  {start : Mem} {l : Nat}

/-- The pages that a sweep holds at one address of its array. -/
def pagesAt (addrs : Nat → Nat) (n : Nat) : Set Nat := pagesOf (addrs (n - 1)) (pageSize * n)

/-- A sweep holds the pages of some of its requests and nothing else, each apart from the others. -/
structure Outstanding (base held : Set Nat) (addrs : Nat → Nat) (counts : List Nat) : Prop where
  held_eq : ∀ q, q ∈ held ↔ q ∈ base ∨ ∃ n ∈ counts, q ∈ pagesAt addrs n
  fresh : ∀ n ∈ counts, Disjoint (pagesAt addrs n) base
  apart : ∀ n ∈ counts, ∀ m ∈ counts, n ≠ m → Disjoint (pagesAt addrs n) (pagesAt addrs m)
  small : ∀ n ∈ counts, addrs (n - 1) < 2 ^ 64

theorem Outstanding.begin (base : Set Nat) (addrs : Nat → Nat) : Outstanding base base addrs [] :=
  ⟨by simp, by simp, by simp, by simp⟩

theorem Outstanding.perm {addrs : Nat → Nat} {counts counts' : List Nat} (out : Outstanding base held addrs counts)
    (perm : counts.Perm counts') : Outstanding base held addrs counts' := by
  refine ⟨fun q => (out.held_eq q).trans ?_, fun n member => out.fresh n (perm.mem_iff.mpr member),
    fun n member m member' => out.apart n (perm.mem_iff.mpr member) m (perm.mem_iff.mpr member'),
    fun n member => out.small n (perm.mem_iff.mpr member)⟩
  simp only [perm.mem_iff]

/-- A new address goes to its own place in the array. -/
theorem Outstanding.cons {addrs : Nat → Nat} {counts : List Nat} {n addr : Nat}
    (out : Outstanding base held addrs counts) (positive : ∀ m ∈ n :: counts, 0 < m) (new : n ∉ counts)
    (free : Disjoint (pagesOf addr (pageSize * n)) held) (small : addr < 2 ^ 64) :
    Outstanding base (held ∪ pagesOf addr (pageSize * n)) (Function.update addrs (n - 1) addr) (n :: counts) := by
  have here : pagesAt (Function.update addrs (n - 1) addr) n = pagesOf addr (pageSize * n) := by
    rw [pagesAt, Function.update_self]
  have elsewhere {m : Nat} (member : m ∈ counts) : Function.update addrs (n - 1) addr (m - 1) = addrs (m - 1) := by
    refine Function.update_of_ne (fun same => new ?_) ..
    have := positive m (List.mem_cons_of_mem _ member)
    have := positive n (List.mem_cons_self ..)
    rwa [show n = m by omega]
  have there {m : Nat} (member : m ∈ counts) : pagesAt (Function.update addrs (n - 1) addr) m = pagesAt addrs m := by
    rw [pagesAt, elsewhere member, pagesAt]
  have clear {m : Nat} (member : m ∈ counts) : Disjoint (pagesOf addr (pageSize * n)) (pagesAt addrs m) :=
    free.mono_right fun q inside => (out.held_eq q).mpr (Or.inr ⟨m, member, inside⟩)
  refine ⟨fun q => ?_, fun m member => ?_, fun m member m' member' different => ?_, fun m member => ?_⟩
  · rw [Set.mem_union, out.held_eq, or_assoc]
    refine or_congr_right ⟨?_, ?_⟩
    · rintro (⟨m, member, inside⟩ | inside)
      · exact ⟨m, List.mem_cons_of_mem _ member, by rwa [there member]⟩
      · exact ⟨n, List.mem_cons_self .., by rwa [here]⟩
    · rintro ⟨m, member, inside⟩
      rcases List.mem_cons.mp member with rfl | member
      · exact Or.inr (here ▸ inside)
      · rw [there member] at inside
        exact Or.inl ⟨m, member, inside⟩
  · rcases List.mem_cons.mp member with rfl | member
    · rw [here]
      exact free.mono_right fun q inside => (out.held_eq q).mpr (Or.inl inside)
    · rw [there member]
      exact out.fresh m member
  · rcases List.mem_cons.mp member with rfl | old
    · rcases List.mem_cons.mp member' with rfl | old'
      · exact absurd rfl different
      · rw [here, there old']
        exact clear old'
    · rcases List.mem_cons.mp member' with rfl | old'
      · rw [here, there old]
        exact (clear old).symm
      · rw [there old, there old']
        exact out.apart m old m' old' different
  · rcases List.mem_cons.mp member with rfl | member
    · rwa [Function.update_self]
    · rw [elsewhere member]
      exact out.small m member

/-- Giving the pages of one request back leaves those of the others. -/
theorem Outstanding.tail {addrs : Nat → Nat} {counts : List Nat} {n : Nat}
    (out : Outstanding base held addrs (n :: counts)) (new : n ∉ counts) :
    Outstanding base (held \ pagesAt addrs n) addrs counts := by
  have first : n ∈ n :: counts := List.mem_cons_self ..
  have rest {m : Nat} (member : m ∈ counts) : m ∈ n :: counts := List.mem_cons_of_mem _ member
  have differ {m : Nat} (member : m ∈ counts) : m ≠ n := fun same => new (same ▸ member)
  refine ⟨fun q => ?_, fun m member => out.fresh m (rest member), fun m member m' member' =>
    out.apart m (rest member) m' (rest member'), fun m member => out.small m (rest member)⟩
  rw [Set.mem_sdiff, out.held_eq]
  constructor
  · rintro ⟨inBase | ⟨m, member, inside⟩, outside⟩
    · exact Or.inl inBase
    · rcases List.mem_cons.mp member with rfl | member
      · exact absurd inside outside
      · exact Or.inr ⟨m, member, inside⟩
  · rintro (inBase | ⟨m, member, inside⟩)
    · exact ⟨Or.inl inBase, fun given => Set.disjoint_left.mp (out.fresh n first) given inBase⟩
    · exact ⟨Or.inr ⟨m, rest member, inside⟩, fun given =>
        Set.disjoint_left.mp (out.apart n first m (rest member) (differ member).symm) given inside⟩

/-- With as many blocks of the top level free as there are requests, all of them succeed. -/
theorem allocLoop_spec (placed : b.Placed mdsOffset) (above : AboveMarks b) (pos : 0 ≤ past) (spare : Nat) {counts : List Nat} :
    ∀ {taken : List Nat} {addrs : Nat → Nat} {held : Set Nat} {image : PfaImage mdsOffset},
      (∀ n ∈ counts ++ taken, 0 < n ∧ n < 32) → (counts ++ taken).Nodup →
      Holding b start base l past held image → Outstanding base held addrs taken →
      Room (b.initialFree \ held) (counts.length + spare) →
      ∃ addrs' held' image', allocLoop counts addrs image = .ok (addrs', image') ∧
        Holding b start base l past held' image' ∧ Outstanding base held' addrs' (counts ++ taken) := by
  induction counts with
  | nil => exact fun _ _ holding out _ => ⟨_, _, _, rfl, holding, out⟩
  | cons n counts ih =>
    intro taken addrs held image range nodup holding out room
    have perm : (counts ++ n :: taken).Perm (n :: (counts ++ taken)) := List.perm_middle
    have bound := range n (by simp)
    have new : n ∉ taken := fun member => (List.nodup_cons.mp nodup).1 (List.mem_append_right _ member)
    obtain ⟨w, mirrors⟩ := holding.mirrors
    have size : pageSize * n ≤ 131072 := by
      rw [pageSize_eq]
      omega
    rw [List.length_cons, Nat.add_right_comm] at room
    obtain ⟨addr, s, run, -, pages, small, ready, room⟩ := mirrors.ready.allocRoom room size pfaMetadata
    obtain ⟨after, run', holding, -⟩ := holding.request placed above pos mirrors run pages ready
    rw [Set.sdiff_sdiff] at room
    obtain ⟨addrs', held', image', rest, holding, out⟩ := ih (fun m member => range m (perm.mem_iff.mp member))
      (perm.nodup_iff.mpr nodup) holding
      (out.cons (fun m member => (range m (by
          rcases List.mem_cons.mp member with rfl | member
          · simp
          · simp [member])).1) new
        (Set.disjoint_left.mpr fun q member taken => (pages member).2 taken) small) room
    refine ⟨addrs', held', image', ?_, holding, out.perm perm⟩
    rw [allocLoop, run', ok_bind]
    exact rest

/-- All requests can be given back in any order. -/
theorem freeLoop_spec (placed : b.Placed mdsOffset) (above : AboveMarks b) (pos : 0 ≤ past) {addrs : Nat → Nat}
    {counts : List Nat} : ∀ {held : Set Nat} {image : PfaImage mdsOffset}, (∀ n ∈ counts, n < 32) → counts.Nodup →
      Holding b start base l past held image → Outstanding base held addrs counts →
      ∃ image', freeLoop addrs counts image = .ok image' ∧ Holding b start base l past base image' := by
  induction counts with
  | nil =>
    intro held image _ _ holding out
    have same : held = base := Set.ext fun q => (out.held_eq q).trans (by simp)
    exact ⟨image, rfl, same ▸ holding⟩
  | cons n counts ih =>
    intro held image range nodup holding out
    have first : n ∈ n :: counts := List.mem_cons_self ..
    have bound := range n first
    have new := (List.nodup_cons.mp nodup).1
    obtain ⟨after, run, holding, -⟩ := holding.release placed above pos (out.small n first)
      (show pageSize * n < 2 ^ 64 by rw [pageSize_eq]; omega)
      (fun q member => (out.held_eq q).mpr (Or.inr ⟨n, first, member⟩)) (out.fresh n first)
    obtain ⟨image', rest, holding⟩ := ih (fun m member => range m (List.mem_cons_of_mem _ member))
      (List.nodup_cons.mp nodup).2 holding (out.tail new)
    refine ⟨image', ?_, holding⟩
    rw [freeLoop, run, ok_bind]
    exact rest

theorem mem_ascending {n : Nat} : n ∈ ascending ↔ 0 < n ∧ n < 32 := by
  rw [ascending, List.mem_range'_1]
  omega

theorem ascending_nodup : ascending.Nodup := List.nodup_range' ..

/-- Taking all numbers of pages in one order and giving them back in another. -/
theorem sweep_spec (placed : b.Placed mdsOffset) (above : AboveMarks b) (pos : 0 ≤ past)
    (holding : Holding b start base l past base image) (room : Room (b.initialFree \ base) 31) (addrs : Nat → Nat)
    {gets gives : List Nat} (getsAll : gets.Perm ascending) (givesAll : gives.Perm ascending) :
    ∃ addrs' between image', allocLoop gets addrs image = .ok (addrs', between) ∧
      freeLoop addrs' gives between = .ok image' ∧ Holding b start base l past base image' := by
  have count : gets.length + 0 = 31 := getsAll.length_eq
  rw [← count] at room
  have all : (gets ++ []).Perm ascending := by rwa [List.append_nil]
  obtain ⟨addrs', held, between, run, holding, out⟩ := allocLoop_spec placed above pos 0
    (fun n member => mem_ascending.mp (all.mem_iff.mp member)) (all.nodup_iff.mpr ascending_nodup) holding
    (.begin base addrs) room
  rw [List.append_nil] at out
  obtain ⟨image', run', holding⟩ := freeLoop_spec placed above pos
    (fun n member => (mem_ascending.mp (givesAll.mem_iff.mp member)).2) (givesAll.nodup_iff.mpr ascending_nodup) holding
    (out.perm (getsAll.trans givesAll.symm))
  exact ⟨addrs', between, image', run, run', holding⟩

/-- Between tests: the allocator has the free pages it had when the suite was set up. -/
structure Settled (b : BootParams) (start : Mem) (base : Set Nat) (l : Nat) (t : Statics mdsOffset) : Prop where
  holding : Holding b start base l t.oomSweepRunCnt base t.image
  original : t.pfaOriginalState = (List.range buddyLevels).map (blockCount (b.initialFree \ base))
  pos : 0 ≤ t.oomSweepRunCnt

variable {rounds : Nat} {t : Statics mdsOffset}

/-- A test that is back where it started finds the state it expects. -/
theorem compareState_spec (placed : b.Placed mdsOffset) (enough : 2 ^ 20 < rounds) (settled : Settled b start base l t) :
    compareState rounds t = .ok (0, t) := by
  obtain ⟨w, mirrors⟩ := settled.holding.mirrors
  rw [compareState, mirrors.getState placed enough, ok_bind]
  exact if_neg (not_not.mpr settled.original.symm)

theorem Settled.withImage (settled : Settled b start base l t)
    (holding : Holding b start base l t.oomSweepRunCnt base image) : Settled b start base l { t with image } :=
  ⟨holding, settled.original, settled.pos⟩

theorem simpleSweepLoop_spec (placed : b.Placed mdsOffset) (above : AboveMarks b) (enough : 2 ^ 20 < rounds)
    {counts : List Nat} (range : ∀ n ∈ counts, n < 32) (room : Room (b.initialFree \ base) 1) :
    ∀ {t : Statics mdsOffset}, Settled b start base l t →
      ∃ t', simpleSweepLoop rounds counts t = .ok (0, t') ∧ Settled b start base l t' ∧
        t'.oomSweepRunCnt = t.oomSweepRunCnt := by
  induction counts with
  | nil => exact fun settled => ⟨_, rfl, settled, rfl⟩
  | cons n counts ih =>
    intro t settled
    have bound := range n (List.mem_cons_self ..)
    have size : pageSize * n ≤ 131072 := by
      rw [pageSize_eq]
      omega
    obtain ⟨w, mirrors⟩ := settled.holding.mirrors
    obtain ⟨addr, s, run, -, pages, small, ready, -⟩ := mirrors.ready.allocRoom room size pfaMetadata
    obtain ⟨taken, run', holding, -⟩ := settled.holding.request placed above settled.pos mirrors run pages ready
    have fresh : Disjoint (pagesOf addr (pageSize * n)) base :=
      Set.disjoint_left.mpr fun q member taken => (pages member).2 taken
    obtain ⟨given, run'', holding, -⟩ := holding.release placed above settled.pos small (by omega)
      Set.subset_union_right fresh
    rw [Set.union_sdiff_right, fresh.symm.sdiff_eq_left] at holding
    have settled' := settled.withImage holding
    obtain ⟨t', rest, after, same⟩ := ih (fun m member => range m (List.mem_cons_of_mem _ member)) settled'
    refine ⟨t', ?_, after, same⟩
    rw [simpleSweepLoop, run', ok_bind]
    dsimp only
    rw [run'', ok_bind, compareState_spec placed enough settled', ok_bind]
    exact rest

theorem simpleSweep_spec (placed : b.Placed mdsOffset) (above : AboveMarks b) (enough : 2 ^ 20 < rounds)
    (room : Room (b.initialFree \ base) 31) (settled : Settled b start base l t) :
    ∃ t', simpleSweep rounds t = .ok (0, t') ∧ Settled b start base l t' ∧ t'.oomSweepRunCnt = t.oomSweepRunCnt :=
  simpleSweepLoop_spec placed above enough (fun _ member => (mem_ascending.mp member).2) (room.fewer (by omega)) settled

theorem multiSweep_spec (placed : b.Placed mdsOffset) (above : AboveMarks b) (enough : 2 ^ 20 < rounds)
    (room : Room (b.initialFree \ base) 31) (addrs : Nat → Nat) (settled : Settled b start base l t) :
    ∃ t', multiSweep rounds addrs t = .ok (0, t') ∧ Settled b start base l t' ∧ t'.oomSweepRunCnt = t.oomSweepRunCnt := by
  have down : descending.Perm ascending := List.reverse_perm _
  obtain ⟨addrs₁, _, _, get₁, give₁, holding⟩ :=
    sweep_spec placed above settled.pos settled.holding room addrs (.refl _) down
  obtain ⟨addrs₂, _, _, get₂, give₂, holding⟩ :=
    sweep_spec placed above settled.pos holding room addrs₁ (.refl _) (.refl _)
  obtain ⟨addrs₃, _, _, get₃, give₃, holding⟩ :=
    sweep_spec placed above settled.pos holding room addrs₂ down (.refl _)
  have settled' := settled.withImage holding
  refine ⟨_, ?_, settled', rfl⟩
  rw [multiSweep, get₁, ok_bind]
  dsimp only
  rw [give₁, ok_bind, get₂, ok_bind]
  dsimp only
  rw [give₂, ok_bind, get₃, ok_bind]
  dsimp only
  rw [give₃, ok_bind]
  exact compareState_spec placed enough settled'

end Swink.TestPmapPfa
