import Mathlib.Data.Finset.Card

namespace Swink.Drain

universe u v w x
variable {ε : Type u} {σ : Type v} {ρ : Type w}

/-- A number of calls in a row, with their results in order. -/
def repeatCall (call : σ → Except ε (ρ × σ)) : Nat → σ → Except ε (List ρ × σ)
  | 0, s => .ok ([], s)
  | count + 1, s => do
    let (result, s) ← call s
    let (rest, s) ← repeatCall call count s
    .ok (result :: rest, s)

section
variable {α : Type x} [DecidableEq α] (pool : Finset α → σ → Prop)

/-- A call that takes some element out of every nonempty pool takes each element once. -/
theorem repeatCall_drains (name : α → ρ) {call : σ → Except ε (ρ × σ)}
    (takes : ∀ {elems s}, pool elems s → elems.Nonempty →
      ∃ a ∈ elems, ∃ after, call s = .ok (name a, after) ∧ pool (elems.erase a) after)
    {elems : Finset α} {s : σ} (start : pool elems s) :
    ∃ (taken : List α) (drained : σ), taken.Nodup ∧ (∀ a, a ∈ taken ↔ a ∈ elems) ∧
      repeatCall call taken.length s = .ok (taken.map name, drained) ∧ pool ∅ drained := by
  induction elems using Finset.strongInduction generalizing s with
  | H elems ih =>
    rcases elems.eq_empty_or_nonempty with rfl | nonempty
    · exact ⟨[], s, .nil, by simp, rfl, start⟩
    · obtain ⟨a, member, after, run, smaller⟩ := takes start nonempty
      obtain ⟨taken, drained, nodup, exact, rest, empty⟩ := ih _ (Finset.erase_ssubset member) smaller
      refine ⟨a :: taken, drained, ?_, fun b => ?_, ?_, empty⟩
      · exact List.nodup_cons.mpr ⟨fun again => Finset.notMem_erase a elems ((exact a).mp again), nodup⟩
      · rw [List.mem_cons, exact, Finset.mem_erase]
        by_cases same : b = a
        · simp [same, member]
        · simp [same]
      · rw [List.length_cons, repeatCall, run]
        simp only [bind, Except.bind, rest, List.map_cons]

/-- A call that puts any missing element back fills the pool again, in whatever order. -/
theorem foldlM_refills {call : σ → α → Except ε σ} {usable : α → Prop}
    (returns : ∀ {elems s} a, pool elems s → usable a → a ∉ elems →
      ∃ after, call s a = .ok after ∧ pool (insert a elems) after)
    {order : List α} (nodup : order.Nodup) (known : ∀ a ∈ order, usable a) {elems : Finset α} {s : σ}
    (start : pool elems s) (missing : ∀ a ∈ order, a ∉ elems) :
    ∃ after, order.foldlM call s = .ok after ∧ pool (elems ∪ order.toFinset) after := by
  induction order generalizing elems s with
  | nil => exact ⟨s, rfl, by simpa using start⟩
  | cons a order ih =>
    obtain ⟨fresh, nodup⟩ := List.nodup_cons.mp nodup
    obtain ⟨next, run, larger⟩ := returns a start (known a (.head _)) (missing a (.head _))
    obtain ⟨after, rest, filled⟩ := ih nodup (fun b later => known b (.tail _ later)) larger fun b later inside => by
      rcases Finset.mem_insert.mp inside with rfl | old
      · exact fresh later
      · exact missing b (.tail _ later) old
    refine ⟨after, ?_, ?_⟩
    · rw [List.foldlM_cons, run]
      exact rest
    · rwa [List.toFinset_cons, Finset.union_insert, ← Finset.insert_union]

end

end Swink.Drain
