import Mathlib.Data.List.Basic
import Swink.Vc.Calls

namespace Swink.Mailbox
variable {depth : Nat} {s s' : Mailbox} {message : BitVec 64} {tx word : BitVec 32} {event : MailboxEvent}
  {events : List MailboxEvent}

/-- The reply to the current call is in the mailbox, or has been read. -/
def Due (message : BitVec 64) (s : Mailbox) : Prop :=
  (∃ tx, s.pc.awaiting = some (message, tx) ∧ tx ∈ s.replies) ∨ s.pc = .response message ∨
    ∃ result, s.pc = .returned message result

/-- How many accesses a call still makes that is due: two for each reply before its own, and the last ones. -/
def patience (s : Mailbox) : Nat :=
  match s.pc with
  | .waitReply _ tx => 2 * s.replies.idxOf tx + 3
  | .read _ tx => 2 * s.replies.idxOf tx + 2
  | .response _ => 1
  | _ => 0

theorem Due.access (due : Due message s) (step : s.access depth = some s') : Due message s' ∧ s'.patience + 1 ≤ s.patience := by
  rcases due with ⟨tx, awaits, replied⟩ | at_ | ⟨result, at_⟩
  · cases at_ : s.pc with
    | waitReply message' tx' =>
      rw [at_] at awaits
      cases awaits
      simp only [Mailbox.access, at_] at step
      rw [if_neg fun empty => List.ne_nil_of_mem replied (status_empty.mp empty)] at step
      cases step
      refine ⟨Or.inl ⟨tx, rfl, replied⟩, ?_⟩
      simp only [patience, at_]
      omega
    | read message' tx' =>
      rw [at_] at awaits
      cases awaits
      simp only [Mailbox.access, at_] at step
      split at step
      · cases step
      · next word replies shape =>
        split at step <;> cases step
        · refine ⟨Or.inr (Or.inl rfl), ?_⟩
          simp only [patience, at_]
          omega
        · next other =>
          rw [shape] at replied
          refine ⟨Or.inl ⟨tx, rfl, (List.mem_cons.mp replied).resolve_left other⟩, ?_⟩
          simp only [patience, at_, shape]
          rw [List.idxOf_cons_ne _ (Ne.symm other)]
          omega
    | _ =>
      rw [at_] at awaits
      cases awaits
  · simp only [Mailbox.access, at_] at step
    cases step
    refine ⟨Or.inr (Or.inr ⟨_, rfl⟩), ?_⟩
    simp [patience, at_]
  · simp only [Mailbox.access, at_] at step
    cases step

/-- More replies do not come before those that are there. -/
theorem Due.replied (due : Due message s) (s' : Mailbox) (samePc : s'.pc = s.pc) {new : List (BitVec 32)} (shape : s'.replies = s.replies ++ new) :
    Due message s' ∧ s'.patience = s.patience := by
  rcases due with ⟨tx, awaits, replied⟩ | at_ | ⟨result, at_⟩
  · refine ⟨Or.inl ⟨tx, samePc ▸ awaits, shape ▸ List.mem_append_left _ replied⟩, ?_⟩
    cases at_ : s.pc with
    | waitReply message' tx' =>
      rw [at_] at awaits
      cases awaits
      simp only [patience, samePc, at_, shape, List.idxOf_append_of_mem replied]
    | read message' tx' =>
      rw [at_] at awaits
      cases awaits
      simp only [patience, samePc, at_, shape, List.idxOf_append_of_mem replied]
    | _ =>
      rw [at_] at awaits
      cases awaits
  · exact ⟨Or.inr (Or.inl (samePc.trans at_)), by simp only [patience, samePc, at_]⟩
  · exact ⟨Or.inr (Or.inr ⟨result, samePc.trans at_⟩), by simp only [patience, samePc, at_]⟩

theorem Due.step (due : Due message s) (within : event.within = true) (step : s.next depth event = some s') :
    Due message s' ∧ s'.patience + (if event.isAccess then 1 else 0) ≤ s.patience := by
  cases event with
  | access => exact due.access step
  | take =>
    rw [next] at step
    split at step <;> cases step
    obtain ⟨due, same⟩ := due.replied { s with requests := _, working := _ } rfl (List.append_nil _).symm
    exact ⟨due, same.le⟩
  | answer i content =>
    rw [next] at step
    split at step <;> cases step
    obtain ⟨due, same⟩ := due.replied
      { s with working := _, replies := s.replies ++ [_], messages := _ } rfl rfl
    exact ⟨due, same.le⟩
  | stray word =>
    rw [next] at step
    split at step <;> cases step
    obtain ⟨due, same⟩ := due.replied { s with replies := s.replies ++ [word] } rfl rfl
    exact ⟨due, same.le⟩
  | compose message content => cases within
  | call message => cases within
  | interrupt => cases within

theorem Due.run (due : Due message s) (within : ∀ event ∈ events, event.within = true) (ran : run depth s events = some s') :
    Due message s' ∧ s'.patience + events.countP MailboxEvent.isAccess ≤ s.patience := by
  induction events using List.reverseRec generalizing s' with
  | nil =>
    cases ran
    exact ⟨due, le_rfl⟩
  | append_singleton events event ih =>
    obtain ⟨mid, before, last⟩ := run_concat.mp ran
    obtain ⟨dueMid, spent⟩ := ih (fun e member => within e (List.mem_append_left _ member)) before
    obtain ⟨due, spent'⟩ := dueMid.step (within event (by simp)) last
    refine ⟨due, ?_⟩
    rw [List.countP_append, List.countP_singleton]
    omega

/-- No access of an orderly call is refused. -/
theorem Orderly.accepts (orderly : Orderly depth s) (pending : s.pc.pending = some message) (sound : s.pc ≠ .failed message) :
    (s.access depth).isSome := by
  unfold Mailbox.access
  split
  · split <;> rfl
  · split <;> rfl
  · split <;> rfl
  · next message' tx at_ =>
    obtain ⟨word, replies, shape⟩ := List.exists_cons_of_ne_nil (orderly.reading _ _ at_)
    rw [shape]
    dsimp only
    split <;> rfl
  · rfl
  · next at_ =>
    rw [at_] at pending
    cases pending
  · next at_ =>
    rw [at_] at pending
    cases pending
  · next at_ =>
    rw [at_] at pending sound
    cases pending
    exact absurd rfl sound

theorem patience_le (due : Due message s) : s.patience ≤ 2 * s.replies.length + 1 := by
  rcases due with ⟨tx, awaits, replied⟩ | at_ | ⟨result, at_⟩
  · have bound := List.idxOf_lt_length_of_mem replied
    cases at_ : s.pc with
    | waitReply message' tx' =>
      rw [at_] at awaits
      cases awaits
      simp only [patience, at_]
      omega
    | read message' tx' =>
      rw [at_] at awaits
      cases awaits
      simp only [patience, at_]
      omega
    | _ =>
      rw [at_] at awaits
      cases awaits
  · simp [patience, at_]
  · simp [patience, at_]

/-- In every run the CPU never writes to a full mailbox or reads an empty one, no request or reply of
the current call is lost, and once its reply is there the call returns in a bounded number of
accesses, whatever the VideoCore does meanwhile. -/
theorem call_makes_progress {start : Mailbox} {before : List MailboxEvent} (starts : start.Starts)
    (reached : run depth start before = some s) :
    s.requests.length ≤ depth ∧
    (∀ message, s.pc.pending = some message → s.pc ≠ .failed message → (s.access depth).isSome) ∧
    (∀ message tx, s.pc.awaiting = some (message, tx) →
      tx ∈ s.requests ∨ (∃ i : Nat, s.working[i]? = some tx) ∨ tx ∈ s.replies) ∧
    ∀ message tx, s.pc.awaiting = some (message, tx) → tx ∈ s.replies →
      ∀ events s', (∀ event ∈ events, event.within = true) → run depth s events = some s' →
        events.countP MailboxEvent.isAccess ≤ 2 * s.replies.length + 1 ∧
        ((∃ result, s'.pc = .returned message result) ∨ (s'.access depth).isSome) := by
  have orderly : Orderly depth s := starts.orderly.run reached
  refine ⟨orderly.space, fun message pending sound => orderly.accepts pending sound, fun message tx awaits => ?_,
    fun message tx awaits replied events s' within ran => ?_⟩
  · obtain ⟨-, -, count⟩ := orderly.once message tx awaits
    have member : tx ∈ s.flight := List.count_pos_iff.mp (by omega)
    simp only [flight, List.mem_append] at member
    rcases member with (waits | taken) | replied
    · exact Or.inl waits
    · exact Or.inr (Or.inl (List.getElem?_of_mem taken))
    · exact Or.inr (Or.inr replied)
  · have due : Due message s := Or.inl ⟨tx, awaits, replied⟩
    obtain ⟨due', spent⟩ := due.run within ran
    have bound := patience_le due
    refine ⟨by omega, ?_⟩
    rcases due' with ⟨tx', awaits', -⟩ | at_ | returned
    · refine Or.inr ((orderly.run ran).accepts (pending_of_awaiting awaits') fun failed => ?_)
      rw [failed] at awaits'
      cases awaits'
    · exact Or.inr ((orderly.run ran).accepts (show s'.pc.pending = some message by rw [at_]; rfl) (by simp [at_]))
    · exact Or.inl returned

theorem call_makes_progress_sample :
    ∃ s, run 8 sampleMailbox (.call 0x1000 :: sampleEvents.take 4) = some s ∧
      ∀ events s', (∀ event ∈ events, event.within = true) → run 8 s events = some s' →
        events.countP MailboxEvent.isAccess ≤ 2 * s.replies.length + 1 := by
  have outcome : (run 8 sampleMailbox (.call 0x1000 :: sampleEvents.take 4)).map (fun s => (s.pc.awaiting, s.replies)) =
      some (some (0x1000, 0x1008), [0x2009, 0x1008]) := by decide +kernel
  obtain ⟨s, reached, same⟩ := Option.map_eq_some_iff.mp outcome
  obtain ⟨awaits, replies⟩ := Prod.mk.inj same
  have replied : 0x1008 ∈ s.replies := by simp [replies]
  obtain ⟨-, -, -, bounded⟩ := call_makes_progress sampleMailbox_starts reached
  exact ⟨s, reached, fun events s' within ran => (bounded _ _ awaits replied events s' within ran).1⟩

end Swink.Mailbox
