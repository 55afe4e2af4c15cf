import Swink.Vc.Protocol

namespace Swink

/-- The events of a call that has begun: what the CPU does in it and all that the VideoCore does. -/
def MailboxEvent.within : MailboxEvent → Bool
  | access | take | answer _ _ | stray _ => true
  | compose _ _ | call _ | interrupt => false

def MailboxEvent.isAccess : MailboxEvent → Bool
  | access => true
  | _ => false

namespace Mailbox
variable {depth : Nat} {s s' s₁ : Mailbox} {message : BitVec 64} {tx word : BitVec 32} {event : MailboxEvent}
  {events : List MailboxEvent} {content : VcMailboxMessage}

/-- Among the events the VideoCore answers the request, whose word names the message, and has before
it the message as it was at the call. -/
def AnsweredIn (depth : Nat) (s₁ : Mailbox) (message : BitVec 64) (events : List MailboxEvent) (content : VcMailboxMessage) :
    Prop :=
  ∃ before i after mid, events = before ++ .answer i content :: after ∧ run depth s₁ before = some mid ∧
    mid.working[i]? = some (txMessage mailboxChannelApToVc message) ∧
    bufferOf (txMessage mailboxChannelApToVc message) = message ∧ mid.messages message = s₁.messages message

/-- How far a call is: it has not sent its request, the request is not answered, it is, or the
assertion has failed. -/
inductive Stage (depth : Nat) (s₁ : Mailbox) (message : BitVec 64) (events : List MailboxEvent) (s : Mailbox) : Prop
  | unsent (same : s.messages message = s₁.messages message) {channel : BitVec 8}
      (at_ : s.pc = .waitSpace channel message ∨ s.pc = .send channel message)
  | asked (same : s.messages message = s₁.messages message)
      (awaits : s.pc.awaiting = some (message, txMessage mailboxChannelApToVc message))
      (under : txMessage mailboxChannelApToVc message ∈ s.requests ++ s.working)
  | answered {content : VcMailboxMessage} (answer : AnsweredIn depth s₁ message events content)
      (holds : s.messages message = content)
      (at_ : s.pc.awaiting = some (message, txMessage mailboxChannelApToVc message) ∧
          txMessage mailboxChannelApToVc message ∈ s.replies ∨
        s.pc = .response message ∨ s.pc = .returned message (decide (content.type = vcMailboxResponse)))
  | failed (at_ : s.pc = .failed message)

theorem AnsweredIn.concat (answer : AnsweredIn depth s₁ message events content) (event : MailboxEvent) :
    AnsweredIn depth s₁ message (events ++ [event]) content := by
  obtain ⟨before, i, after, mid, rfl, rest⟩ := answer
  exact ⟨before, i, after ++ [event], mid, by simp, rest⟩

theorem within_interrupted (step : s.next depth event = some s') (within : event.within = true) :
    s'.interrupted = s.interrupted := by
  cases event with
  | access =>
    rw [next] at step
    unfold Mailbox.access at step
    split at step <;> (try split at step) <;> (try split at step) <;> cases step <;> rfl
  | take =>
    rw [next] at step
    split at step <;> cases step
    rfl
  | answer i content =>
    rw [next] at step
    split at step <;> cases step
    rfl
  | stray word =>
    rw [next] at step
    split at step <;> cases step
    rfl
  | compose message content => cases within
  | call message => cases within
  | interrupt => cases within

/-- What the VideoCore writes for other calls is elsewhere. -/
theorem Orderly.apart (orderly : Orderly depth s) {i : Nat} (found : s.working[i]? = some word)
    (place : message ∉ s.interrupted) (other : ∀ message, s.pc.awaiting ≠ some (message, word)) : message ≠ bufferOf word := by
  rintro rfl
  have member := List.mem_of_getElem? found
  rcases orderly.others word (by simp [flight, member]) (orderly.asked word (List.mem_append_right _ member)) with old | ⟨m, awaits⟩
  · exact place old
  · exact other m awaits

/-- The word of the current call is in one place. -/
theorem Orderly.not_replied (orderly : Orderly depth s) (awaits : s.pc.awaiting = some (message, tx))
    (under : tx ∈ s.requests ++ s.working) : tx ∉ s.replies := by
  intro replied
  obtain ⟨-, -, count⟩ := orderly.once message tx awaits
  rw [flight, List.count_append] at count
  have := List.count_pos_iff.mpr under
  have := List.count_pos_iff.mpr replied
  omega

theorem Stage.access (orderly : Orderly depth s) (stage : Stage depth s₁ message events s) (step : s.access depth = some s') :
    Stage depth s₁ message (events ++ [.access]) s' := by
  cases stage with
  | @unsent same channel at_ =>
    have isChannel := orderly.channel channel message at_
    rcases at_ with at_ | at_
    · simp only [Mailbox.access, at_] at step
      split at step <;> cases step
      · exact .unsent same (Or.inl at_)
      · exact .unsent same (Or.inr rfl)
    · simp only [Mailbox.access, at_] at step
      split at step <;> cases step
      · subst isChannel
        exact .asked same rfl (by simp)
      · exact .failed rfl
  | asked same awaits under =>
    have absent := orderly.not_replied awaits under
    cases at_ : s.pc with
    | waitReply message' tx =>
      rw [at_] at awaits
      cases awaits
      simp only [Mailbox.access, at_] at step
      split at step <;> cases step
      · exact .asked same (by rw [at_]; rfl) under
      · exact .asked same rfl under
    | read message' tx =>
      rw [at_] at awaits
      cases awaits
      simp only [Mailbox.access, at_] at step
      split at step
      · cases step
      · next word replies shape =>
        have other : txMessage mailboxChannelApToVc message ≠ word := fun own => absent (by simp [shape, own])
        rw [if_neg other] at step
        cases step
        exact .asked same rfl under
    | _ =>
      rw [at_] at awaits
      cases awaits
  | answered answer holds at_ =>
    rcases at_ with ⟨awaits, replied⟩ | at_ | at_
    · cases at_ : s.pc with
      | waitReply message' tx =>
        rw [at_] at awaits
        cases awaits
        simp only [Mailbox.access, at_] at step
        split at step <;> cases step
        · exact .answered (answer.concat _) holds (Or.inl ⟨by rw [at_]; rfl, replied⟩)
        · exact .answered (answer.concat _) holds (Or.inl ⟨rfl, replied⟩)
      | read message' tx =>
        rw [at_] at awaits
        cases awaits
        simp only [Mailbox.access, at_] at step
        split at step
        · cases step
        · next word replies shape =>
          split at step <;> cases step
          · exact .answered (answer.concat _) holds (Or.inr (Or.inl rfl))
          · next other =>
            rw [shape] at replied
            exact .answered (answer.concat _) holds (Or.inl ⟨rfl, (List.mem_cons.mp replied).resolve_left other⟩)
      | _ =>
        rw [at_] at awaits
        cases awaits
    · simp only [Mailbox.access, at_] at step
      cases step
      exact .answered (answer.concat _) holds (Or.inr (Or.inr (by rw [holds])))
    · simp only [Mailbox.access, at_] at step
      cases step
  | failed at_ =>
    simp only [Mailbox.access, at_] at step
    cases step

theorem Stage.answer (orderly : Orderly depth s) (ran : run depth s₁ events = some s) (place : message ∉ s.interrupted)
    (stage : Stage depth s₁ message events s) {i : Nat} (found : s.working[i]? = some word) :
    Stage depth s₁ message (events ++ [.answer i content])
      { s with
        working := s.working.eraseIdx i
        replies := s.replies ++ [word]
        messages := Function.update s.messages (bufferOf word) content } := by
  have member := List.mem_of_getElem? found
  cases stage with
  | unsent same at_ =>
    have elsewhere : message ≠ bufferOf word :=
      orderly.apart found place fun m awaits => by rcases at_ with at_ | at_ <;> · rw [at_] at awaits; cases awaits
    exact .unsent ((Function.update_of_ne elsewhere ..).trans same) at_
  | asked same awaits under =>
    obtain ⟨isTx, buffer, count⟩ := orderly.once _ _ awaits
    by_cases own : word = txMessage mailboxChannelApToVc message
    · subst own
      refine .answered ⟨events, i, [], s, rfl, ran, found, buffer, same⟩ ?_ (Or.inl ⟨awaits, by simp⟩)
      rw [buffer]
      exact Function.update_self ..
    · have elsewhere : message ≠ bufferOf word :=
        orderly.apart found place fun m other => own (by rw [awaits] at other; cases other; rfl)
      refine .asked ((Function.update_of_ne elsewhere ..).trans same) awaits ?_
      rcases List.mem_append.mp under with waits | taken
      · exact List.mem_append_left _ waits
      · refine List.mem_append_right _ ?_
        obtain ⟨lt, here⟩ := List.getElem?_eq_some_iff.mp found
        have perm := List.getElem_cons_eraseIdx_perm lt
        rw [here] at perm
        exact (List.mem_cons.mp (perm.mem_iff.mpr taken)).resolve_left fun same => own same.symm
  | answered answered holds at_ =>
    have elsewhere : message ≠ bufferOf word := by
      refine orderly.apart found place fun m awaits => ?_
      rcases at_ with ⟨mine, replied⟩ | at_ | at_
      · rw [mine] at awaits
        cases awaits
        exact orderly.not_replied mine (List.mem_append_right _ member) replied
      · rw [at_] at awaits
        cases awaits
      · rw [at_] at awaits
        cases awaits
    refine .answered (answered.concat _) ((Function.update_of_ne elsewhere ..).trans holds) ?_
    exact at_.imp_left (And.imp_right (List.mem_append_left _))
  | failed at_ => exact .failed at_

theorem Stage.step (orderly : Orderly depth s) (ran : run depth s₁ events = some s) (place : message ∉ s.interrupted)
    (stage : Stage depth s₁ message events s) (within : event.within = true) (step : s.next depth event = some s') :
    Stage depth s₁ message (events ++ [event]) s' := by
  cases event with
  | access => exact stage.access orderly step
  | take =>
    rw [next] at step
    split at step
    · cases step
    · next word requests shape =>
      cases step
      cases stage with
      | unsent same at_ => exact .unsent same at_
      | asked same awaits under =>
        refine .asked same awaits ?_
        rw [shape] at under
        simp only [List.mem_append, List.mem_cons, List.not_mem_nil, or_false] at under ⊢
        tauto
      | answered answer holds at_ => exact .answered (answer.concat _) holds at_
      | failed at_ => exact .failed at_
  | answer i content =>
    rw [next] at step
    split at step
    · cases step
    · next word found =>
      cases step
      exact stage.answer orderly ran place found
  | stray word =>
    rw [next] at step
    split at step
    · cases step
      cases stage with
      | unsent same at_ => exact .unsent same at_
      | asked same awaits under => exact .asked same awaits under
      | answered answer holds at_ =>
        exact .answered (answer.concat _) holds
          (at_.imp_left (And.imp_right (List.mem_append_left _)))
      | failed at_ => exact .failed at_
    · cases step
  | compose message content => cases within
  | call message => cases within
  | interrupt => cases within

/-- A call goes through its stages whatever the VideoCore does in between. -/
theorem Stage.run (orderly : Orderly depth s₁) (called : s₁.pc = .waitSpace mailboxChannelApToVc message)
    (within : ∀ event ∈ events, event.within = true) (ran : run depth s₁ events = some s) :
    message ∉ s.interrupted ∧ Stage depth s₁ message events s := by
  have place := (orderly.place message (by rw [called]; rfl)).2
  induction events using List.reverseRec generalizing s with
  | nil =>
    cases ran
    exact ⟨place, .unsent rfl (Or.inl called)⟩
  | append_singleton events event ih =>
    obtain ⟨mid, before, last⟩ := run_concat.mp ran
    obtain ⟨clear, stage⟩ := ih (fun e member => within e (List.mem_append_left _ member)) before
    have inside := within event (by simp)
    exact ⟨within_interrupted last inside ▸ clear, stage.step (orderly.run before) before clear inside last⟩

theorem Stage.returned {result : Bool} (stage : Stage depth s₁ message events s) (returns : s.pc = .returned message result) :
    ∃ content, AnsweredIn depth s₁ message events content ∧ s.messages message = content ∧
      result = decide (content.type = vcMailboxResponse) := by
  cases stage with
  | unsent _ at_ => rcases at_ with at_ | at_ <;> exact absurd (returns.symm.trans at_) nofun
  | asked _ awaits _ =>
    rw [returns] at awaits
    cases awaits
  | answered answer holds at_ =>
    refine ⟨_, answer, holds, ?_⟩
    rcases at_ with ⟨awaits, -⟩ | at_ | at_
    · rw [returns] at awaits
      cases awaits
    · exact absurd (returns.symm.trans at_) nofun
    · exact (MailboxPc.returned.inj (returns.symm.trans at_)).2
  | failed at_ => exact absurd (returns.symm.trans at_) nofun

theorem next_call (called : s.next depth (.call message) = some s') :
    s' = { s with pc := .waitSpace mailboxChannelApToVc message } := by
  rw [next] at called
  split at called <;> cases called
  rfl

/-- A call returns only after the VideoCore has answered its request, in any interleaving with the
VideoCore and after any calls before it, finished or interrupted. The VideoCore sees the message as
the caller wrote it; when the call returns, the message is the answer and the result its success. -/
theorem call_returns_answer {start s₀ : Mailbox} {before : List MailboxEvent} {result : Bool} (starts : start.Starts)
    (reached : run depth start before = some s₀) (called : s₀.next depth (.call message) = some s₁)
    (within : ∀ event ∈ events, event.within = true) (ran : run depth s₁ events = some s)
    (returns : s.pc = .returned message result) :
    ∃ content, AnsweredIn depth s₁ message events content ∧ s₁.messages = s₀.messages ∧ s.messages message = content ∧
      result = decide (content.type = vcMailboxResponse) := by
  have orderly := (starts.orderly.run reached).step called
  obtain rfl := next_call called
  obtain ⟨-, stage⟩ := Stage.run orderly rfl within ran
  obtain ⟨content, answer, holds, success⟩ := stage.returned returns
  exact ⟨content, answer, rfl, holds, success⟩

/-- A mailbox in which a word on another channel lies, and the events of one call. -/
def sampleMailbox : Mailbox := ⟨[], [], [0x2009], fun _ => messageInit, [], .outside⟩

def sampleEvents : List MailboxEvent :=
  [.access, .access, .take, .answer 0 { messageInit with type := vcMailboxResponse }, .access, .access, .access, .access,
    .access]

theorem sampleMailbox_starts : sampleMailbox.Starts := by
  refine ⟨rfl, rfl, fun word member => ?_, rfl, rfl⟩
  rw [List.mem_singleton.mp member]
  decide

theorem call_returns_answer_sample :
    ∃ s₁ s content, sampleMailbox.next 8 (.call 0x1000) = some s₁ ∧ run 8 s₁ sampleEvents = some s ∧
      AnsweredIn 8 s₁ 0x1000 sampleEvents content ∧ s.messages 0x1000 = content := by
  have outcome : (run 8 { sampleMailbox with pc := .waitSpace mailboxChannelApToVc 0x1000 } sampleEvents).map Mailbox.pc =
      some (.returned 0x1000 true) := by decide +kernel
  obtain ⟨s, ran, returns⟩ := Option.map_eq_some_iff.mp outcome
  have called : sampleMailbox.next 8 (.call 0x1000) =
      some { sampleMailbox with pc := .waitSpace mailboxChannelApToVc 0x1000 } := rfl
  obtain ⟨content, answered, -, holds, -⟩ :=
    call_returns_answer sampleMailbox_starts (show run 8 sampleMailbox [] = some sampleMailbox from rfl) called
      (by decide) ran returns
  exact ⟨_, s, content, called, ran, answered, holds⟩

end Mailbox

end Swink
