import Swink.Vc.Calls
import Swink.Vc.Functions

namespace Swink.Mailbox
variable {depth : Nat} {s s' s₁ s₂ : Mailbox} {message : BitVec 64} {events : List MailboxEvent} {α : Type}
  {fair : VcMailboxMessage → VcMailboxMessage → Prop}

/-- Each answer of the VideoCore among the events relates to the message that it answers. -/
def AnswersFairly (depth : Nat) (fair : VcMailboxMessage → VcMailboxMessage → Prop) (s : Mailbox)
    (events : List MailboxEvent) : Prop :=
  ∀ before i content after mid word, events = before ++ .answer i content :: after → run depth s before = some mid →
    mid.working[i]? = some word → fair (mid.messages (bufferOf word)) content

/-- The CPU executes a program over the mailbox: it writes each message, calls `vc_mailbox_call_sync`
and goes on with what it finds when the call has returned. -/
inductive Executes (depth : Nat) (fair : VcMailboxMessage → VcMailboxMessage → Prop) :
    Mailbox → VcProgram α → List (VcMailboxMessage × Bool × VcMailboxMessage) → Except Fault α → Mailbox → Prop
  | done {s : Mailbox} (result : α) : Executes depth fair s (.done result) [] (.ok result) s
  | fail {s : Mailbox} (fault : Fault) : Executes depth fair s (.fail fault) [] (.error fault) s
  | ask {s s₀ s₁ s₂ s₃ s' : Mailbox} {question : VcMailboxMessage} {rest : Bool × VcMailboxMessage → VcProgram α}
      {message : BitVec 64} {result : Bool} {idle events : List MailboxEvent}
      {log : List (VcMailboxMessage × Bool × VcMailboxMessage)} {outcome : Except Fault α}
      (waits : ∀ event ∈ idle, event.within = true) (waited : run depth s idle = some s₀)
      (composed : s₀.next depth (.compose message question) = some s₁) (called : s₁.next depth (.call message) = some s₂)
      (within : ∀ event ∈ events, event.within = true) (ran : run depth s₂ events = some s₃)
      (answers : AnswersFairly depth fair s₂ events) (returns : s₃.pc = .returned message result)
      (later : Executes depth fair s₃ (rest (result, s₃.messages message)) log outcome s') :
      Executes depth fair s (.ask question rest) ((question, result, s₃.messages message) :: log) outcome s'

/-- What a reply that has come through the mailbox is. -/
def Received (fair : VcMailboxMessage → VcMailboxMessage → Prop) (question : VcMailboxMessage) (reply : Bool × VcMailboxMessage) :
    Prop :=
  fair question reply.2 ∧ reply.1 = decide (reply.2.type = vcMailboxResponse)

theorem Orderly.plays (orderly : Orderly depth s) {program : VcProgram α}
    {log : List (VcMailboxMessage × Bool × VcMailboxMessage)} {outcome : Except Fault α}
    (executes : Executes depth fair s program log outcome s') :
    program.Plays log outcome ∧ (∀ entry ∈ log, Received fair entry.1 entry.2) ∧ Orderly depth s' := by
  induction executes with
  | done result => exact ⟨.done result, by simp, orderly⟩
  | fail fault => exact ⟨.fail fault, by simp, orderly⟩
  | @ask s s₀ s₁ s₂ s₃ s' question rest message result idle events log outcome waits waited composed called within ran
      answers returns later ih =>
    have ready := ((orderly.run waited).step composed).step called
    obtain rfl := next_call called
    have place := (ready.place message rfl).2
    obtain ⟨-, stage⟩ := Stage.run ready rfl within ran
    obtain ⟨content, ⟨before, i, after, mid, split, reached, taken, buffer, unchanged⟩, holds, success⟩ := stage.returned returns
    have written : s₁.messages message = question := by
      rw [next] at composed
      split at composed <;> cases composed
      exact Function.update_self ..
    have related := answers before i content after mid _ split reached taken
    rw [buffer, unchanged] at related
    obtain ⟨plays, received, orderly'⟩ := ih (ready.run ran)
    refine ⟨.ask plays, fun entry member => ?_, orderly'⟩
    rcases List.mem_cons.mp member with rfl | old
    · refine ⟨?_, ?_⟩
      · show fair question (s₃.messages message)
        rw [holds]
        exact written ▸ related
      · show result = decide ((s₃.messages message).type = vcMailboxResponse)
        rw [holds]
        exact success
    · exact received entry old

/-- Programs that run over the mailbox, after whatever calls have been made or interrupted before, run
as if each call went straight to the VideoCore: each reply is the VideoCore's own to the message that
was sent, with the result that its type says. -/
theorem executions_are_dialogues {start : Mailbox} {before : List MailboxEvent} (starts : start.Starts)
    (reached : run depth start before = some s) {program : VcProgram α}
    {log : List (VcMailboxMessage × Bool × VcMailboxMessage)} {outcome : Except Fault α}
    (executes : Executes depth fair s program log outcome s') :
    program.Plays log outcome ∧ ∀ entry ∈ log, Received fair entry.1 entry.2 := by
  obtain ⟨plays, received, -⟩ := (starts.orderly.run reached).plays executes
  exact ⟨plays, received⟩

/-- A call whose request the VideoCore takes and answers at once. -/
def promptEvents (reply : VcMailboxMessage) : List MailboxEvent :=
  [.access, .access, .take] ++ [.answer 0 reply, .access, .access, .access]

section Prompt
variable (messages : BitVec 64 → VcMailboxMessage) (interrupted : List (BitVec 64)) (reply : VcMailboxMessage)
  (aligned : message &&& ~~~mailboxMessageMask = message)
include aligned

theorem prompt_asks :
    run 8 ⟨[], [], [], messages, interrupted, .waitSpace mailboxChannelApToVc message⟩ [.access, .access, .take] =
      some ⟨[], [txMessage mailboxChannelApToVc message], [], messages, interrupted,
        .waitReply message (txMessage mailboxChannelApToVc message)⟩ := by
  simp [run, next, Mailbox.access, status, vcMailboxFull, vcMailboxEmpty, aligned]

theorem prompt_returns (small : message.toNat < 2 ^ 32) :
    run 8 ⟨[], [], [], messages, interrupted, .waitSpace mailboxChannelApToVc message⟩ (promptEvents reply) =
      some ⟨[], [], [], Function.update messages message reply, interrupted,
        .returned message (decide (reply.type = vcMailboxResponse))⟩ := by
  have buffer : bufferOf (txMessage mailboxChannelApToVc message) = message := bufferOf_txMessage aligned small
  rw [promptEvents, run_append, prompt_asks messages interrupted aligned]
  simp [run, next, Mailbox.access, status, vcMailboxFull, vcMailboxEmpty, buffer]

/-- The VideoCore answers the message that it was sent. -/
theorem prompt_fairly (small : message.toNat < 2 ^ 32) (related : fair (messages message) reply) :
    AnswersFairly 8 fair ⟨[], [], [], messages, interrupted, .waitSpace mailboxChannelApToVc message⟩ (promptEvents reply) := by
  intro before i content after mid word split reached taken
  have shape : before = [.access, .access, .take] ∧ i = 0 ∧ content = reply := by
    rcases before with _ | ⟨e₁, _ | ⟨e₂, _ | ⟨e₃, _ | ⟨e₄, _ | ⟨e₅, _ | ⟨e₆, _ | ⟨e₇, before⟩⟩⟩⟩⟩⟩⟩ <;>
      simp [promptEvents] at split
    obtain ⟨rfl, rfl, rfl, ⟨rfl, rfl⟩, -⟩ := split
    exact ⟨rfl, rfl, rfl⟩
  obtain ⟨rfl, rfl, rfl⟩ := shape
  rw [prompt_asks messages interrupted aligned] at reached
  cases reached
  cases taken
  rwa [bufferOf_txMessage aligned small]

end Prompt

/-- Nothing is under way, and a message may lie at the address. -/
structure Quiet (message : BitVec 64) (s : Mailbox) : Prop where
  requests : s.requests = []
  working : s.working = []
  replies : s.replies = []
  idle : s.pc.pending = none
  place : message ∉ s.interrupted

/-- A VideoCore that answers every message at once brings every program to its end. -/
theorem Quiet.executes (aligned : message &&& ~~~mailboxMessageMask = message) (small : message.toNat < 2 ^ 32)
    (respond : VcMailboxMessage → VcMailboxMessage) (program : VcProgram α) (quiet : Quiet message s) :
    ∃ log outcome s', Executes 8 (fun question reply => reply = respond question) s program log outcome s' := by
  induction program generalizing s with
  | done result => exact ⟨[], .ok result, s, .done result⟩
  | fail fault => exact ⟨[], .error fault, s, .fail fault⟩
  | ask question rest ih =>
    obtain ⟨requests, working, replies, messages, interrupted, pc⟩ := s
    obtain ⟨rfl, rfl, rfl, idle, place⟩ := quiet
    have written : (Function.update messages message question) message = question := Function.update_self ..
    have ran := prompt_returns (Function.update messages message question) interrupted (respond question) aligned small
    have answers : AnswersFairly 8 (fun question reply => reply = respond question) _ (promptEvents (respond question)) :=
      prompt_fairly (Function.update messages message question) interrupted (respond question) aligned small (by rw [written])
    have quiet' : Quiet message (⟨[], [], [], Function.update (Function.update messages message question) message
        (respond question), interrupted, .returned message (decide ((respond question).type = vcMailboxResponse))⟩ : Mailbox) :=
      ⟨rfl, rfl, rfl, rfl, place⟩
    obtain ⟨log, outcome, s', later⟩ := ih _ quiet'
    exact ⟨_, _, _, .ask (by simp) (show run 8 _ [] = some _ from rfl) (if_pos ⟨idle, place⟩) (if_pos ⟨idle, place, small⟩)
      (by simp [promptEvents, MailboxEvent.within]) ran answers rfl later⟩

theorem executions_are_dialogues_sample :
    ∃ log outcome s', Executes 8 (fun question reply => reply = { question with type := vcMailboxResponse })
        (⟨[], [], [], fun _ => messageInit, [], .outside⟩ : Mailbox) (vcFunctionsSetActivityLed true) log outcome s' ∧
      (vcFunctionsSetActivityLed true).Plays log outcome := by
  have starts : (⟨[], [], [], fun _ => messageInit, [], .outside⟩ : Mailbox).Starts := ⟨rfl, rfl, by simp, rfl, rfl⟩
  have quiet : Quiet 0x1000 (⟨[], [], [], fun _ => messageInit, [], .outside⟩ : Mailbox) := ⟨rfl, rfl, rfl, rfl, by simp⟩
  obtain ⟨log, outcome, s', executes⟩ := Quiet.executes (by decide) (by decide)
    (fun question => { question with type := vcMailboxResponse }) (vcFunctionsSetActivityLed true) quiet
  exact ⟨log, outcome, s', executes,
    (executions_are_dialogues starts (show run 8 _ [] = some _ from rfl) executes).1⟩

end Swink.Mailbox
