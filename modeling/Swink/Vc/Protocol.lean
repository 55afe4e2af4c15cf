import Mathlib.Data.List.Induction
import Mathlib.Data.List.Perm.Basic
import Swink.Vc.Mailbox

namespace Swink

theorem getLsbD_fifteen {w : Nat} (wide : 4 ≤ w) (i : Nat) : (BitVec.ofNat w 15).getLsbD i = decide (i < 4) := by
  rw [show 15 = 2 ^ 4 - 1 from rfl, BitVec.getLsbD_ofNat, Nat.testBit_two_pow_sub_one]
  by_cases low : i < 4
  · simp only [low, decide_true, Bool.and_true, decide_eq_true_eq]
    omega
  · simp [low]

/-- The word of a message names it by its address. -/
theorem bufferOf_txMessage {channel : BitVec 8} {message : BitVec 64}
    (aligned : message &&& ~~~mailboxMessageMask = message) (small : message.toNat < 2 ^ 32) :
    bufferOf (txMessage channel message) = message := by
  refine BitVec.eq_of_getLsbD_eq fun i lt => ?_
  have mask : mailboxMessageMask.getLsbD i = decide (i < 4) := getLsbD_fifteen (by decide) i
  have low : (0xF : BitVec 32).getLsbD i = decide (i < 4) := getLsbD_fifteen (by decide) i
  have bit : (message &&& ~~~mailboxMessageMask).getLsbD i = message.getLsbD i := congrArg (·.getLsbD i) aligned
  rw [BitVec.getLsbD_and, BitVec.getLsbD_not, mask] at bit
  by_cases high : i < 32
  · rw [bufferOf, txMessage, pmapKvaToPa, BitVec.getLsbD_setWidth, BitVec.getLsbD_and, BitVec.getLsbD_not, low,
      BitVec.getLsbD_setWidth, BitVec.getLsbD_or, BitVec.getLsbD_and, BitVec.getLsbD_not, BitVec.getLsbD_and, mask, ← bit]
    by_cases inMask : i < 4 <;> simp [high, lt, inMask]
  · have zero : message.getLsbD i = false :=
      Nat.testBit_lt_two_pow (Nat.lt_of_lt_of_le small (Nat.pow_le_pow_right (by decide) (by omega)))
    rw [zero, bufferOf, BitVec.getLsbD_setWidth, BitVec.getLsbD_of_ge _ _ (by omega), Bool.and_false]

/-- The word of a message names the channel in its low bits. -/
theorem channelOf_txMessage (channel : BitVec 8) (message : BitVec 64) :
    channelOf (txMessage channel message) = channel.setWidth 32 &&& 0xF := by
  refine BitVec.eq_of_getLsbD_eq fun i lt => ?_
  have mask : mailboxMessageMask.getLsbD i = decide (i < 4) := getLsbD_fifteen (by decide) i
  have low : (0xF : BitVec 32).getLsbD i = decide (i < 4) := getLsbD_fifteen (by decide) i
  simp only [channelOf, txMessage, pmapKvaToPa, BitVec.getLsbD_setWidth, BitVec.getLsbD_and, BitVec.getLsbD_or,
    BitVec.getLsbD_not, low, mask]
  by_cases inMask : i < 4
  · simp only [inMask, lt]
    simp
    omega
  · simp [inMask]

theorem channelOf_request (message : BitVec 64) :
    channelOf (txMessage mailboxChannelApToVc message) = mailboxChannelApToVc.setWidth 32 :=
  channelOf_txMessage mailboxChannelApToVc message

/-- The message and the word of a call that has sent its request and has not read the reply. -/
def MailboxPc.awaiting : MailboxPc → Option (BitVec 64 × BitVec 32)
  | waitReply message tx | read message tx => some (message, tx)
  | outside | waitSpace _ _ | send _ _ | response _ | returned _ _ | failed _ => none

namespace Mailbox
variable {depth : Nat} {s s' s₁ mid : Mailbox} {message : BitVec 64} {tx word : BitVec 32} {event : MailboxEvent}
  {events : List MailboxEvent}

/-- All words between the CPU and the VideoCore. -/
def flight (s : Mailbox) : List (BitVec 32) := s.requests ++ s.working ++ s.replies

/-- Whatever happens, the word of the current call is under way once, and all other words on its
channel are those of interrupted calls. -/
structure Orderly (depth : Nat) (s : Mailbox) : Prop where
  space : s.requests.length ≤ depth
  sending : ∀ channel message, s.pc = .send channel message → s.requests.length < depth
  reading : ∀ message tx, s.pc = .read message tx → s.replies ≠ []
  channel : ∀ channel message, s.pc = .waitSpace channel message ∨ s.pc = .send channel message →
    channel = mailboxChannelApToVc
  place : ∀ message, s.pc.pending = some message → message.toNat < 2 ^ 32 ∧ message ∉ s.interrupted
  asked : ∀ word ∈ s.requests ++ s.working, channelOf word = mailboxChannelApToVc.setWidth 32
  others : ∀ word ∈ s.flight, channelOf word = mailboxChannelApToVc.setWidth 32 →
    bufferOf word ∈ s.interrupted ∨ ∃ message, s.pc.awaiting = some (message, word)
  once : ∀ message tx, s.pc.awaiting = some (message, tx) →
    tx = txMessage mailboxChannelApToVc message ∧ bufferOf tx = message ∧ s.flight.count tx = 1

theorem pending_of_awaiting {pc : MailboxPc} (awaits : pc.awaiting = some (message, tx)) : pc.pending = some message := by
  cases pc <;> simp_all [MailboxPc.awaiting, MailboxPc.pending]

theorem Starts.orderly (starts : s.Starts) : Orderly depth s where
  space := by simp [starts.requests]
  sending _ _ at_ := by simp [starts.pc] at at_
  reading _ _ at_ := by simp [starts.pc] at at_
  channel _ _ at_ := by simp [starts.pc] at at_
  place _ pending := by simp [starts.pc, MailboxPc.pending] at pending
  asked _ member := by simp [starts.requests, starts.working] at member
  others word member onChannel := by
    rw [flight, starts.requests, starts.working] at member
    exact absurd onChannel (starts.replies word (by simpa using member))
  once _ _ awaits := by simp [starts.pc, MailboxPc.awaiting] at awaits

/-- The VideoCore moves words on. -/
theorem Orderly.moved (orderly : Orderly depth s) (samePc : s'.pc = s.pc) (same : s'.interrupted = s.interrupted)
    (perm : s'.flight.Perm s.flight) (fewer : s'.requests.length ≤ s.requests.length)
    (asked : ∀ word ∈ s'.requests ++ s'.working, word ∈ s.requests ++ s.working)
    (filled : s.replies ≠ [] → s'.replies ≠ []) : Orderly depth s' where
  space := fewer.trans orderly.space
  sending channel message at_ := fewer.trans_lt (orderly.sending channel message (samePc ▸ at_))
  reading message tx at_ := filled (orderly.reading message tx (samePc ▸ at_))
  channel channel message at_ := orderly.channel channel message (by rwa [samePc] at at_)
  place message pending := by
    rw [same]
    exact orderly.place message (samePc ▸ pending)
  asked word member := orderly.asked word (asked word member)
  others word member onChannel := by
    rw [same, samePc]
    exact orderly.others word (perm.mem_iff.mp member) onChannel
  once message tx awaits := by
    obtain ⟨isTx, buffer, count⟩ := orderly.once message tx (samePc ▸ awaits)
    exact ⟨isTx, buffer, (perm.count_eq tx).trans count⟩

/-- The CPU moves within a call without touching the mailbox. -/
theorem Orderly.walk (orderly : Orderly depth s) {pc : MailboxPc} (samePending : pc.pending = s.pc.pending ∨ pc.pending = none)
    (sameAwaiting : pc.awaiting = s.pc.awaiting)
    (sending : ∀ channel message, pc = .send channel message → s.requests.length < depth)
    (reading : ∀ message tx, pc = .read message tx → s.replies ≠ [])
    (channel : ∀ channel message, pc = .waitSpace channel message ∨ pc = .send channel message → channel = mailboxChannelApToVc) :
    Orderly depth { s with pc } where
  space := orderly.space
  sending := sending
  reading := reading
  channel := channel
  place message pending := by
    rcases samePending with same | none
    · exact orderly.place message (same ▸ pending)
    · exact absurd (pending.symm.trans none) (by simp)
  asked := orderly.asked
  others word member onChannel := by
    rcases orderly.others word member onChannel with old | ⟨message, awaits⟩
    · exact Or.inl old
    · exact Or.inr ⟨message, sameAwaiting.trans awaits⟩
  once message tx awaits := orderly.once message tx (sameAwaiting ▸ awaits)

/-- A message that is not under way has no word in the mailbox. -/
theorem Orderly.fresh (orderly : Orderly depth s) (idle : s.pc.awaiting = none) (place : message ∉ s.interrupted)
    (small : message.toNat < 2 ^ 32) (aligned : message &&& ~~~mailboxMessageMask = message) :
    txMessage mailboxChannelApToVc message ∉ s.flight := by
  intro member
  rcases orderly.others _ member (channelOf_request message) with old | ⟨_, awaits⟩
  · rw [bufferOf_txMessage aligned small] at old
    exact place old
  · exact absurd (idle.symm.trans awaits) (by simp)

theorem status_full : s.status depth &&& vcMailboxFull ≠ 0 ↔ s.requests.length = depth := by
  unfold status
  by_cases full : s.requests.length = depth <;> cases s.replies.isEmpty <;> simp [full, vcMailboxFull, vcMailboxEmpty]

theorem status_empty : s.status depth &&& vcMailboxEmpty ≠ 0 ↔ s.replies = [] := by
  unfold status
  by_cases full : s.requests.length = depth <;> cases s.replies <;> simp [full, vcMailboxFull, vcMailboxEmpty]

/-- Sending puts the word of the call under way. -/
theorem Orderly.sent (orderly : Orderly depth s) {channel : BitVec 8} (at_ : s.pc = .send channel message)
    (aligned : message &&& ~~~mailboxMessageMask = message) :
    Orderly depth { s with
      requests := s.requests ++ [txMessage channel message]
      pc := .waitReply message (txMessage channel message) } := by
  obtain rfl := orderly.channel channel message (Or.inr at_)
  obtain ⟨small, place⟩ := orderly.place message (by rw [at_]; rfl)
  have fresh := orderly.fresh (by rw [at_]; rfl) place small aligned
  have room := orderly.sending _ _ at_
  have perm : (s.requests ++ [txMessage mailboxChannelApToVc message] ++ s.working ++ s.replies).Perm
      (txMessage mailboxChannelApToVc message :: s.flight) := by
    simp only [flight, List.append_assoc]
    exact List.perm_middle
  refine ⟨?_, nofun, nofun, nofun, ?_, ?_, ?_, ?_⟩
  · rw [List.length_append, List.length_singleton]
    omega
  · rintro _ ⟨⟩
    exact ⟨small, place⟩
  · intro word member
    simp only [List.append_assoc, List.mem_append, List.mem_singleton] at member
    rcases member with old | rfl | old
    · exact orderly.asked word (List.mem_append_left _ old)
    · exact channelOf_request message
    · exact orderly.asked word (List.mem_append_right _ old)
  · intro word member onChannel
    rcases List.mem_cons.mp (perm.mem_iff.mp member) with rfl | old
    · exact Or.inr ⟨message, rfl⟩
    · rcases orderly.others word old onChannel with abandoned | ⟨_, awaits⟩
      · exact Or.inl abandoned
      · rw [at_] at awaits
        cases awaits
  · rintro _ _ ⟨⟩
    refine ⟨rfl, bufferOf_txMessage aligned small, (perm.count_eq _).trans ?_⟩
    rw [List.count_cons_self, List.count_eq_zero_of_not_mem fresh]

/-- Reading takes the oldest reply, and the call ends with its own. -/
theorem Orderly.received (orderly : Orderly depth s) (at_ : s.pc = .read message tx) {replies : List (BitVec 32)}
    (shape : s.replies = word :: replies) :
    Orderly depth { s with replies, pc := if tx = word then .response message else .waitReply message tx } := by
  have awaits : s.pc.awaiting = some (message, tx) := by rw [at_]; rfl
  obtain ⟨isTx, buffer, count⟩ := orderly.once message tx awaits
  have place := orderly.place message (pending_of_awaiting awaits)
  have perm : s.flight.Perm (word :: (s.requests ++ s.working ++ replies)) := by
    rw [flight, shape]
    exact List.perm_middle
  have before := (perm.count_eq tx).symm.trans count
  rw [List.count_cons] at before
  have others (w : BitVec 32) (member : w ∈ s.requests ++ s.working ++ replies)
      (onChannel : channelOf w = mailboxChannelApToVc.setWidth 32) : bufferOf w ∈ s.interrupted ∨ w = tx := by
    rcases orderly.others w (perm.mem_iff.mpr (List.mem_cons_of_mem _ member)) onChannel with old | ⟨_, waits⟩
    · exact Or.inl old
    · rw [awaits] at waits
      cases waits
      exact Or.inr rfl
  by_cases own : tx = word
  · rw [if_pos own]
    subst own
    have gone : tx ∉ s.requests ++ s.working ++ replies := by
      rw [← List.count_eq_zero]
      simpa using before
    refine ⟨orderly.space, nofun, nofun, nofun, ?_, orderly.asked, ?_, nofun⟩
    · rintro _ ⟨⟩
      exact place
    · intro w member onChannel
      rcases others w member onChannel with old | rfl
      · exact Or.inl old
      · exact absurd member gone
  · rw [if_neg own]
    refine ⟨orderly.space, nofun, nofun, nofun, ?_, orderly.asked, ?_, ?_⟩
    · rintro _ ⟨⟩
      exact place
    · intro w member onChannel
      rcases others w member onChannel with old | rfl
      · exact Or.inl old
      · exact Or.inr ⟨message, rfl⟩
    · rintro _ _ ⟨⟩
      have different : ¬(word == tx) = true := fun same => own (eq_of_beq same).symm
      rw [if_neg different] at before
      exact ⟨isTx, buffer, before⟩

theorem Orderly.access (orderly : Orderly depth s) (step : s.access depth = some s') : Orderly depth s' := by
  unfold Mailbox.access at step
  split at step
  next channel message at_ =>
    split at step
    · cases step
      exact orderly
    · next notFull =>
      cases step
      have place := orderly.space
      have different : s.requests.length ≠ depth := fun full => notFull (status_full.mpr full)
      refine orderly.walk (Or.inl (by rw [at_]; rfl)) (by rw [at_]; rfl) (fun _ _ _ => by omega) nofun ?_
      rintro _ _ (same | same) <;> cases same
      exact orderly.channel channel message (Or.inl at_)
  next channel message at_ =>
    split at step
    · next aligned =>
      cases step
      exact orderly.sent at_ aligned
    · cases step
      exact orderly.walk (Or.inl (by rw [at_]; rfl)) (by rw [at_]; rfl) nofun nofun nofun
  next message tx at_ =>
    split at step
    · cases step
      exact orderly
    · next filled =>
      cases step
      exact orderly.walk (Or.inl (by rw [at_]; rfl)) (by rw [at_]; rfl) nofun
        (fun _ _ _ => fun empty => filled (status_empty.mpr empty)) nofun
  next message tx at_ =>
    split at step
    · cases step
    · next word replies shape =>
      have received := orderly.received at_ shape
      split at step
      · next own =>
        cases step
        rwa [if_pos own] at received
      · next other =>
        cases step
        rwa [if_neg other] at received
  next message at_ =>
    cases step
    exact orderly.walk (Or.inr rfl) (by rw [at_]; rfl) nofun nofun nofun
  all_goals cases step

theorem flight_take {requests : List (BitVec 32)} (shape : s.requests = word :: requests) :
    ({ s with requests, working := s.working ++ [word] } : Mailbox).flight.Perm s.flight := by
  simp only [flight, shape, List.append_assoc, List.cons_append, List.nil_append]
  rw [← List.append_assoc, ← List.append_assoc requests s.working]
  exact List.perm_middle

theorem flight_answer {i : Nat} (found : s.working[i]? = some word) (messages : BitVec 64 → VcMailboxMessage) :
    ({ s with working := s.working.eraseIdx i, replies := s.replies ++ [word], messages } : Mailbox).flight.Perm s.flight := by
  obtain ⟨lt, here⟩ := List.getElem?_eq_some_iff.mp found
  have taken := List.getElem_cons_eraseIdx_perm lt
  rw [here] at taken
  simp only [flight, List.append_assoc]
  refine List.Perm.append_left _ ?_
  rw [← List.append_assoc]
  exact List.perm_append_comm.trans (taken.append_right _)

theorem Orderly.step (orderly : Orderly depth s) (step : s.next depth event = some s') : Orderly depth s' := by
  cases event with
  | compose message content =>
    rw [next] at step
    split at step
    · cases step
      exact ⟨orderly.space, orderly.sending, orderly.reading, orderly.channel, orderly.place, orderly.asked, orderly.others,
        orderly.once⟩
    · cases step
  | call message =>
    rw [next] at step
    split at step
    · next allowed =>
      cases step
      obtain ⟨idle, place, small⟩ := allowed
      have noReply : s.pc.awaiting = none := by
        cases awaits : s.pc.awaiting with
        | none => rfl
        | some call => exact absurd (idle.symm.trans (pending_of_awaiting awaits)) (by simp)
      refine ⟨orderly.space, nofun, nofun, ?_, ?_, orderly.asked, ?_, nofun⟩
      · rintro _ _ (same | same) <;> cases same
        rfl
      · rintro _ ⟨⟩
        exact ⟨small, place⟩
      · intro word member onChannel
        rcases orderly.others word member onChannel with old | ⟨_, awaits⟩
        · exact Or.inl old
        · exact absurd (noReply.symm.trans awaits) (by simp)
    · cases step
  | access => exact orderly.access step
  | interrupt =>
    rw [next] at step
    cases step
    refine ⟨orderly.space, nofun, nofun, nofun, nofun, orderly.asked, ?_, nofun⟩
    intro word member onChannel
    rcases orderly.others word member onChannel with old | ⟨message, awaits⟩
    · exact Or.inl (List.mem_append_right _ old)
    · obtain ⟨-, buffer, -⟩ := orderly.once message word awaits
      rw [buffer, pending_of_awaiting awaits]
      exact Or.inl (List.mem_cons_self ..)
  | take =>
    rw [next] at step
    split at step
    · cases step
    · next word requests shape =>
      cases step
      refine orderly.moved rfl rfl (flight_take shape) (by rw [shape]; exact Nat.le_succ _) ?_ fun filled => filled
      intro w member
      simp only [List.mem_append, shape, List.mem_cons, List.not_mem_nil, or_false] at member ⊢
      tauto
  | answer i content =>
    rw [next] at step
    split at step
    · cases step
    · next word found =>
      cases step
      refine orderly.moved rfl rfl (flight_answer found _) le_rfl ?_ fun _ => by simp
      intro w member
      rcases List.mem_append.mp member with old | old
      · exact List.mem_append_left _ old
      · exact List.mem_append_right _ (List.mem_of_mem_eraseIdx old)
  | stray word =>
    rw [next] at step
    split at step
    · next other =>
      cases step
      refine ⟨orderly.space, orderly.sending, fun _ _ _ => by simp, orderly.channel, orderly.place, orderly.asked, ?_, ?_⟩
      · intro w member onChannel
        rw [flight, ← List.append_assoc, List.mem_append, List.mem_singleton] at member
        rcases member with old | rfl
        · exact orderly.others w old onChannel
        · exact absurd onChannel other
      · intro message tx awaits
        obtain ⟨isTx, buffer, count⟩ := orderly.once message tx awaits
        have different : ¬(word == tx) = true := by
          intro same
          rw [eq_of_beq same, isTx] at other
          exact other (channelOf_request message)
        refine ⟨isTx, buffer, ?_⟩
        rw [flight, ← List.append_assoc, List.count_append, List.count_singleton, if_neg different]
        exact count
    · cases step

theorem run_append (s : Mailbox) (first second : List MailboxEvent) :
    run depth s (first ++ second) = (run depth s first).bind fun mid => run depth mid second := List.foldlM_append

theorem run_concat : run depth s (events ++ [event]) = some s' ↔
    ∃ mid, run depth s events = some mid ∧ mid.next depth event = some s' := by
  rw [run_append, Option.bind_eq_some_iff]
  refine exists_congr fun mid => and_congr_right fun _ => ?_
  simp [run]

/-- In every run the mailbox stays orderly. -/
theorem Orderly.run (orderly : Orderly depth s) (ran : run depth s events = some s') : Orderly depth s' := by
  induction events using List.reverseRecOn generalizing s' with
  | nil =>
    cases ran
    exact orderly
  | append_singleton events event ih =>
    obtain ⟨mid, before, last⟩ := run_concat.mp ran
    exact (ih before).step last

end Mailbox

end Swink
