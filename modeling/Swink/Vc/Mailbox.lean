import Mathlib.Data.List.Basic
import Mathlib.Logic.Function.Basic
import Swink.Vc.Message

namespace Swink

/-- `MAILBOX_MESSAGE_MASK`, `MAILBOX_CHANNEL_AP_TO_VC` and `VC_MAILBOX_RESPONSE`. -/
def mailboxMessageMask : BitVec 64 := 0xF
def mailboxChannelApToVc : BitVec 8 := 8
def vcMailboxResponse : Nat := 0x80000000

/-- The bits of `VC_MAILBOX_STATUS`. -/
def vcMailboxFull : BitVec 32 := 0x80000000
def vcMailboxEmpty : BitVec 32 := 0x40000000

/-- `pmap_kva_to_pa`, which does not translate yet. -/
def pmapKvaToPa (kva : BitVec 64) : BitVec 64 := kva

/-- `tx_message`. -/
def txMessage (channel : BitVec 8) (message : BitVec 64) : BitVec 32 :=
  (pmapKvaToPa message &&& ~~~mailboxMessageMask ||| channel.setWidth 64 &&& mailboxMessageMask).setWidth 32

/-- What a word in the mailbox means to the VideoCore: a channel, and a message by its bus address. -/
def channelOf (word : BitVec 32) : BitVec 32 := word &&& 0xF
def bufferOf (word : BitVec 32) : BitVec 64 := (word &&& ~~~0xF).setWidth 64

/-- Where the CPU stands in `vc_mailbox_call_sync`, with the local variables it holds there. -/
inductive MailboxPc
  | outside
  /-- before it reads the status in the first loop -/
  | waitSpace (channel : BitVec 8) (message : BitVec 64)
  /-- before the assertion and the write to `VC_MAILBOX_WRITE` -/
  | send (channel : BitVec 8) (message : BitVec 64)
  /-- before it reads the status in the second loop -/
  | waitReply (message : BitVec 64) (tx : BitVec 32)
  /-- before it reads `VC_MAILBOX_READ` -/
  | read (message : BitVec 64) (tx : BitVec 32)
  /-- before it reads `message->type` -/
  | response (message : BitVec 64)
  | returned (message : BitVec 64) (result : Bool)
  /-- the assertion has failed -/
  | failed (message : BitVec 64)
  deriving DecidableEq

/-- The message of a call that has not returned. -/
def MailboxPc.pending : MailboxPc → Option (BitVec 64)
  | outside | returned _ _ => none
  | waitSpace _ message | send _ message | waitReply message _ | read message _ | response message | failed message =>
    some message

/-- The mailbox between the CPU and the VideoCore. Words wait in `requests` until the VideoCore
takes them, are in its hands in `working`, and wait in `replies` until the CPU reads them. The
messages of interrupted calls stay on their stack frames. -/
structure Mailbox where
  requests : List (BitVec 32)
  working : List (BitVec 32)
  replies : List (BitVec 32)
  messages : BitVec 64 → VcMailboxMessage
  interrupted : List (BitVec 64)
  pc : MailboxPc

/-- What the CPU and the VideoCore do. -/
inductive MailboxEvent
  /-- the CPU writes a message, outside of calls -/
  | compose (message : BitVec 64) (content : VcMailboxMessage)
  /-- it calls `vc_mailbox_call_sync`, on the channel that all callers use -/
  | call (message : BitVec 64)
  /-- it makes the next access of its call to the mailbox or the message -/
  | access
  /-- an exception takes it out of its call for good -/
  | interrupt
  /-- the VideoCore takes the oldest request -/
  | take
  /-- it answers one of those it has taken, with any message -/
  | answer (i : Nat) (content : VcMailboxMessage)
  /-- it sends a word of its own on another channel -/
  | stray (word : BitVec 32)

namespace Mailbox

/-- `*VC_MAILBOX_STATUS` for a mailbox that holds `depth` requests. -/
def status (depth : Nat) (s : Mailbox) : BitVec 32 :=
  (if s.requests.length = depth then vcMailboxFull else 0) ||| (if s.replies.isEmpty then vcMailboxEmpty else 0)

/-- The next access of a call; reading an empty mailbox has no outcome. -/
def access (depth : Nat) (s : Mailbox) : Option Mailbox :=
  match s.pc with
  | .waitSpace channel message =>
    if s.status depth &&& vcMailboxFull ≠ 0 then some s else some { s with pc := .send channel message }
  | .send channel message =>
    if message &&& ~~~mailboxMessageMask = message then
      let tx := txMessage channel message
      some { s with requests := s.requests ++ [tx], pc := .waitReply message tx }
    else some { s with pc := .failed message }
  | .waitReply message tx =>
    if s.status depth &&& vcMailboxEmpty ≠ 0 then some s else some { s with pc := .read message tx }
  | .read message tx =>
    match s.replies with
    | [] => none
    | word :: replies =>
      if tx = word then some { s with replies, pc := .response message }
      else some { s with replies, pc := .waitReply message tx }
  | .response message =>
    some { s with pc := .returned message (decide ((s.messages message).type = vcMailboxResponse)) }
  | .outside | .returned _ _ | .failed _ => none

/-- The state after an event, `none` where it cannot happen. Messages are objects in RAM, which
lies below 4 GiB, and the frames of interrupted calls are not used again. -/
def next (depth : Nat) (s : Mailbox) : MailboxEvent → Option Mailbox
  | .compose message content =>
    if s.pc.pending = none ∧ message ∉ s.interrupted then
      some { s with messages := Function.update s.messages message content }
    else none
  | .call message =>
    if s.pc.pending = none ∧ message ∉ s.interrupted ∧ message.toNat < 2 ^ 32 then
      some { s with pc := .waitSpace mailboxChannelApToVc message }
    else none
  | .access => s.access depth
  | .interrupt => some { s with pc := .outside, interrupted := s.pc.pending.toList ++ s.interrupted }
  | .take =>
    match s.requests with
    | [] => none
    | word :: requests => some { s with requests, working := s.working ++ [word] }
  | .answer i content =>
    match s.working[i]? with
    | none => none
    | some word =>
      some { s with
        working := s.working.eraseIdx i
        replies := s.replies ++ [word]
        messages := Function.update s.messages (bufferOf word) content }
  | .stray word =>
    if channelOf word ≠ mailboxChannelApToVc.setWidth 32 then some { s with replies := s.replies ++ [word] } else none

def run (depth : Nat) (s : Mailbox) (events : List MailboxEvent) : Option Mailbox := events.foldlM (next depth) s

/-- At boot only words on other channels may lie in the mailbox. -/
structure Starts (s : Mailbox) : Prop where
  requests : s.requests = []
  working : s.working = []
  replies : ∀ word ∈ s.replies, channelOf word ≠ mailboxChannelApToVc.setWidth 32
  interrupted : s.interrupted = []
  pc : s.pc = .outside

end Mailbox

end Swink
