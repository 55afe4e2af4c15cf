import Swink.Lib.Records
import Swink.Machine.Fault
import Swink.Machine.Word

namespace Swink

/-- `VC_MAILBOX_BODY_COUNT` and `MAILBOX_MESSAGE_TYPE_REQUEST`. -/
def vcMailboxBodyCount : Nat := 32
def mailboxMessageTypeRequest : Nat := 0

/-- `sizeof(uint32_t)`. -/
def sizeofUint32 : Nat := 4

/-- `struct vc_mailbox_message`. -/
structure VcMailboxMessage where
  length : Nat
  type : Nat
  body : Vector (BitVec 32) vcMailboxBodyCount

namespace VcMailboxMessage

/-- `message->body[idx] = word`. -/
def setBody (idx : Nat) (word : BitVec 32) (message : VcMailboxMessage) : Except Fault VcMailboxMessage :=
  if bound : idx < vcMailboxBodyCount then .ok { message with body := message.body.set idx word }
  else .error (.undefined "message->body")

end VcMailboxMessage

def messageInit : VcMailboxMessage where
  length := sizeofUint32 * (2 + 1)
  type := mailboxMessageTypeRequest
  body := Vector.replicate vcMailboxBodyCount 0

/-- The index of the new tag in the body, or nothing for `NULL`, and the message. -/
def messageAddTag (tagType : BitVec 32) (slots : Nat) (message : VcMailboxMessage) :
    Except Fault (Option Nat × VcMailboxMessage) :=
  let usedSlots := u32 (sub64 (message.length / sizeofUint32) 3)
  if u32 (u32 (usedSlots + 3) + slots) ≥ vcMailboxBodyCount then .ok (none, message) else do
    let message := { message with length := u32 (message.length + u64 (sizeofUint32 * u32 (3 + slots))) }
    -- `tag->tag` and `tag->request_buffer_length`
    let message ← message.setBody usedSlots tagType
    let message ← message.setBody (usedSlots + 1) (BitVec.ofNat 32 (u32 (sizeofUint32 * slots)))
    .ok (some usedSlots, message)

/-- The header of a tag in the property-interface format: its type and the length of its value in
bytes. The value follows the code word and fills whole words. -/
structure TagHeader where
  type : BitVec 32
  valueLength : Nat
  deriving DecidableEq

def TagHeader.words (header : TagHeader) : Nat := 3 + (header.valueLength + 3) / 4

/-- What stands at a position of the body: nothing, the end tag or the header of a tag. -/
def tagAt (body : Vector (BitVec 32) vcMailboxBodyCount) (pos : Nat) : Option (Option TagHeader) := do
  let type ← body[pos]?
  if type = 0 then some none else
  let length ← body[pos + 1]?
  some (some ⟨type, length.toNat⟩)

/-- The tags of a message with their positions, and the position of the end tag. -/
def readTags (message : VcMailboxMessage) : Option (List (Nat × TagHeader) × Nat) :=
  Records.walk TagHeader.words (tagAt message.body) (vcMailboxBodyCount + 1) 0

example : ((messageAddTag 1 2 messageInit).toOption.bind fun added => readTags added.2) =
    some ([(0, ⟨1, 8⟩)], 5) := by decide

end Swink
