import Swink.Lib.Dialogue
import Swink.Vc.Mailbox

namespace Swink
open VcMailboxMessage

/-- Code that calls the VideoCore: it sends a message and gets back whether the call succeeded and
the message as the VideoCore left it. -/
abbrev VcProgram := Dialogue Fault VcMailboxMessage (Bool × VcMailboxMessage)

def vcMailboxCallSync (message : VcMailboxMessage) : VcProgram (Bool × VcMailboxMessage) := .ask message .done

def vcTagGetFirmwareRevision : BitVec 32 := 0x00000001
def vcTagGetBoardModel : BitVec 32 := 0x00010001
def vcTagGetBoardRevision : BitVec 32 := 0x00010002
def vcTagGetArmMemoryRegion : BitVec 32 := 0x00010005
def vcTagSetLedStatus : BitVec 32 := 0x00038041

/-- `message->body[idx]`. -/
def VcMailboxMessage.getBody (idx : Nat) (message : VcMailboxMessage) : Except Fault (BitVec 32) :=
  if bound : idx < vcMailboxBodyCount then .ok message.body[idx] else .error (.undefined "message->body")

/-- `VC_TAG_GET_RESPONSE_LENGTH`. -/
def vcTagGetResponseLength (responseBufferLength : BitVec 32) : Nat := (responseBufferLength &&& ~~~((1 : BitVec 32) <<< 31)).toNat

def vcFunctionsGetArmMemoryRegion : VcProgram (Option (BitVec 64 × BitVec 32)) := do
  let (tag, message) ← .lift (messageAddTag vcTagGetArmMemoryRegion 2 messageInit)
  match tag with
  | none => return none
  | some tag =>
    let (result, message) ← vcMailboxCallSync message
    if ¬result then return none else
    let length ← .lift (message.getBody (tag + 2))
    if vcTagGetResponseLength length < sizeofUint32 * 2 then return none else
    let addr ← .lift (message.getBody (tag + 3))
    let size ← .lift (message.getBody (tag + 4))
    return some (addr.setWidth 64, size)

def getTag32 (tagType : BitVec 32) : VcProgram (Option (BitVec 32)) := do
  let (tag, message) ← .lift (messageAddTag tagType 1 messageInit)
  match tag with
  | none => return none
  | some tag =>
    let (result, message) ← vcMailboxCallSync message
    if ¬result then return none else
    let length ← .lift (message.getBody (tag + 2))
    if vcTagGetResponseLength length < sizeofUint32 * 1 then return none else
    let out ← .lift (message.getBody (tag + 3))
    return some out

def vcFunctionsGetBoardModel : VcProgram (Option (BitVec 32)) := getTag32 vcTagGetBoardModel
def vcFunctionsGetBoardRevision : VcProgram (Option (BitVec 32)) := getTag32 vcTagGetBoardRevision
def vcFunctionsGetVcRevision : VcProgram (Option (BitVec 32)) := getTag32 vcTagGetFirmwareRevision

def vcFunctionsSetActivityLed (enabled : Bool) : VcProgram Bool := do
  let (tag, message) ← .lift (messageAddTag vcTagSetLedStatus 2 messageInit)
  match tag with
  | none => return false
  | some tag =>
    let message ← .lift (message.setBody (tag + 3) 130)
    let message ← .lift (message.setBody (tag + 4) (if enabled then 1 else 0))
    let (result, _) ← vcMailboxCallSync message
    return result

/-- The variables of `main` that the VideoCore fills in. -/
structure VcProperties where
  armRamBase : BitVec 64
  armRamSize : BitVec 32
  boardModel : BitVec 32
  boardRevision : BitVec 32
  videocoreFw : BitVec 32
  deriving DecidableEq

/-- The condition in `main`, with the values that its calls give. -/
def getVcProperties : VcProgram (Option VcProperties) := do
  match ← vcFunctionsGetArmMemoryRegion with
  | none => return none
  | some (armRamBase, armRamSize) =>
  match ← vcFunctionsGetBoardModel with
  | none => return none
  | some boardModel =>
  match ← vcFunctionsGetVcRevision with
  | none => return none
  | some boardRevision =>
  match ← vcFunctionsGetVcRevision with
  | none => return none
  | some videocoreFw => return some { armRamBase, armRamSize, boardModel, boardRevision, videocoreFw }

/-- The message that `debug_panic` prints, and `tried_set_activity_panic_marker`. -/
def debugPanic (triedSetActivityPanicMarker : Bool) : VcProgram (String × Bool) := do
  if triedSetActivityPanicMarker then
    return ("[warning] double panic'd, will not attempt to set LED again", triedSetActivityPanicMarker)
  else
    if ← vcFunctionsSetActivityLed true then return ("Panic LED enabled!", true)
    else return ("[warning] Failed to set panic LED!", true)

/-- `main` up to `pmap_vm_init`: what it hands on, or what its panic prints. -/
def main : VcProgram (VcProperties ⊕ String) := do
  match ← getVcProperties with
  | some properties => return .inl properties
  | none =>
    let (ledMsg, _) ← debugPanic false
    return .inr ledMsg

end Swink
