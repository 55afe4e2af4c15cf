import Swink.Vc.Execution
import Swink.Vc.WellFormed

namespace Swink
open VcMailboxMessage Dialogue Mailbox

variable {fair : VcMailboxMessage → Bool × VcMailboxMessage → Prop} {said : List (VcMailboxMessage × Bool × VcMailboxMessage)}

/-- A message with a single tag, right behind the header. -/
def OneTag (tagType : BitVec 32) (slots : Nat) (message : VcMailboxMessage) : Prop :=
  WellFormed [⟨0, tagType, slots⟩] message

theorem messageAddTag_init {tagType : BitVec 32} {slots : Nat} (nonzero : tagType ≠ 0) (fits : slots ≤ 28) :
    ∃ message, messageAddTag tagType slots messageInit = .ok (some 0, message) ∧ Formed [⟨0, tagType, slots⟩] message := by
  have count : vcMailboxBodyCount = 32 := rfl
  have none : messageInit.usedWords = 0 := by decide
  obtain ⟨message, run, formed⟩ := formed_messageInit.add nonzero (show messageInit.usedWords + 3 + slots + 1 ≤ vcMailboxBodyCount by omega)
  rw [none] at run formed
  exact ⟨message, run, formed⟩

theorem getBody_of_lt {idx : Nat} (bound : idx < vcMailboxBodyCount) (message : VcMailboxMessage) :
    message.getBody idx = .ok message.body[idx] := dif_pos bound

/-- The value of a tag with one slot, if the call succeeded and the response is long enough. -/
def value32 (reply : Bool × VcMailboxMessage) : Option (BitVec 32) :=
  if reply.1 = true ∧ 4 ≤ vcTagGetResponseLength (reply.2.body.get ⟨2, by decide⟩) then some (reply.2.body.get ⟨3, by decide⟩) else none

/-- The same with two slots, an address and a size. -/
def region (reply : Bool × VcMailboxMessage) : Option (BitVec 64 × BitVec 32) :=
  if reply.1 = true ∧ 8 ≤ vcTagGetResponseLength (reply.2.body.get ⟨2, by decide⟩) then
    some ((reply.2.body.get ⟨3, by decide⟩).setWidth 64, reply.2.body.get ⟨4, by decide⟩)
  else none

theorem getTag32_meets {tagType : BitVec 32} (nonzero : tagType ≠ 0) :
    (getTag32 tagType).Meets fair (fun after result => ∃ message reply, after = said ++ [(message, reply)] ∧
      OneTag tagType 1 message ∧ fair message reply ∧ result = value32 reply) said := by
  obtain ⟨message, run, formed⟩ := messageAddTag_init nonzero (show 1 ≤ 28 by decide)
  rw [getTag32, run, lift_ok, done_bind]
  refine Meets.bind (Meets.ask fun reply related => ?_)
  obtain ⟨result, answer⟩ := reply
  have asked : OneTag tagType 1 message := formed.wellFormed
  cases result with
  | false => exact ⟨message, _, rfl, asked, related, by simp [value32]⟩
  | true =>
    simp only [Meets, getBody_of_lt (show 0 + 2 < vcMailboxBodyCount by decide),
      getBody_of_lt (show 0 + 3 < vcMailboxBodyCount by decide), lift_ok, done_bind, not_true_eq_false, if_false]
    split
    · next short => exact ⟨message, _, rfl, asked, related, (if_neg fun enough => absurd enough.2 (Nat.not_le.mpr short)).symm⟩
    · next long => exact ⟨message, _, rfl, asked, related, (if_pos ⟨rfl, Nat.not_lt.mp long⟩).symm⟩

theorem vcFunctionsGetArmMemoryRegion_meets :
    vcFunctionsGetArmMemoryRegion.Meets fair (fun after result => ∃ message reply, after = said ++ [(message, reply)] ∧
      OneTag vcTagGetArmMemoryRegion 2 message ∧ fair message reply ∧ result = region reply) said := by
  obtain ⟨message, run, formed⟩ :=
    messageAddTag_init (show vcTagGetArmMemoryRegion ≠ 0 by decide) (show 2 ≤ 28 by decide)
  rw [vcFunctionsGetArmMemoryRegion, run, lift_ok, done_bind]
  refine Meets.bind (Meets.ask fun reply related => ?_)
  obtain ⟨result, answer⟩ := reply
  have asked : OneTag vcTagGetArmMemoryRegion 2 message := formed.wellFormed
  cases result with
  | false => exact ⟨message, _, rfl, asked, related, by simp [region]⟩
  | true =>
    simp only [Meets, getBody_of_lt (show 0 + 2 < vcMailboxBodyCount by decide),
      getBody_of_lt (show 0 + 3 < vcMailboxBodyCount by decide),
      getBody_of_lt (show 0 + 4 < vcMailboxBodyCount by decide), lift_ok, done_bind, not_true_eq_false, if_false]
    split
    · next short => exact ⟨message, _, rfl, asked, related, (if_neg fun enough => absurd enough.2 (Nat.not_le.mpr short)).symm⟩
    · next long => exact ⟨message, _, rfl, asked, related, (if_pos ⟨rfl, Nat.not_lt.mp long⟩).symm⟩

/-- The message asks for the status LED to be switched. -/
def AsksLed (enabled : Bool) (message : VcMailboxMessage) : Prop :=
  OneTag vcTagSetLedStatus 2 message ∧ message.body.get ⟨3, by decide⟩ = 130 ∧
    message.body.get ⟨4, by decide⟩ = if enabled then 1 else 0

theorem vcFunctionsSetActivityLed_meets (enabled : Bool) :
    (vcFunctionsSetActivityLed enabled).Meets fair (fun after result => ∃ message reply,
      after = said ++ [(message, reply)] ∧ AsksLed enabled message ∧ fair message reply ∧ result = reply.1) said := by
  obtain ⟨message, run, formed⟩ := messageAddTag_init (show vcTagSetLedStatus ≠ 0 by decide) (show 2 ≤ 28 by decide)
  have led := setBody_of_lt (show 0 + 3 < vcMailboxBodyCount by decide) 130 message
  have state := setBody_of_lt (show 0 + 4 < vcMailboxBodyCount by decide) (if enabled then 1 else 0)
    { message with body := message.body.set (0 + 3) 130 }
  have formed := (formed.write (List.mem_singleton.mpr rfl) (show 0 < 2 by decide) led).write
    (List.mem_singleton.mpr rfl) (show 1 < 2 by decide) state
  rw [vcFunctionsSetActivityLed, run, lift_ok, done_bind]
  simp only [led, lift_ok, done_bind, state]
  refine Meets.bind (Meets.ask fun reply related => ?_)
  refine ⟨_, reply, rfl, ⟨formed.wellFormed, ?_, ?_⟩, related, rfl⟩
  · exact (Vector.getElem_set_ne (by decide) (by decide) (by decide)).trans (Vector.getElem_set_self (by decide))
  · exact Vector.getElem_set_self (by decide)

/-- Every fair reply to a message with that tag has the value. -/
def Tells {β : Type} (fair : VcMailboxMessage → Bool × VcMailboxMessage → Prop) (tagType : BitVec 32) (slots : Nat)
    (read : Bool × VcMailboxMessage → Option β) (value : β) : Prop :=
  ∀ message reply, OneTag tagType slots message → fair message reply → read reply = some value

/-- All messages have a single tag. -/
def Asks (said : List (VcMailboxMessage × Bool × VcMailboxMessage)) : Prop :=
  ∀ entry ∈ said, ∃ tag, WellFormed [tag] entry.1

theorem Asks.concat (asks : Asks said) {message : VcMailboxMessage} {tagType : BitVec 32} {slots : Nat}
    (one : OneTag tagType slots message) (reply : Bool × VcMailboxMessage) : Asks (said ++ [(message, reply)]) := by
  intro entry member
  rcases List.mem_append.mp member with old | last
  · exact asks entry old
  · rw [List.mem_singleton.mp last]
    exact ⟨_, one⟩

theorem getVcProperties_meets : getVcProperties.Meets fair (fun after result => Asks after ∧ after.length ≤ 4 ∧
    ∀ base size model fw, Tells fair vcTagGetArmMemoryRegion 2 region (base, size) →
      Tells fair vcTagGetBoardModel 1 value32 model → Tells fair vcTagGetFirmwareRevision 1 value32 fw →
      result = some ⟨base, size, model, fw, fw⟩) [] := by
  refine Meets.bind (vcFunctionsGetArmMemoryRegion_meets.mono ?_)
  rintro _ _ ⟨m₁, r₁, rfl, one₁, fair₁, rfl⟩
  have asks₁ : Asks ([] ++ [(m₁, r₁)]) := Asks.concat (by simp [Asks]) one₁ r₁
  cases read₁ : region r₁ with
  | none =>
    refine ⟨asks₁, by simp, fun base size model fw tells₁ _ _ => ?_⟩
    exact absurd (read₁.symm.trans (tells₁ m₁ r₁ one₁ fair₁)) (by simp)
  | some pair =>
  refine Meets.bind ((getTag32_meets (by decide)).mono ?_)
  rintro _ _ ⟨m₂, r₂, rfl, one₂, fair₂, rfl⟩
  have asks₂ := asks₁.concat one₂ r₂
  cases read₂ : value32 r₂ with
  | none =>
    refine ⟨asks₂, by simp, fun base size model fw _ tells₂ _ => ?_⟩
    exact absurd (read₂.symm.trans (tells₂ m₂ r₂ one₂ fair₂)) (by simp)
  | some model' =>
  refine Meets.bind ((getTag32_meets (by decide)).mono ?_)
  rintro _ _ ⟨m₃, r₃, rfl, one₃, fair₃, rfl⟩
  have asks₃ := asks₂.concat one₃ r₃
  cases read₃ : value32 r₃ with
  | none =>
    refine ⟨asks₃, by simp, fun base size model fw _ _ tells₃ => ?_⟩
    exact absurd (read₃.symm.trans (tells₃ m₃ r₃ one₃ fair₃)) (by simp)
  | some revision =>
  refine Meets.bind ((getTag32_meets (by decide)).mono ?_)
  rintro _ _ ⟨m₄, r₄, rfl, one₄, fair₄, rfl⟩
  have asks₄ := asks₃.concat one₄ r₄
  cases read₄ : value32 r₄ with
  | none =>
    refine ⟨asks₄, by simp, fun base size model fw _ _ tells₃ => ?_⟩
    exact absurd (read₄.symm.trans (tells₃ m₄ r₄ one₄ fair₄)) (by simp)
  | some firmware =>
    refine ⟨asks₄, by simp, fun base size model fw tells₁ tells₂ tells₃ => ?_⟩
    have same₁ := read₁.symm.trans (tells₁ m₁ r₁ one₁ fair₁)
    have same₂ := read₂.symm.trans (tells₂ m₂ r₂ one₂ fair₂)
    have same₃ := read₃.symm.trans (tells₃ m₃ r₃ one₃ fair₃)
    have same₄ := read₄.symm.trans (tells₃ m₄ r₄ one₄ fair₄)
    cases same₁
    cases same₂
    cases same₃
    cases same₄
    rfl

/-- What the last line of a panic says about a message that asked for the LED. -/
def PanicTells (said : List (VcMailboxMessage × Bool × VcMailboxMessage)) (ledMsg : String) : Prop :=
  ∃ before message reply, said = before ++ [(message, reply)] ∧ AsksLed true message ∧
    ledMsg = if reply.1 then "Panic LED enabled!" else "[warning] Failed to set panic LED!"

theorem main_meets : main.Meets fair (fun after result => Asks after ∧ after.length ≤ 5 ∧
    (∀ ledMsg, result = .inr ledMsg → PanicTells after ledMsg) ∧
    ∀ base size model fw, Tells fair vcTagGetArmMemoryRegion 2 region (base, size) →
      Tells fair vcTagGetBoardModel 1 value32 model → Tells fair vcTagGetFirmwareRevision 1 value32 fw →
      result = .inl ⟨base, size, model, fw, fw⟩) [] := by
  refine Meets.bind (getVcProperties_meets.mono ?_)
  rintro said (_ | properties) ⟨asks, few, tells⟩
  · refine Meets.bind (Meets.bind ((vcFunctionsSetActivityLed_meets true).mono ?_))
    rintro _ _ ⟨message, reply, rfl, led, -, rfl⟩
    have failed : ∀ base size model fw, Tells fair vcTagGetArmMemoryRegion 2 region (base, size) →
        Tells fair vcTagGetBoardModel 1 value32 model → ¬Tells fair vcTagGetFirmwareRevision 1 value32 fw :=
      fun base size model fw tells₁ tells₂ tells₃ => absurd (tells base size model fw tells₁ tells₂ tells₃) (by simp)
    have few' : (said ++ [(message, reply)]).length ≤ 5 := by
      rw [List.length_append, List.length_singleton]
      omega
    cases success : reply.1 with
    | false =>
      refine ⟨asks.concat led.1 reply, few', ?_, fun base size model fw tells₁ tells₂ tells₃ => (failed base size model fw tells₁ tells₂ tells₃).elim⟩
      rintro _ ⟨⟩
      exact ⟨said, message, reply, rfl, led, by rw [success]; rfl⟩
    | true =>
      refine ⟨asks.concat led.1 reply, few', ?_, fun base size model fw tells₁ tells₂ tells₃ => (failed base size model fw tells₁ tells₂ tells₃).elim⟩
      rintro _ ⟨⟩
      exact ⟨said, message, reply, rfl, led, by rw [success]; rfl⟩
  · refine ⟨asks, by omega, ?_, fun base size model fw tells₁ tells₂ tells₃ => ?_⟩
    · rintro _ ⟨⟩
    · rw [Option.some.inj (tells base size model fw tells₁ tells₂ tells₃)]

/-- The property interface: the VideoCore marks the message and the tag that it knows, with the
length of the value, and writes as much of the value as there are slots for. -/
def Conforms (values : BitVec 32 → Option (List (BitVec 32))) (message reply : VcMailboxMessage) : Prop :=
  ∀ tagType slots value, OneTag tagType slots message → values tagType = some value →
    reply.type = vcMailboxResponse ∧ reply.body.get ⟨2, by decide⟩ = BitVec.ofNat 32 (2 ^ 31 + sizeofUint32 * value.length) ∧
      ∀ i, i < slots → i < value.length → reply.body[3 + i]? = value[i]?

theorem response_length {length : Nat} (small : length < 2 ^ 31) :
    vcTagGetResponseLength (BitVec.ofNat 32 (2 ^ 31 + length)) = length := by
  have mask : ~~~((1 : BitVec 32) <<< 31) = BitVec.ofNat 32 (2 ^ 31 - 1) := by decide
  rw [vcTagGetResponseLength, mask, BitVec.toNat_and, BitVec.toNat_ofNat, BitVec.toNat_ofNat,
    Nat.mod_eq_of_lt (show 2 ^ 31 - 1 < 2 ^ 32 by decide), Nat.and_two_pow_sub_one_eq_mod]
  omega

section Tells
variable {values : BitVec 32 → Option (List (BitVec 32))} {answers : VcMailboxMessage → VcMailboxMessage → Prop}
  (conforms : ∀ message reply, answers message reply → Conforms values message reply)
include conforms

theorem tells_value32 {tagType value : BitVec 32} (known : values tagType = some [value]) :
    Tells (Received answers) tagType 1 value32 value := by
  intro message ⟨result, reply⟩ one ⟨related, success⟩
  obtain ⟨type, length, words⟩ := conforms message reply related tagType 1 [value] one known
  have word := words 0 (by decide) (Nat.lt_add_one 0)
  rw [Vector.getElem?_eq_getElem (show 3 + 0 < vcMailboxBodyCount by decide)] at word
  have told : vcTagGetResponseLength (reply.body.get ⟨2, by decide⟩) = 4 :=
    (congrArg vcTagGetResponseLength length).trans (response_length (show 4 < 2 ^ 31 by decide))
  rw [value32, if_pos ⟨success.trans (decide_eq_true type), told.ge⟩]
  exact word

theorem tells_region {base size : BitVec 32} (known : values vcTagGetArmMemoryRegion = some [base, size]) :
    Tells (Received answers) vcTagGetArmMemoryRegion 2 region (base.setWidth 64, size) := by
  intro message ⟨result, reply⟩ one ⟨related, success⟩
  obtain ⟨type, length, words⟩ := conforms message reply related vcTagGetArmMemoryRegion 2 [base, size] one known
  have first := words 0 (by decide) Nat.zero_lt_two
  have second := words 1 (by decide) Nat.one_lt_two
  rw [Vector.getElem?_eq_getElem (show 3 + 0 < vcMailboxBodyCount by decide)] at first
  rw [Vector.getElem?_eq_getElem (show 3 + 1 < vcMailboxBodyCount by decide)] at second
  have told : vcTagGetResponseLength (reply.body.get ⟨2, by decide⟩) = 8 :=
    (congrArg vcTagGetResponseLength length).trans (response_length (show 8 < 2 ^ 31 by decide))
  rw [region, if_pos ⟨success.trans (decide_eq_true type), told.ge⟩]
  rw [show reply.body.get ⟨3, by decide⟩ = base from Option.some.inj first,
    show reply.body.get ⟨4, by decide⟩ = size from Option.some.inj second]

end Tells

theorem OneTag.header {tagType : BitVec 32} {slots : Nat} {message : VcMailboxMessage} (one : OneTag tagType slots message) :
    message.body.get ⟨0, by decide⟩ = tagType ∧ (message.body.get ⟨1, by decide⟩).toNat = sizeofUint32 * slots ∧
      3 + slots < vcMailboxBodyCount := by
  obtain ⟨tags, bound, -⟩ := one
  have entry : tagAt message.body 0 = if message.body.get ⟨0, by decide⟩ = 0 then some none else
      some (some ⟨message.body.get ⟨0, by decide⟩, (message.body.get ⟨1, by decide⟩).toNat⟩) := by
    rw [tagAt, Vector.getElem?_eq_getElem (show 0 < vcMailboxBodyCount by decide),
      Vector.getElem?_eq_getElem (show 0 + 1 < vcMailboxBodyCount by decide)]
    rfl
  rw [readTags, Records.walk, entry] at tags
  split at tags <;> rename_i read
  · cases tags
  · cases tags
  · split at read
    · cases read
    · cases read
      obtain ⟨⟨rest, last⟩, walked, same⟩ := Option.bind_eq_some_iff.mp tags
      obtain ⟨list, rfl⟩ := Prod.ext_iff.mp (Option.some.inj same)
      obtain ⟨first, rfl⟩ := List.cons.inj list
      obtain ⟨type, length⟩ := TagHeader.mk.inj (Prod.ext_iff.mp first).2
      refine ⟨type, length, ?_⟩
      change Records.walk _ _ (31 + 1) _ = _ at walked
      rw [Records.walk] at walked
      split at walked
      · cases walked
      · have last : 0 + TagHeader.words ⟨_, _⟩ = message.usedWords := (Prod.ext_iff.mp (Option.some.inj walked)).2
        rw [TagHeader.words, length] at last
        simp only [sizeofUint32] at last
        omega
      · obtain ⟨more, -, impossible⟩ := Option.bind_eq_some_iff.mp walked
        cases impossible

/-- A VideoCore that follows the property interface for messages with one tag. -/
def propertyReply (values : BitVec 32 → Option (List (BitVec 32))) (message : VcMailboxMessage) : VcMailboxMessage :=
  match values (message.body.get ⟨0, by decide⟩) with
  | none => { message with type := vcMailboxResponse }
  | some value =>
    { message with
      type := vcMailboxResponse
      body := Vector.ofFn fun i =>
        if i.val = 2 then BitVec.ofNat 32 (2 ^ 31 + sizeofUint32 * value.length)
        else if 3 ≤ i.val ∧ i.val < 3 + (message.body.get ⟨1, by decide⟩).toNat / sizeofUint32 then
          value[i.val - 3]?.getD message.body[i]
        else message.body[i] }

theorem propertyReply_conforms (values : BitVec 32 → Option (List (BitVec 32))) (message : VcMailboxMessage) :
    Conforms values message (propertyReply values message) := by
  intro tagType slots value one known
  obtain ⟨type, length, fits⟩ := one.header
  have slotsOf : (message.body.get ⟨1, by decide⟩).toNat / sizeofUint32 = slots := by
    rw [length]
    exact Nat.mul_div_cancel_left _ (by decide)
  rw [← type] at known
  simp only [propertyReply, known]
  refine ⟨trivial, (Vector.getElem_ofFn (by decide)).trans (if_pos rfl), fun i inSlots inValue => ?_⟩
  have bound : 3 + i < vcMailboxBodyCount := by omega
  have behind : ¬3 + i = 2 := by omega
  have within : 3 ≤ 3 + i ∧ 3 + i < 3 + (message.body.get ⟨1, by decide⟩).toNat / sizeofUint32 := by omega
  rw [Vector.getElem?_eq_getElem bound, Vector.getElem_ofFn, if_neg behind, if_pos within, Nat.add_sub_cancel_left,
    List.getElem?_eq_getElem inValue, Option.getD_some]

/-- Whatever calls came before and whatever the VideoCore answers, `main` reaches the point where it
has its properties or panics, after at most five messages with one well-formed tag each, and reads no
message out of bounds. It hands on the values that the VideoCore has for the tags if it follows the
property interface, where the board revision is the firmware's; a panic says whether its last message
switched the LED on. -/
theorem boot_reads_properties {depth : Nat} {start s s' : Mailbox} {before : List MailboxEvent} (starts : start.Starts)
    (reached : run depth start before = some s) {answers : VcMailboxMessage → VcMailboxMessage → Prop}
    {values : BitVec 32 → Option (List (BitVec 32))}
    (conforms : ∀ message reply, answers message reply → Conforms values message reply)
    {log : List (VcMailboxMessage × Bool × VcMailboxMessage)} {outcome : Except Fault (VcProperties ⊕ String)}
    (executes : Executes depth answers s main log outcome s') :
    ∃ result, outcome = .ok result ∧ Asks log ∧ log.length ≤ 5 ∧ (∀ ledMsg, result = .inr ledMsg → PanicTells log ledMsg) ∧
      ∀ base size model fw, values vcTagGetArmMemoryRegion = some [base, size] → values vcTagGetBoardModel = some [model] →
        values vcTagGetFirmwareRevision = some [fw] → result = .inl ⟨base.setWidth 64, size, model, fw, fw⟩ := by
  obtain ⟨plays, received, -⟩ := (starts.orderly.run reached).plays executes
  obtain ⟨result, same, asks, few, panics, tells⟩ := main_meets.holds plays received
  refine ⟨result, same, asks, few, panics, fun base size model fw known₁ known₂ known₃ => ?_⟩
  exact tells _ _ _ _ (tells_region conforms known₁) (tells_value32 conforms known₂) (tells_value32 conforms known₃)

def boardValues (tagType : BitVec 32) : Option (List (BitVec 32)) :=
  if tagType = vcTagGetArmMemoryRegion then some [0, 0x3c000000]
  else if tagType = vcTagGetBoardModel then some [3]
  else if tagType = vcTagGetFirmwareRevision then some [0x5fc3b7e1]
  else none

theorem boot_reads_properties_sample :
    ∃ log outcome s', Executes 8 (fun message reply => reply = propertyReply boardValues message)
        (⟨[], [], [], fun _ => messageInit, [], .outside⟩ : Mailbox) main log outcome s' ∧ log.length ≤ 5 ∧
      outcome = .ok (.inl ⟨0, 0x3c000000, 3, 0x5fc3b7e1, 0x5fc3b7e1⟩) := by
  have starts : (⟨[], [], [], fun _ => messageInit, [], .outside⟩ : Mailbox).Starts := ⟨rfl, rfl, by simp, rfl, rfl⟩
  have quiet : Quiet 0x1000 (⟨[], [], [], fun _ => messageInit, [], .outside⟩ : Mailbox) := ⟨rfl, rfl, rfl, rfl, by simp⟩
  obtain ⟨log, outcome, s', executes⟩ := Quiet.executes (by decide) (by decide) (propertyReply boardValues) main quiet
  obtain ⟨result, same, -, few, -, reads⟩ := boot_reads_properties starts (show run 8 _ [] = some _ from rfl)
    (fun message reply same => same ▸ propertyReply_conforms boardValues message) executes
  refine ⟨log, outcome, s', executes, few, ?_⟩
  rw [same, reads 0 0x3c000000 3 0x5fc3b7e1 (by decide) (by decide) (by decide)]
  rfl

end Swink
