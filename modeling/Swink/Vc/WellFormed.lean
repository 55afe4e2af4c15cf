import Swink.Vc.Message

namespace Swink

/-- A tag that was added: its index in the body, its type and its value words. -/
structure AddedTag where
  pos : Nat
  type : BitVec 32
  slots : Nat

/-- The header that a reader should find for a tag. -/
def AddedTag.expected (tag : AddedTag) : Nat × TagHeader := (tag.pos, ⟨tag.type, sizeofUint32 * tag.slots⟩)

namespace VcMailboxMessage
open Records

/-- The words of the body that `length` counts, without the end tag. -/
def usedWords (message : VcMailboxMessage) : Nat := message.length / sizeofUint32 - 3

/-- The 32-bit sum by which `message_add_tag` decides does not wrap around to one that fits. -/
def SumTells (slots : Nat) (message : VcMailboxMessage) : Prop :=
  message.usedWords + 3 + slots < 2 ^ 32 ∨ 2 ^ 32 + vcMailboxBodyCount ≤ message.usedWords + 3 + slots

/-- The messages made by adding tags and by writing to the values of added tags, where every tag is
added under a condition on its number of slots and on the message before it. -/
inductive Run (condition : Nat → VcMailboxMessage → Prop) : List AddedTag → VcMailboxMessage → Prop
  | init : Run condition [] messageInit
  | null {added message message'} {tagType : BitVec 32} {slots : Nat} (run : Run condition added message)
      (nonzero : tagType ≠ 0) (slotsLt : slots < 2 ^ 32) (allowed : condition slots message)
      (call : messageAddTag tagType slots message = .ok (none, message')) : Run condition added message'
  | add {added message message'} {tagType : BitVec 32} {slots pos : Nat} (run : Run condition added message)
      (nonzero : tagType ≠ 0) (slotsLt : slots < 2 ^ 32) (allowed : condition slots message)
      (call : messageAddTag tagType slots message = .ok (some pos, message')) :
      Run condition (added ++ [⟨pos, tagType, slots⟩]) message'
  | write {added message message'} {tag : AddedTag} {i : Nat} {word : BitVec 32} (run : Run condition added message)
      (member : tag ∈ added) (within : i < tag.slots) (stored : message.setBody (tag.pos + 3 + i) word = .ok message') :
      Run condition added message'

/-- A reader finds the added tags in order and then the end tag, at the position that `length`
counts to. -/
def WellFormed (added : List AddedTag) (message : VcMailboxMessage) : Prop :=
  readTags message = some (added.map AddedTag.expected, message.usedWords) ∧
    message.usedWords < vcMailboxBodyCount ∧ message.length = sizeofUint32 * (2 + message.usedWords + 1)

/-- What adding a tag should do: return `NULL` and change nothing when the tag and the end tag do not
fit any more, and otherwise add the tag. -/
def AddsTag (added : List AddedTag) (tagType : BitVec 32) (slots : Nat) (message : VcMailboxMessage) : Prop :=
  if message.usedWords + 3 + slots + 1 > vcMailboxBodyCount then
    messageAddTag tagType slots message = .ok (none, message)
  else ∃ after, messageAddTag tagType slots message = .ok (some message.usedWords, after) ∧
    WellFormed (added ++ [⟨message.usedWords, tagType, slots⟩]) after

/-- The layout behind a well-formed message: the tags fill the used words, and all words behind them
are clear. -/
structure Formed (added : List AddedTag) (message : VcMailboxMessage) : Prop where
  laid : Laid TagHeader.words (tagAt message.body) 0 (added.map AddedTag.expected) message.usedWords
  fits : message.usedWords < vcMailboxBodyCount
  clear : ∀ i, message.usedWords ≤ i → ∀ word, message.body[i]? = some word → word = 0
  length : message.length = sizeofUint32 * (2 + message.usedWords + 1)

variable {message message' : VcMailboxMessage} {added : List AddedTag}

theorem words_expected (tag : AddedTag) : tag.expected.2.words = 3 + tag.slots := by
  simp only [AddedTag.expected, TagHeader.words, sizeofUint32]
  omega

/-- The end tag is the first clear word. -/
theorem Formed.tagAt_end (formed : Formed added message) : tagAt message.body message.usedWords = some none := by
  have bound := formed.fits
  have word := formed.clear _ le_rfl _ (Vector.getElem?_eq_getElem bound)
  simp [tagAt, Vector.getElem?_eq_getElem bound, word]

theorem Formed.wellFormed (formed : Formed added message) : WellFormed added message := by
  have few := formed.laid.length_le fun header => Nat.add_pos_left (by decide) _
  have bound := formed.fits
  exact ⟨formed.laid.walk_eq formed.tagAt_end (by omega), bound, formed.length⟩

theorem formed_messageInit : Formed [] messageInit where
  laid := .done 0
  fits := by decide
  clear i _ word stored := by
    obtain ⟨bound, rfl⟩ := Vector.getElem?_eq_some_iff.mp stored
    exact Vector.getElem_replicate ..
  length := by decide

theorem setBody_of_lt {idx : Nat} (bound : idx < vcMailboxBodyCount) (word : BitVec 32) (message : VcMailboxMessage) :
    message.setBody idx word = .ok { message with body := message.body.set idx word } := dif_pos bound

/-- A header depends on its first two words. -/
theorem tagAt_congr {body body' : Vector (BitVec 32) vcMailboxBodyCount} {pos : Nat} (first : body'[pos]? = body[pos]?)
    (second : body'[pos + 1]? = body[pos + 1]?) : tagAt body' pos = tagAt body pos := by
  rw [tagAt, tagAt, first, second]

/-- Writing to the value of a tag keeps the layout. -/
theorem Formed.write (formed : Formed added message) {tag : AddedTag} {i : Nat} {word : BitVec 32}
    (member : tag ∈ added) (within : i < tag.slots) (stored : message.setBody (tag.pos + 3 + i) word = .ok message') :
    Formed added message' := by
  have inLayout := List.mem_map_of_mem (f := AddedTag.expected) member
  have ends : tag.pos + tag.expected.2.words ≤ message.usedWords := (formed.laid.within inLayout).2
  have fits := formed.fits
  rw [words_expected] at ends
  have bound : tag.pos + 3 + i < vcMailboxBodyCount := by omega
  rw [setBody_of_lt bound] at stored
  cases stored
  refine ⟨formed.laid.congr fun start header other => ?_, formed.fits, fun j past w => ?_, formed.length⟩
  · -- the header of another tag lies before or behind the value
    have apart : tag.expected = (start, header) ∨ tag.pos + tag.expected.2.words ≤ start ∨
        start + header.words ≤ tag.pos := formed.laid.apart inLayout other
    rw [words_expected] at apart
    have positive : 3 ≤ header.words := Nat.le_add_right ..
    have clear : tag.pos + 3 + i ≠ start ∧ tag.pos + 3 + i ≠ start + 1 := by
      rcases apart with same | before | behind
      · obtain rfl : tag.pos = start := congrArg Prod.fst same
        omega
      · omega
      · omega
    refine tagAt_congr ?_ ?_
    · rw [Vector.getElem?_set, if_neg clear.1]
    · rw [Vector.getElem?_set, if_neg clear.2]
  · have past : message.usedWords ≤ j := past
    rw [Vector.getElem?_set, if_neg (by omega)]
    exact formed.clear j past w

/-- `used_slots` of `message_add_tag`. -/
theorem Formed.usedSlots_eq (formed : Formed added message) :
    u32 (sub64 (message.length / sizeofUint32) 3) = message.usedWords := by
  have fits := formed.fits
  have length := formed.length
  unfold vcMailboxBodyCount at fits
  rw [length]
  simp only [sizeofUint32, sub64, u32, u64]
  omega

/-- A tag that fits is added behind the others. -/
theorem Formed.add (formed : Formed added message) {tagType : BitVec 32} {slots : Nat} (nonzero : tagType ≠ 0)
    (fits : message.usedWords + 3 + slots + 1 ≤ vcMailboxBodyCount) :
    ∃ after, messageAddTag tagType slots message = .ok (some message.usedWords, after) ∧
      Formed (added ++ [⟨message.usedWords, tagType, slots⟩]) after := by
  have count : vcMailboxBodyCount = 32 := rfl
  set used := message.usedWords with usedEq
  let length := BitVec.ofNat 32 (u32 (sizeofUint32 * slots))
  let body := (message.body.set used tagType).set (used + 1) length
  let after : VcMailboxMessage :=
    { message with
      length := sizeofUint32 * (2 + (used + 3 + slots) + 1)
      body := body }
  have usedAfter : after.usedWords = used + 3 + slots := by
    show 4 * (2 + (used + 3 + slots) + 1) / 4 - 3 = used + 3 + slots
    omega
  have word (i : Nat) : body[i]? = if used + 1 = i then some length else if used = i then some tagType
      else message.body[i]? := by
    rw [Vector.getElem?_set, Vector.getElem?_set]
  have header : tagAt body used = some (some ⟨tagType, sizeofUint32 * slots⟩) := by
    have value : length.toNat = sizeofUint32 * slots := by
      rw [BitVec.toNat_ofNat, u32, Nat.mod_mod]
      exact Nat.mod_eq_of_lt (show 4 * slots < 2 ^ 32 by omega)
    have regular : ¬tagType = 0#32 := nonzero
    simp [tagAt, word, regular, value]
  refine ⟨after, ?_, ?_, ?_, fun i past w stored => ?_, ?_⟩
  · have grown : u32 (message.length + u64 (sizeofUint32 * u32 (3 + slots))) =
        sizeofUint32 * (2 + (used + 3 + slots) + 1) := by
      rw [formed.length, ← usedEq]
      simp only [sizeofUint32, u32, u64]
      omega
    rw [messageAddTag, formed.usedSlots_eq, ← usedEq, u32_of_lt (n := used + 3) (by omega), u32_of_lt (by omega),
      if_neg (by omega), grown]
    dsimp only
    rw [setBody_of_lt (show used < vcMailboxBodyCount by omega), ok_bind,
      setBody_of_lt (show used + 1 < vcMailboxBodyCount by omega)]
    rfl
  · have kept : Laid TagHeader.words (tagAt body) 0 (added.map AddedTag.expected) used :=
      formed.laid.congr fun start other member => by
        have before : start + other.words ≤ used := (formed.laid.within member).2
        have positive : 3 ≤ other.words := Nat.le_add_right ..
        refine tagAt_congr ?_ ?_
        · rw [word, if_neg (by omega), if_neg (by omega)]
        · rw [word, if_neg (by omega), if_neg (by omega)]
    have longer := kept.snoc header
    rw [List.map_append, usedAfter]
    have size := words_expected ⟨used, tagType, slots⟩
    simp only [AddedTag.expected] at size longer ⊢
    rw [size, ← Nat.add_assoc] at longer
    exact longer
  · omega
  · have past : used + 3 + slots ≤ i := usedAfter ▸ past
    have stored : body[i]? = some w := stored
    rw [word, if_neg (by omega), if_neg (by omega)] at stored
    exact formed.clear i (by omega) w stored
  · rw [usedAfter]

/-- A tag that does not fit is refused, unless the sum wraps around. -/
theorem Formed.refuse (formed : Formed added message) (tagType : BitVec 32) {slots : Nat} (slotsLt : slots < 2 ^ 32)
    (large : message.usedWords + 3 + slots + 1 > vcMailboxBodyCount) (tells : SumTells slots message) :
    messageAddTag tagType slots message = .ok (none, message) := by
  have fits := formed.fits
  rw [messageAddTag, formed.usedSlots_eq]
  unfold SumTells at tells
  unfold vcMailboxBodyCount at fits large tells
  refine if_pos ?_
  simp only [u32, vcMailboxBodyCount]
  omega

/-- A sum that wraps around lets a tag in that does not fit. -/
theorem Formed.accept_wrapped (formed : Formed added message) (tagType : BitVec 32) {slots : Nat}
    (wraps : ¬SumTells slots message) :
    message.usedWords + 3 + slots + 1 > vcMailboxBodyCount ∧
      messageAddTag tagType slots message ≠ .ok (none, message) := by
  have fits := formed.fits
  unfold SumTells at wraps
  unfold vcMailboxBodyCount at fits wraps
  have small : ¬u32 (u32 (message.usedWords + 3) + slots) ≥ vcMailboxBodyCount := by
    simp only [u32, vcMailboxBodyCount]
    omega
  refine ⟨by unfold vcMailboxBodyCount; omega, ?_⟩
  rw [messageAddTag, formed.usedSlots_eq, if_neg small]
  intro refused
  obtain ⟨first, -, rest⟩ := bind_eq_ok.mp refused
  obtain ⟨second, -, result⟩ := bind_eq_ok.mp rest
  cases result

/-- What a call does to a formed message. -/
theorem Formed.addsTag_iff (formed : Formed added message) {tagType : BitVec 32} {slots : Nat} (nonzero : tagType ≠ 0)
    (slotsLt : slots < 2 ^ 32) : AddsTag added tagType slots message ↔ SumTells slots message := by
  unfold AddsTag
  by_cases tells : SumTells slots message
  · refine iff_of_true ?_ tells
    split_ifs with large
    · exact formed.refuse tagType slotsLt large tells
    · obtain ⟨after, run, next⟩ := formed.add nonzero (Nat.not_lt.mp large)
      exact ⟨after, run, next.wellFormed⟩
  · obtain ⟨large, accepted⟩ := formed.accept_wrapped tagType tells
    rw [if_pos large]
    exact iff_of_false accepted tells

/-- Every message of a run whose sums all tell is formed. -/
theorem Run.formed (run : Run SumTells added message) : Formed added message := by
  induction run with
  | init => exact formed_messageInit
  | @null _ before _ tagType slots _ nonzero slotsLt tells call formed =>
    by_cases large : before.usedWords + 3 + slots + 1 > vcMailboxBodyCount
    · rw [formed.refuse tagType slotsLt large tells] at call
      cases call
      exact formed
    · obtain ⟨_, outcome, -⟩ := formed.add nonzero (Nat.not_lt.mp large)
      rw [outcome] at call
      cases call
  | @add _ before _ tagType slots pos _ nonzero slotsLt tells call formed =>
    by_cases large : before.usedWords + 3 + slots + 1 > vcMailboxBodyCount
    · rw [formed.refuse tagType slotsLt large tells] at call
      cases call
    · obtain ⟨_, outcome, next⟩ := formed.add nonzero (Nat.not_lt.mp large)
      rw [outcome] at call
      cases call
      exact next
  | write _ member within stored formed => exact formed.write member within stored

end VcMailboxMessage

open VcMailboxMessage

/-- Messages are well formed as long as no sum of slots wraps around: in every run whose calls all
meet this condition the reader finds the added tags, and from there on a call does what it should
exactly when it meets the condition too. -/
theorem messages_are_well_formed_iff {added : List AddedTag} {message : VcMailboxMessage}
    (run : Run SumTells added message) :
    WellFormed added message ∧ ∀ (tagType : BitVec 32) (slots : Nat), tagType ≠ 0 → slots < 2 ^ 32 →
      (AddsTag added tagType slots message ↔ SumTells slots message) :=
  ⟨run.formed.wellFormed, fun _ _ nonzero slotsLt => run.formed.addsTag_iff nonzero slotsLt⟩

/-- Two tags, and the value of the first written before the second is added. There is room for one more. -/
theorem messages_are_well_formed_iff_sample : ∃ first written second : VcMailboxMessage,
    messageAddTag 0x10005 2 messageInit = .ok (some 0, first) ∧ first.setBody 3 7 = .ok written ∧
      messageAddTag 0x10002 1 written = .ok (some 5, second) ∧
      WellFormed [⟨0, 0x10005, 2⟩, ⟨5, 0x10002, 1⟩] second ∧
      AddsTag [⟨0, 0x10005, 2⟩, ⟨5, 0x10002, 1⟩] 0x30001 18 second := by
  have empty : messageInit.usedWords = 0 := by decide
  obtain ⟨first, one, -⟩ : ∃ after, messageAddTag 0x10005 2 messageInit = .ok (some messageInit.usedWords, after) ∧
      Formed ([] ++ [⟨messageInit.usedWords, 0x10005, 2⟩]) after := formed_messageInit.add (by decide) (by decide)
  rw [empty] at one
  obtain ⟨written, stored⟩ : ∃ written, first.setBody 3 7 = .ok written := ⟨_, dif_pos (by decide)⟩
  have firstRun : Run SumTells [⟨0, 0x10005, 2⟩] first := .add .init (by decide) (by decide) (Or.inl (by decide)) one
  have writtenRun := firstRun.write (List.mem_singleton_self _) (show 0 < 2 by decide) stored
  have five : written.usedWords = 5 := by
    have laid := writtenRun.formed.laid
    generalize written.usedWords = used at laid ⊢
    cases laid with
    | next here later =>
      cases later
      rfl
  obtain ⟨second, two, -⟩ : ∃ after, messageAddTag 0x10002 1 written = .ok (some written.usedWords, after) ∧
      Formed ([⟨0, 0x10005, 2⟩] ++ [⟨written.usedWords, 0x10002, 1⟩]) after :=
    writtenRun.formed.add (by decide) (by rw [five]; decide)
  rw [five] at two
  have run : Run SumTells [⟨0, 0x10005, 2⟩, ⟨5, 0x10002, 1⟩] second :=
    writtenRun.add (by decide) (by decide) (Or.inl (by rw [five]; decide)) two
  obtain ⟨formed, adds⟩ := messages_are_well_formed_iff run
  refine ⟨first, written, second, one, stored, two, formed, (adds 0x30001 18 (by decide) (by decide)).mpr (Or.inl ?_)⟩
  have small := formed.2.1
  have count : vcMailboxBodyCount = 32 := rfl
  omega

/-- A tag of 2^32 - 3 slots is let into an empty message. -/
theorem huge_tag_accepted : ¬AddsTag [] 0x10001 0xfffffffd messageInit := by
  intro adds
  have tells := (formed_messageInit.addsTag_iff (by decide) (by decide)).mp adds
  unfold SumTells at tells
  exact absurd tells (by decide)

end Swink
