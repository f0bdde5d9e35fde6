import Offside.Proofs.Encoding

set_option autoImplicit false

namespace Offside

structure Chunk where
  bytes : List UInt8
  answer : Except InputError Char

-- What an answer says of the bytes taken: they are the character, they are as many as the first of them announces and
-- encode no text, or they are fewer.
inductive Chunk.Faithful : Chunk → Prop where
  | character (c : Char) : Faithful ⟨String.utf8EncodeChar c, .ok c⟩
  | alien (lead : UInt8) (more : List UInt8) (whole : (lead :: more).length = Device.width lead)
      (low : 2 ≤ (lead :: more).length) (high : (lead :: more).length ≤ 4) (unencoded : ¬∃ text, encode text = lead :: more) :
      Faithful ⟨lead :: more, .error .notUtf8⟩
  | short (lead : UInt8) (more : List UInt8) (lacking : (lead :: more).length < Device.width lead) :
      Faithful ⟨lead :: more, .error .bytesEnded⟩

namespace Device

def after : Nat → Device → Device
  | 0, device => device
  | calls + 1, device => after calls device.read.2

theorem width_bounds (lead : UInt8) : 1 ≤ width lead ∧ width lead ≤ 4 := by
  unfold width
  repeat' split
  all_goals decide

theorem width_one (lead : UInt8) (single : width lead = 1) : lead.toNat < 128 := by
  unfold width at single
  split at single
  · next small => exact UInt8.lt_iff_toNat_lt.mp small
  · repeat' split at single
    all_goals cases single

theorem decode_sound (bytes : List UInt8) (c : Char) (read : decode bytes = some c) : String.utf8EncodeChar c = bytes := by
  unfold decode at read
  split at read
  · next found decoded =>
      split at read
      · next whole =>
          cases read
          have encoded := String.toByteArray_utf8EncodeChar_of_utf8DecodeChar?_eq_some decoded
          have all : (ByteArray.mk bytes.toArray).size = c.utf8Size := whole.symm
          rw [← all, ByteArray.extract_zero_size] at encoded
          rw [← List.toList_data_toByteArray (l := String.utf8EncodeChar c), encoded]
      · cases read
  · cases read

theorem decode_single (lead : UInt8) (single : width lead = 1) : ∃ c, decode [lead] = some c := by
  have small := width_one lead single
  let c : Char := ⟨lead.toUInt32, .inl (by rw [UInt8.toNat_toUInt32]; omega)⟩
  have size : c.utf8Size = 1 := Char.utf8Size_eq_one_iff.mpr (by
    rw [UInt32.le_iff_toNat_le]
    exact Nat.le_of_lt_succ small)
  have encoded : String.utf8EncodeChar c = [lead] := by
    rw [String.utf8EncodeChar_eq_singleton size, UInt8.toUInt8_toUInt32]
  exact ⟨c, by rw [← encoded, decode_encoded]⟩

-- Bytes that are no single character encode no text at all, since those of the first character would be as many.
theorem decode_failed (lead : UInt8) (more : List UInt8) (enough : more.length = width lead - 1)
    (failed : decode (lead :: more) = none) : ¬∃ text, encode text = lead :: more := by
  rintro ⟨text, encoded⟩
  cases text with
  | nil => cases encoded
  | cons c rest =>
      obtain ⟨first, others, bytes, size⟩ := width_encoded c
      rw [encode, List.flatMap_cons, bytes, List.cons_append, List.cons.injEq] at encoded
      obtain ⟨rfl, encoded⟩ := encoded
      have alone : others = more := List.IsPrefix.eq_of_length ⟨_, encoded⟩ (size.trans enough.symm)
      rw [← alone, ← bytes, decode_encoded] at failed
      cases failed

-- Of as many bytes as the first one announces, the first character of the text that they encode, if they encode one.
theorem decode_text (lead : UInt8) (more : List UInt8) (enough : more.length = width lead - 1) :
    decode (lead :: more) = (String.fromUTF8? ⟨(lead :: more).toArray⟩).bind fun text => text.toList.head? := by
  cases decoded : decode (lead :: more) with
  | some c =>
      have bytes : ByteArray.mk (lead :: more).toArray = (String.ofList [c]).toByteArray := by
        rw [← decode_sound _ c decoded, ← encode_single, encode_array, String.toByteArray_ofList]
      rw [bytes, String.fromUTF8?, dif_pos (String.ofList [c]).isValidUTF8, Option.bind_some]
      change some c = (String.ofList [c]).toList.head?
      rw [String.toList_ofList, List.head?_cons]
  | none =>
      have invalid : ¬ (ByteArray.mk (lead :: more).toArray).IsValidUTF8 := by
        rintro ⟨text, same⟩
        have encoded : (encode text).toArray = (lead :: more).toArray :=
          congrArg ByteArray.data ((encode_array text).trans same.symm)
        exact decode_failed lead more enough decoded ⟨text, congrArg Array.toList encoded⟩
      rw [String.fromUTF8?, dif_neg invalid, Option.bind_none]

theorem faithful_nonempty (chunk : Chunk) (faithful : chunk.Faithful) : chunk.bytes ≠ [] := by
  cases faithful with
  | character c =>
      obtain ⟨lead, more, bytes, _⟩ := width_encoded c
      simp [bytes]
  | alien lead more _ _ _ _ => exact List.cons_ne_nil lead more
  | short lead more _ => exact List.cons_ne_nil lead more

theorem read_chunk (lead : UInt8) (rest : List UInt8) :
    ∃ (chunk : Chunk) (left : List UInt8), lead :: rest = chunk.bytes ++ left ∧ chunk.Faithful ∧
      (Device.bytes (lead :: rest)).read = (chunk.answer, .bytes left) ∧ (chunk.answer = .error .bytesEnded → left = []) := by
  obtain ⟨least, most⟩ := width_bounds lead
  rw [read, readBytes]
  by_cases few : (rest.take (width lead - 1)).length < width lead - 1
  · rw [if_pos few]
    have lacking : (lead :: rest).length < width lead := by
      rw [List.length_take] at few
      rw [List.length_cons]
      omega
    exact ⟨⟨lead :: rest, .error .bytesEnded⟩, [], (List.append_nil _).symm, .short lead rest lacking, rfl, fun _ => rfl⟩
  · rw [if_neg few]
    have enough : (rest.take (width lead - 1)).length = width lead - 1 :=
      Nat.le_antisymm (List.length_take_le _ _) (Nat.not_lt.mp few)
    have split : lead :: rest = (lead :: rest.take (width lead - 1)) ++ rest.drop (width lead - 1) := by
      rw [List.cons_append, List.take_append_drop]
    cases decoded : decode (lead :: rest.take (width lead - 1)) with
    | some c =>
        have same := decode_sound _ c decoded
        exact ⟨⟨String.utf8EncodeChar c, .ok c⟩, _, same ▸ split, .character c, rfl, fun ended => by cases ended⟩
    | none =>
        have several : width lead ≠ 1 := by
          intro single
          obtain ⟨c, alone⟩ := decode_single lead single
          rw [single, List.take_zero, alone] at decoded
          cases decoded
        have whole : (lead :: rest.take (width lead - 1)).length = width lead := by
          rw [List.length_cons, enough]
          omega
        have faithful : Chunk.Faithful ⟨lead :: rest.take (width lead - 1), .error .notUtf8⟩ :=
          .alien lead _ whole (by omega) (by omega) (decode_failed lead _ enough decoded)
        exact ⟨_, _, split, faithful, rfl, fun ended => by cases ended⟩

theorem faithful_failed (chunk : Chunk) (faithful : chunk.Faithful) (cause : InputError)
    (failed : chunk.answer = .error cause) :
    cause.kind = .invalidData ∧ 2 ≤ chunk.bytes.length ∧ chunk.bytes.length ≤ 4 ∧ (¬∃ text, encode text = chunk.bytes) ∨
      cause = .bytesEnded ∧ cause.kind = .unexpectedEof := by
  cases faithful with
  | character c => cases failed
  | alien lead more _ low high unencoded =>
      cases failed
      exact .inl ⟨rfl, low, high, unencoded⟩
  | short lead more _ =>
      cases failed
      exact .inr ⟨rfl, rfl⟩

inductive Cuts : List UInt8 → List Chunk → Prop where
  | nothing : Cuts [] []
  | call (chunk : Chunk) (left : List UInt8) (more : List Chunk) (faithful : chunk.Faithful)
      (answered : (Device.bytes (chunk.bytes ++ left)).read = (chunk.answer, .bytes left))
      (last : chunk.answer = .error .bytesEnded → left = []) (onward : Cuts left more) :
      Cuts (chunk.bytes ++ left) (chunk :: more)

theorem cuts_total (pending : List UInt8) : ∃ chunks, Cuts pending chunks := by
  induction same : pending.length using Nat.strongRecOn generalizing pending with
  | ind size ih =>
    cases pending with
    | nil => exact ⟨[], .nothing⟩
    | cons lead rest =>
        obtain ⟨chunk, left, split, faithful, answered, last⟩ := read_chunk lead rest
        have nonempty := List.length_pos_iff.mpr (faithful_nonempty chunk faithful)
        have shorter : left.length < size := by
          rw [← same, split, List.length_append]
          omega
        obtain ⟨chunks, onward⟩ := ih left.length shorter left rfl
        rw [split] at answered ⊢
        exact ⟨chunk :: chunks, .call chunk left chunks faithful answered last onward⟩

theorem cuts_bytes (pending : List UInt8) (chunks : List Chunk) (cuts : Cuts pending chunks) :
    chunks.flatMap Chunk.bytes = pending := by
  induction cuts with
  | nothing => rfl
  | call chunk left more _ _ _ _ ih => rw [List.flatMap_cons, ih]

theorem cuts_faithful (pending : List UInt8) (chunks : List Chunk) (cuts : Cuts pending chunks) :
    ∀ chunk ∈ chunks, chunk.bytes ≠ [] ∧ chunk.Faithful := by
  induction cuts with
  | nothing => exact List.forall_mem_nil _
  | call chunk left more faithful _ _ _ ih =>
      exact List.forall_mem_cons.mpr ⟨⟨faithful_nonempty chunk faithful, faithful⟩, ih⟩

theorem cuts_last (pending : List UInt8) (chunks : List Chunk) (cuts : Cuts pending chunks) :
    ∀ chunk ∈ chunks.dropLast, chunk.answer ≠ .error .bytesEnded := by
  induction cuts with
  | nothing => exact List.forall_mem_nil _
  | call chunk left more _ _ last onward ih =>
      cases onward with
      | nothing => exact List.forall_mem_nil _
      | call next rest others faithful _ _ _ =>
          rw [List.dropLast_cons_cons, List.forall_mem_cons]
          refine ⟨fun ended => ?_, ih⟩
          exact faithful_nonempty next faithful (List.append_eq_nil_iff.mp (last ended)).1

theorem cuts_failed (pending : List UInt8) (chunks : List Chunk) (cuts : Cuts pending chunks) :
    (∀ chunk ∈ chunks, ∀ cause, chunk.answer = .error cause → cause.kind = .invalidData →
        2 ≤ chunk.bytes.length ∧ chunk.bytes.length ≤ 4 ∧ ¬∃ text, encode text = chunk.bytes) ∧
      ∀ chunk ∈ chunks.dropLast, ∀ cause, chunk.answer = .error cause → cause.kind = .invalidData := by
  refine ⟨?_, ?_⟩
  · intro chunk member cause failed invalid
    rcases faithful_failed chunk (cuts_faithful pending chunks cuts chunk member).2 cause failed with ⟨_, alien⟩ | ⟨_, ended⟩
    · exact alien
    · rw [invalid] at ended
      cases ended
  · intro chunk member cause failed
    have faithful := (cuts_faithful pending chunks cuts chunk ((List.dropLast_sublist _).subset member)).2
    rcases faithful_failed chunk faithful cause failed with ⟨invalid, _⟩ | ⟨rfl, _⟩
    · exact invalid
    · cases cuts_last pending chunks cuts chunk member failed

theorem cuts_after (pending : List UInt8) (chunks : List Chunk) (cuts : Cuts pending chunks) (calls : Nat) :
    (Device.bytes pending).after calls = .bytes ((chunks.drop calls).flatMap Chunk.bytes) := by
  induction cuts generalizing calls with
  | nothing =>
      induction calls with
      | zero => rfl
      | succ calls ih => rwa [List.drop_nil] at ih ⊢
  | call chunk left more faithful answered last onward ih =>
      cases calls with
      | zero => exact congrArg Device.bytes (cuts_bytes _ _ (.call chunk left more faithful answered last onward)).symm
      | succ calls => rw [after, answered, List.drop_succ_cons, ih]

theorem read_many_succ (calls : Nat) (device : Device) :
    readMany (calls + 1) device = device.read.1 :: readMany calls device.read.2 := rfl

theorem cuts_answers (pending : List UInt8) (chunks : List Chunk) (cuts : Cuts pending chunks) (calls : Nat) :
    readMany (chunks.length + calls) (.bytes pending) =
      chunks.map Chunk.answer ++ List.replicate calls (.error InputError.bytesEnded) := by
  induction cuts with
  | nothing =>
      rw [List.length_nil, Nat.zero_add]
      induction calls with
      | zero => rfl
      | succ calls ih => exact congrArg (List.cons _) ih
  | call chunk left more _ answered _ _ ih =>
      rw [List.length_cons, Nat.succ_add, read_many_succ, answered, ih, List.map_cons, List.cons_append]

theorem read_many_encoded (text : List Char) (rest : List UInt8) :
    readMany text.length (.bytes (encode text ++ rest)) = text.map .ok := by
  induction text with
  | nil => rfl
  | cons c more ih =>
      have first : (Device.bytes (encode (c :: more) ++ rest)).read = (.ok c, .bytes (encode more ++ rest)) := by
        rw [encode, List.flatMap_cons, List.append_assoc, read, read_bytes_encoded]
        rfl
      rw [List.length_cons, read_many_succ, first, ih, List.map_cons]

/-- Calls cut bytes into chunks, none of them empty, that together are the bytes again. Each answer is true of its
chunk, only the last of which may lack bytes, and further calls find the end of the input. Where the bytes start with an
encoded text, the first answers are its characters. -/
theorem read_many_cut (pending : List UInt8) :
    ∃ chunks : List Chunk, chunks.flatMap Chunk.bytes = pending ∧ (∀ chunk ∈ chunks, chunk.bytes ≠ [] ∧ chunk.Faithful) ∧
      (∀ chunk ∈ chunks, ∀ cause, chunk.answer = .error cause → cause.kind = .invalidData →
        2 ≤ chunk.bytes.length ∧ chunk.bytes.length ≤ 4 ∧ ¬∃ text, encode text = chunk.bytes) ∧
      (∀ chunk ∈ chunks.dropLast, chunk.answer ≠ .error .bytesEnded) ∧
      (∀ chunk ∈ chunks.dropLast, ∀ cause, chunk.answer = .error cause → cause.kind = .invalidData) ∧
      InputError.bytesEnded.kind = .unexpectedEof ∧
      (∀ calls, (Device.bytes pending).after calls = .bytes ((chunks.drop calls).flatMap Chunk.bytes)) ∧
      (∀ calls, readMany (chunks.length + calls) (.bytes pending) =
        chunks.map Chunk.answer ++ List.replicate calls (.error .bytesEnded)) ∧
      ∀ text, encode text <+: pending → readMany text.length (.bytes pending) = text.map .ok := by
  obtain ⟨chunks, cuts⟩ := cuts_total pending
  obtain ⟨alien, early⟩ := cuts_failed pending chunks cuts
  refine ⟨chunks, cuts_bytes pending chunks cuts, cuts_faithful pending chunks cuts, alien, cuts_last pending chunks cuts, early,
    rfl, cuts_after pending chunks cuts, cuts_answers pending chunks cuts, ?_⟩
  rintro text ⟨rest, rfl⟩
  exact read_many_encoded text rest

example : readMany 4 (.bytes [0xed, 0xa0, 0x80, 0x41, 0xe2, 0x82]) =
    [.error .notUtf8, .ok 'A', .error .bytesEnded, .error .bytesEnded] := by
  decide

end Device

end Offside
