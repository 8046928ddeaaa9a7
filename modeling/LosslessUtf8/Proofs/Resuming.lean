import LosslessUtf8.Proofs.SpanEncoding

/-!
# Encoding across buffers

A text that is too long for one buffer is encoded into several, one after the other: the scalar that
did not fit is where the next encoding starts. Joined together, what the encodings committed is at
every moment the byte form of the scalars in front of the next one (`committed_of_callsFrom`), and
where every buffer has room for the longest byte form, each encoding gets further than the one
before it (`exists_encoded_last`).
-/

namespace LosslessUtf8

namespace Encoding

/-- What came of an encoding, and its buffer afterwards. -/
structure Call where
  outcome : Outcome
  after : Bytes
  deriving DecidableEq, Repr

/-- The bytes of a buffer in front of the position that its encoding reported. -/
def Call.committed (call : Call) : Bytes :=
  match call.outcome with
  | .encoded position => call.after.take position
  | .full position _ => call.after.take position
  | .unencodable _ => []
  | .rejected _ => []

/-- Encodes a text from an index on into one buffer. -/
def callFrom (text : Text) (index : Nat) (buffer : Bytes) : Call :=
  let written := encodeInto text buffer { start := .integer index }
  ⟨written.1, written.2⟩

/-- Encodes a text from an index on into one buffer after the other. A scalar that does not fit is
where the encoding into the next buffer starts; any other outcome is the last. -/
def callsFrom (text : Text) (index : Nat) : List Bytes → List Call
  | [] => []
  | buffer :: buffers =>
    let call := callFrom text index buffer
    match call.outcome with
    | .full _ next => call :: callsFrom text next buffers
    | _ => [call]

variable {text : Text} {index : Nat} {buffer : Bytes} {buffers : List Bytes} {call : Call}

/-! ## One encoding -/

/-- The ways in which the encoding of an encodable text from an index on can end. -/
inductive Advances (text : Text) (index : Nat) (buffer : Bytes) : Call → Prop where
  | encoded {bytes : Bytes} : encode (text.drop index) = .ok bytes →
      bytes.length ≤ buffer.length →
      Advances text index buffer ⟨.encoded bytes.length, overwrite buffer 0 bytes⟩
  | full {bytes : Bytes} {scalar : Scalar} (front back : Text) :
      text.drop index = front ++ scalar :: back → encode front = .ok bytes →
      bytes.length ≤ buffer.length → buffer.length < bytes.length + scalar.width →
      Advances text index buffer
        ⟨.full bytes.length (index + front.length), overwrite buffer 0 bytes⟩

theorem advances_callFrom (encodable : ∀ scalar ∈ text, scalar.Encodable)
    (reached : index ≤ text.length) (buffer : Bytes) :
    Advances text index buffer (callFrom text index buffer) := by
  have packs := packs_pack buffer.length (text.drop index)
  rw [callFrom, encodeInto_from reached]
  generalize scalars : text.drop index = rest at packs
  generalize pack buffer.length rest = progress at packs ⊢
  cases packs with
  | finished encoded fits =>
      simp only [Progress.outcome, Nat.zero_add]
      exact .encoded (scalars ▸ encoded) fits
  | @unencodable front back bytes scalar encoded fits unencodable =>
      have member : scalar ∈ text.drop index := by
        rw [scalars]
        exact List.mem_append_right front List.mem_cons_self
      exact (unencodable (encodable scalar (List.mem_of_mem_drop member))).elim
  | full front back encoded fits _ tight =>
      simp only [Progress.outcome, Nat.zero_add]
      exact .full front back scalars encoded fits tight

theorem committed_encoded (buffer bytes : Bytes) :
    Call.committed ⟨.encoded bytes.length, overwrite buffer 0 bytes⟩ = bytes :=
  take_drop_overwrite (Nat.zero_le buffer.length)

theorem committed_full (buffer bytes : Bytes) (index : Nat) :
    Call.committed ⟨.full bytes.length index, overwrite buffer 0 bytes⟩ = bytes :=
  take_drop_overwrite (Nat.zero_le buffer.length)

/-- The bytes up to an index and those of the scalars behind it are the bytes up to a later one. -/
theorem encode_take_add {before bytes : Bytes} {front back : Text}
    (encoded : encode (text.take index) = .ok before) (behind : text.drop index = front ++ back)
    (frontEncoded : encode front = .ok bytes) :
    encode (text.take (index + front.length)) = .ok (before ++ bytes) := by
  rw [List.take_add, behind, List.take_left]
  exact encode_append encoded frontEncoded

/-- There is a scalar that did not fit, so the text goes on behind what was encoded. -/
theorem add_length_lt_of_drop {scalar : Scalar} {front back : Text}
    (behind : text.drop index = front ++ scalar :: back) : index + front.length < text.length := by
  have size := congrArg List.length behind
  rw [List.length_drop, List.length_append, List.length_cons] at size
  omega

/-! ## One encoding after the other -/

/-- What an encoding into a buffer leads to. Either the text is encoded up to an index where a
scalar does not fit into what the buffer has left, or the encoding is the last and the text is at
its end. -/
inductive Reaches (text : Text) (buffer : Bytes) : Call → List Call → Nat → Prop where
  | full {position index : Nat} {after : Bytes} {later : List Call} :
      after.length = buffer.length → position ≤ buffer.length → buffer.length ≤ position + 3 →
      Reaches text buffer ⟨.full position index, after⟩ later index
  | encoded {position : Nat} {after : Bytes} :
      after.length = buffer.length → position ≤ buffer.length →
      Reaches text buffer ⟨.encoded position, after⟩ [] text.length

theorem length_overwrite_zero {bytes : Bytes} (fits : bytes.length ≤ buffer.length) :
    (overwrite buffer 0 bytes).length = buffer.length :=
  length_overwrite (by omega)

/-- What is committed after any of the calls is the byte form of the text up to where it is then
encoded. -/
theorem committed_of_callsFrom (encodable : ∀ scalar ∈ text, scalar.Encodable) {before : Bytes}
    (reached : index ≤ text.length) (encoded : encode (text.take index) = .ok before)
    {earlier later : List Call}
    (calls : callsFrom text index buffers = earlier ++ call :: later) :
    ∃ buffer next, buffers[earlier.length]? = some buffer ∧ Reaches text buffer call later next ∧
      encode (text.take next) = .ok (before ++ (earlier ++ [call]).flatMap Call.committed) := by
  induction buffers generalizing index before earlier with
  | nil => simp [callsFrom] at calls
  | cons buffer buffers ih =>
      have advances := advances_callFrom encodable reached buffer
      rw [callsFrom] at calls
      generalize callFrom text index buffer = first at advances calls
      cases advances with
      | @encoded bytes restEncoded fits =>
          cases earlier with
          | nil =>
              obtain ⟨rfl, rfl⟩ := List.cons.inj calls
              refine ⟨buffer, text.length, rfl, .encoded (length_overwrite_zero fits) fits, ?_⟩
              have whole := encode_append encoded restEncoded
              rw [List.take_append_drop] at whole
              rw [List.take_length, List.nil_append, List.flatMap_singleton, committed_encoded]
              exact whole
          | cons earliest earlier => simp at calls
      | @full bytes scalar front back behind frontEncoded fits tight =>
          have narrow := scalar.width_le_four
          have further := encode_take_add encoded behind frontEncoded
          cases earlier with
          | nil =>
              obtain ⟨rfl, rfl⟩ := List.cons.inj calls
              refine ⟨buffer, _, rfl, .full (length_overwrite_zero fits) fits (by omega), ?_⟩
              rw [List.nil_append, List.flatMap_singleton, committed_full]
              exact further
          | cons earliest earlier =>
              obtain ⟨rfl, behindCalls⟩ := List.cons.inj calls
              have inside := add_length_lt_of_drop behind
              obtain ⟨later, next, found, reaches, joined⟩ :=
                ih (Nat.le_of_lt inside) further behindCalls
              refine ⟨later, next, found, reaches, ?_⟩
              rw [joined, List.cons_append, List.flatMap_cons, committed_full, List.append_assoc]

/-- Where no byte form is longer than a buffer, every encoding but the last takes a scalar. -/
theorem exists_encoded_last (encodable : ∀ scalar ∈ text, scalar.Encodable)
    (reached : index ≤ text.length) (roomy : ∀ buffer ∈ buffers, 4 ≤ buffer.length)
    (enough : text.length - index < buffers.length) :
    ∃ earlier position after,
      callsFrom text index buffers = earlier ++ [⟨.encoded position, after⟩] ∧
      earlier.length ≤ text.length - index := by
  induction buffers generalizing index with
  | nil => exact (Nat.not_lt_zero _ enough).elim
  | cons buffer buffers ih =>
      have advances := advances_callFrom encodable reached buffer
      rw [callsFrom]
      generalize callFrom text index buffer = first at advances
      rw [List.forall_mem_cons] at roomy
      rw [List.length_cons] at enough
      cases advances with
      | encoded restEncoded fits => exact ⟨[], _, _, rfl, Nat.zero_le _⟩
      | @full bytes scalar front back behind frontEncoded fits tight =>
          have narrow := scalar.width_le_four
          have inside := add_length_lt_of_drop behind
          have progress : 0 < front.length := by
            have size := length_of_encode frontEncoded
            apply List.length_pos_iff.2
            rintro rfl
            rw [Text.width_nil] at size
            omega
          obtain ⟨earlier, position, after, calls, few⟩ :=
            ih (Nat.le_of_lt inside) roomy.2 (by omega)
          refine ⟨_ :: earlier, position, after, congrArg _ calls, ?_⟩
          rw [List.length_cons]
          omega

end Encoding

open Encoding

/-- Nothing is lost or repeated where a text is encoded into one buffer after the other. After each
of the encodings, the bytes that were committed are those of the text up to the scalar that is next,
and a buffer that this scalar did not fit into has at most three bytes left. Where all buffers have
room for four bytes, a text that is not longer than the row of buffers is encoded to its end, by one
encoding more than it has scalars at most. -/
theorem resuming_seamless (text : Text) (encodable : ∀ scalar ∈ text, scalar.Encodable)
    (buffers : List Bytes) :
    let calls := callsFrom text 0 buffers
    (∀ earlier call later, calls = earlier ++ call :: later →
      ∃ buffer next rest, buffers[earlier.length]? = some buffer ∧
        Reaches text buffer call later next ∧
        encode (text.take next) = .ok ((earlier ++ [call]).flatMap Call.committed) ∧
        encode text = .ok ((earlier ++ [call]).flatMap Call.committed ++ rest)) ∧
    ((∀ buffer ∈ buffers, 4 ≤ buffer.length) → text.length < buffers.length →
      ∃ earlier position after, calls = earlier ++ [⟨.encoded position, after⟩] ∧
        calls.length ≤ text.length + 1 ∧ encode text = .ok (calls.flatMap Call.committed)) := by
  intro calls
  have nothing : encode (text.take 0) = .ok [] := rfl
  constructor
  · intro earlier call later callsAre
    obtain ⟨buffer, next, found, reaches, joined⟩ :=
      committed_of_callsFrom encodable (Nat.zero_le _) nothing callsAre
    have behindEncodable : ∀ scalar ∈ text.drop next, scalar.Encodable := by
      intro scalar member
      exact encodable scalar (List.mem_of_mem_drop member)
    obtain ⟨rest, restEncoded⟩ := exists_encode_eq_ok_iff.2 behindEncodable
    have whole := encode_append joined restEncoded
    rw [List.take_append_drop] at whole
    exact ⟨buffer, next, rest, found, reaches, joined, whole⟩
  · intro roomy enough
    obtain ⟨earlier, position, after, callsAre, few⟩ :=
      exists_encoded_last encodable (Nat.zero_le _) roomy enough
    obtain ⟨buffer, next, -, reaches, joined⟩ :=
      committed_of_callsFrom encodable (Nat.zero_le _) nothing callsAre
    refine ⟨earlier, position, after, callsAre, ?_, ?_⟩
    · show (callsFrom text 0 buffers).length ≤ text.length + 1
      rw [callsAre, List.length_append, List.length_singleton]
      exact Nat.succ_le_succ few
    · show encode text = .ok ((callsFrom text 0 buffers).flatMap Call.committed)
      rw [callsAre]
      cases reaches with
      | encoded sized fits =>
          rwa [List.take_length] at joined

/-- A buffer that only the first scalar fits into, one of no size, and two of which the first is
filled to the end. -/
theorem resuming_seamless_four_buffers :
    let text : Text := [⟨0x41⟩, ⟨0x20AC⟩, ⟨0xDCFF⟩, ⟨0x1F600⟩]
    let buffers : List Bytes :=
      [[0x2A, 0x2A, 0x2A], [], [0x2A, 0x2A, 0x2A, 0x2A], [0x2A, 0x2A, 0x2A, 0x2A]]
    let roomy : List Bytes := List.replicate 5 [0x2A, 0x2A, 0x2A, 0x2A]
    let earlier : List Call :=
      [⟨.full 1 1, [0x41, 0x2A, 0x2A]⟩, ⟨.full 0 1, []⟩]
    let call : Call := ⟨.full 4 3, [0xE2, 0x82, 0xAC, 0xFF]⟩
    let later : List Call := [⟨.encoded 4, [0xF0, 0x9F, 0x98, 0x80]⟩]
    (∀ scalar ∈ text, scalar.Encodable) ∧ callsFrom text 0 buffers = earlier ++ call :: later ∧
    (∃ buffer next rest, buffers[earlier.length]? = some buffer ∧
      Reaches text buffer call later next ∧
      encode (text.take next) = .ok ((earlier ++ [call]).flatMap Call.committed) ∧
      encode text = .ok ((earlier ++ [call]).flatMap Call.committed ++ rest)) ∧
    (∀ buffer ∈ roomy, 4 ≤ buffer.length) ∧ text.length < roomy.length ∧
    ∃ earlier position after, callsFrom text 0 roomy = earlier ++ [⟨.encoded position, after⟩] ∧
      (callsFrom text 0 roomy).length ≤ text.length + 1 ∧
      encode text = .ok ((callsFrom text 0 roomy).flatMap Call.committed) := by
  intro text buffers roomy earlier call later
  have encodable : ∀ scalar ∈ text, scalar.Encodable := by decide
  have calls : callsFrom text 0 buffers = earlier ++ call :: later := by decide
  have wide : ∀ buffer ∈ roomy, 4 ≤ buffer.length := by decide
  have enough : text.length < roomy.length := by decide
  exact ⟨encodable, calls, (resuming_seamless text encodable buffers).1 earlier call later calls,
    wide, enough, (resuming_seamless text encodable roomy).2 wide enough⟩

end LosslessUtf8
