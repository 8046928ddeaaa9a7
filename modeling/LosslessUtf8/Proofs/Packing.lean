import LosslessUtf8.Encoding
import LosslessUtf8.Proofs.StandardForm

/-!
# Packing

What a text is encoded to, scalar by scalar: encoding succeeds on encodable texts alone
(`exists_encode_eq_ok_iff`), comes as far as the first scalar that has no byte form on all others
(`encode_drop_cases`), takes appended texts to appended bytes (`encode_append`), and a buffer with
room for the bytes takes all of them (`pack_of_encode`).
-/

namespace LosslessUtf8

open String (utf8EncodeChar)

variable {text front back : Text} {bytes frontBytes backBytes : Bytes}

theorem encode_cons_eq_ok_iff {scalar : Scalar} :
    encode (scalar :: text) = .ok bytes ↔
      ∃ spelling rest, scalar.spell? = some spelling ∧ encode text = .ok rest ∧
        bytes = spelling ++ rest := by
  cases spelled : scalar.spell? with
  | none => simp [encode_cons_of_none text spelled]
  | some spelling =>
      rw [encode_cons_of_some text spelled]
      cases encode text with
      | error failure => simp
      | ok rest => simp [eq_comm]

theorem encode_append (frontEncoded : encode front = .ok frontBytes)
    (backEncoded : encode back = .ok backBytes) :
    encode (front ++ back) = .ok (frontBytes ++ backBytes) := by
  induction front generalizing frontBytes with
  | nil =>
      cases frontEncoded
      exact backEncoded
  | cons scalar front ih =>
      rw [encode_cons_eq_ok_iff] at frontEncoded
      obtain ⟨spelling, rest, spelled, encoded, rfl⟩ := frontEncoded
      rw [List.cons_append, encode_cons_eq_ok_iff]
      exact ⟨spelling, rest ++ backBytes, spelled, ih encoded, List.append_assoc _ _ _⟩

theorem exists_encode_of_append (encoded : encode (front ++ back) = .ok bytes) :
    ∃ frontBytes backBytes, encode front = .ok frontBytes ∧ encode back = .ok backBytes ∧
      frontBytes ++ backBytes = bytes := by
  induction front generalizing bytes with
  | nil => exact ⟨[], bytes, rfl, encoded, rfl⟩
  | cons scalar front ih =>
      rw [List.cons_append, encode_cons_eq_ok_iff] at encoded
      obtain ⟨spelling, rest, spelled, restEncoded, rfl⟩ := encoded
      obtain ⟨frontBytes, backBytes, frontEncoded, backEncoded, rfl⟩ := ih restEncoded
      refine ⟨spelling ++ frontBytes, backBytes, ?_, backEncoded, List.append_assoc _ _ _⟩
      exact encode_cons_eq_ok_iff.2 ⟨spelling, frontBytes, spelled, frontEncoded, rfl⟩

theorem encodable_of_encode (encoded : encode text = .ok bytes) :
    ∀ scalar ∈ text, scalar.Encodable := by
  induction text generalizing bytes with
  | nil => simp
  | cons scalar text ih =>
      rw [encode_cons_eq_ok_iff] at encoded
      obtain ⟨spelling, rest, spelled, tailEncoded, -⟩ := encoded
      rw [List.forall_mem_cons]
      constructor
      · rw [← Scalar.spell?_isSome_iff, spelled]
        rfl
      · exact ih tailEncoded

/-- The texts that can be encoded are those of encodable scalars. -/
theorem exists_encode_eq_ok_iff :
    (∃ bytes, encode text = .ok bytes) ↔ ∀ scalar ∈ text, scalar.Encodable := by
  constructor
  · rintro ⟨bytes, encoded⟩
    exact encodable_of_encode encoded
  · intro encodable
    induction text with
    | nil => exact ⟨[], rfl⟩
    | cons scalar text ih =>
        rw [List.forall_mem_cons, ← Scalar.spell?_isSome_iff] at encodable
        obtain ⟨spelling, spelled⟩ := Option.isSome_iff_exists.1 encodable.1
        obtain ⟨rest, encoded⟩ := ih encodable.2
        exact ⟨_, encode_cons_eq_ok_iff.2 ⟨spelling, rest, spelled, encoded, rfl⟩⟩

/-- Encoding fails at the first scalar that has no byte form. -/
theorem exists_of_encode_eq_error {failure : Unencodable} (failed : encode text = .error failure) :
    ∃ front back, text = front ++ failure.scalar :: back ∧ failure.index = front.length ∧
      (∀ scalar ∈ front, scalar.Encodable) ∧ ¬ failure.scalar.Encodable := by
  induction text generalizing failure with
  | nil => cases failed
  | cons scalar text ih =>
      cases spelled : scalar.spell? with
      | none =>
          rw [encode_cons_of_none text spelled] at failed
          cases failed
          exact ⟨[], text, rfl, rfl, by simp, Scalar.spell?_eq_none_iff.1 spelled⟩
      | some spelling =>
          rw [encode_cons_of_some text spelled] at failed
          cases behind : encode text with
          | ok bytes =>
              rw [behind] at failed
              cases failed
          | error later =>
              rw [behind] at failed
              cases failed
              obtain ⟨front, back, rfl, index, encodable, first⟩ := ih behind
              refine ⟨scalar :: front, back, rfl, congrArg Nat.succ index, ?_, first⟩
              rw [List.forall_mem_cons]
              exact ⟨Scalar.encodable_of_spell? spelled, encodable⟩

theorem Encoding.spellOnto_append (encoded : encode front = .ok frontBytes) (reversed : Bytes)
    (index : Nat) (back : Text) :
    spellOnto reversed index (front ++ back) =
      spellOnto (frontBytes.reverse ++ reversed) (index + front.length) back := by
  induction front generalizing frontBytes reversed index with
  | nil =>
      rw [encode_nil] at encoded
      cases encoded
      rfl
  | cons scalar front ih =>
      rw [encode_cons_eq_ok_iff] at encoded
      obtain ⟨spelling, rest, spelled, restEncoded, rfl⟩ := encoded
      rw [List.cons_append, spellOnto, spelled]
      dsimp only
      rw [ih restEncoded, List.reverseAux_eq, List.reverse_append, List.append_assoc,
        List.length_cons, Nat.add_assoc, Nat.add_comm 1]

theorem encode_append_cons {scalar : Scalar} (encodable : ∀ other ∈ front, other.Encodable)
    (first : ¬ scalar.Encodable) (back : Text) :
    encode (front ++ scalar :: back) = .error ⟨scalar, front.length⟩ := by
  obtain ⟨bytes, encoded⟩ := exists_encode_eq_ok_iff.2 encodable
  rw [encode, Encoding.spellOnto_append encoded, Encoding.spellOnto,
    Scalar.spell?_eq_none_iff.2 first, Nat.zero_add]

/-- From a position of a text on, a scalar is the first that has no byte form. -/
structure Unencodable.IsFirst (failure : Unencodable) (text : Text) (position : Nat) : Prop where
  position_le : position ≤ failure.index
  getElem?_index : text[failure.index]? = some failure.scalar
  encodable : ∀ scalar ∈ text.extract position failure.index, scalar.Encodable
  unencodable : ¬ failure.scalar.Encodable

namespace Unencodable.IsFirst

variable {failure : Unencodable} {position : Nat}

theorem index_lt (first : failure.IsFirst text position) : failure.index < text.length :=
  (List.getElem?_eq_some_iff.1 first.getElem?_index).1

theorem exists_encode (first : failure.IsFirst text position) :
    ∃ bytes, encode (text.extract position failure.index) = .ok bytes :=
  exists_encode_eq_ok_iff.2 first.encodable

theorem length_extract (first : failure.IsFirst text position) :
    (text.extract position failure.index).length = failure.index - position := by
  have inside := first.index_lt
  rw [List.length_take, List.length_drop]
  omega

theorem drop_eq (first : failure.IsFirst text position) :
    text.drop position =
      text.extract position failure.index ++ failure.scalar :: text.drop (failure.index + 1) := by
  obtain ⟨inside, scalarIs⟩ := List.getElem?_eq_some_iff.1 first.getElem?_index
  have behind : (text.drop position).drop (failure.index - position) =
      failure.scalar :: text.drop (failure.index + 1) := by
    rw [List.drop_drop, Nat.add_sub_cancel' first.position_le, List.drop_eq_getElem_cons inside,
      scalarIs]
  rw [← behind]
  exact (List.take_append_drop _ _).symm

end Unencodable.IsFirst

theorem Unencodable.isFirst_of_encode_drop {failure : Unencodable} {position : Nat}
    (failed : encode (text.drop position) = .error failure) :
    IsFirst ⟨failure.scalar, position + failure.index⟩ text position := by
  obtain ⟨front, back, parts, index, encodable, first⟩ := exists_of_encode_eq_error failed
  have frontIs : text.extract position (position + failure.index) = front := by
    rw [List.extract, parts, Nat.add_sub_cancel_left, index, List.take_left]
  refine ⟨Nat.le_add_right position failure.index, ?_, frontIs ▸ encodable, first⟩
  rw [← List.getElem?_drop, parts, index, List.getElem?_append_right (Nat.le_refl _), Nat.sub_self]
  rfl

/-- From any position on, a text can be encoded to its end, or up to the first scalar that has no
byte form. -/
theorem encode_drop_cases (text : Text) (position : Nat) :
    (∃ bytes, encode (text.drop position) = .ok bytes) ∨
      ∃ failure bytes, Unencodable.IsFirst failure text position ∧
        encode (text.extract position failure.index) = .ok bytes := by
  cases encoded : encode (text.drop position) with
  | ok bytes => exact .inl ⟨bytes, rfl⟩
  | error failure =>
      have first := Unencodable.isFirst_of_encode_drop encoded
      obtain ⟨bytes, frontEncoded⟩ := first.exists_encode
      exact .inr ⟨_, bytes, first, frontEncoded⟩

theorem length_of_encode (encoded : encode text = .ok bytes) : bytes.length = text.width := by
  induction text generalizing bytes with
  | nil =>
      cases encoded
      rfl
  | cons scalar text ih =>
      rw [encode_cons_eq_ok_iff] at encoded
      obtain ⟨spelling, rest, spelled, tailEncoded, rfl⟩ := encoded
      rw [List.length_append, Scalar.length_of_spell?_eq_some spelled, ih tailEncoded,
        Text.width_cons]

theorem eq_nil_of_encode_eq_nil (encoded : encode text = .ok []) : text = [] := by
  cases text with
  | nil => rfl
  | cons scalar text =>
      have size := length_of_encode encoded
      have positive := scalar.width_pos
      rw [List.length_nil, Text.width_cons] at size
      omega

theorem encode_map_ofRawByte (raw : ∀ byte ∈ bytes, 0x80 ≤ byte.toNat) :
    encode (bytes.map .ofRawByte) = .ok bytes := by
  induction bytes with
  | nil => rfl
  | cons byte bytes ih =>
      rw [List.forall_mem_cons] at raw
      rw [List.map_cons, encode_cons_eq_ok_iff]
      exact ⟨[byte], bytes, Scalar.spell?_ofRawByte raw.1, ih raw.2, rfl⟩

/-- The first of some bytes was written for a character whose form they start with, or for its own
escape. -/
theorem encode_eq_cons_cases {lead : UInt8} {rest : Bytes}
    (encoded : encode text = .ok (lead :: rest)) :
    (∃ character back others, text = .ofChar character :: back ∧
      encode back = .ok others ∧ utf8EncodeChar character ++ others = lead :: rest) ∨
    ∃ back, text = .ofRawByte lead :: back ∧ encode back = .ok rest ∧
      0x80 ≤ lead.toNat := by
  cases text with
  | nil => cases encoded
  | cons scalar back =>
      rw [encode_cons_eq_ok_iff] at encoded
      obtain ⟨spelling, others, spelled, backEncoded, parts⟩ := encoded
      rcases Scalar.exists_of_spell?_eq_some spelled with
        ⟨character, rfl, rfl⟩ | ⟨escaped, raw, rfl, rfl⟩
      · exact .inl ⟨character, back, others, rfl, backEncoded, parts.symm⟩
      · cases parts
        exact .inr ⟨back, rfl, backEncoded, raw⟩

/-- Room for the width of a text lasts up to the first scalar that has no byte form. -/
theorem Encoding.pack_of_first {room : Nat} {scalar : Scalar}
    (encoded : encode front = .ok frontBytes) (first : ¬ scalar.Encodable)
    (enough : (front ++ scalar :: back).width ≤ room) :
    Encoding.pack room (front ++ scalar :: back) =
      ⟨frontBytes, front.length, .unencodable scalar⟩ := by
  induction front generalizing frontBytes room with
  | nil =>
      cases encoded
      exact pack_cons_of_none room back (Scalar.spell?_eq_none_iff.2 first)
  | cons earlier front ih =>
      rw [encode_cons_eq_ok_iff] at encoded
      obtain ⟨spelling, rest, spelled, restEncoded, rfl⟩ := encoded
      have size := Scalar.length_of_spell?_eq_some spelled
      rw [List.cons_append, Text.width_cons] at enough
      have packed := @ih rest (room - spelling.length) restEncoded (by omega)
      rw [List.cons_append, pack_cons_of_le _ spelled (by omega), packed]
      rfl

theorem Encoding.pack_of_encode_error {room : Nat} {failure : Unencodable}
    (failed : encode text = .error failure) (enough : text.width ≤ room) :
    ∃ written, Encoding.pack room text =
      ⟨written, failure.index, .unencodable failure.scalar⟩ := by
  obtain ⟨front, back, rfl, index, encodable, first⟩ := exists_of_encode_eq_error failed
  obtain ⟨frontBytes, encoded⟩ := exists_encode_eq_ok_iff.2 encodable
  rw [index]
  exact ⟨frontBytes, pack_of_first encoded first enough⟩

/-- Where there is room for all its bytes, a text is written whole. -/
theorem Encoding.pack_of_encode {room : Nat} (encoded : encode text = .ok bytes)
    (fits : bytes.length ≤ room) :
    Encoding.pack room text = ⟨bytes, text.length, .finished⟩ := by
  induction text generalizing bytes room with
  | nil =>
      cases encoded
      rfl
  | cons scalar text ih =>
      rw [encode_cons_eq_ok_iff] at encoded
      obtain ⟨spelling, rest, spelled, tailEncoded, rfl⟩ := encoded
      rw [List.length_append] at fits
      rw [pack_cons_of_le text spelled (by omega), ih tailEncoded (by omega)]
      rfl

end LosslessUtf8
