import LosslessUtf8.Proofs.Addressed
import LosslessUtf8.Proofs.Storing

/-!
# Loading undoes storing

At a position of a buffer, what is loaded as a character is exactly what storing writes for it. So
both come to one question, which form the bytes start with (`Position.gives_and_plain_iff`,
`Position.stands_iff`). Where no form starts, the byte is loaded as its escape, and stored again as
the byte.
-/

namespace LosslessUtf8

open String (utf8EncodeChar)

/-- A place in a buffer with room for so many bytes, both in front of a limit and in front of the
end of the buffer. -/
structure Room (count : Nat) where
  output : Bytes
  position : Nat
  limit : Int
  inBuffer : position + count ≤ output.length
  inLimit : count ≤ limit - position

namespace Room

/-- Stores a scalar in a place. -/
def store {count : Nat} (room : Room count) (scalar : Scalar) : Position.Stored Nat :=
  Position.store scalar room.output room.position room.limit

/-- The buffer of a place with some bytes written there. -/
def holding {count : Nat} (room : Room count) (bytes : Bytes) : Bytes :=
  overwrite room.output room.position bytes

/-- A buffer of just the size that is needed. -/
def fresh (count : Nat) : Room count where
  output := List.replicate count 0
  position := 0
  limit := count
  inBuffer := by simp
  inLimit := by simp

theorem store_eq {scalar : Scalar} (room : Room scalar.width) (encodable : scalar.Encodable) :
    room.store scalar = ⟨room.holding scalar.form, .ok scalar.width⟩ :=
  Position.store_of_inside encodable room.inLimit room.inBuffer

theorem eq_of_holding_eq {count : Nat} {room : Room count} {bytes other : Bytes}
    (same : room.holding bytes = room.holding other) (sameLength : bytes.length = other.length) :
    bytes = other := by
  have inside : room.position ≤ room.output.length :=
    Nat.le_trans (Nat.le_add_right _ _) room.inBuffer
  rw [← @take_drop_overwrite _ room.output bytes _ inside,
    ← @take_drop_overwrite _ room.output other _ inside, ← sameLength]
  exact congrArg (fun buffer => (buffer.drop room.position).take bytes.length) same

end Room

namespace Position

/-- What is loaded between two positions is a scalar of so many bytes. -/
def Gives (data : Bytes) (pos stop : Nat) (final : Bool) (scalar : Scalar) (length : Nat) : Prop :=
  ∃ loaded, load data pos stop final = .ok loaded ∧ loaded.scalar? = some scalar ∧
    loaded.length = length

/-- So many bytes between two positions are what storing a scalar that is no escape writes. -/
def Stands (data : Bytes) (pos stop : Nat) (scalar : Scalar) (length : Nat)
    (room : Room scalar.width) : Prop :=
  scalar.Encodable ∧ ¬ scalar.IsEscape ∧ length ≤ stop - pos ∧
    room.store scalar = ⟨room.holding (data.extract pos (pos + length)), .ok length⟩

variable {data rest : Bytes} {pos stop length : Nat} {lead : UInt8} {scalar : Scalar}

theorem gives_iff (window : data.extract pos stop = lead :: rest) (inside : stop ≤ data.length) :
    Gives data pos stop true scalar length ↔
      (Token.take lead rest).1.scalar = scalar ∧
        (Token.take lead rest).1.bytes.length = length := by
  rw [Gives, load_of_read window inside (Token.read_true lead rest)]
  constructor
  · rintro ⟨loaded, read, is, size⟩
    cases read
    exact ⟨Option.some.inj is, size⟩
  · rintro ⟨is, size⟩
    exact ⟨_, rfl, congrArg some is, size⟩

/-- What is loaded as a character is the form that the bytes start with. -/
theorem gives_and_plain_iff (window : data.extract pos stop = lead :: rest)
    (inside : stop ≤ data.length) :
    Gives data pos stop true scalar length ∧ ¬ scalar.IsEscape ↔
      scalar.Encodable ∧ ¬ scalar.IsEscape ∧ length = scalar.width ∧
        scalar.form <+: data.extract pos stop := by
  rw [gives_iff window inside, window]
  constructor
  · rintro ⟨⟨rfl, rfl⟩, plain⟩
    have taken := Token.read_true lead rest
    generalize Token.take lead rest = found at taken plain ⊢
    obtain ⟨token, behind⟩ := found
    have spelled := Token.spell?_of_read taken
    have encodable := Scalar.encodable_of_spell? spelled
    have form := Option.some.inj ((Scalar.spell?_eq_form encodable).symm.trans spelled)
    refine ⟨encodable, plain, Scalar.length_of_spell?_eq_some spelled, ?_⟩
    rw [form]
    exact ⟨_, Token.bytes_append_of_read taken⟩
  · rintro ⟨encodable, plain, rfl, behind, parts⟩
    obtain ⟨character, rfl⟩ := Scalar.exists_ofChar_eq encodable plain
    have form := Option.some.inj
      ((Scalar.spell?_eq_form encodable).symm.trans (Scalar.spell?_ofChar character))
    rw [form] at parts
    rw [Token.take_of_utf8EncodeChar_append parts, ← Scalar.length_form encodable, form]
    exact ⟨⟨rfl, rfl⟩, plain⟩

/-- What storing a character writes is its form, whatever the place. -/
theorem stands_iff (ordered : pos ≤ stop) (inside : stop ≤ data.length) (room : Room scalar.width) :
    Stands data pos stop scalar length room ↔
      scalar.Encodable ∧ ¬ scalar.IsEscape ∧ length = scalar.width ∧
        scalar.form <+: data.extract pos stop := by
  have front (within : length ≤ stop - pos) :
      data.extract pos (pos + length) = (data.extract pos stop).take length := by
    rw [List.extract, List.extract, List.take_take, Nat.add_sub_cancel_left,
      Nat.min_eq_left within]
  have size (within : length ≤ stop - pos) : (data.extract pos (pos + length)).length = length := by
    rw [length_extract_of_le (by omega), Nat.add_sub_cancel_left]
  constructor
  · rintro ⟨encodable, plain, within, stored⟩
    rw [room.store_eq encodable] at stored
    have lengthIs : scalar.width = length := Except.ok.inj (congrArg Stored.result stored)
    have formSize := (Scalar.length_form encodable).trans lengthIs
    have form := Room.eq_of_holding_eq (congrArg Stored.output stored)
      (formSize.trans (size within).symm)
    refine ⟨encodable, plain, lengthIs.symm, ?_⟩
    rw [form, front within]
    exact List.take_prefix _ _
  · rintro ⟨encodable, plain, rfl, starts⟩
    have formSize := Scalar.length_form encodable
    have within := starts.length_le
    rw [formSize, length_extract_of_le inside] at within
    have form : (data.extract pos stop).take scalar.width = scalar.form := by
      rw [← formSize]
      exact (List.prefix_iff_eq_take.1 starts).symm
    refine ⟨encodable, plain, within, ?_⟩
    rw [room.store_eq encodable, front within, form]

/-- If no character is loaded, then what is loaded is the escape of the byte at the position. -/
theorem gives_stray (window : data.extract pos stop = lead :: rest) (inside : stop ≤ data.length)
    (none : ∀ scalar length, Gives data pos stop true scalar length → scalar.IsEscape) :
    Gives data pos stop true (.ofRawByte lead) 1 ∧ 0x80 ≤ lead.toNat := by
  have given := (gives_iff window inside).2 ⟨rfl, rfl⟩
  have taken := Token.read_true lead rest
  generalize Token.take lead rest = found at given taken
  obtain ⟨token, behind⟩ := found
  rcases Token.read_cases taken with ⟨character, rfl⟩ | ⟨rfl, -, raw, -⟩
  · exact (Scalar.not_isEscape_ofChar character (none _ _ given)).elim
  · exact ⟨given, raw⟩

end Position

/-- Between two positions of a buffer, a scalar that is no escape is loaded if and only if storing
it, wherever there is room, writes the bytes from the first position on, as many as were loaded. No
more than one scalar is stored so. If none is, then what is loaded is one byte from 0x80 on, as its
escape, and storing the escape writes the byte. -/
theorem loading_undoes_storing (data : Bytes) (pos stop : Nat) (inside : stop ≤ data.length)
    (before : pos < stop) :
    (∀ scalar length (room : Room scalar.width),
      Position.Gives data pos stop true scalar length ∧ ¬ scalar.IsEscape ↔
        Position.Stands data pos stop scalar length room) ∧
    (∀ scalar length room other otherLength otherRoom,
      Position.Stands data pos stop scalar length room →
      Position.Stands data pos stop other otherLength otherRoom →
      scalar = other ∧ length = otherLength) ∧
    ((∀ scalar length room, ¬ Position.Stands data pos stop scalar length room) →
      let escape : Scalar := ⟨(0xDC00 ||| data[pos].toNat : Nat)⟩
      Position.Gives data pos stop true escape 1 ∧ 0x80 ≤ data[pos] ∧
      ∀ room : Room 1, room.store escape = ⟨room.output.set room.position data[pos], .ok 1⟩) := by
  have window := extract_eq_cons before (Nat.lt_of_lt_of_le before inside)
  have same (scalar : Scalar) (length : Nat) (room : Room scalar.width) :
      Position.Gives data pos stop true scalar length ∧ ¬ scalar.IsEscape ↔
        Position.Stands data pos stop scalar length room :=
    (Position.gives_and_plain_iff window inside).trans
      (Position.stands_iff (Nat.le_of_lt before) inside room).symm
  refine ⟨same, ?_, ?_⟩
  · intro scalar length room other otherLength otherRoom stands otherStands
    obtain ⟨scalarIs, lengthIs⟩ := (Position.gives_iff window inside).1 ((same _ _ _).2 stands).1
    obtain ⟨otherIs, otherLengthIs⟩ :=
      (Position.gives_iff window inside).1 ((same _ _ _).2 otherStands).1
    exact ⟨scalarIs.symm.trans otherIs, lengthIs.symm.trans otherLengthIs⟩
  · intro none
    have escapes (scalar : Scalar) (length : Nat)
        (given : Position.Gives data pos stop true scalar length) : scalar.IsEscape := by
      apply Decidable.byContradiction
      intro plain
      exact none scalar length (.fresh _) ((same _ _ _).1 ⟨given, plain⟩)
    obtain ⟨given, raw⟩ := Position.gives_stray window inside escapes
    rw [← Scalar.ofRawByte_eq_or]
    refine ⟨given, raw, ?_⟩
    intro room
    rw [← overwrite_nil (room.output.set room.position data[pos]) (room.position + 1),
      overwrite_set _ _ room.inBuffer]
    exact Position.store_of_fits (Scalar.spell?_ofRawByte raw) room.inLimit room.inBuffer

/-- A character of three bytes, and behind it a lead byte that no form has: the first is the one
scalar that stands there, and where the other is, none stands. -/
theorem loading_undoes_storing_before_overlong :
    let data : Bytes := [0x41, 0xE2, 0x82, 0xAC, 0xC0, 0x80]
    let euro : Scalar := ⟨0x20AC⟩
    let room : Room euro.width := ⟨[0x2A, 0x2A, 0x2A, 0x2A, 0x2A], 1, 9, by decide, by decide⟩
    1 < 6 ∧ 4 < 6 ∧ 6 ≤ data.length ∧
    (Position.Gives data 1 6 true euro 3 ∧ ¬ euro.IsEscape) ∧
    Position.Stands data 1 6 euro 3 room ∧
    (∀ other otherLength otherRoom,
      Position.Stands data 1 6 other otherLength otherRoom → euro = other ∧ 3 = otherLength) ∧
    (∀ scalar length room, ¬ Position.Stands data 4 6 scalar length room) ∧
    Position.Gives data 4 6 true ⟨0xDCC0⟩ 1 ∧ (0x80 : UInt8) ≤ 0xC0 ∧
    (Room.fresh 1).store ⟨0xDCC0⟩ = ⟨[0xC0], .ok 1⟩ := by
  have loaded : Position.load [0x41, 0xE2, 0x82, 0xAC, 0xC0, 0x80] (1 : Nat) (6 : Nat) true =
      .ok (.token ⟨⟨0x20AC⟩, [0xE2, 0x82, 0xAC]⟩) := rfl
  intro data euro room
  obtain ⟨same, unique, -⟩ := loading_undoes_storing data 1 6 (by decide) (by decide)
  obtain ⟨sameBehind, -, stray⟩ := loading_undoes_storing data 4 6 (by decide) (by decide)
  have given : Position.Gives data 1 6 true euro 3 ∧ ¬ euro.IsEscape :=
    ⟨⟨_, loaded, rfl, rfl⟩, by decide⟩
  have stands := (same euro 3 room).1 given
  have none (scalar : Scalar) (length : Nat) (room : Room scalar.width) :
      ¬ Position.Stands data 4 6 scalar length room := by
    intro standsBehind
    obtain ⟨⟨loaded, read, is, -⟩, plain⟩ := (sameBehind scalar length room).2 standsBehind
    cases read
    cases is
    exact plain (by decide)
  have escape : (⟨(0xDC00 ||| data[4].toNat : Nat)⟩ : Scalar) = ⟨0xDCC0⟩ := by decide
  obtain ⟨escaped, raw, stored⟩ := stray none
  rw [escape] at escaped stored
  exact ⟨by decide, by decide, by decide, given, stands, fun _ _ _ => unique _ _ _ _ _ _ stands,
    none, escaped, raw, stored (.fresh 1)⟩

end LosslessUtf8
