/-!
# Numerals

How numbers are written and read. Messages spell some numbers in base sixteen, in full, and others
in base ten, in which no number of more than a given length is ever written. An integer is read from
digits of any script, with single underscores between them, a sign in front and blanks around it.
-/

namespace LosslessUtf8

/-! ## Base sixteen -/

namespace Hexadecimal

/-- Lower-case digits of a number, without leading zeros. -/
def lower (value : Nat) : String :=
  String.ofList (Nat.toDigits 16 value)

/-- Upper-case digits of a number, with a minus sign in front of a negative one. -/
def upper (value : Int) : String :=
  let digits := (lower value.natAbs).map Char.toUpper
  if value < 0 then "-" ++ digits else digits

/-- Lower-case digits, filled with zeros on the left up to the given length. -/
def padded (length value : Nat) : String :=
  let digits := lower value
  String.ofList (List.replicate (length - digits.length) '0') ++ digits

end Hexadecimal

namespace Numeral

/-! ## Writing in base ten -/

/-- The most digits that a numeral may have, leading zeros included. -/
def digitLimit : Nat := 4300

/-- A number has more digits than a numeral may have. A sign is no digit. -/
def IsLong (number : Int) : Prop :=
  digitLimit < (Nat.toDigits 10 number.natAbs).length

instance (number : Int) : Decidable (IsLong number) :=
  inferInstanceAs (Decidable (_ < _))

/-- One of some numbers is long. -/
def AnyLong (numbers : List Int) : Prop :=
  ∃ number ∈ numbers, IsLong number

instance (numbers : List Int) : Decidable (AnyLong numbers) :=
  inferInstanceAs (Decidable (∃ number ∈ numbers, IsLong number))

/-- How a number is turned down that is too long to be written. -/
def longMessage : String :=
  "Exceeds the limit (" ++ toString digitLimit ++ " digits) for integer string conversion; " ++
    "use sys.set_int_max_str_digits() to increase the limit"

/-- A message in which some numbers are written, unless one of them is too long. Then that is the
message. -/
def telling (numbers : List Int) (message : String) : String :=
  if AnyLong numbers then longMessage else message

/-! ## Reading in base ten -/

/-- The characters that may stand around a numeral. -/
def isBlank (character : Char) : Bool :=
  let code := character.toNat
  (9 ≤ code && code ≤ 13) || (0x2000 ≤ code && code ≤ 0x200A) ||
    [0x20, 0x85, 0xA0, 0x1680, 0x2028, 0x2029, 0x202F, 0x205F, 0x3000].contains code

/-- The digits zero of Unicode 14. The nine digits that go with each of them follow it in order. -/
def zeros : List Nat := [
  0x30, 0x660, 0x6F0, 0x7C0, 0x966, 0x9E6, 0xA66, 0xAE6, 0xB66, 0xBE6, 0xC66, 0xCE6, 0xD66, 0xDE6,
  0xE50, 0xED0, 0xF20, 0x1040, 0x1090, 0x17E0, 0x1810, 0x1946, 0x19D0, 0x1A80, 0x1A90, 0x1B50,
  0x1BB0, 0x1C40, 0x1C50, 0xA620, 0xA8D0, 0xA900, 0xA9D0, 0xA9F0, 0xAA50, 0xABF0, 0xFF10, 0x104A0,
  0x10D30, 0x11066, 0x110F0, 0x11136, 0x111D0, 0x112F0, 0x11450, 0x114D0, 0x11650, 0x116C0,
  0x11730, 0x118E0, 0x11950, 0x11C50, 0x11D50, 0x11DA0, 0x16A60, 0x16AC0, 0x16B50, 0x1D7CE,
  0x1D7D8, 0x1D7E2, 0x1D7EC, 0x1D7F6, 0x1E140, 0x1E2F0, 0x1E950, 0x1FBF0]

/-- The value of a decimal digit of any script. -/
def digit? (character : Char) : Option Nat :=
  let code := character.toNat
  (zeros.find? fun first => first ≤ code && code < first + 10).map (code - ·)

/-- The digits of a numeral, which come one by one or behind single underscores, up to the first
character that goes on neither way. They are put behind digits that were read before, in reverse. -/
def digitsOnto (reversed : List Nat) : List Char → List Nat × List Char
  | [] => (reversed, [])
  | [character] =>
    match digit? character with
    | some value => (value :: reversed, [])
    | none => (reversed, [character])
  | character :: next :: rest =>
    match digit? character with
    | some value => digitsOnto (value :: reversed) (next :: rest)
    | none =>
      match character == '_' && !reversed.isEmpty, digit? next with
      | true, some value => digitsOnto (value :: reversed) rest
      | _, _ => (reversed, character :: next :: rest)

/-- The number that digits stand for, the first of them being the lowest. -/
def ofReversedDigits (reversed : List Nat) : Nat :=
  reversed.reverse.foldl (fun number digit => number * 10 + digit) 0

/-- The number that digits and nothing but blanks behind them stand for. -/
def natural? (characters : List Char) : Option Nat :=
  let (reversed, rest) := digitsOnto [] characters
  if reversed.isEmpty || digitLimit < reversed.length || !rest.all isBlank then none
  else some (ofReversedDigits reversed)

/-- The integer that a string spells. -/
def ofString? (string : String) : Option Int :=
  match string.toList.dropWhile isBlank with
  | '+' :: rest => (natural? rest).map Int.ofNat
  | '-' :: rest => (natural? rest).map fun number => -Int.ofNat number
  | rest => (natural? rest).map Int.ofNat

end Numeral

end LosslessUtf8
