import LosslessUtf8.Scalar.Spelling

/-!
# Tokens

Reading bytes from the left takes one token at a time: a well-formed sequence, which stands for the
scalar that it spells, or a stray byte, which stands for its escape. `Token.scan` decides as soon as
the bytes at hand allow; `Token.read` adds what happens when they run out. Main statements: a token
and what is left behind it make up the input (`bytes_append_of_scan`), so every step shortens it
(`length_lt_of_read`).
-/

namespace LosslessUtf8

/-- The bytes from 0x80 to 0xBF, which only ever stand behind a lead byte. -/
def isContinuation (byte : UInt8) : Bool :=
  0x80 ≤ byte && byte < 0xC0

/-- A piece of the input that stands for one scalar. -/
structure Token where
  scalar : Scalar
  bytes : Bytes
  deriving DecidableEq, Repr

namespace Token

/-- The token of a byte that belongs to no sequence. -/
def stray (byte : UInt8) : Token where
  scalar := .ofRawByte byte
  bytes := [byte]

/-- The number that a two-byte sequence spells. -/
def twoByteValue (lead second : UInt8) : Nat :=
  lead.toNat % 32 * 64 + second.toNat % 64

/-- The number that a three-byte sequence spells. -/
def threeByteValue (lead second third : UInt8) : Nat :=
  lead.toNat % 16 * 4096 + second.toNat % 64 * 64 + third.toNat % 64

/-- The number that a four-byte sequence spells. -/
def fourByteValue (lead second third fourth : UInt8) : Nat :=
  lead.toNat % 8 * 262144 + second.toNat % 64 * 4096 + third.toNat % 64 * 64 + fourth.toNat % 64

/-- The numbers that three bytes spell: too large for two, and no surrogate. -/
def NeedsThreeBytes (number : Nat) : Prop :=
  0x800 ≤ number ∧ (number < 0xD800 ∨ 0xE000 ≤ number)

instance (number : Nat) : Decidable (NeedsThreeBytes number) :=
  inferInstanceAs (Decidable (_ ∧ _))

/-- The numbers that four bytes spell: too large for three, and no larger than any code point. -/
def NeedsFourBytes (number : Nat) : Prop :=
  0x10000 ≤ number ∧ number < 0x110000

instance (number : Nat) : Decidable (NeedsFourBytes number) :=
  inferInstanceAs (Decidable (_ ∧ _))

/-- Takes the token at the front of some bytes, together with the bytes behind it; `none` if the
bytes end before it is decided. A sequence that goes wrong costs its lead byte alone, and the bytes
behind that are read again. Whether a three- or four-byte sequence spells an allowed number is asked
last, when all its bytes are there. -/
def scan (lead : UInt8) (rest : Bytes) : Option (Token × Bytes) :=
  if lead < 0x80 then some (⟨⟨lead.toNat⟩, [lead]⟩, rest)
  else if lead < 0xC2 ∨ 0xF4 < lead then some (stray lead, rest)
  else match rest with
  | [] => none
  | second :: behindSecond =>
    if ¬ isContinuation second then some (stray lead, rest)
    else if lead < 0xE0 then
      some (⟨⟨twoByteValue lead second⟩, [lead, second]⟩, behindSecond)
    else match behindSecond with
    | [] => none
    | third :: behindThird =>
      if ¬ isContinuation third then some (stray lead, rest)
      else if lead < 0xF0 then
        if NeedsThreeBytes (threeByteValue lead second third) then
          some (⟨⟨threeByteValue lead second third⟩, [lead, second, third]⟩, behindThird)
        else some (stray lead, rest)
      else match behindThird with
      | [] => none
      | fourth :: behindFourth =>
        if ¬ isContinuation fourth then some (stray lead, rest)
        else if NeedsFourBytes (fourByteValue lead second third fourth) then
          some (⟨⟨fourByteValue lead second third fourth⟩, [lead, second, third, fourth]⟩,
            behindFourth)
        else some (stray lead, rest)

/-- Takes the token at the front of a window. If the window ends too early to tell, the answer hangs
on what follows the window: nothing, and then the lead byte is stray, or perhaps the missing bytes,
and then there is no token yet. -/
def read (final : Bool) (lead : UInt8) (rest : Bytes) : Option (Token × Bytes) :=
  match scan lead rest with
  | some found => some found
  | none => if final then some (stray lead, rest) else none

/-- A token and the bytes behind it are the bytes that were scanned. -/
theorem bytes_append_of_scan {lead : UInt8} {rest behind : Bytes} {token : Token}
    (scanned : scan lead rest = some (token, behind)) : token.bytes ++ behind = lead :: rest := by
  unfold scan at scanned
  repeat' split at scanned
  all_goals first | contradiction | (cases scanned; rfl)

theorem bytes_append_of_read {final : Bool} {lead : UInt8} {rest behind : Bytes} {token : Token}
    (taken : read final lead rest = some (token, behind)) :
    token.bytes ++ behind = lead :: rest := by
  unfold read at taken
  split at taken
  · next scanned =>
    cases taken
    exact bytes_append_of_scan scanned
  · split at taken
    · cases taken
      rfl
    · contradiction

/-- No token is empty. -/
theorem bytes_ne_nil_of_scan {lead : UInt8} {rest behind : Bytes} {token : Token}
    (scanned : scan lead rest = some (token, behind)) : token.bytes ≠ [] := by
  unfold scan at scanned
  repeat' split at scanned
  all_goals first | contradiction | (cases scanned; exact List.cons_ne_nil _ _)

theorem bytes_ne_nil_of_read {final : Bool} {lead : UInt8} {rest behind : Bytes} {token : Token}
    (taken : read final lead rest = some (token, behind)) : token.bytes ≠ [] := by
  unfold read at taken
  split at taken
  · next scanned =>
    cases taken
    exact bytes_ne_nil_of_scan scanned
  · split at taken
    · cases taken
      exact List.cons_ne_nil _ _
    · contradiction

/-- Taking a token leaves fewer bytes. -/
theorem length_lt_of_read {final : Bool} {lead : UInt8} {rest behind : Bytes} {token : Token}
    (taken : read final lead rest = some (token, behind)) :
    behind.length < rest.length + 1 := by
  have split := congrArg List.length (bytes_append_of_read taken)
  have nonempty := List.length_pos_iff.2 (bytes_ne_nil_of_read taken)
  simp only [List.length_append, List.length_cons] at split
  omega

/-- With nothing to follow, every window that is not empty starts with a token. -/
theorem read_true_isSome (lead : UInt8) (rest : Bytes) : (read true lead rest).isSome := by
  unfold read
  split <;> rfl

/-- The token at the front of a window that nothing follows. -/
def take (lead : UInt8) (rest : Bytes) : Token × Bytes :=
  (read true lead rest).get (read_true_isSome lead rest)

theorem length_take_lt (lead : UInt8) (rest : Bytes) :
    (take lead rest).2.length < rest.length + 1 := by
  have taken : read true lead rest = some (take lead rest) := (Option.some_get _).symm
  exact length_lt_of_read taken

end Token

end LosslessUtf8
