import LosslessUtf8.Memory
import LosslessUtf8.Token

/-!
# One scalar at a position

Writing the byte form of one scalar into a buffer, or reading the token at one place of it, when the
place is given as an integer. A position counts from the front; a negative one counts back from the
end. Every byte is addressed on its own, so a write that runs off the end of the buffer keeps the
bytes that were in reach, and a read fails only if it needs a byte that is not there.
-/

namespace LosslessUtf8

/-- Why no byte lies at a position. -/
inductive AddressFault where
  /-- The position is before the first byte or behind the last. -/
  | outside
  /-- The position does not fit in a signed 64-bit word. -/
  | oversized
  deriving DecidableEq, Repr

/-- What a byte was addressed for. -/
inductive Access where
  | reading
  | writing
  deriving DecidableEq, Repr

/-- The words in which a fault is reported. -/
def AddressFault.message (access : Access) : AddressFault → String
  | .oversized => Memory.oversizedMessage
  | .outside =>
    match access with
    | .reading => "index out of range"
    | .writing => "bytearray index out of range"

namespace Position

/-- The index of the byte at a position of a buffer of the given size. -/
def locate (size : Nat) (position : Int) : Except AddressFault (Fin size) :=
  let offset := if position < 0 then position + size else position
  if inside : 0 ≤ offset ∧ offset < size then .ok ⟨offset.toNat, by omega⟩
  else if -Memory.wordLimit ≤ position ∧ position < Memory.wordLimit then .error .outside
  else .error .oversized

/-- A position inside the buffer is the index itself. -/
theorem locate_natCast {size index : Nat} (inside : index < size) :
    locate size index = .ok ⟨index, inside⟩ := by
  have offset : (if (index : Int) < 0 then (index : Int) + size else index) = index :=
    if_neg (by omega)
  simp only [locate, offset]
  rw [dif_pos (by omega)]
  rfl

/-! ## Writing -/

/-- A buffer after an attempt to write to it, and what came of the attempt. -/
structure Stored (α : Type) where
  output : Bytes
  result : Except AddressFault α
  deriving Repr

/-- Writes bytes side by side from a position on, up to the first that lies nowhere. -/
def put (output : Bytes) (position : Int) : Bytes → Stored Unit
  | [] => ⟨output, .ok ()⟩
  | byte :: bytes =>
    match locate output.length position with
    | .error fault => ⟨output, .error fault⟩
    | .ok index => put (output.set index byte) (position + 1) bytes

/-- Writes the byte form of a scalar between two positions and answers how many bytes that took. It
takes none, and the buffer stays as it is, if the scalar has no byte form or the form does not fit
between the positions. -/
def store (scalar : Scalar) (output : Bytes) (position stop : Int) : Stored Nat :=
  match scalar.spell? with
  | none => ⟨output, .ok 0⟩
  | some spelling =>
    if stop - position < spelling.length then ⟨output, .ok 0⟩
    else
      let written := put output position spelling
      ⟨written.output, written.result.map fun _ => spelling.length⟩

/-! ## Reading -/

/-- What is read between two positions. -/
inductive Loaded where
  /-- There is nothing between the positions. -/
  | nothing
  /-- A token starts at the first position. -/
  | token (found : Token)
  /-- All that lies between the positions is the beginning of a sequence. -/
  | incomplete (available : Nat)
  deriving DecidableEq, Repr

/-- The scalar that was read. Where nothing lies, the answer is the scalar zero. -/
def Loaded.scalar? : Loaded → Option Scalar
  | .nothing => some ⟨0⟩
  | .token found => some found.scalar
  | .incomplete _ => none

/-- The number of bytes that belong to what was read. -/
def Loaded.length : Loaded → Nat
  | .nothing => 0
  | .token found => found.bytes.length
  | .incomplete available => available

/-- The bytes in a row from a position on, and the fault that ended the row if it is shorter than
asked for. -/
def gather (data : Bytes) (position : Int) : Nat → Bytes × Option AddressFault
  | 0 => ([], none)
  | count + 1 =>
    match locate data.length position with
    | .error fault => ([], some fault)
    | .ok index =>
      let behind := gather data (position + 1) count
      (data.get index :: behind.1, behind.2)

/-- Reads what lies between two positions. No token is longer than four bytes. A fault counts only
if the bytes in front of it leave the token open. -/
def load (data : Bytes) (position stop : Int) (final : Bool) : Except AddressFault Loaded :=
  let available := (stop - position).toNat
  match gather data position (min 4 available) with
  | ([], none) => .ok .nothing
  | ([], some fault) => .error fault
  | (lead :: rest, fault) =>
    match Token.scan lead rest, fault with
    | some (found, _), _ => .ok (.token found)
    | none, some fault => .error fault
    | none, none => .ok (if final then .token (.stray lead) else .incomplete available)

end Position

end LosslessUtf8
