/-!
# Memory

What a machine lets a program have. Positions and sizes are held in signed 64-bit words. Whether a
size that fits in a word is granted is up to the machine, so a `Memory` is a parameter wherever it
matters: all that is known of it is that a size which fits in no word is turned down as such.
-/

namespace LosslessUtf8

namespace Memory

/-- The first number that is too large for a signed 64-bit word, which holds positions and sizes. -/
def wordLimit : Nat := 0x8000000000000000

/-- How a number is turned down that does not fit in a word. -/
def oversizedMessage : String :=
  "cannot fit 'int' into an index-sized integer"

/-- Why memory is not granted. -/
inductive Fault where
  /-- The size does not fit in a word. -/
  | oversized
  /-- The size leaves no room for what goes with the bytes of a buffer. -/
  | tooLong
  /-- There is not so much memory left. -/
  | exhausted
  deriving DecidableEq, Repr

/-- The words in which a fault is reported, if there are any. -/
def Fault.message : Fault → String
  | .oversized => oversizedMessage
  | .tooLong => "byte string is too large"
  | .exhausted => ""

end Memory

/-- What a machine answers when it is asked for memory. -/
structure Memory where
  /-- Sets aside a row of so many slots. -/
  slots (size : Nat) : Except Memory.Fault Unit
  /-- Sets aside a buffer for so many bytes. -/
  buffer (size : Nat) : Except Memory.Fault Unit
  /-- A row that is larger than any word says is turned down for just that. -/
  slots_of_oversized : ∀ size, Memory.wordLimit ≤ size → slots size = .error .oversized
  /-- So is a buffer. -/
  buffer_of_oversized : ∀ size, Memory.wordLimit ≤ size → buffer size = .error .oversized

namespace Memory

/-- Grants every size that fits in a word. -/
def grantWord (size : Nat) : Except Fault Unit :=
  if wordLimit ≤ size then .error .oversized else .ok ()

/-- A machine that lacks nothing. -/
def ample : Memory where
  slots := grantWord
  buffer := grantWord
  slots_of_oversized _ oversized := if_pos oversized
  buffer_of_oversized _ oversized := if_pos oversized

/-- No machine has more slots than a word can count. -/
theorem slots_wordLimit (memory : Memory) : memory.slots wordLimit = .error .oversized :=
  memory.slots_of_oversized wordLimit (Nat.le_refl wordLimit)

end Memory

end LosslessUtf8
