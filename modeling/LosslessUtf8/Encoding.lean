import LosslessUtf8.Scalar.Spelling
import LosslessUtf8.Text.Numeral

/-!
# Encoding

Text becomes bytes scalar by scalar. `Encoding.pack` works under a limit and stops in front of the
first scalar that has no byte form or does not fit; `encode` sets no limit, and a scalar without a
byte form is its only failure. Main statements: the equations of `pack` and of `encode`.
-/

namespace LosslessUtf8

/-- A scalar without a byte form, and where in the text it stands. -/
structure Unencodable where
  scalar : Scalar
  index : Nat
  deriving DecidableEq, Repr

/-- The words in which an unencodable scalar is reported. -/
def Unencodable.message (failure : Unencodable) : String :=
  "Scalar 0x" ++ Hexadecimal.upper failure.scalar.value ++ " at index " ++
    toString failure.index ++ " has no UTF-8b encoding"

namespace Encoding

/-- Why encoding stopped. -/
inductive Stop where
  /-- All scalars are encoded. -/
  | finished
  /-- The next scalar has no byte form. -/
  | unencodable (scalar : Scalar)
  /-- The next scalar does not fit. -/
  | full
  deriving DecidableEq, Repr

/-- The bytes that were written, and how many scalars they stand for. -/
structure Progress where
  bytes : Bytes
  taken : Nat
  stop : Stop
  deriving DecidableEq, Repr

/-- Puts the byte form of one more scalar in front of what was written. -/
def Progress.cons (spelling : Bytes) (progress : Progress) : Progress :=
  { progress with bytes := spelling ++ progress.bytes, taken := progress.taken + 1 }

/-- Encodes into a given room, behind bytes that are already there, in reverse. -/
def packOnto (reversed : Bytes) (taken room : Nat) : Text → Progress
  | [] => ⟨reversed.reverse, taken, .finished⟩
  | scalar :: text =>
    match scalar.spell? with
    | none => ⟨reversed.reverse, taken, .unencodable scalar⟩
    | some spelling =>
      if room < spelling.length then ⟨reversed.reverse, taken, .full⟩
      else packOnto (spelling.reverseAux reversed) (taken + 1) (room - spelling.length) text

/-- Encodes as many scalars from the front of a text as fit into a number of bytes. -/
def pack (room : Nat) (text : Text) : Progress :=
  packOnto [] 0 room text

theorem packOnto_eq (reversed : Bytes) (taken room : Nat) (text : Text) :
    packOnto reversed taken room text =
      { pack room text with
        bytes := reversed.reverse ++ (pack room text).bytes
        taken := taken + (pack room text).taken } := by
  induction text generalizing reversed taken room with
  | nil => simp [pack, packOnto]
  | cons scalar text ih =>
    simp only [pack, packOnto]
    split
    · simp
    · split
      · simp
      · rw [ih, ih (List.reverseAux _ [])]
        simp [List.reverseAux_eq, Nat.add_assoc]

@[simp] theorem pack_nil (room : Nat) : pack room [] = ⟨[], 0, .finished⟩ := rfl

theorem pack_cons_of_none {scalar : Scalar} (room : Nat) (text : Text)
    (unspelled : scalar.spell? = none) :
    pack room (scalar :: text) = ⟨[], 0, .unencodable scalar⟩ := by
  simp [pack, packOnto, unspelled]

theorem pack_cons_of_lt {scalar : Scalar} {spelling : Bytes} {room : Nat} (text : Text)
    (spelled : scalar.spell? = some spelling) (tight : room < spelling.length) :
    pack room (scalar :: text) = ⟨[], 0, .full⟩ := by
  simp [pack, packOnto, spelled, tight]

theorem pack_cons_of_le {scalar : Scalar} {spelling : Bytes} {room : Nat} (text : Text)
    (spelled : scalar.spell? = some spelling) (fits : spelling.length ≤ room) :
    pack room (scalar :: text) = (pack (room - spelling.length) text).cons spelling := by
  simp only [pack, packOnto, spelled, if_neg (Nat.not_lt.2 fits)]
  rw [packOnto_eq]
  simp [Progress.cons, pack, List.reverseAux_eq, Nat.add_comm]

/-- Encodes a text up to the first scalar that has no byte form, behind bytes that are already
there; `index` is where in the whole text it starts. The bytes are in reverse. -/
def spellOnto (reversed : Bytes) (index : Nat) : Text → Bytes × Option Unencodable
  | [] => (reversed, none)
  | scalar :: text =>
    match scalar.spell? with
    | none => (reversed, some ⟨scalar, index⟩)
    | some spelling => spellOnto (spelling.reverseAux reversed) (index + 1) text

theorem spellOnto_eq (reversed : Bytes) (index : Nat) (text : Text) :
    spellOnto reversed index text =
      ((spellOnto [] 0 text).1 ++ reversed,
        (spellOnto [] 0 text).2.map fun failure =>
          ⟨failure.scalar, index + failure.index⟩) := by
  induction text generalizing reversed index with
  | nil => simp [spellOnto]
  | cons scalar text ih =>
    simp only [spellOnto]
    cases scalar.spell? with
    | none => simp
    | some spelling =>
      simp only
      rw [ih, ih (spelling.reverseAux [])]
      simp only [List.reverseAux_eq, List.append_nil, List.append_assoc, Option.map_map]
      congr 2
      funext failure
      simp [Nat.add_assoc]

end Encoding

/-- The bytes that a text is written as. -/
def encode (text : Text) : Except Unencodable Bytes :=
  match Encoding.spellOnto [] 0 text with
  | (reversed, none) => .ok reversed.reverse
  | (_, some failure) => .error failure

@[simp] theorem encode_nil : encode [] = .ok [] := rfl

theorem encode_cons_of_none {scalar : Scalar} (text : Text) (unspelled : scalar.spell? = none) :
    encode (scalar :: text) = .error ⟨scalar, 0⟩ := by
  simp [encode, Encoding.spellOnto, unspelled]

theorem encode_cons_of_some {scalar : Scalar} {spelling : Bytes} (text : Text)
    (spelled : scalar.spell? = some spelling) :
    encode (scalar :: text) =
      match encode text with
      | .ok bytes => .ok (spelling ++ bytes)
      | .error failure => .error ⟨failure.scalar, failure.index + 1⟩ := by
  simp only [encode, Encoding.spellOnto, spelled]
  rw [Encoding.spellOnto_eq]
  rcases Encoding.spellOnto [] 0 text with ⟨reversed, failure?⟩
  cases failure? <;> simp [List.reverseAux_eq, Nat.add_comm]

end LosslessUtf8
