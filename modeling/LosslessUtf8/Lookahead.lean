import LosslessUtf8.Addressed
import LosslessUtf8.Bits

/-!
# Reading no further than needed

The token at a position, read one byte after the other. The next byte is addressed only when those
in front of it leave the token open, and only if the stop is not there yet. Which positions were
addressed is kept beside the answer.
-/

namespace LosslessUtf8

namespace Position

/-- What came of reading, and the positions that were addressed for it. -/
structure Traced (α : Type) where
  positions : List Int
  result : Except AddressFault α
  deriving Repr

namespace Traced

variable {α : Type} {start stop : Int}

/-- An answer for which nothing more is read. -/
def done (answer : α) : Traced α where
  positions := []
  result := .ok answer

/-- Addresses the byte at a position, and goes on with it. -/
def read (data : Bytes) (position : Int) (next : UInt8 → Traced α) : Traced α :=
  match fetch data position with
  | .error fault => ⟨[position], .error fault⟩
  | .ok byte => ⟨position :: (next byte).positions, (next byte).result⟩

/-- Everything that was addressed lies between two positions. -/
def Within (traced : Traced α) (start stop : Int) : Prop :=
  ∀ position ∈ traced.positions, start ≤ position ∧ position < stop

theorem within_done (answer : α) : (done answer).Within start stop :=
  List.forall_mem_nil _

theorem within_ite {condition : Prop} [Decidable condition] {yes no : Traced α}
    (ifYes : yes.Within start stop) (ifNo : ¬ condition → no.Within start stop) :
    (if condition then yes else no).Within start stop := by
  split
  · exact ifYes
  · exact ifNo ‹_›

theorem result_ite {condition : Prop} [Decidable condition] (yes no : Traced α) :
    (if condition then yes else no).result = if condition then yes.result else no.result :=
  apply_ite result _ _ _

variable {data : Bytes} {position : Int} {next : UInt8 → Traced α}

theorem within_read (behind : start ≤ position) (before : position < stop)
    (goesOn : ∀ byte, (next byte).Within start stop) :
    (read data position next).Within start stop := by
  rw [read]
  split
  · exact List.forall_mem_singleton.2 ⟨behind, before⟩
  · exact List.forall_mem_cons.2 ⟨⟨behind, before⟩, goesOn _⟩

theorem result_read_of_error {fault : AddressFault}
    (missing : fetch data position = .error fault) :
    (read data position next).result = .error fault := by
  rw [read, missing]

theorem result_read_of_ok {byte : UInt8} (fetched : fetch data position = .ok byte) :
    (read data position next).result = (next byte).result := by
  rw [read, fetched]

end Traced

/-- What is read from bytes that end before the sequence that they start with. -/
def cutShort (final : Bool) (lead : UInt8) (available : Int) : Loaded :=
  if final then .token (.stray lead) else .incomplete available.toNat

/-- Goes on with the byte that is so many places behind a position, unless the bytes end there. -/
def goOn (data : Bytes) (position available : Int) (final : Bool) (lead : UInt8) (count : Int)
    (next : UInt8 → Traced Loaded) : Traced Loaded :=
  if available = count then .done (cutShort final lead available)
  else .read data (position + count) next

/-- Reads what lies between two positions, byte by byte. -/
def lookahead (data : Bytes) (position stop : Int) (final : Bool) : Traced Loaded :=
  let available := stop - position
  if available ≤ 0 then .done .nothing
  else .read data position fun lead =>
    let escaped := .done (.token (.stray lead))
    if lead < 0x80 then .done (.token ⟨⟨lead.toNat⟩, [lead]⟩)
    else if lead < 0xC2 ∨ 0xF4 < lead then escaped
    else goOn data position available final lead 1 fun second =>
      if second &&& 0xC0 ≠ 0x80 then escaped
      else if lead < 0xE0 then
        .done (.token ⟨⟨Token.twoByteBits lead second⟩, [lead, second]⟩)
      else goOn data position available final lead 2 fun third =>
        if third &&& 0xC0 ≠ 0x80 then escaped
        else if lead < 0xF0 then
          let value := Token.threeByteBits lead second third
          if 0x800 ≤ value ∧ ¬ (0xD800 ≤ value ∧ value < 0xE000) then
            .done (.token ⟨⟨value⟩, [lead, second, third]⟩)
          else escaped
        else goOn data position available final lead 3 fun fourth =>
          if fourth &&& 0xC0 ≠ 0x80 then escaped
          else
            let value := Token.fourByteBits lead second third fourth
            if 0x10000 ≤ value ∧ value < 0x110000 then
              .done (.token ⟨⟨value⟩, [lead, second, third, fourth]⟩)
            else escaped

end Position

end LosslessUtf8
