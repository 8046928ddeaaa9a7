import LosslessUtf8.Addressed

/-!
# Loops turn by turn

A loop by its turns, without anything that says that they come to an end. A run of a loop keeps the
states in which a turn was taken. Counting and decoding are such loops.
-/

namespace LosslessUtf8

/-- What a turn of a loop comes to. -/
inductive Turn (σ β : Type) where
  /-- The next turn is asked for in another state. -/
  | again (next : σ)
  /-- The loop is left in the middle of the turn. -/
  | leave (answer : β)

/-- A loop: the condition for one more turn, the turn, and the answer when the condition fails. -/
structure Loop (σ β : Type) where
  GoesOn : σ → Prop
  turn : σ → Turn σ β
  finish : σ → β

namespace Loop

variable {σ β : Type}

/-- From a state on, the loop takes a turn in each of some states, one after the other, and ends
with an answer. -/
inductive Runs (loop : Loop σ β) : σ → List σ → β → Prop where
  | finished {state : σ} (ends : ¬ loop.GoesOn state) : Runs loop state [] (loop.finish state)
  | left {state : σ} {answer : β} (goesOn : loop.GoesOn state)
      (turned : loop.turn state = .leave answer) : Runs loop state [state] answer
  | again {state next : σ} {visited : List σ} {answer : β} (goesOn : loop.GoesOn state)
      (turned : loop.turn state = .again next) (behind : Runs loop next visited answer) :
      Runs loop state (state :: visited) answer

end Loop

namespace Addressed

/-! ## Counting -/

/-- Where counting is, and how far it has counted. -/
structure Tally where
  position : Nat
  counted : Nat
  deriving DecidableEq, Repr

/-- Counts the scalars that some bytes decode to, up to a stop that nothing follows. -/
def countLoop (data : Bytes) (stop : Nat) : Loop Tally (Except AddressFault Tally) where
  GoesOn tally := tally.position < stop
  turn tally :=
    match Position.load data tally.position stop true with
    | .error fault => .leave (.error fault)
    | .ok loaded => .again ⟨tally.position + loaded.length, tally.counted + 1⟩
  finish tally := .ok tally

/-! ## Decoding -/

/-- Where decoding is, and the slots so far. -/
structure Cursor where
  slots : Text
  position : Nat
  slot : Nat
  deriving DecidableEq, Repr

/-- Decodes some bytes, up to a stop, into the slots in front of another stop. -/
def decodeLoop (data : Bytes) (final : Bool) (stop slotStop : Nat) : Loop Cursor (Filled Halt) where
  GoesOn cursor := cursor.position < stop
  turn cursor :=
    if slotStop ≤ cursor.slot then
      .leave ⟨cursor.slots, .ok ⟨cursor.position, cursor.slot, .outputFull⟩⟩
    else
      match Position.load data cursor.position stop final with
      | .error fault => .leave ⟨cursor.slots, .error fault⟩
      | .ok loaded =>
        match loaded.scalar? with
        | none => .leave ⟨cursor.slots, .ok ⟨cursor.position, cursor.slot, .incomplete⟩⟩
        | some scalar =>
          match Position.locate cursor.slots.length cursor.slot with
          | .error fault => .leave ⟨cursor.slots, .error fault⟩
          | .ok index =>
            .again ⟨cursor.slots.set index scalar, cursor.position + loaded.length,
              cursor.slot + 1⟩
  finish cursor := ⟨cursor.slots, .ok ⟨cursor.position, cursor.slot, .inputExhausted⟩⟩

end Addressed

end LosslessUtf8
