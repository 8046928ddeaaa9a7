import LosslessUtf8.Addressed
import LosslessUtf8.Proofs.Spans

/-!
# Addressing never fails

Placing a text byte by byte asks of each scalar how long it is, whether it has a byte form and which
bytes it is written as. The three answers agree, so no byte is addressed outside the buffer, and
placing comes to the same as writing all bytes at once (`place_eq`).
-/

namespace LosslessUtf8

namespace Position

variable {output bytes : Bytes} {position : Nat} {scalar : Scalar}

theorem put_of_le (fits : position + bytes.length ≤ output.length) :
    put output position bytes = ⟨overwrite output position bytes, .ok ()⟩ := by
  induction bytes generalizing output position with
  | nil => rw [overwrite_nil]; rfl
  | cons byte bytes ih =>
      rw [List.length_cons] at fits
      have inside : position < output.length := by omega
      have next : ((position : Int) + 1) = ((position + 1 : Nat) : Int) := by omega
      rw [put, locate_natCast inside]
      dsimp only
      rw [next, ih (by rw [List.length_set]; omega), overwrite_set byte bytes inside]

section Store

variable {spelling : Bytes} (spelled : scalar.spell? = some spelling)

include spelled

theorem store_of_tight {stop : Int} (tight : stop - position < spelling.length) :
    store scalar output position stop = ⟨output, .ok 0⟩ := by
  rw [store, spelled]
  exact if_pos tight

theorem store_of_room {stop : Int} (room : spelling.length ≤ stop - position) :
    store scalar output position stop =
      ⟨(put output position spelling).output,
        (put output position spelling).result.map fun _ => spelling.length⟩ := by
  rw [store, spelled]
  exact if_neg (Int.not_lt.2 room)

theorem store_of_lt (inside : position ≤ output.length)
    (tight : output.length - position < spelling.length) :
    store scalar output position output.length = ⟨output, .ok 0⟩ :=
  store_of_tight spelled (by omega)

theorem store_of_fits {stop : Int} (room : spelling.length ≤ stop - position)
    (fits : position + spelling.length ≤ output.length) :
    store scalar output position stop =
      ⟨overwrite output position spelling, .ok spelling.length⟩ := by
  rw [store_of_room spelled room, put_of_le fits]
  rfl

theorem store_of_le (fits : position + spelling.length ≤ output.length) :
    store scalar output position output.length =
      ⟨overwrite output position spelling, .ok spelling.length⟩ :=
  store_of_fits spelled (by omega) fits

end Store

end Position

section PlaceFrom

open Encoding (pack pack_nil pack_cons_of_none pack_cons_of_lt pack_cons_of_le)

variable {output spelling : Bytes} {position : Nat} {scalar : Scalar} (index : Nat) (text : Text)

theorem placeFrom_cons_of_none (unspelled : scalar.spell? = none) :
    placeFrom output position index (scalar :: text) =
      ⟨output, .ok (.unencodable ⟨scalar, index⟩)⟩ :=
  if_neg (Scalar.spell?_eq_none_iff.1 unspelled)

theorem placeFrom_cons_of_lt (spelled : scalar.spell? = some spelling)
    (inside : position ≤ output.length)
    (tight : output.length - position < spelling.length) :
    placeFrom output position index (scalar :: text) =
      ⟨output, .ok (.full position index)⟩ := by
  rw [placeFrom, if_pos (Scalar.encodable_of_spell? spelled),
    Position.store_of_lt spelled inside tight]
  rfl

theorem placeFrom_cons_of_le (spelled : scalar.spell? = some spelling)
    (fits : position + spelling.length ≤ output.length) :
    placeFrom output position index (scalar :: text) =
      placeFrom (overwrite output position spelling) (position + spelling.length) (index + 1)
        text := by
  rw [placeFrom, if_pos (Scalar.encodable_of_spell? spelled), Position.store_of_le spelled fits]
  cases spelling with
  | nil =>
      have size := Scalar.length_of_spell?_eq_some spelled
      have positive := scalar.width_pos
      exact absurd size (Nat.ne_of_lt positive)
  | cons byte bytes => rfl

theorem Encoding.Progress.outcome_cons (progress : Encoding.Progress) :
    (progress.cons spelling).outcome index position =
      progress.outcome (index + 1) (position + spelling.length) := by
  obtain ⟨bytes, taken, stop⟩ := progress
  cases stop <;>
    simp only [Encoding.Progress.cons, Encoding.Progress.outcome, List.length_append,
      Nat.add_assoc, Nat.add_comm 1]

theorem placeFrom_eq (inside : position ≤ output.length) :
    placeFrom output position index text =
      let progress := pack (output.length - position) text
      ⟨overwrite output position progress.bytes, .ok (progress.outcome index position)⟩ := by
  induction text generalizing output position index with
  | nil =>
      rw [pack_nil]
      dsimp only
      rw [overwrite_nil]
      rfl
  | cons scalar text ih =>
      cases spelled : scalar.spell? with
      | none =>
          rw [placeFrom_cons_of_none _ _ spelled, pack_cons_of_none _ _ spelled]
          dsimp only
          rw [overwrite_nil]
          rfl
      | some spelling =>
          by_cases tight : output.length - position < spelling.length
          · rw [placeFrom_cons_of_lt _ _ spelled inside tight, pack_cons_of_lt _ spelled tight]
            dsimp only
            rw [overwrite_nil]
            rfl
          · have fits : position + spelling.length ≤ output.length := by omega
            have size := length_overwrite fits
            have room : output.length - (position + spelling.length) =
                output.length - position - spelling.length := by omega
            rw [placeFrom_cons_of_le _ _ spelled fits, ih _ (size ▸ fits), size, room,
              pack_cons_of_le _ spelled (by omega)]
            dsimp only
            rw [overwrite_overwrite fits, Encoding.Progress.outcome_cons]
            rfl

end PlaceFrom

theorem place_eq (text : Text) (output : Bytes) (given : EncodeArguments) :
    place text output given =
      ⟨(encodeInto text output given).2, .ok (encodeInto text output given).1⟩ := by
  rw [place, encodeInto]
  cases given.resolve text.length output.length with
  | error rejection => rfl
  | ok plan => exact placeFrom_eq _ _ plan.outputStart_le

end LosslessUtf8
