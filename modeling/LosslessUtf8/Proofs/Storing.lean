import LosslessUtf8.Bits
import LosslessUtf8.Proofs.ExactEncoding

/-!
# Storing one scalar

A scalar is sized, asked for a byte form and stored by three definitions that sort the integers each
in its own way. Storing is bounded twice: by a limit that is given, in front of which all of the
byte form has to fit, and by the end of the buffer, where it breaks off byte by byte. Main
statements: what breaks off is exactly what lies behind the end (`Position.put_of_lt`), and the
three definitions agree on every integer (`storing_bounded`).
-/

namespace LosslessUtf8

/-! ## Writing up to the end -/

theorem writtenAt_nil {α : Type} (buffer : List α) (position : Nat) :
    WrittenAt buffer position [] buffer where
  length_eq := rfl
  extract_eq := by simp
  getElem?_eq := fun _ _ => rfl

/-- Items of which only those are written that lie in the buffer. -/
theorem writtenAt_overwrite_take {α : Type} (buffer items : List α) (position : Nat) :
    let within := items.take (buffer.length - position)
    WrittenAt buffer position within (overwrite buffer position within) := by
  intro within
  by_cases reached : position ≤ buffer.length
  · apply writtenAt_overwrite
    rw [List.length_take]
    omega
  · have none : within = [] := by
      rw [show within = items.take (buffer.length - position) from rfl,
        Nat.sub_eq_zero_of_le (Nat.le_of_not_le reached), List.take_zero]
    rw [none, overwrite_nil]
    exact writtenAt_nil buffer position

namespace Position

variable {output bytes : Bytes} {position : Nat}

theorem locate_of_le {size : Nat} (behind : size ≤ position) :
    ∃ fault, locate size position = .error fault := by
  have offset : (if (position : Int) < 0 then (position : Int) + size else position) = position :=
    if_neg (by omega)
  simp only [locate, offset]
  rw [dif_neg (by omega)]
  split
  · exact ⟨_, rfl⟩
  · exact ⟨_, rfl⟩

/-- A write that runs off the end of the buffer keeps the bytes that are in reach. -/
theorem put_of_lt (beyond : output.length < position + bytes.length) (nonempty : bytes ≠ []) :
    ∃ fault, put output position bytes =
      ⟨overwrite output position (bytes.take (output.length - position)), .error fault⟩ := by
  induction bytes generalizing output position with
  | nil => exact (nonempty rfl).elim
  | cons byte bytes ih =>
      rw [List.length_cons] at beyond
      by_cases inside : position < output.length
      · have next : ((position : Int) + 1) = ((position + 1 : Nat) : Int) := by omega
        have left : output.length - position = output.length - (position + 1) + 1 := by omega
        have more : bytes ≠ [] := by
          rintro rfl
          rw [List.length_nil] at beyond
          omega
        obtain ⟨fault, written⟩ :=
          @ih (output.set position byte) (position + 1) (by rw [List.length_set]; omega) more
        refine ⟨fault, ?_⟩
        rw [put, locate_natCast inside]
        dsimp only
        rw [next, written, List.length_set, left, List.take_succ_cons,
          overwrite_set byte _ inside]
      · obtain ⟨fault, outside⟩ := locate_of_le (Nat.le_of_not_lt inside)
        refine ⟨fault, ?_⟩
        rw [put, outside, Nat.sub_eq_zero_of_le (Nat.le_of_not_lt inside), List.take_zero,
          overwrite_nil]

end Position

/-! ## Storing -/

namespace Scalar

variable {scalar : Scalar}

theorem length_form (encodable : scalar.Encodable) : scalar.form.length = scalar.width :=
  length_of_spell?_eq_some (spell?_eq_form encodable)

theorem form_ne_nil (encodable : scalar.Encodable) : scalar.form ≠ [] := by
  apply List.ne_nil_of_length_pos
  rw [length_form encodable]
  exact scalar.width_pos

theorem form_eq_fields (encodable : scalar.Encodable) :
    scalar.form = scalar.fields.map UInt8.ofNat :=
  Option.some.inj ((spell?_eq_form encodable).symm.trans (spell?_eq_fields encodable))

end Scalar

namespace Position

variable {output : Bytes} {position : Nat} {stop : Int} {scalar : Scalar}

theorem store_of_not_encodable (unencodable : ¬ scalar.Encodable) :
    store scalar output position stop = ⟨output, .ok 0⟩ := by
  rw [store, Scalar.spell?_eq_none_iff.2 unencodable]

section Encodable

variable (encodable : scalar.Encodable)

include encodable

theorem store_of_lt_width (tight : stop - position < scalar.width) :
    store scalar output position stop = ⟨output, .ok 0⟩ :=
  store_of_tight (Scalar.spell?_eq_form encodable) (Scalar.length_form encodable ▸ tight)

variable (room : scalar.width ≤ stop - position)

include room

theorem store_of_inside (inside : position + scalar.width ≤ output.length) :
    store scalar output position stop =
      ⟨overwrite output position scalar.form, .ok scalar.width⟩ := by
  rw [← Scalar.length_form encodable] at room inside ⊢
  exact store_of_fits (Scalar.spell?_eq_form encodable) room inside

theorem store_of_beyond (beyond : output.length < position + scalar.width) :
    ∃ fault, store scalar output position stop =
      ⟨overwrite output position (scalar.form.take (output.length - position)),
        .error fault⟩ := by
  rw [← Scalar.length_form encodable] at room beyond
  obtain ⟨fault, written⟩ := put_of_lt beyond (Scalar.form_ne_nil encodable)
  refine ⟨fault, ?_⟩
  rw [store_of_room (Scalar.spell?_eq_form encodable) room, written]
  rfl

/-- Where a form has room in front of the limit, storing it takes bytes or fails. -/
theorem store_result_ne_zero : (store scalar output position stop).result ≠ .ok 0 := by
  by_cases inside : position + scalar.width ≤ output.length
  · rw [store_of_inside encodable room inside]
    intro none
    exact Nat.ne_of_gt scalar.width_pos (Except.ok.inj none)
  · obtain ⟨fault, stored⟩ := store_of_beyond encodable room (Nat.lt_of_not_le inside)
    rw [stored]
    exact nofun

end Encodable

/-- Storing refuses a scalar if and only if it has no byte form or its form does not fit in front of
the limit. -/
theorem store_eq_refused_iff :
    store scalar output position stop = ⟨output, .ok 0⟩ ↔
      ¬ scalar.Encodable ∨ stop - position < scalar.width := by
  constructor
  · intro refused
    by_cases encodable : scalar.Encodable
    · right
      apply Int.lt_of_not_ge
      intro room
      exact store_result_ne_zero encodable room (congrArg Stored.result refused)
    · exact .inl encodable
  · intro reason
    by_cases encodable : scalar.Encodable
    · exact store_of_lt_width encodable (reason.resolve_left (not_not_intro encodable))
    · exact store_of_not_encodable encodable

end Position

/-- What sizing, asking and storing say of a scalar goes together, whatever integer it is. It is
refused, and the buffer left alone, if and only if it has no byte form or the limit leaves less room
than its width. Otherwise its form has as many bytes as its width says, each cut out of its number
by shifts and masks that leave no more than a byte holds. If the buffer reaches that far, then the
form is written, and nothing else; if it does not, then storing fails, having written the part of
the form that lies in the buffer, and nothing else. -/
theorem storing_bounded (scalar : Scalar) (output : Bytes) (position : Nat) (stop : Int) :
    let stored := Position.store scalar output position stop
    (stored = ⟨output, .ok 0⟩ ↔ ¬ scalar.Encodable ∨ stop - position < scalar.width) ∧
    (scalar.Encodable → scalar.width ≤ stop - position →
      scalar.form.length = scalar.width ∧
      scalar.form = scalar.fields.map UInt8.ofNat ∧
      (∀ number ∈ scalar.fields, number < 0x100) ∧
      (position + scalar.width ≤ output.length →
        stored.result = .ok scalar.width ∧
        WrittenAt output position scalar.form stored.output) ∧
      (output.length < position + scalar.width →
        (∃ fault, stored.result = .error fault) ∧
        WrittenAt output position (scalar.form.take (output.length - position))
          stored.output)) := by
  intro stored
  refine ⟨Position.store_eq_refused_iff, ?_⟩
  intro encodable room
  have size := Scalar.length_form encodable
  refine ⟨size, Scalar.form_eq_fields encodable, scalar.lt_of_mem_fields, ?_, ?_⟩
  · intro inside
    rw [show stored = _ from Position.store_of_inside encodable room inside]
    exact ⟨rfl, writtenAt_overwrite (size ▸ inside)⟩
  · intro beyond
    obtain ⟨fault, broken⟩ := Position.store_of_beyond encodable room beyond
    rw [show stored = _ from broken]
    exact ⟨⟨fault, rfl⟩, writtenAt_overwrite_take output scalar.form position⟩

/-- A form of three bytes in a buffer that ends in front of its limit: it is written where there is
room, breaks off one place further on, and is refused where the limit is too close. -/
theorem storing_bounded_at_the_end :
    let scalar : Scalar := ⟨0x20AC⟩
    let output : Bytes := [0x2A, 0x2A, 0x2A, 0x2A]
    scalar.Encodable ∧
    scalar.width ≤ (9 : Int) - (1 : Nat) ∧ 1 + scalar.width ≤ output.length ∧
    WrittenAt output 1 [0xE2, 0x82, 0xAC] (Position.store scalar output 1 9).output ∧
    scalar.width ≤ (9 : Int) - (2 : Nat) ∧ output.length < 2 + scalar.width ∧
    (∃ fault, (Position.store scalar output 2 9).result = .error fault) ∧
    WrittenAt output 2 [0xE2, 0x82] (Position.store scalar output 2 9).output ∧
    Position.store scalar output 1 3 = ⟨output, .ok 0⟩ := by
  intro scalar output
  have encodable : scalar.Encodable := by decide
  have form : scalar.form = [0xE2, 0x82, 0xAC] := by decide
  obtain ⟨-, -, -, written, -⟩ := (storing_bounded scalar output 1 9).2 encodable (by decide)
  obtain ⟨-, -, -, -, broken⟩ := (storing_bounded scalar output 2 9).2 encodable (by decide)
  obtain ⟨fault, kept⟩ := broken (by decide)
  rw [form] at written kept
  exact ⟨encodable, by decide, by decide, (written (by decide)).2, by decide, by decide, fault,
    kept,
    (storing_bounded scalar output 1 3).1.2 (.inr (by decide))⟩

end LosslessUtf8
