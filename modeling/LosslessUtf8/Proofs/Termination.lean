import LosslessUtf8.Proofs.Lookahead
import LosslessUtf8.Proofs.Loop
import LosslessUtf8.Proofs.Stability

/-!
# No step too short, none too far

What is read between two positions takes at least one byte and none behind the second position
(`Position.length_of_load`). So the loops over a window come to an end after no more turns than the
window has bytes, and never go beyond it (`Addressed.countLoop_bounded`,
`Addressed.decodeLoop_bounded`).
-/

namespace LosslessUtf8

/-- What is read between two positions takes between one and four bytes, all of them in front of the
second position. -/
theorem Position.length_of_load {data : Bytes} {pos stop : Nat} {final : Bool} {loaded : Loaded}
    (before : pos < stop) (inside : stop ≤ data.length)
    (read : load data pos stop final = .ok loaded) :
    1 ≤ loaded.length ∧ loaded.length ≤ min 4 (stop - pos) := by
  have window := extract_eq_cons before (Nat.lt_of_lt_of_le before inside)
  have size := length_of_extract_eq window inside
  cases taken : Token.read final data[pos] (data.extract (pos + 1) stop) with
  | some found =>
      obtain ⟨token, behind⟩ := found
      rw [load_of_read window inside taken] at read
      cases read
      have nonempty := List.length_pos_iff.2 (Token.bytes_ne_nil_of_read taken)
      have within := add_length_le window inside taken
      have width := Scalar.length_of_spell?_eq_some (Token.spell?_of_read taken)
      have small := Scalar.width_le_four token.scalar
      rw [← width] at small
      exact ⟨nonempty, Nat.le_min.2 ⟨small, Nat.le_sub_of_add_le' within⟩⟩
  | none =>
      rw [load_of_starved window inside taken] at read
      cases read
      have few := Token.length_le_of_scan_eq_none (Token.scan_eq_none_of_read taken).2
      exact ⟨Nat.succ_pos _, Nat.le_min.2 ⟨Nat.le_succ_of_le few, Nat.le_of_eq size.symm⟩⟩

namespace Addressed

variable {data : Bytes} {final : Bool} {stop slotStop : Nat}

/-- Counting stays in its window, lands on its stop, and gets closer to it with every turn. -/
theorem countLoop_bounded (inside : stop ≤ data.length) (start : Nat) :
    (countLoop data stop).Bounded
      (fun tally => start ≤ tally.position ∧ tally.position ≤ stop)
      (fun tally => stop - tally.position)
      (fun answer => ∃ ending, answer = .ok ending ∧ ending.position = stop) where
  finished tally holds ends :=
    ⟨tally, rfl, Nat.le_antisymm holds.2 (Nat.le_of_not_lt ends)⟩
  positive _ _ goesOn := Nat.sub_pos_of_lt goesOn
  left tally answer _ goesOn turned := by
    obtain ⟨fault, missing, rfl⟩ := countLoop_leave turned
    obtain ⟨loaded, read⟩ := Position.exists_load_eq goesOn inside true
    rw [missing] at read
    contradiction
  again tally next holds goesOn turned := by
    obtain ⟨loaded, read, rfl⟩ := countLoop_again turned
    obtain ⟨positive, near⟩ := Position.length_of_load goesOn inside read
    have before : tally.position < stop := goesOn
    dsimp only
    omega

/-- Decoding stays in its window, finds every slot that it fills, and gets closer to the stop of its
window with every turn. -/
theorem decodeLoop_bounded (inside : stop ≤ data.length) (start : Nat) :
    (decodeLoop data final stop slotStop).Bounded
      (fun cursor => (start ≤ cursor.position ∧ cursor.position ≤ stop) ∧
        slotStop ≤ cursor.slots.length)
      (fun cursor => stop - cursor.position)
      (fun answer => ∃ halt, answer.result = .ok halt ∧
        start ≤ halt.position ∧ halt.position ≤ stop) where
  finished cursor holds _ := ⟨_, rfl, holds.1⟩
  positive _ _ goesOn := Nat.sub_pos_of_lt goesOn
  left cursor answer holds goesOn turned := by
    cases decodeLoop_leave turned with
    | full filled => exact ⟨_, rfl, holds.1⟩
    | incomplete room read open_ => exact ⟨_, rfl, holds.1⟩
    | unread room missing =>
        obtain ⟨loaded, read⟩ := Position.exists_load_eq goesOn inside final
        rw [missing] at read
        contradiction
    | misplaced room read told missing =>
        rw [Position.locate_natCast (Nat.lt_of_lt_of_le room holds.2)] at missing
        contradiction
  again cursor next holds goesOn turned := by
    obtain ⟨room, loaded, scalar, index, read, told, located, rfl⟩ := decodeLoop_again turned
    obtain ⟨positive, near⟩ := Position.length_of_load goesOn inside read
    have before : cursor.position < stop := goesOn
    dsimp only
    rw [List.length_set]
    omega

/-- Counting from a position up to a stop takes no more turns than there are bytes, and counts its
turns. -/
theorem exists_runs_countLoop {start : Nat} (ordered : start ≤ stop) (inside : stop ≤ data.length) :
    ∃ visited,
      (countLoop data stop).Runs ⟨start, 0⟩ visited (.ok ⟨stop, visited.length⟩) ∧
      visited.length ≤ stop - start ∧
      (∀ tally ∈ visited, start ≤ tally.position ∧ tally.position < stop) ∧
      countFrom data stop start 0 = .ok visited.length := by
  obtain ⟨visited, answer, runs, few, met, ending, rfl, landed⟩ :=
    (countLoop_bounded inside start).exists_runs ⟨start, 0⟩ ⟨Nat.le_refl _, ordered⟩
  have counted := counted_of_runs runs rfl
  rw [Nat.zero_add] at counted
  obtain ⟨position, count⟩ := ending
  obtain rfl : position = stop := landed
  obtain rfl : count = visited.length := counted
  refine ⟨visited, runs, few, ?_, countFrom_of_runs runs⟩
  intro tally member
  obtain ⟨holds, before⟩ := met tally member
  exact ⟨holds.1, before⟩

/-- Decoding from a position up to a stop takes no more turns than there are bytes. -/
theorem exists_runs_decodeLoop {start : Nat} {slots : Text} (ordered : start ≤ stop)
    (inside : stop ≤ data.length) (inSlots : slotStop ≤ slots.length) (slot : Nat) :
    ∃ visited halt after,
      (decodeLoop data final stop slotStop).Runs ⟨slots, start, slot⟩ visited ⟨after, .ok halt⟩ ∧
      visited.length ≤ stop - start ∧
      (∀ cursor ∈ visited, start ≤ cursor.position ∧ cursor.position < stop) ∧
      (start ≤ halt.position ∧ halt.position ≤ stop) ∧
      decodeFrom data final stop slots start slot (slotStop - slot) = ⟨after, .ok halt⟩ := by
  obtain ⟨visited, ⟨after, result⟩, runs, few, met, halt, rfl, reached⟩ :=
    (decodeLoop_bounded inside start).exists_runs ⟨slots, start, slot⟩
      ⟨⟨Nat.le_refl _, ordered⟩, inSlots⟩
  refine ⟨visited, halt, after, runs, few, ?_, reached, decodeFrom_of_runs runs⟩
  intro cursor member
  obtain ⟨holds, before⟩ := met cursor member
  exact ⟨holds.1.1, before⟩

end Addressed

open Addressed in
/-- Between two positions, no byte is addressed that lies elsewhere, none that is needed is missing,
and what is read takes between one and four of the bytes there. So counting the scalars of a window
takes no more turns than the window has bytes and lands exactly on its stop, and decoding it takes
no more turns either and never goes beyond its stop. -/
theorem decoding_terminates (data : Bytes) :
    (∀ (pos stop : Nat) (final : Bool), pos < stop → stop ≤ data.length →
      let traced := Position.lookahead data pos stop final
      traced.Within pos stop ∧
      ∃ loaded, traced.result = .ok loaded ∧ Position.load data pos stop final = .ok loaded ∧
        (¬ loaded.IsIncomplete → 1 ≤ loaded.length ∧ loaded.length ≤ min 4 (stop - pos))) ∧
    (∀ (start stop : Argument) (plan : DecodePlan data.length 0),
      DecodeArguments.resolve { start, stop } data.length 0 = .ok plan →
      ∃ visited,
        (countLoop data plan.input.stop).Runs ⟨plan.input.start, 0⟩ visited
          (.ok ⟨plan.input.stop, visited.length⟩) ∧
        visited.length ≤ plan.input.size ∧
        (∀ tally ∈ visited,
          plan.input.start ≤ tally.position ∧ tally.position < plan.input.stop) ∧
        Addressed.tokenCountWithin data start stop = .ok (.ok visited.length)) ∧
    (∀ (slots : Text) (given : DecodeArguments) (plan : DecodePlan data.length slots.length),
      given.resolve data.length slots.length = .ok plan →
      ∃ visited halt after,
        (decodeLoop data plan.final plan.input.stop plan.output.stop).Runs
          ⟨slots, plan.input.start, plan.output.start⟩ visited ⟨after, .ok halt⟩ ∧
        visited.length ≤ plan.input.size ∧
        (∀ cursor ∈ visited,
          plan.input.start ≤ cursor.position ∧ cursor.position < plan.input.stop) ∧
        (plan.input.start ≤ halt.position ∧ halt.position ≤ plan.input.stop) ∧
        Addressed.decodeInto data slots given =
          ⟨after, .ok (.decoded (halt.position - plan.input.start)
            (halt.slot - plan.output.start) halt.stop)⟩) := by
  refine ⟨?_, ?_, ?_⟩
  · intro pos stop final before inside traced
    obtain ⟨loaded, read⟩ := Position.exists_load_eq before inside final
    refine ⟨Position.within_lookahead data pos stop final, loaded, ?_, read, ?_⟩
    · rw [← read]
      exact Position.result_lookahead data pos stop final
    · intro _
      exact Position.length_of_load before inside read
  · intro start stop plan accepted
    obtain ⟨visited, runs, few, met, counted⟩ :=
      exists_runs_countLoop plan.input.start_le_stop plan.input.stop_le_length
    refine ⟨visited, runs, few, met, ?_⟩
    rw [Addressed.tokenCountWithin, accepted]
    dsimp only
    rw [counted]
    rfl
  · intro slots given plan accepted
    obtain ⟨visited, halt, after, runs, few, met, reached, decoded⟩ :=
      @exists_runs_decodeLoop data plan.final _ _ _ _ plan.input.start_le_stop
        plan.input.stop_le_length plan.output.stop_le_length plan.output.start
    refine ⟨visited, halt, after, runs, few, met, reached, ?_⟩
    rw [Addressed.decodeInto, accepted]
    dsimp only
    rw [Span.size, decoded]
    rfl

open Addressed in
/-- Bytes that break off in a sequence. Where they end for good, its bytes are counted one by one,
and where more may follow, decoding stops in front of it. -/
theorem decoding_terminates_broken_off :
    let data : Bytes := [0x41, 0xE2, 0x82, 0xAC, 0xF0, 0x9F]
    let input : Span data.length := ⟨1, 6, by decide, by decide⟩
    let slots : Text := List.replicate 8 ⟨0⟩
    let given : DecodeArguments := { start := .integer 1, endOfInput := .boolean false }
    1 < 6 ∧ 6 ≤ data.length ∧
    DecodeArguments.resolve { start := .integer 1 } data.length 0 =
      .ok ⟨input, .whole 0, true⟩ ∧
    given.resolve data.length slots.length = .ok ⟨input, .whole 8, false⟩ ∧
    (Position.lookahead data 1 6 true).Within 1 6 ∧
    (∃ loaded, (Position.lookahead data 1 6 true).result = .ok loaded ∧
      Position.load data 1 6 true = .ok loaded ∧
      ¬ loaded.IsIncomplete ∧ 1 ≤ loaded.length ∧ loaded.length ≤ 4) ∧
    (∃ visited,
      (countLoop data 6).Runs ⟨1, 0⟩ visited (.ok ⟨6, visited.length⟩) ∧ visited.length ≤ 5 ∧
      (∀ tally ∈ visited, 1 ≤ tally.position ∧ tally.position < 6) ∧
      Addressed.tokenCountWithin data (.integer 1) .null = .ok (.ok visited.length)) ∧
    ∃ visited halt after,
      (decodeLoop data false 6 8).Runs ⟨slots, 1, 0⟩ visited ⟨after, .ok halt⟩ ∧
      visited.length ≤ 5 ∧
      (∀ cursor ∈ visited, 1 ≤ cursor.position ∧ cursor.position < 6) ∧
      (1 ≤ halt.position ∧ halt.position ≤ 6) ∧
      Addressed.decodeInto data slots given =
        ⟨after, .ok (.decoded (halt.position - 1) (halt.slot - 0) halt.stop)⟩ := by
  have whole : Position.load [0x41, 0xE2, 0x82, 0xAC, 0xF0, 0x9F] (1 : Nat) (6 : Nat) true =
      .ok (.token ⟨⟨0x20AC⟩, [0xE2, 0x82, 0xAC]⟩) := rfl
  intro data input slots given
  obtain ⟨looking, counting, decoding⟩ := decoding_terminates data
  obtain ⟨within, loaded, looked, read, bounds⟩ := looking 1 6 true (by decide) (by decide)
  obtain rfl : Position.Loaded.token _ = loaded := Except.ok.inj (whole.symm.trans read)
  have told : ¬ Position.Loaded.IsIncomplete (.token ⟨⟨0x20AC⟩, [0xE2, 0x82, 0xAC]⟩) :=
    Option.some_ne_none _
  exact ⟨by decide, by decide, rfl, rfl, within, ⟨_, looked, read, told, bounds told⟩,
    counting (.integer 1) .null ⟨input, .whole 0, true⟩ rfl,
    decoding slots given ⟨input, .whole 8, false⟩ rfl⟩

end LosslessUtf8
