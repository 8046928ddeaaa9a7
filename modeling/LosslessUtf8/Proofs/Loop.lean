import LosslessUtf8.Loop

/-!
# Loops that come to an end

If no turn of a loop leaves an invariant, and each of them lowers a bound, then the loop has a run,
with no more turns than the bound allows (`Loop.Bounded.exists_runs`). Where the loops of counting
and decoding have a run, it gives what `Addressed.countFrom` and `Addressed.decodeFrom` give
(`Addressed.countFrom_of_runs`, `Addressed.decodeFrom_of_runs`).
-/

namespace LosslessUtf8

namespace Loop

variable {σ β : Type} {loop : Loop σ β}

/-- What is known of a loop: an invariant that its turns keep, a bound that they lower, and a
property of the answer. -/
structure Bounded (loop : Loop σ β) (Invariant : σ → Prop) (bound : σ → Nat) (Post : β → Prop) :
    Prop where
  finished : ∀ state, Invariant state → ¬ loop.GoesOn state → Post (loop.finish state)
  positive : ∀ state, Invariant state → loop.GoesOn state → 0 < bound state
  left : ∀ state answer, Invariant state → loop.GoesOn state →
    loop.turn state = .leave answer → Post answer
  again : ∀ state next, Invariant state → loop.GoesOn state →
    loop.turn state = .again next → Invariant next ∧ bound next < bound state

/-- A bounded loop comes to an end, after no more turns than its bound. -/
theorem Bounded.exists_runs {Invariant : σ → Prop} {bound : σ → Nat} {Post : β → Prop}
    (bounded : loop.Bounded Invariant bound Post) (state : σ) (holds : Invariant state) :
    ∃ visited answer, loop.Runs state visited answer ∧ visited.length ≤ bound state ∧
      (∀ met ∈ visited, Invariant met ∧ loop.GoesOn met) ∧ Post answer := by
  induction remaining : bound state using Nat.strongRecOn generalizing state with
  | _ remaining ih =>
    subst remaining
    by_cases goesOn : loop.GoesOn state
    · have positive := bounded.positive state holds goesOn
      cases turned : loop.turn state with
      | leave answer =>
          refine ⟨[state], answer, .left goesOn turned, positive, ?_, ?_⟩
          · exact List.forall_mem_singleton.2 ⟨holds, goesOn⟩
          · exact bounded.left state answer holds goesOn turned
      | again next =>
          obtain ⟨kept, lowered⟩ := bounded.again state next holds goesOn turned
          obtain ⟨visited, answer, behind, few, met, post⟩ := ih _ lowered next kept rfl
          refine ⟨state :: visited, answer, .again goesOn turned behind, ?_, ?_, post⟩
          · exact Nat.lt_of_le_of_lt few lowered
          · exact List.forall_mem_cons.2 ⟨⟨holds, goesOn⟩, met⟩
    · exact ⟨[], loop.finish state, .finished goesOn, Nat.zero_le _, List.forall_mem_nil _,
        bounded.finished state holds goesOn⟩

end Loop

namespace Addressed

/-! ## Counting -/

section Counting

variable {data : Bytes} {stop : Nat} {tally next ending : Tally} {visited : List Tally}
  {answer : Except AddressFault Tally}

theorem countLoop_again (turned : (countLoop data stop).turn tally = .again next) :
    ∃ loaded, Position.load data tally.position stop true = .ok loaded ∧
      next = ⟨tally.position + loaded.length, tally.counted + 1⟩ := by
  dsimp only [countLoop] at turned
  split at turned
  · contradiction
  · next loaded read =>
      cases turned
      exact ⟨loaded, read, rfl⟩

theorem countLoop_leave (turned : (countLoop data stop).turn tally = .leave answer) :
    ∃ fault, Position.load data tally.position stop true = .error fault ∧
      answer = .error fault := by
  dsimp only [countLoop] at turned
  split at turned
  · next fault missing =>
      cases turned
      exact ⟨fault, missing, rfl⟩
  · contradiction

/-- A run of the counting loop gives what counting gives. -/
theorem countFrom_of_runs (runs : (countLoop data stop).Runs tally visited answer) :
    countFrom data stop tally.position tally.counted = answer.map Tally.counted := by
  induction runs with
  | @finished tally ends =>
      have reached : ¬ tally.position < stop := ends
      rw [countFrom, if_neg reached]
      rfl
  | left goesOn turned =>
      obtain ⟨fault, missing, rfl⟩ := countLoop_leave turned
      rw [countFrom_of_before goesOn, missing]
      rfl
  | again goesOn turned behind ih =>
      obtain ⟨loaded, read, rfl⟩ := countLoop_again turned
      rw [countFrom_of_before goesOn, read]
      exact ih

/-- Every turn of the counting loop counts one. -/
theorem counted_of_runs (runs : (countLoop data stop).Runs tally visited answer)
    (ended : answer = .ok ending) : ending.counted = tally.counted + visited.length := by
  induction runs with
  | finished ends =>
      cases ended
      rfl
  | left goesOn turned =>
      obtain ⟨fault, missing, rfl⟩ := countLoop_leave turned
      contradiction
  | again goesOn turned behind ih =>
      obtain ⟨loaded, read, rfl⟩ := countLoop_again turned
      rw [ih ended, List.length_cons, Nat.add_right_comm]
      rfl

end Counting

/-! ## Decoding -/

section Decoding

variable {data : Bytes} {final : Bool} {stop slotStop : Nat} {cursor next : Cursor}
  {visited : List Cursor} {answer : Filled Halt}

theorem decodeLoop_again
    (turned : (decodeLoop data final stop slotStop).turn cursor = .again next) :
    cursor.slot < slotStop ∧ ∃ loaded scalar index,
      Position.load data cursor.position stop final = .ok loaded ∧
      loaded.scalar? = some scalar ∧
      Position.locate cursor.slots.length cursor.slot = .ok index ∧
      next = ⟨cursor.slots.set index scalar, cursor.position + loaded.length,
        cursor.slot + 1⟩ := by
  dsimp only [decodeLoop] at turned
  split at turned
  · contradiction
  · next room =>
    split at turned
    · contradiction
    · next loaded read =>
      split at turned
      · contradiction
      · next scalar told =>
        split at turned
        · contradiction
        · next index located =>
          cases turned
          exact ⟨Nat.lt_of_not_le room, loaded, scalar, index, read, told, located, rfl⟩

/-- The ways to leave the decoding loop in the middle of a turn. -/
inductive Leaves (data : Bytes) (final : Bool) (stop slotStop : Nat) (cursor : Cursor) :
    Filled Halt → Prop where
  | full (filled : slotStop ≤ cursor.slot) :
      Leaves data final stop slotStop cursor
        ⟨cursor.slots, .ok ⟨cursor.position, cursor.slot, .outputFull⟩⟩
  | unread {fault : AddressFault} (room : cursor.slot < slotStop)
      (missing : Position.load data cursor.position stop final = .error fault) :
      Leaves data final stop slotStop cursor ⟨cursor.slots, .error fault⟩
  | incomplete {loaded : Position.Loaded} (room : cursor.slot < slotStop)
      (read : Position.load data cursor.position stop final = .ok loaded)
      (open_ : loaded.scalar? = none) :
      Leaves data final stop slotStop cursor
        ⟨cursor.slots, .ok ⟨cursor.position, cursor.slot, .incomplete⟩⟩
  | misplaced {loaded : Position.Loaded} {scalar : Scalar} {fault : AddressFault}
      (room : cursor.slot < slotStop)
      (read : Position.load data cursor.position stop final = .ok loaded)
      (told : loaded.scalar? = some scalar)
      (missing : Position.locate cursor.slots.length cursor.slot = .error fault) :
      Leaves data final stop slotStop cursor ⟨cursor.slots, .error fault⟩

theorem decodeLoop_leave
    (turned : (decodeLoop data final stop slotStop).turn cursor = .leave answer) :
    Leaves data final stop slotStop cursor answer := by
  dsimp only [decodeLoop] at turned
  split at turned
  · next filled =>
    cases turned
    exact .full filled
  · next room =>
    have room := Nat.lt_of_not_le room
    split at turned
    · next missing =>
      cases turned
      exact .unread room missing
    · next read =>
      split at turned
      · next open_ =>
        cases turned
        exact .incomplete room read open_
      · next told =>
        split at turned
        · next missing =>
          cases turned
          exact .misplaced room read told missing
        · contradiction

theorem decodeFrom_of_before {position slot : Nat} (before : position < stop)
    (room : slot < slotStop) (slots : Text) :
    decodeFrom data final stop slots position slot (slotStop - slot) =
      match Position.load data position stop final with
      | .error fault => ⟨slots, .error fault⟩
      | .ok loaded =>
        match loaded.scalar? with
        | none => ⟨slots, .ok ⟨position, slot, .incomplete⟩⟩
        | some scalar =>
          match Position.locate slots.length slot with
          | .error fault => ⟨slots, .error fault⟩
          | .ok index =>
            decodeFrom data final stop (slots.set index scalar) (position + loaded.length)
              (slot + 1) (slotStop - (slot + 1)) := by
  obtain ⟨left, total⟩ : ∃ left, slotStop - slot = left + 1 :=
    Nat.exists_eq_add_one.2 (Nat.sub_pos_of_lt room)
  have behind : slotStop - (slot + 1) = left := by omega
  rw [total, behind]
  exact if_pos before

/-- A run of the decoding loop gives what decoding gives. -/
theorem decodeFrom_of_runs
    (runs : (decodeLoop data final stop slotStop).Runs cursor visited answer) :
    decodeFrom data final stop cursor.slots cursor.position cursor.slot (slotStop - cursor.slot) =
      answer := by
  induction runs with
  | @finished cursor ends =>
      have reached : ¬ cursor.position < stop := ends
      cases slotStop - cursor.slot with
      | zero => exact if_neg reached
      | succ room => exact if_neg reached
  | @left cursor answer goesOn turned =>
      have before : cursor.position < stop := goesOn
      cases decodeLoop_leave turned with
      | full filled =>
          rw [Nat.sub_eq_zero_of_le filled]
          exact if_pos before
      | unread room missing => rw [decodeFrom_of_before before room, missing]
      | incomplete room read open_ =>
          rw [decodeFrom_of_before before room, read]
          dsimp only
          rw [open_]
      | misplaced room read told missing =>
          rw [decodeFrom_of_before before room, read]
          dsimp only
          rw [told, missing]
  | again goesOn turned behind ih =>
      obtain ⟨room, loaded, scalar, index, read, told, located, rfl⟩ := decodeLoop_again turned
      rw [decodeFrom_of_before goesOn room, read]
      dsimp only
      rw [told, located]
      exact ih

end Decoding

end Addressed

end LosslessUtf8
