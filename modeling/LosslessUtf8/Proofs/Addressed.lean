import LosslessUtf8.Addressed
import LosslessUtf8.Proofs.AmpleRoom
import LosslessUtf8.Proofs.Placement

/-!
# No address lies outside a buffer

Each loop over positions does what its conversion does to the part of the buffer between its
positions: measuring (`widthFrom_eq`, `countFrom_eq`), encoding (`encodeFrom_eq`) and decoding
(`decodeFrom_eq`). So a conversion that accepts its arguments addresses only what its buffers hold,
and what lies outside the span that it was given makes no difference to it.
-/

namespace LosslessUtf8

section Extract

variable {α : Type} {items tail : List α} {start stop : Nat} {item : α}

theorem extract_eq_nil (reached : stop ≤ start) : items.extract start stop = [] := by
  rw [List.extract, Nat.sub_eq_zero_of_le reached, List.take_zero]

theorem length_extract_of_le (inside : stop ≤ items.length) :
    (items.extract start stop).length = stop - start := by
  rw [List.length_take, List.length_drop]
  omega

theorem length_of_extract_eq {found : List α} (window : items.extract start stop = found)
    (inside : stop ≤ items.length) : stop - start = found.length := by
  rw [← window, length_extract_of_le inside]

theorem sub_length_extract (inside : stop ≤ items.length) (ordered : start ≤ stop) :
    stop - (items.extract start stop).length = start := by
  rw [length_extract_of_le inside]
  omega

theorem lt_of_extract_eq_cons (window : items.extract start stop = item :: tail) :
    start < stop := by
  apply Nat.lt_of_not_le
  intro reached
  rw [extract_eq_nil reached] at window
  contradiction

theorem extract_eq_cons (before : start < stop) (held : start < items.length) :
    items.extract start stop = items[start] :: items.extract (start + 1) stop := by
  obtain ⟨more, rfl⟩ := Nat.exists_eq_add_of_lt before
  have here : start + more + 1 - start = more + 1 := by omega
  have behind : start + more + 1 - (start + 1) = more := by omega
  rw [List.extract, List.extract, here, behind, List.drop_eq_getElem_cons held,
    List.take_succ_cons]

theorem extract_add (count : Nat) :
    items.extract (start + count) stop = (items.extract start stop).drop count := by
  rw [List.extract, List.extract, List.drop_take, List.drop_drop, Nat.sub_sub]

/-- A window and the one next to it are one window. -/
theorem extract_append_extract {middle : Nat} (ordered : start ≤ middle) (further : middle ≤ stop) :
    items.extract start middle ++ items.extract middle stop = items.extract start stop := by
  have front : items.extract start middle = (items.extract start stop).take (middle - start) := by
    have shorter : middle - start ≤ stop - start := Nat.sub_le_sub_right further start
    rw [List.extract, List.extract, List.take_take, Nat.min_eq_left shorter]
  have back : items.extract middle stop = (items.extract start stop).drop (middle - start) := by
    rw [← extract_add, Nat.add_sub_cancel' ordered]
  rw [front, back, List.take_append_drop]

end Extract

/-! ## One address -/

namespace Position

variable {data : Bytes} {position stop : Nat} {final : Bool} {lead : UInt8} {rest behind : Bytes}
  {token : Token}

theorem fetch_of_lt {α : Type} {buffer : List α} {index : Nat} (inside : index < buffer.length) :
    fetch buffer index = .ok buffer[index] := by
  rw [fetch, locate_natCast inside]
  rfl

theorem gather_of_le {count : Nat} (inside : position + count ≤ data.length) :
    gather data position count = ((data.drop position).take count, none) := by
  induction count generalizing position with
  | zero => rfl
  | succ count ih =>
      have here : position < data.length := by omega
      have next : ((position : Int) + 1) = ((position + 1 : Nat) : Int) := by omega
      rw [gather, locate_natCast here]
      dsimp only
      rw [next, ih (by omega), List.drop_eq_getElem_cons here, List.take_succ_cons]
      rfl

/-- Three bytes behind a lead byte decide what they can decide. -/
theorem scan_take_three (lead : UInt8) (rest : Bytes) :
    (Token.scan lead (rest.take 3)).map Prod.fst = (Token.scan lead rest).map Prod.fst := by
  cases scanned : Token.scan lead (rest.take 3) with
  | some found =>
      have extended := Token.scan_append scanned (rest.drop 3)
      rw [List.take_append_drop] at extended
      rw [extended]
      rfl
  | none =>
      have few := Token.length_le_of_scan_eq_none scanned
      rw [List.length_cons, List.length_take] at few
      rw [List.take_of_length_le (by omega)] at scanned
      rw [scanned]

/-- What lies between two positions of a buffer is read as the token at its front, or as incomplete
if there is none yet. -/
theorem load_eq (window : data.extract position stop = lead :: rest) (inside : stop ≤ data.length) :
    load data position stop final = .ok
      (match Token.read final lead rest with
        | some (token, _) => .token token
        | none => .incomplete (lead :: rest).length) := by
  have size := length_of_extract_eq window inside
  rw [List.length_cons] at size
  have available : ((stop : Int) - position).toNat = (lead :: rest).length := by
    rw [List.length_cons]
    omega
  have near : (data.drop position).take (min 4 (lead :: rest).length) = lead :: rest.take 3 := by
    have front := congrArg (List.take 4) window
    rw [List.take_take, List.take_succ_cons] at front
    rwa [List.length_cons, ← size]
  have gathered : gather data position (min 4 (lead :: rest).length) =
      (lead :: rest.take 3, none) := by
    rw [gather_of_le (by rw [List.length_cons]; omega), near]
  have scanned := scan_take_three lead rest
  rw [load, available, gathered, Token.read]
  dsimp only
  cases whole : Token.scan lead rest with
  | some found =>
      rw [whole] at scanned
      obtain ⟨⟨token, behind⟩, nearScanned, same⟩ := Option.map_eq_some_iff.1 scanned
      obtain rfl : token = found.1 := same
      rw [nearScanned]
  | none =>
      rw [whole] at scanned
      rw [Option.map_eq_none_iff.1 scanned]
      cases final with
      | true => rfl
      | false => rfl

theorem load_of_read (window : data.extract position stop = lead :: rest)
    (inside : stop ≤ data.length) (taken : Token.read final lead rest = some (token, behind)) :
    load data position stop final = .ok (.token token) := by
  rw [load_eq window inside, taken]

theorem load_of_starved (window : data.extract position stop = lead :: rest)
    (inside : stop ≤ data.length) (starved : Token.read final lead rest = none) :
    load data position stop final = .ok (.incomplete (lead :: rest).length) := by
  rw [load_eq window inside, starved]

/-- Behind a token lie the bytes that it leaves. -/
theorem extract_behind (window : data.extract position stop = lead :: rest)
    (taken : Token.read final lead rest = some (token, behind)) :
    data.extract (position + token.bytes.length) stop = behind := by
  rw [extract_add, window, ← Token.bytes_append_of_read taken, List.drop_left]

theorem add_length_le (window : data.extract position stop = lead :: rest)
    (inside : stop ≤ data.length) (taken : Token.read final lead rest = some (token, behind)) :
    position + token.bytes.length ≤ stop := by
  have size := length_of_extract_eq window inside
  have parts := congrArg List.length (Token.bytes_append_of_read taken)
  rw [← parts, List.length_append] at size
  have nonempty := List.length_pos_iff.2 (Token.bytes_ne_nil_of_read taken)
  omega

end Position

/-! ## Loops -/

namespace Addressed

section Texts

variable {text : Text} {stop : Nat}

theorem widthFrom_eq (inside : stop ≤ text.length) (index total : Nat) :
    widthFrom text stop index total = .ok (total + Text.width (text.extract index stop)) := by
  induction index, total using widthFrom.induct text stop with
  | case1 index total before fault missing =>
      rw [Position.fetch_of_lt (Nat.lt_of_lt_of_le before inside)] at missing
      contradiction
  | case2 index total before scalar fetched ih =>
      have held := Nat.lt_of_lt_of_le before inside
      rw [Position.fetch_of_lt held] at fetched
      cases fetched
      rw [widthFrom, if_pos before, Position.fetch_of_lt held]
      dsimp only
      rw [ih, extract_eq_cons before held, Text.width_cons, Nat.add_assoc]
  | case3 index total reached =>
      rw [widthFrom, if_neg reached, extract_eq_nil (Nat.le_of_not_lt reached)]
      rfl

/-- Placing a text is placing its scalars one by one. -/
theorem placeFrom_cons (scalar : Scalar) (behind : Text) (output : Bytes) (position index : Nat) :
    placeFrom output position index (scalar :: behind) =
      match (placeFrom output position index [scalar]).result with
      | .ok (.encoded reached) =>
        placeFrom (placeFrom output position index [scalar]).output reached (index + 1) behind
      | _ => placeFrom output position index [scalar] := by
  by_cases encodable : scalar.Encodable
  · simp only [placeFrom, if_pos encodable]
    cases (Position.store scalar output position output.length).result with
    | error fault => rfl
    | ok written =>
        cases written with
        | zero => rfl
        | succ written => rfl
  · simp only [placeFrom, if_neg encodable]

theorem encodeFrom_eq (inside : stop ≤ text.length) (output : Bytes) (position index : Nat) :
    encodeFrom text stop output position index =
      placeFrom output position index (text.extract index stop) := by
  induction remaining : stop - index generalizing output position index with
  | zero =>
      have reached : ¬ index < stop := by omega
      rw [encodeFrom, if_neg reached, extract_eq_nil (Nat.le_of_not_lt reached)]
      rfl
  | succ remaining ih =>
      have before : index < stop := by omega
      have held := Nat.lt_of_lt_of_le before inside
      rw [encodeFrom, if_pos before, Position.fetch_of_lt held, extract_eq_cons before held,
        placeFrom_cons]
      dsimp only
      generalize placeFrom output position index [text[index]] = placed
      obtain ⟨after, result⟩ := placed
      cases result with
      | error fault => rfl
      | ok outcome =>
          cases outcome with
          | encoded reached => exact ih after reached (index + 1) (by omega)
          | unencodable failure | full reached index | rejected rejection => rfl

end Texts

section Windows

variable {data : Bytes} {position stop : Nat} {final : Bool} {lead : UInt8} {rest behind : Bytes}
  {token : Token}

theorem countFrom_of_read (window : data.extract position stop = lead :: rest)
    (before : position < stop) (inside : stop ≤ data.length)
    (taken : Token.read true lead rest = some (token, behind)) (counted : Nat) :
    countFrom data stop position counted =
      countFrom data stop (position + token.bytes.length) (counted + 1) := by
  rw [countFrom_of_before before, Position.load_of_read window inside taken]
  rfl

theorem countFrom_eq (inside : stop ≤ data.length) (position counted : Nat) :
    countFrom data stop position counted =
      .ok (Decoding.countTokens counted (data.extract position stop)) := by
  induction remaining : stop - position using Nat.strongRecOn generalizing position counted with
  | _ remaining ih =>
      subst remaining
      by_cases before : position < stop
      · have window := extract_eq_cons before (Nat.lt_of_lt_of_le before inside)
        obtain ⟨⟨token, behind⟩, taken⟩ :=
          Option.isSome_iff_exists.1 (Token.read_true_isSome data[position] _)
        have nonempty := List.length_pos_iff.2 (Token.bytes_ne_nil_of_read taken)
        rw [countFrom_of_read window before inside taken, ih _ (by omega) _ _ rfl,
          Position.extract_behind window taken, window, Decoding.countTokens,
          Token.take_of_read taken]
      · rw [countFrom, if_neg before, extract_eq_nil (Nat.le_of_not_lt before),
          Decoding.countTokens]

variable {slots : Text} {slot : Nat}

theorem decodeFrom_of_eq_nil (window : data.extract position stop = [])
    (inside : stop ≤ data.length) (ordered : position ≤ stop) (room : Nat) :
    decodeFrom data final stop slots position slot room =
      let progress := Decoding.fill final room []
      ⟨overwrite slots slot progress.text, .ok ⟨stop - progress.rest.length,
        slot + progress.text.length, progress.stop⟩⟩ := by
  have here := sub_length_extract inside ordered
  rw [window, List.length_nil] at here
  have behind : ¬ position < stop := by omega
  rw [Decoding.fill_nil]
  dsimp only
  rw [overwrite_nil, List.length_nil, here]
  cases room with
  | zero => exact if_neg behind
  | succ room => exact if_neg behind

theorem decodeFrom_succ_of_read (window : data.extract position stop = lead :: rest)
    (before : position < stop) (inside : stop ≤ data.length) (inSlots : slot < slots.length)
    (taken : Token.read final lead rest = some (token, behind)) (room : Nat) :
    decodeFrom data final stop slots position slot (room + 1) =
      decodeFrom data final stop (slots.set slot token.scalar) (position + token.bytes.length)
        (slot + 1) room := by
  rw [decodeFrom, if_pos before, Position.load_of_read window inside taken,
    Position.locate_natCast inSlots]
  rfl

theorem decodeFrom_succ_of_starved (window : data.extract position stop = lead :: rest)
    (before : position < stop) (inside : stop ≤ data.length)
    (starved : Token.read final lead rest = none) (room : Nat) :
    decodeFrom data final stop slots position slot (room + 1) =
      ⟨slots, .ok ⟨position, slot, .incomplete⟩⟩ := by
  rw [decodeFrom, if_pos before, Position.load_of_starved window inside starved]
  rfl

/-- A loop over positions fills the slots of its room with what a run over its window decodes. -/
theorem decodeFrom_eq (inside : stop ≤ data.length) (ordered : position ≤ stop) {room : Nat}
    (inSlots : slot + room ≤ slots.length) :
    decodeFrom data final stop slots position slot room =
      let progress := Decoding.fill final room (data.extract position stop)
      ⟨overwrite slots slot progress.text, .ok ⟨stop - progress.rest.length,
        slot + progress.text.length, progress.stop⟩⟩ := by
  induction room generalizing slots position slot with
  | zero =>
      cases window : data.extract position stop with
      | nil => exact decodeFrom_of_eq_nil window inside ordered 0
      | cons lead rest =>
          have before := lt_of_extract_eq_cons window
          rw [Decoding.fill_zero_cons]
          dsimp only
          rw [overwrite_nil, ← window, sub_length_extract inside ordered]
          exact if_pos before
  | succ room ih =>
      cases window : data.extract position stop with
      | nil => exact decodeFrom_of_eq_nil window inside ordered (room + 1)
      | cons lead rest =>
          have before := lt_of_extract_eq_cons window
          cases taken : Token.read final lead rest with
          | none =>
              rw [decodeFrom_succ_of_starved window before inside taken,
                Decoding.fill_succ_of_none room taken]
              dsimp only
              rw [overwrite_nil, ← window, sub_length_extract inside ordered]
              rfl
          | some found =>
              obtain ⟨token, behind⟩ := found
              have free : slot < slots.length := by omega
              have further := Position.add_length_le window inside taken
              rw [decodeFrom_succ_of_read window before inside free taken,
                ih further (by rw [List.length_set]; omega), Position.extract_behind window taken,
                Decoding.fill_succ_of_some room taken]
              dsimp only [Decoding.Progress.cons]
              rw [overwrite_set _ _ free, List.length_cons, Nat.add_right_comm, Nat.add_assoc slot]

end Windows

/-! ## Conversions -/

theorem widthWithin_eq (text : Text) (start stop : Argument) :
    widthWithin text start stop = .ok (LosslessUtf8.widthWithin text start stop) := by
  rw [widthWithin, LosslessUtf8.widthWithin]
  cases EncodeArguments.resolve { start, stop } text.length 0 with
  | error rejection => rfl
  | ok plan =>
      dsimp only
      rw [widthFrom_eq plan.input.stop_le_length, Nat.zero_add]
      rfl

theorem tokenCountWithin_eq (bytes : Bytes) (start stop : Argument) :
    tokenCountWithin bytes start stop = .ok (LosslessUtf8.tokenCountWithin bytes start stop) := by
  rw [tokenCountWithin, LosslessUtf8.tokenCountWithin]
  cases DecodeArguments.resolve { start, stop } bytes.length 0 with
  | error rejection => rfl
  | ok plan =>
      dsimp only
      rw [countFrom_eq plan.input.stop_le_length]
      rfl

theorem encodeInto_eq (text : Text) (output : Bytes) (given : EncodeArguments) :
    encodeInto text output given =
      ⟨(LosslessUtf8.encodeInto text output given).2,
        .ok (LosslessUtf8.encodeInto text output given).1⟩ := by
  rw [← place_eq, encodeInto, place]
  cases given.resolve text.length output.length with
  | error rejection => rfl
  | ok plan => exact encodeFrom_eq plan.input.stop_le_length _ _ _

theorem decodeInto_eq (bytes : Bytes) (slots : Text) (given : DecodeArguments) :
    decodeInto bytes slots given =
      ⟨(LosslessUtf8.decodeInto bytes slots given).2,
        .ok (LosslessUtf8.decodeInto bytes slots given).1⟩ := by
  rw [decodeInto, LosslessUtf8.decodeInto]
  cases given.resolve bytes.length slots.length with
  | error rejection => rfl
  | ok plan =>
      have inSlots : plan.output.start + plan.output.size ≤ slots.length := by
        rw [Span.size, Nat.add_sub_cancel' plan.output.start_le_stop]
        exact plan.output.stop_le_length
      have windowIs : plan.input.slice bytes =
          bytes.extract plan.input.start plan.input.stop := rfl
      dsimp only
      rw [decodeFrom_eq plan.input.stop_le_length plan.input.start_le_stop inSlots]
      dsimp only [Except.map, Decoding.Progress.outcome]
      rw [Nat.add_sub_cancel_left, Nat.sub_right_comm, plan.input.length_slice, windowIs]
      rfl

/-- An accepted decoding fills its slots with what a run over its window decodes. -/
theorem decodeInto_of_resolve {bytes : Bytes} {slots : Text} {given : DecodeArguments}
    {plan : DecodePlan bytes.length slots.length}
    (accepted : given.resolve bytes.length slots.length = .ok plan) :
    decodeInto bytes slots given =
      let window := bytes.extract plan.input.start plan.input.stop
      let progress := Decoding.fill plan.final plan.output.size window
      ⟨overwrite slots plan.output.start progress.text, .ok (progress.outcome window)⟩ := by
  rw [decodeInto_eq, LosslessUtf8.decodeInto, accepted]
  rfl

end Addressed

end LosslessUtf8
