import LosslessUtf8.Bits
import LosslessUtf8.Proofs.Unfinished

/-!
# Decisions that stand

A token is decided by its own bytes. So once it is read, neither more input nor the end of the input
changes it (`Position.load_further_of_scan`). What is left open are the unfinished sequences, and no
view of four bytes or more leaves one.
-/

namespace LosslessUtf8

namespace Position

/-- What was read breaks off before it tells a scalar. -/
def Loaded.IsIncomplete (loaded : Loaded) : Prop :=
  loaded.scalar? = none

variable {data rest behind : Bytes} {pos stop later : Nat} {lead : UInt8} {token : Token}

/-- A token that the bytes decide is read whether or not more input may follow. -/
theorem load_of_scan (window : data.extract pos stop = lead :: rest) (inside : stop ≤ data.length)
    (scanned : Token.scan lead rest = some (token, behind)) (final : Bool) :
    load data pos stop final = .ok (.token token) :=
  load_of_read window inside (Token.read_of_scan scanned final)

/-- A token that the bytes decide is also what a longer view is read as. -/
theorem load_further_of_scan (window : data.extract pos stop = lead :: rest)
    (further : stop ≤ later) (inside : later ≤ data.length)
    (scanned : Token.scan lead rest = some (token, behind)) (final : Bool) :
    load data pos later final = .ok (.token token) := by
  have before := lt_of_extract_eq_cons window
  have longer : data.extract pos later = lead :: (rest ++ data.extract stop later) := by
    rw [← extract_append_extract (Nat.le_of_lt before) further, window, List.cons_append]
  exact load_of_scan longer inside (Token.scan_append scanned _) final

/-- An unfinished sequence is incomplete while more input may follow, and in the end its first byte
is stray. -/
theorem load_of_unfinished (window : data.extract pos stop = lead :: rest)
    (inside : stop ≤ data.length) (unfinished : Unfinished (lead :: rest)) (final : Bool) :
    load data pos stop final =
      .ok (if final then .token (.stray lead) else .incomplete (stop - pos)) := by
  have size := length_of_extract_eq window inside
  rw [load_eq window inside, Token.read, unfinished.scan_eq_none, size]
  cases final with
  | true => rfl
  | false => rfl

/-- Between two positions in order, no byte that is needed is missing. -/
theorem exists_load_eq (before : pos < stop) (inside : stop ≤ data.length) (final : Bool) :
    ∃ loaded, load data pos stop final = .ok loaded :=
  ⟨_, load_eq (extract_eq_cons before (Nat.lt_of_lt_of_le before inside)) inside⟩

/-- Four bytes leave nothing open. -/
theorem exists_load_eq_token (long : pos + 4 ≤ stop) (inside : stop ≤ data.length) (final : Bool) :
    ∃ token, load data pos stop final = .ok (.token token) := by
  have window := @extract_eq_cons _ data pos stop (by omega) (by omega)
  have size := length_of_extract_eq window inside
  cases scanned : Token.scan data[pos] (data.extract (pos + 1) stop) with
  | none =>
      have few := Token.length_le_of_scan_eq_none scanned
      omega
  | some found => exact ⟨found.1, load_of_scan window inside scanned final⟩

end Position

open Position in
/-- Whatever is read between two positions while more input may follow is read again from any longer
view, and from the same view at the end of the input, unless it was incomplete. If it was, then no
more than three bytes were there, at the end of the input the first of them is escaped, and a view
of four bytes or more does not leave it incomplete any longer. -/
theorem loading_stable (data : Bytes) (pos stop later : Nat) (final : Bool) (before : pos < stop)
    (further : stop ≤ later) (inside : later ≤ data.length) :
    ∃ early late ended,
      load data pos stop false = .ok early ∧
      load data pos later final = .ok late ∧
      load data pos stop true = .ok ended ∧
      (¬ early.IsIncomplete → late = early ∧ ended = early) ∧
      (early.IsIncomplete →
        early.length = stop - pos ∧ stop - pos ≤ 3 ∧
        ended.scalar? = some ⟨(0xDC00 ||| data[pos].toNat : Nat)⟩ ∧ ended.length = 1 ∧
        (pos + 4 ≤ later → ¬ late.IsIncomplete)) := by
  have held : stop ≤ data.length := Nat.le_trans further inside
  have window := extract_eq_cons before (Nat.lt_of_lt_of_le before held)
  cases scanned : Token.scan data[pos] (data.extract (pos + 1) stop) with
  | some found =>
      obtain ⟨token, behind⟩ := found
      refine ⟨.token token, .token token, .token token, load_of_scan window held scanned false,
        load_further_of_scan window further inside scanned final,
        load_of_scan window held scanned true, fun _ => ⟨rfl, rfl⟩, ?_⟩
      intro incomplete
      contradiction
  | none =>
      have unfinished := Token.scan_eq_none_iff.1 scanned
      have size := length_of_extract_eq window held
      have opened := load_of_unfinished window held unfinished false
      have closed := load_of_unfinished window held unfinished true
      obtain ⟨late, lateRead⟩ :=
        exists_load_eq (Nat.lt_of_lt_of_le before further) inside final
      refine ⟨_, late, _, opened, lateRead, closed, fun decided => (decided rfl).elim, ?_⟩
      intro _
      refine ⟨rfl, size ▸ unfinished.length_le, ?_, rfl, ?_⟩
      · rw [← Scalar.ofRawByte_eq_or]
        rfl
      · intro long
        obtain ⟨token, decided⟩ := exists_load_eq_token long inside final
        rw [decided] at lateRead
        cases lateRead
        exact Option.some_ne_none _

open Position in
/-- A sequence of three bytes seen in part, and seen whole. -/
theorem loading_stable_three_bytes :
    let data : Bytes := [0x41, 0xE2, 0x82, 0xAC, 0x2A]
    1 < 3 ∧ 3 ≤ 5 ∧ 5 ≤ data.length ∧ 1 < 4 ∧ 4 ≤ 5 ∧
    (∃ early late ended, load data 1 3 false = .ok early ∧ load data 1 5 false = .ok late ∧
      load data 1 3 true = .ok ended ∧ early.IsIncomplete ∧ early.length = 2 ∧
      ended.scalar? = some ⟨0xDCE2⟩ ∧ ended.length = 1 ∧ ¬ late.IsIncomplete) ∧
    ∃ early, load data 1 4 false = .ok early ∧ ¬ early.IsIncomplete ∧
      load data 1 5 false = .ok early ∧ load data 1 4 true = .ok early := by
  have inPart : load [0x41, 0xE2, 0x82, 0xAC, 0x2A] (1 : Nat) (3 : Nat) false =
      .ok (.incomplete 2) := rfl
  have whole : load [0x41, 0xE2, 0x82, 0xAC, 0x2A] (1 : Nat) (4 : Nat) false =
      .ok (.token ⟨⟨0x20AC⟩, [0xE2, 0x82, 0xAC]⟩) := rfl
  intro data
  refine ⟨by decide, by decide, by decide, by decide, by decide, ?_, ?_⟩
  · obtain ⟨early, late, ended, earlyRead, lateRead, endedRead, -, open_⟩ :=
      loading_stable data 1 3 5 false (by decide) (by decide) (by decide)
    obtain rfl : Loaded.incomplete 2 = early := Except.ok.inj (inPart.symm.trans earlyRead)
    obtain ⟨size, -, escaped, one, decided⟩ := open_ rfl
    have escape : (⟨(0xDC00 ||| data[1].toNat : Nat)⟩ : Scalar) = ⟨0xDCE2⟩ := by decide
    rw [escape] at escaped
    exact ⟨_, late, ended, earlyRead, lateRead, endedRead, rfl, size, escaped, one,
      decided (by decide)⟩
  · obtain ⟨early, late, ended, earlyRead, lateRead, endedRead, stands, -⟩ :=
      loading_stable data 1 4 5 false (by decide) (by decide) (by decide)
    obtain rfl : Loaded.token _ = early := Except.ok.inj (whole.symm.trans earlyRead)
    have decided : ¬ Loaded.IsIncomplete (.token ⟨⟨0x20AC⟩, [0xE2, 0x82, 0xAC]⟩) :=
      Option.some_ne_none _
    obtain ⟨rfl, rfl⟩ := stands decided
    exact ⟨_, earlyRead, decided, lateRead, endedRead⟩

end LosslessUtf8
