import LosslessUtf8.Piecewise
import LosslessUtf8.Proofs.AmpleRoom
import LosslessUtf8.Proofs.Lossless

/-!
# Decoders that keep input

A decoder keeps the bytes that it cannot decode yet, and may be started over at any time with other
bytes in their place. An account tells what went into it since, and what came out. Every step keeps
the account right (`Account.Describes.step`), and so does every run. Chunks that are decoded to
their end are decoded as one (`flatten_decodeChunks`).
-/

namespace LosslessUtf8.Piecewise

open Decoder (Step)
open Decoding (fillAll)

/-- What a decoder was given and what it answered since it was last started over. An input is closed
by a step that says that nothing follows. -/
structure Account where
  closed : List Bytes
  closedText : Text
  current : Bytes
  currentText : Text
  deriving DecidableEq, Repr

namespace Account

/-- The account of a decoder that was just started over. -/
def startedWith (pending : Bytes) : Account :=
  ⟨[], [], pending, []⟩

/-- The account after one more step and its answer. -/
def note (account : Account) : Step → Option Text → Account
  | .decode chunk false, answer =>
    { account with
      current := account.current ++ chunk
      currentText := account.currentText ++ answer.getD [] }
  | .decode chunk true, answer =>
    { closed := account.closed ++ [account.current ++ chunk]
      closedText := account.closedText ++ (account.currentText ++ answer.getD [])
      current := []
      currentText := [] }
  | .reset, _ => startedWith []
  | .inspect, _ => account
  | .restore pending, _ => startedWith pending

/-- All input of an account. -/
def input (account : Account) : Bytes :=
  account.closed.flatten ++ account.current

/-- All text of an account. -/
def text (account : Account) : Text :=
  account.closedText ++ account.currentText

end Account

namespace Decoder

/-- An account goes on over a run, step by step with what the steps answer. -/
def accountFrom (account : Account) (decoder : Decoder) (steps : List Step) : Account :=
  (steps.zip (decoder.run steps)).foldl
    (fun account (step, answer, _) => account.note step answer) account

/-- The account of a run of a decoder that was just started over. -/
def accountOf (decoder : Decoder) (steps : List Step) : Account :=
  decoder.accountFrom (.startedWith decoder.pending) steps

/-- The decoder that a run leaves. -/
def after (decoder : Decoder) (steps : List Step) : Decoder :=
  ((decoder.run steps).map Prod.snd).getLastD decoder

variable (decoder : Decoder)

@[simp] theorem accountFrom_cons (account : Account) (next : Step) (steps : List Step) :
    decoder.accountFrom account (next :: steps) =
      (decoder.step next).2.accountFrom (account.note next (decoder.step next).1) steps := rfl

@[simp] theorem after_cons (next : Step) (steps : List Step) :
    decoder.after (next :: steps) = (decoder.step next).2.after steps := by
  rw [after, run, List.map_cons, List.getLastD_cons]
  rfl

theorem decode_eq (final : Bool) (chunk : Bytes) :
    decoder.decode final chunk =
      ((fillAll final (decoder.pending ++ chunk)).text,
        ⟨(fillAll final (decoder.pending ++ chunk)).rest⟩) := rfl

theorem decode_true (chunk : Bytes) :
    decoder.decode true chunk = (LosslessUtf8.decode (decoder.pending ++ chunk), ⟨[]⟩) := by
  rw [decode_eq, Decoding.fillAll_true]

/-- What is left of a chunk waits for the missing bytes of one sequence. -/
theorem length_pending_decode_le (final : Bool) (chunk : Bytes) :
    (decoder.decode final chunk).2.pending.length ≤ 3 :=
  Decoding.length_rest_fillAll_le _ _

/-- Decoding a chunk loses nothing. -/
theorem exists_encode_decode (final : Bool) (chunk : Bytes) :
    ∃ front, encode (decoder.decode final chunk).1 = .ok front ∧
      front ++ (decoder.decode final chunk).2.pending = decoder.pending ++ chunk :=
  Decoding.exists_encode_fill _ _ _

/-- What is still to come is decoded as it would have been without the cut. -/
theorem decode_pending_append (chunk more : Bytes) :
    LosslessUtf8.decode (decoder.pending ++ chunk ++ more) =
      (decoder.decode false chunk).1 ++
        LosslessUtf8.decode ((decoder.decode false chunk).2.pending ++ more) :=
  Decoding.decode_append_fillAll _ _

/-- A chunk is decoded into slots of which there is one for every byte. -/
theorem decode_eq_decodeInto (final : Bool) (chunk : Bytes) :
    ∃ consumed produced stop slots,
      decodeInto (decoder.pending ++ chunk)
          (List.replicate (decoder.pending ++ chunk).length ⟨0⟩)
          { endOfInput := .boolean final } = (.decoded consumed produced stop, slots) ∧
      decoder.decode final chunk =
        (slots.take produced, ⟨(decoder.pending ++ chunk).drop consumed⟩) := by
  obtain ⟨slots, decoded, text⟩ := exists_decodeInto_replicate final
    (decoder.pending ++ chunk).length (decoder.pending ++ chunk)
  refine ⟨_, _, _, slots, decoded, ?_⟩
  rw [text, ← Decoding.rest_fill_eq_drop]
  rfl

end Decoder

namespace Account

/-- An account is right about the decoder that it was kept of. -/
structure Describes (account : Account) (decoder : Decoder) : Prop where
  closedText_eq : account.closedText = account.closed.flatMap decode
  written : ∃ front, encode account.currentText = .ok front ∧
    front ++ decoder.pending = account.current
  continues (more : Bytes) :
    decode (account.current ++ more) = account.currentText ++ decode (decoder.pending ++ more)

namespace Describes

variable {account : Account} {decoder : Decoder}

theorem startedWith (pending : Bytes) : Describes (.startedWith pending) ⟨pending⟩ where
  closedText_eq := rfl
  written := ⟨[], rfl, rfl⟩
  continues _ := rfl

theorem decode_open (describes : account.Describes decoder) (chunk : Bytes) :
    (account.note (.decode chunk false) (decoder.decode false chunk).1).Describes
      (decoder.decode false chunk).2 where
  closedText_eq := describes.closedText_eq
  written := by
    obtain ⟨front, encoded, parts⟩ := describes.written
    obtain ⟨added, addedEncoded, addedParts⟩ := decoder.exists_encode_decode false chunk
    refine ⟨front ++ added, encode_append encoded addedEncoded, ?_⟩
    rw [List.append_assoc, addedParts, ← List.append_assoc, parts]
    rfl
  continues more := by
    calc
      decode (account.current ++ chunk ++ more)
      _ = account.currentText ++ decode (decoder.pending ++ chunk ++ more) := by
        rw [List.append_assoc, describes.continues, ← List.append_assoc]
      _ = account.currentText ++ (decoder.decode false chunk).1 ++
          decode ((decoder.decode false chunk).2.pending ++ more) := by
        rw [decoder.decode_pending_append, List.append_assoc]

theorem decode_last (describes : account.Describes decoder) (chunk : Bytes) :
    (account.note (.decode chunk true) (decoder.decode true chunk).1).Describes
      (decoder.decode true chunk).2 := by
  rw [decoder.decode_true]
  refine ⟨?_, ⟨[], rfl, rfl⟩, fun _ => rfl⟩
  calc
    account.closedText ++ (account.currentText ++ decode (decoder.pending ++ chunk))
    _ = account.closed.flatMap decode ++ decode (account.current ++ chunk) := by
      rw [describes.closedText_eq, describes.continues]
    _ = (account.closed ++ [account.current ++ chunk]).flatMap decode := by
      rw [List.flatMap_append, List.flatMap_singleton]

theorem step (describes : account.Describes decoder) (next : Step) :
    (account.note next (decoder.step next).1).Describes (decoder.step next).2 := by
  cases next with
  | decode chunk final =>
      cases final with
      | false => exact describes.decode_open chunk
      | true => exact describes.decode_last chunk
  | reset => exact startedWith []
  | inspect => exact describes
  | restore pending => exact startedWith pending

theorem run (describes : account.Describes decoder) (steps : List Step) :
    (decoder.accountFrom account steps).Describes (decoder.after steps) := by
  induction steps generalizing account decoder with
  | nil => exact describes
  | cons next steps ih =>
      rw [Decoder.accountFrom_cons, Decoder.after_cons]
      exact ih (describes.step next)

/-- The text of an account and what is pending are its input. -/
theorem exists_encode_text (describes : account.Describes decoder) :
    ∃ front, encode account.text = .ok front ∧ front ++ decoder.pending = account.input := by
  obtain ⟨front, encoded, parts⟩ := describes.written
  have closedEncoded : encode account.closedText = .ok account.closed.flatten := by
    rw [describes.closedText_eq]
    exact encode_flatMap_decode account.closed
  refine ⟨account.closed.flatten ++ front, encode_append closedEncoded encoded, ?_⟩
  rw [List.append_assoc, parts]
  rfl

end Describes

end Account

/-! ## Chunks to the end -/

theorem flatten_keep (piece : Text) (reversed : List Text) :
    (if piece.isEmpty then reversed else piece :: reversed).reverse.flatten =
      reversed.reverse.flatten ++ piece := by
  split
  · next empty => rw [List.isEmpty_iff.1 empty, List.append_nil]
  · rw [List.reverse_cons, List.flatten_append, List.flatten_singleton]

theorem flatten_pieces_collect (decoder : Decoder) (reversed : List Text) (chunks : List Bytes) :
    (Run.collect decodeChunks.convert decoder reversed
        (chunks.map (false, ·) ++ [(true, [])])).pieces.flatten =
      reversed.reverse.flatten ++ decode (decoder.pending ++ chunks.flatten) := by
  induction chunks generalizing decoder reversed with
  | nil =>
      change (if (decoder.decode true []).1.isEmpty then reversed
        else (decoder.decode true []).1 :: reversed).reverse.flatten = _
      rw [flatten_keep, decoder.decode_true]
      rfl
  | cons chunk chunks ih =>
      have cut := decoder.decode_pending_append chunk chunks.flatten
      rw [List.map_cons, List.cons_append, Run.collect]
      dsimp only [decodeChunks.convert]
      rw [ih, flatten_keep, List.flatten_cons, ← List.append_assoc decoder.pending, cut,
        List.append_assoc]

/-- Wherever the input is cut, all chunks together are decoded as one. -/
theorem flatten_decodeChunks (chunks : List Bytes) :
    (decodeChunks chunks).flatten = decode chunks.flatten :=
  flatten_pieces_collect .empty [] chunks

/-- Whatever is done with a decoder, all text that it answered since it was last started over
encodes to its input without the bytes that are pending. These are at most three behind a chunk, and
none behind one that was said to be the last. The text up to there is that of the inputs that were
closed, each decoded on its own, and the text behind it is how the current input is decoded whatever
follows. So all chunks of an input together are decoded as one. -/
theorem steps_decode_input :
    (∀ (decoder : Decoder) (steps : List Step),
      let account := decoder.accountOf steps
      let reached := decoder.after steps
      (∃ front, encodeTwoPass account.text = .ok front ∧
        front ++ reached.pending = account.input) ∧
      (∀ final chunk, ∃ consumed produced stop slots,
        decodeInto (reached.pending ++ chunk)
            (List.replicate (reached.pending ++ chunk).length ⟨0⟩)
            { endOfInput := .boolean final } = (.decoded consumed produced stop, slots) ∧
        reached.step (.decode chunk final) =
          (some (slots.take produced), ⟨(reached.pending ++ chunk).drop consumed⟩)) ∧
      (∀ final chunk, (reached.step (.decode chunk final)).2.pending.length ≤ 3) ∧
      (∀ chunk, (reached.step (.decode chunk true)).2.pending = []) ∧
      account.closedText = account.closed.flatMap decode ∧
      ∀ more, account.currentText <+: decode (account.current ++ more)) ∧
    ∀ chunks : List Bytes, (decodeChunks chunks).flatten = decode chunks.flatten := by
  refine ⟨?_, flatten_decodeChunks⟩
  intro decoder steps account reached
  have describes : account.Describes reached :=
    (Account.Describes.startedWith decoder.pending).run steps
  refine ⟨?_, ?_, reached.length_pending_decode_le, ?_, describes.closedText_eq, ?_⟩
  · obtain ⟨front, encoded, parts⟩ := describes.exists_encode_text
    exact ⟨front, encodeTwoPass_of_encode encoded, parts⟩
  · intro final chunk
    obtain ⟨consumed, produced, stop, slots, decoded, answer⟩ :=
      reached.decode_eq_decodeInto final chunk
    refine ⟨consumed, produced, stop, slots, decoded, ?_⟩
    rw [Decoder.step, answer]
  · intro chunk
    rw [Decoder.step, reached.decode_true]
  · intro more
    exact ⟨_, (describes.continues more).symm⟩

/-- Pending bytes that are put in place are the beginning of the next input. -/
example :
    Decoder.empty.accountOf
        [.decode [0x41] false, .restore [0xE2], .decode [0x82, 0xAC] true, .decode [0xF0] false] =
      ⟨[[0xE2, 0x82, 0xAC]], [⟨0x20AC⟩], [0xF0], []⟩ := by
  decide

end LosslessUtf8.Piecewise
