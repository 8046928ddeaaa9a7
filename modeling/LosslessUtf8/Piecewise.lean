import LosslessUtf8.Decoding
import LosslessUtf8.Substitution

/-!
# Piecewise conversion

Conversion of input that comes in pieces. A decoder keeps the bytes that it cannot decode yet; an
encoder keeps nothing but what is left of its policy. A run over many pieces brings one result for
each of them that has one, up to the first failure.
-/

namespace LosslessUtf8.Piecewise

/-- What a run over several pieces brought before it ended, and the failure that ended it early. -/
structure Run (α ε : Type) where
  pieces : List α
  failure? : Option ε
  deriving Repr

/-- Converts inputs one after the other, each with the state that the one before left, up to the
first failure. Results that are empty are left out; the others are put behind those that are there
already, in reverse. -/
def Run.collect {σ ι α ε : Type} (convert : σ → ι → Except ε (List α) × σ) (state : σ)
    (reversed : List (List α)) : List ι → Run (List α) ε
  | [] => ⟨reversed.reverse, none⟩
  | input :: inputs =>
    match convert state input with
    | (.error failure, _) => ⟨reversed.reverse, some failure⟩
    | (.ok piece, next) =>
      collect convert next (if piece.isEmpty then reversed else piece :: reversed) inputs

/-! ## Decoding -/

/-- The bytes that are waiting for more input. -/
structure Decoder where
  pending : Bytes
  deriving DecidableEq, Repr

namespace Decoder

/-- A decoder to which nothing was given yet. -/
def empty : Decoder := ⟨[]⟩

/-- Decodes what is pending together with a chunk. -/
def decode (decoder : Decoder) (final : Bool) (chunk : Bytes) : Text × Decoder :=
  let window := decoder.pending ++ chunk
  let progress := Decoding.fill final window.length window
  (progress.text, ⟨progress.rest⟩)

/-- What is done with a decoder. -/
inductive Step where
  /-- Decodes a chunk. -/
  | decode (chunk : Bytes) (final : Bool)
  /-- Forgets what is pending. -/
  | reset
  /-- Looks at what is pending. -/
  | inspect
  /-- Puts other bytes in the place of what is pending. -/
  | restore (pending : Bytes)
  deriving DecidableEq, Repr

/-- Takes one step, which answers a text if it decodes. -/
def step (decoder : Decoder) : Step → Option Text × Decoder
  | .decode chunk final =>
    let (text, next) := decoder.decode final chunk
    (some text, next)
  | .reset => (none, empty)
  | .inspect => (none, decoder)
  | .restore pending => (none, ⟨pending⟩)

/-- Takes steps one after the other, and answers each with the decoder that it left. -/
def run (decoder : Decoder) : List Step → List (Option Text × Decoder)
  | [] => []
  | next :: steps =>
    let reached := decoder.step next
    reached :: run reached.2 steps

end Decoder

/-- Decodes chunks one after the other, and then the end of the input. -/
def decodeChunks (chunks : List Bytes) : List Text :=
  let inputs := chunks.map (false, ·) ++ [(true, [])]
  (Run.collect convert Decoder.empty [] inputs).pieces
where
  convert (decoder : Decoder) (input : Bool × Bytes) : Except Empty Text × Decoder :=
    let (text, next) := decoder.decode input.1 input.2
    (.ok text, next)

/-! ## Encoding -/

/-- The policy on scalars that have no byte form, as far as it is not used up. -/
structure Encoder where
  policy : Substitution.Policy

namespace Encoder

/-- Encodes a text. -/
def encode (encoder : Encoder) (text : Text) : Except Substitution.Failure Bytes × Encoder :=
  let (outcome, policy) := Substitution.encodeUnder encoder.policy text
  (outcome, ⟨policy⟩)

/-- What is done with an encoder. -/
inductive Step where
  /-- Encodes a text. -/
  | encode (text : Text)
  /-- Resets, inspects or restores an encoder, which keeps nothing of its input. -/
  | idle
  /-- Puts the rule of that name in the place of the policy. -/
  | follow (name : Text)
  deriving DecidableEq, Repr

/-- Takes one step, which answers bytes or a failure if it encodes. -/
def step (encoder : Encoder) : Step → Option (Except Substitution.Failure Bytes) × Encoder
  | .encode text =>
    let (outcome, next) := encoder.encode text
    (some outcome, next)
  | .idle => (none, encoder)
  | .follow name => (none, ⟨.rule (.ofText name)⟩)

/-- Takes steps one after the other; a failure does not keep the next step from being taken. -/
def run (encoder : Encoder) : List Step → List (Option (Except Substitution.Failure Bytes))
  | [] => []
  | next :: steps =>
    let (outcome, left) := encoder.step next
    outcome :: run left steps

end Encoder

/-- Encodes texts one after the other under a policy. -/
def encodePieces (policy : Substitution.Policy) (texts : List Text) :
    Run Bytes Substitution.Failure :=
  Run.collect Encoder.encode ⟨policy⟩ [] texts

/-- Encodes texts one after the other, up to the first that cannot be encoded. -/
def encodeEach (texts : List Text) : Run Bytes Unencodable :=
  Run.collect (fun () text => (encode text, ())) () [] texts

end LosslessUtf8.Piecewise
