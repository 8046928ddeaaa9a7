import LosslessUtf8.Proofs.Lossless
import LosslessUtf8.Workspace
import Mathlib.Algebra.Ring.Nat

/-!
# Input in chunks

A workspace that is fed keeps what it could not decode yet. Wherever the input is cut, and whatever
room there is for each piece, no byte gets lost (`exists_encode_decoded`), and the scalars are those
of the whole input (`decode_pending_append`) as long as no chunk comes behind one that was said to
be the last.
-/

namespace LosslessUtf8

namespace Workspace

/-- The input that a step brings. -/
def Step.chunk : Step → Bytes
  | .feed chunk _ _ => chunk
  | _ => []

/-- Whether a step says that its input is the last. -/
def Step.isFinal : Step → Bool
  | .feed _ _ final => final
  | _ => false

/-- The scalars that an answer adds to the text of the input. -/
def Answer.text : Answer → Text
  | .fed _ text => text
  | _ => []

/-- All input that some steps bring. -/
def chunks (steps : List Step) : Bytes :=
  steps.flatMap Step.chunk

/-- The scalars that a run decodes from its input. -/
def decoded (workspace : Workspace) (steps : List Step) : Text :=
  (workspace.run steps).flatMap fun reached => reached.1.text

/-- The workspace that a run leaves. -/
def after (workspace : Workspace) (steps : List Step) : Workspace :=
  ((workspace.run steps).map Prod.snd).getLastD workspace

/-- No input comes behind a step that says that its input is the last. -/
def EndsOnce (steps : List Step) : Prop :=
  steps.Pairwise fun earlier later => earlier.isFinal → later.chunk = []

instance (steps : List Step) : Decidable (EndsOnce steps) :=
  inferInstanceAs (Decidable (List.Pairwise _ _))

variable (workspace : Workspace)

@[simp] theorem chunks_cons (next : Step) (steps : List Step) :
    chunks (next :: steps) = next.chunk ++ chunks steps := rfl

@[simp] theorem decoded_cons (next : Step) (steps : List Step) :
    workspace.decoded (next :: steps) =
      (workspace.step next).1.text ++ (workspace.step next).2.decoded steps := rfl

@[simp] theorem after_cons (next : Step) (steps : List Step) :
    workspace.after (next :: steps) = (workspace.step next).2.after steps := by
  rw [after, run, List.map_cons, List.getLastD_cons]
  rfl

theorem after_append (front back : List Step) :
    workspace.after (front ++ back) = (workspace.after front).after back := by
  induction front generalizing workspace with
  | nil => rfl
  | cons next front ih => rw [List.cons_append, after_cons, after_cons, ih]

/-! ## Feeding is decoding into fresh slots -/

theorem step_feed_eq (chunk : Bytes) (capacity : Nat) (final : Bool) :
    ∃ consumed produced stop slots,
      decodeInto (workspace.pending ++ chunk) (List.replicate capacity ⟨0⟩)
          { endOfInput := .boolean final } = (.decoded consumed produced stop, slots) ∧
      workspace.step (.feed chunk capacity final) =
        (.fed (.decoded consumed produced stop) (slots.take produced),
          { workspace with pending := (workspace.pending ++ chunk).drop consumed }) := by
  obtain ⟨slots, decoded, text⟩ :=
    exists_decodeInto_replicate final capacity (workspace.pending ++ chunk)
  refine ⟨_, _, _, slots, decoded, ?_⟩
  rw [text, ← Decoding.rest_fill_eq_drop]
  rfl

/-! ## Nothing is lost -/

theorem exists_encode_step (next : Step) :
    ∃ front, encode (workspace.step next).1.text = .ok front ∧
      front ++ (workspace.step next).2.pending = workspace.pending ++ next.chunk := by
  cases next with
  | feed chunk capacity final => exact Decoding.exists_encode_fill _ _ _
  | _ => exact ⟨[], rfl, (List.append_nil _).symm⟩

/-- The scalars that a run decoded and the input that it keeps are the input that it was fed. -/
theorem exists_encode_decoded (steps : List Step) :
    ∃ front, encode (workspace.decoded steps) = .ok front ∧
      front ++ (workspace.after steps).pending = workspace.pending ++ chunks steps := by
  induction steps generalizing workspace with
  | nil => exact ⟨[], rfl, (List.append_nil _).symm⟩
  | cons next steps ih =>
      obtain ⟨first, firstEncoded, firstParts⟩ := workspace.exists_encode_step next
      obtain ⟨front, encoded, parts⟩ := ih (workspace.step next).2
      refine ⟨first ++ front, encode_append firstEncoded encoded, ?_⟩
      calc
        (first ++ front) ++ (workspace.after (next :: steps)).pending
        _ = first ++ ((workspace.step next).2.pending ++ chunks steps) := by
          rw [after_cons, List.append_assoc, parts]
        _ = workspace.pending ++ chunks (next :: steps) := by
          rw [← List.append_assoc, firstParts, List.append_assoc, chunks_cons]

/-! ## Cuts do not show -/

theorem decode_pending_step {next : Step} {more : Bytes} (last : next.isFinal → more = []) :
    decode (workspace.pending ++ next.chunk ++ more) =
      (workspace.step next).1.text ++ decode ((workspace.step next).2.pending ++ more) := by
  cases next with
  | feed chunk capacity final => exact Decoding.decode_append_fill last _ _
  | _ =>
      rw [show Step.chunk _ = [] from rfl, List.append_nil]
      rfl

theorem chunks_eq_nil_of_endsOnce {next : Step} {steps : List Step}
    (once : EndsOnce (next :: steps)) (final : next.isFinal) : chunks steps = [] := by
  apply List.flatMap_eq_nil_iff.2
  intro later member
  exact List.rel_of_pairwise_cons once member final

/-- What is still to come is decoded to the same scalars, however much of it is fed before. -/
theorem decode_pending_append {earlier later : List Step} (once : EndsOnce (earlier ++ later)) :
    decode (workspace.pending ++ chunks (earlier ++ later)) =
      workspace.decoded earlier ++
        decode ((workspace.after earlier).pending ++ chunks later) := by
  induction earlier generalizing workspace with
  | nil => rfl
  | cons next earlier ih =>
      have onceBehind : EndsOnce (earlier ++ later) := List.Pairwise.of_cons once
      have last : next.isFinal → chunks (earlier ++ later) = [] := chunks_eq_nil_of_endsOnce once
      rw [List.cons_append, chunks_cons, ← List.append_assoc, workspace.decode_pending_step last,
        ih (workspace.step next).2 onceBehind, decoded_cons, after_cons, List.append_assoc]

/-! ## Coming to an end -/

/-- A step that brings no input and says that none follows. -/
def Step.finish (room : Nat) : Step :=
  .feed [] room true

theorem pending_step_finish (room : Nat) :
    (workspace.step (.finish room)).2.pending =
      (Decoding.fill true room workspace.pending).rest := by
  rw [Step.finish, step, feed, List.append_nil]

theorem decode_pending_finish (rooms : List Nat) :
    decode (workspace.after (rooms.map .finish)).pending =
      (decode workspace.pending).drop rooms.sum := by
  induction rooms generalizing workspace with
  | nil => rfl
  | cons room rooms ih =>
      rw [List.map_cons, after_cons, ih, pending_step_finish, Decoding.decode_rest_fill_true,
        List.drop_drop, List.sum_cons]

theorem chunk_of_mem_finish {rooms : List Nat} {step : Step}
    (member : step ∈ rooms.map Step.finish) : step.chunk = [] := by
  obtain ⟨room, -, rfl⟩ := List.mem_map.1 member
  rfl

theorem chunks_append_finish (steps : List Step) (rooms : List Nat) :
    chunks (steps ++ rooms.map .finish) = chunks steps := by
  have noInput : (rooms.map Step.finish).flatMap Step.chunk = [] :=
    List.flatMap_eq_nil_iff.2 fun _ => chunk_of_mem_finish
  rw [chunks, List.flatMap_append, noInput, List.append_nil]
  rfl

theorem endsOnce_append_finish {steps : List Step} (once : EndsOnce steps) (rooms : List Nat) :
    EndsOnce (steps ++ rooms.map .finish) := by
  apply List.pairwise_append.2
  refine ⟨once, ?_, ?_⟩
  · apply List.pairwise_of_forall_mem_list
    intro earlier _ later member _
    exact chunk_of_mem_finish member
  · intro earlier _ later member _
    exact chunk_of_mem_finish member

theorem decoded_eq_decode {earlier later : List Step} (once : EndsOnce (earlier ++ later))
    (noneLeft : (workspace.after earlier).pending = []) (noneToCome : chunks later = []) :
    workspace.decoded earlier = decode (workspace.pending ++ chunks (earlier ++ later)) := by
  rw [workspace.decode_pending_append once, noneLeft, noneToCome, List.append_nil, decode_nil,
    List.append_nil]

/-- Room for as many scalars as are still to come brings every run to the end of its input. -/
theorem decoded_append_finish {steps : List Step} (once : EndsOnce steps) {rooms : List Nat}
    (enough : (decode (workspace.after steps).pending).length ≤ rooms.sum) :
    workspace.decoded (steps ++ rooms.map .finish) =
      decode (workspace.pending ++ chunks steps) := by
  have noneLeft : (workspace.after (steps ++ rooms.map .finish)).pending = [] := by
    apply eq_nil_of_decode_eq_nil
    rw [after_append, decode_pending_finish]
    exact List.drop_eq_nil_of_le enough
  have onceAll : EndsOnce ((steps ++ rooms.map .finish) ++ []) := by
    rw [List.append_nil]
    exact endsOnce_append_finish once rooms
  rw [workspace.decoded_eq_decode onceAll noneLeft rfl, List.append_nil, chunks_append_finish]

/-! ## Whole runs -/

/-- Cutting the input does not show. Feeding decodes what was kept and a new chunk, and keeps what
that leaves. After any run the scalars encode to the input but for what is kept. As long as no
input comes behind the last, they begin the text of all the input, they are that text when
nothing is kept, and feeds with enough room lead there. -/
theorem feeding_seamless (bytes : Bytes) (slots : Text) :
    let start : Workspace := ⟨bytes, slots, []⟩
    (∀ (workspace : Workspace) (chunk : Bytes) (capacity : Nat) (final : Bool),
      ∃ consumed produced stop filled,
        decodeInto (workspace.pending ++ chunk) (List.replicate capacity ⟨0⟩)
            { endOfInput := .boolean final } = (.decoded consumed produced stop, filled) ∧
        workspace.step (.feed chunk capacity final) =
          (.fed (.decoded consumed produced stop) (filled.take produced),
            { workspace with pending := (workspace.pending ++ chunk).drop consumed })) ∧
    (∀ steps, ∃ front, encode (start.decoded steps) = .ok front ∧
      front ++ (start.after steps).pending = chunks steps) ∧
    (∀ earlier later, EndsOnce (earlier ++ later) →
      start.decoded earlier <+: decode (chunks (earlier ++ later)) ∧
      ((start.after earlier).pending = [] → chunks later = [] →
        start.decoded earlier = decode (chunks (earlier ++ later)))) ∧
    (∀ steps, EndsOnce steps → ∀ rooms : List Nat,
      (decode (start.after steps).pending).length ≤ rooms.sum →
      start.decoded (steps ++ rooms.map .finish) = decode (chunks steps)) := by
  intro start
  refine ⟨step_feed_eq, ?_, ?_, ?_⟩
  · intro steps
    exact start.exists_encode_decoded steps
  · intro earlier later once
    constructor
    · exact ⟨_, (start.decode_pending_append once).symm⟩
    · intro noneLeft noneToCome
      exact start.decoded_eq_decode once noneLeft noneToCome
  · intro steps once rooms enough
    exact start.decoded_append_finish once enough

/-- A run whose cuts lie inside sequences, and whose feeds have little room or none. -/
theorem feeding_seamless_cut_inside :
    let start : Workspace := ⟨[], [], []⟩
    let earlier : List Step :=
      [.feed [0xE2] 0 false, .feed [0x82, 0xAC, 0xF0] 1 false, .feed [0x9F, 0x41] 1 true]
    let later : List Step := [.feed [] 2 true]
    EndsOnce (earlier ++ later) ∧
    start.decoded earlier <+: decode (chunks (earlier ++ later)) ∧
    (start.after (earlier ++ later)).pending = [] ∧
    start.decoded (earlier ++ later) = decode (chunks (earlier ++ later)) ∧
    start.decoded (earlier ++ [1, 0, 1].map .finish) = decode (chunks earlier) := by
  intro start earlier later
  have once : EndsOnce (earlier ++ later) := by decide
  have noneLeft : (start.after (earlier ++ later)).pending = [] := by decide
  have seamless := (feeding_seamless [] []).2.2
  exact ⟨once, (seamless.1 earlier later once).1, noneLeft,
    (seamless.1 (earlier ++ later) [] once).2 noneLeft rfl,
    seamless.2 earlier (by decide) [1, 0, 1] (by decide)⟩

end Workspace

end LosslessUtf8
