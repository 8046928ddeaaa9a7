import LosslessUtf8.CommandLine.Run
import LosslessUtf8.Proofs.Sessions
import LosslessUtf8.Proofs.WellFormedness

/-!
# Reports are exact

Whatever the limits, a report holds the counts of the whole content, and calls it lossless just if
the second look found the same bytes (`analyze_eq`). Only memory can be lacking for it
(`analyze_of_error`). So the program prints the same report on a file for every chunk size for which
the machine has a buffer.
-/

namespace LosslessUtf8

/-! ## Reads of a file -/

namespace Chunked

theorem flatten_cutOnto {size : Nat} (positive : 0 < size) (reversed : List Bytes) (bytes : Bytes) :
    (cutOnto size positive reversed bytes).flatten = reversed.reverse.flatten ++ bytes := by
  induction reversed, bytes using cutOnto.induct size positive with
  | case1 reversed bytes empty =>
      rw [cutOnto, if_pos empty, List.isEmpty_iff.1 empty, List.append_nil]
  | case2 reversed bytes nonempty ih =>
      rw [cutOnto, if_neg nonempty, ih, List.reverse_cons, List.flatten_append,
        List.flatten_singleton, List.append_assoc, List.take_append_drop]

theorem ne_nil_of_mem_cutOnto {size : Nat} (positive : 0 < size) {reversed : List Bytes}
    (nonempty : ∀ read ∈ reversed, read ≠ []) (bytes : Bytes) :
    ∀ read ∈ cutOnto size positive reversed bytes, read ≠ [] := by
  induction reversed, bytes using cutOnto.induct size positive with
  | case1 reversed bytes empty =>
      rw [cutOnto, if_pos empty]
      simpa using nonempty
  | case2 reversed bytes more ih =>
      rw [cutOnto, if_neg more]
      apply ih
      rw [List.forall_mem_cons]
      refine ⟨?_, nonempty⟩
      rw [List.isEmpty_iff] at more
      simp only [ne_eq, List.take_eq_nil_iff, not_or]
      exact ⟨Nat.ne_of_gt positive, more⟩

theorem received_eq {reads : List Bytes} (nonempty : ∀ read ∈ reads, read ≠ []) :
    received reads = reads := by
  induction reads with
  | nil => rfl
  | cons read reads ih =>
      rw [List.forall_mem_cons] at nonempty
      have kept := ih nonempty.2
      rw [received] at kept ⊢
      rw [List.takeWhile_cons_of_pos (by simpa using nonempty.1), kept]

/-- A file is read to its end. -/
theorem flatten_received_cut (limits : Limits) (bytes : Bytes) :
    (received (limits.cut bytes)).flatten = bytes := by
  have nonempty : ∀ read ∈ limits.cut bytes, read ≠ [] :=
    ne_nil_of_mem_cutOnto limits.chunkSize_pos (by simp) bytes
  rw [received_eq nonempty, Limits.cut, flatten_cutOnto]
  rfl

end Chunked

namespace Report

/-! ## What an analysis knows -/

/-- An analysis that has met a text, which is encoded to some bytes: what it knows of the text, and
how the bytes compare with the second look. -/
structure Progress.Describes (progress : Progress) (text : Text) (written second : Bytes) :
    Prop where
  scalars : progress.scalars = text.length
  escapes : progress.escapes = text.escapeCount
  size : progress.size = written.length
  same : progress.lossless = true → written ++ progress.expected = second
  different : progress.lossless = false → ¬ written <+: second

variable {progress : Progress} {text piece : Text} {written second bytes : Bytes}

/-- No piece of encodable text is turned down, and what is known is kept up with it. -/
theorem Progress.Describes.addPiece (describes : progress.Describes text written second)
    (encoded : encode piece = .ok bytes) :
    ∃ next, progress.addPiece piece = .ok next ∧
      next.Describes (text ++ piece) (written ++ bytes) second := by
  have scalars : progress.scalars + piece.length = (text ++ piece).length := by
    rw [describes.scalars, List.length_append]
  have escapes : progress.escapes + piece.escapeCount = Text.escapeCount (text ++ piece) := by
    rw [describes.escapes, Text.escapeCount, Text.escapeCount, Text.escapeCount,
      List.countP_append]
  have size : progress.size + bytes.length = (written ++ bytes).length := by
    rw [describes.size, List.length_append]
  simp only [Progress.addPiece, encoded, bind, Except.bind, pure, Except.pure]
  cases lossless : progress.lossless with
  | false =>
      -- What does not begin as the second look does will not do so with more bytes behind it.
      refine ⟨_, rfl, scalars, escapes, size, fun same => by contradiction, fun _ found => ?_⟩
      exact describes.different lossless ((List.prefix_append written bytes).trans found)
  | true =>
      have parts := describes.same lossless
      by_cases met : progress.expected.take bytes.length = bytes
      · simp only [met, not_true_eq_false, if_false, beq_self_eq_true, if_true]
        refine ⟨_, rfl, scalars, escapes, size, fun _ => ?_, fun different => by contradiction⟩
        have split := List.take_append_drop bytes.length progress.expected
        rw [met] at split
        rw [List.append_assoc, split, parts]
      · simp only [met, not_true_eq_false, if_false, beq_iff_eq]
        refine ⟨_, rfl, scalars, escapes, size, fun same => by contradiction, fun _ found => ?_⟩
        rw [← parts, List.prefix_append_right_inj] at found
        exact met (List.prefix_iff_eq_take.1 found).symm

theorem Progress.Describes.follow {events : List Chunked.Event}
    (describes : progress.Describes text written second)
    (encoded : encode (Chunked.pieces events).flatten = .ok bytes) :
    ∃ last, progress.follow events = (last, none) ∧
      last.Describes (text ++ (Chunked.pieces events).flatten) (written ++ bytes) second := by
  induction events generalizing progress text written bytes with
  | nil =>
      obtain rfl : [] = bytes := Except.ok.inj encoded
      exact ⟨progress, rfl, by simpa [Chunked.pieces] using describes⟩
  | cons event events ih =>
      cases brought : event.piece? with
      | none =>
          rw [Chunked.pieces, List.filterMap_cons_none brought] at encoded ⊢
          rw [Progress.follow, brought]
          exact ih ⟨describes.scalars, describes.escapes, describes.size, describes.same,
            describes.different⟩ encoded
      | some piece =>
          rw [Chunked.pieces, List.filterMap_cons_some brought, List.flatten_cons] at encoded ⊢
          obtain ⟨bytes, others, pieceEncoded, othersEncoded, rfl⟩ :=
            exists_encode_of_append encoded
          obtain ⟨next, added, nextDescribes⟩ := describes.addPiece pieceEncoded
          rw [Progress.follow, brought, ← List.append_assoc, ← List.append_assoc]
          simp only [added]
          exact ih nextDescribes othersEncoded

theorem Progress.Describes.lossless_eq (describes : progress.Describes text written second) :
    (progress.lossless && progress.expected.isEmpty) = (second == written) := by
  cases lossless : progress.lossless with
  | false =>
      have other : second ≠ written := by
        rintro rfl
        exact describes.different lossless List.prefix_rfl
      rw [Bool.false_and, beq_eq_false_iff_ne.2 other]
  | true =>
      rw [← describes.same lossless, Bool.true_and, Bool.eq_iff_iff]
      simp

/-- The counts of a report are those of the whole content, and it calls the content lossless just if
the second look found the same. -/
theorem analyze_eq {memory : Memory} {limits : Chunked.Limits}
    (granted : memory.slots limits.capacity = .ok ()) (subject : Subject) (reads : List Bytes)
    (second : Bytes) :
    let first := (Chunked.received reads).flatten
    (analyze memory subject limits (.ok reads) second).1 =
      .ok ⟨(decode first).length, (decode first).escapeCount, second == first⟩ := by
  intro first
  have decoded : (Chunked.pieces (Chunked.session limits reads)).flatten = decode first :=
    Chunked.flatten_pieces_session limits reads
  have encoded : encode (Chunked.pieces (Chunked.session limits reads)).flatten = .ok first :=
    decoded ▸ encode_decode first
  have start : Progress.Describes ⟨0, 0, 0, true, second, [opening subject.path limits]⟩ [] []
      second := ⟨rfl, rfl, rfl, fun _ => rfl, fun different => by contradiction⟩
  obtain ⟨last, followed, describes⟩ := start.follow encoded
  rw [List.nil_append, List.nil_append, decoded] at describes
  rw [analyze, Chunked.decodeStream_of_ok granted]
  simp only [followed, describes.scalars, describes.escapes, describes.lossless_eq]

theorem analyze_of_error {memory : Memory} {limits : Chunked.Limits} {stream : Chunked.Stream}
    {fault : Memory.Fault} (lacking : Chunked.decodeStream memory limits stream = .error fault)
    (subject : Subject) (second : Bytes) :
    analyze memory subject limits stream second =
      (.error (.outOfMemory fault), [opening subject.path limits]) := by
  rw [analyze, lacking]

/-- How a report on some content reads, of which a second look found the given bytes. -/
def reading (subject : Subject) (content second : Bytes) : String :=
  let rule := String.ofList (List.replicate 19 '=')
  rule ++ " " ++ subject.name ++ " " ++ rule ++ "\n" ++
    row "Bytes" (toString subject.size) ++
    row "Scalars" (toString (tokenCount content)) ++
    row "Escaped bytes" (toString (decode content).escapeCount) ++
    row "Well-formed UTF-8" (if isWellFormed content then "yes" else "no") ++
    row "Lossless round-trip" (if second = content then "yes" else "NO")

theorem render_eq (subject : Subject) (content second : Bytes) :
    render ⟨(decode content).length, (decode content).escapeCount, second == content⟩ subject =
      reading subject content second := by
  unfold render reading
  dsimp only
  rw [tokenCount_eq]
  congr 3
  · simp only [isWellFormed, beq_iff_eq]
  · simp only [beq_iff_eq]

end Report

/-! ## The program -/

namespace CommandLine

section Run

variable {memory : Memory} {arguments : List String} {find : Path → Entry} {settings : Settings}
  {content : Bytes} {size : Int} {fault : Memory.Fault}

theorem run_of_file (parsed : Settings.ofArguments arguments = .ok settings)
    (asked : settings.path.isEmpty = false)
    (found : find (.ofString settings.path) = .file content) :
    run memory arguments find =
      analyze memory settings (.ofString settings.path) (.file content) := by
  simp only [run, parsed, asked, found, Bool.false_eq_true, if_false]

theorem exists_limitsOf (given : settings.chunkSize? = some size) (positive : 0 < size) :
    ∃ limits, limitsOf settings = .ok limits ∧ limits.chunkSize = size.toNat ∧
      limits.capacity = Chunked.Limits.defaultCapacity := by
  have capacity : (0 : Int) < Chunked.Limits.defaultCapacity := by decide
  simp only [limitsOf, given, Chunked.Limits.ofInts, dif_pos positive, dif_pos capacity]
  exact ⟨_, rfl, rfl, rfl⟩

theorem analyze_of_granted (path : Path) (given : settings.chunkSize? = some size)
    (positive : 0 < size) (slots : memory.slots Chunked.Limits.defaultCapacity = .ok ())
    (buffer : memory.buffer size.toNat = .ok ()) :
    (analyze memory settings path (.file content)).exitCode = 0 ∧
      (analyze memory settings path (.file content)).stdout =
        Report.reading ⟨path.name, path.toString, content.length⟩ content content := by
  obtain ⟨limits, limitsAre, sizeIs, capacityIs⟩ := exists_limitsOf given positive
  rw [← capacityIs] at slots
  have read : limits.stream memory content = .ok (limits.cut content) := by
    rw [Chunked.Limits.stream, sizeIs, buffer]
    rfl
  have analyzed := Report.analyze_eq slots ⟨path.name, path.toString, content.length⟩
    (limits.cut content) content
  dsimp only at analyzed
  rw [Chunked.flatten_received_cut] at analyzed
  have rendered := Report.render_eq ⟨path.name, path.toString, content.length⟩ content content
  rw [beq_self_eq_true] at analyzed rendered
  rw [analyze, limitsAre]
  simp only [read]
  split
  · next failed =>
      rw [failed] at analyzed
      cases analyzed
  · next reported =>
      rw [reported] at analyzed
      cases analyzed
      exact ⟨rfl, rendered⟩

theorem analyze_of_lacking (path : Path) (given : settings.chunkSize? = some size)
    (positive : 0 < size) (lacking : memory.slots Chunked.Limits.defaultCapacity = .error fault ∨
      memory.buffer size.toNat = .error fault) :
    (analyze memory settings path (.file content)).exitCode = 1 ∧
      (analyze memory settings path (.file content)).stdout = "" := by
  obtain ⟨limits, limitsAre, sizeIs, capacityIs⟩ := exists_limitsOf given positive
  rw [← sizeIs, ← capacityIs] at lacking
  obtain ⟨first, failed⟩ : ∃ first,
      Chunked.decodeStream memory limits (limits.stream memory content) = .error first := by
    rw [Chunked.decodeStream, Chunked.Limits.stream]
    rcases lacking with noSlots | noBuffer
    · rw [noSlots]
      exact ⟨fault, rfl⟩
    · rw [noBuffer]
      -- If the slots are lacking as well, that is what is reported.
      cases memory.slots limits.capacity with
      | error first => exact ⟨first, rfl⟩
      | ok granted => exact ⟨fault, rfl⟩
  rw [analyze, limitsAre]
  simp only [Report.analyze_of_error failed, and_self]

end Run

end CommandLine

end LosslessUtf8
