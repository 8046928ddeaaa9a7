import LosslessUtf8.Chunked.Course
import LosslessUtf8.Proofs.AmpleRoom
import LosslessUtf8.Proofs.Lossless

/-!
# Sessions

A session in one row of slots is given up for lack of memory only, and brings the same events as one
that takes its windows apart (`sessionInPlace_eq`). Both do what `Drains` and `Feeds` describe, and
that is to decode all that was read (`flatten_pieces_session`), whatever the limits and the reads
are.
-/

namespace LosslessUtf8.Chunked

open Decoding (fill fillAll)

variable {limits : Limits} {final : Bool}

/-! ## Draining a window -/

/-- A text as a piece, unless it is empty. -/
def pieceOf (text : Text) : List Text :=
  if text.isEmpty then [] else [text]

/-- How a window is drained: the pieces that its runs bring, and what the last of them leaves. -/
inductive Drains (limits : Limits) (final : Bool) : Bytes → List Text → Bytes → Prop where
  | last {window : Bytes} : (fill final limits.capacity window).stop ≠ .outputFull →
      Drains limits final window (pieceOf (fill final limits.capacity window).text)
        (fill final limits.capacity window).rest
  | again {window left : Bytes} {texts : List Text} :
      (fill final limits.capacity window).stop = .outputFull →
      Drains limits final (fill final limits.capacity window).rest texts left →
      Drains limits final window (pieceOf (fill final limits.capacity window).text ++ texts) left

theorem exists_drains (limits : Limits) (final : Bool) (window : Bytes) :
    ∃ texts left, Drains limits final window texts left := by
  -- A run that fills its room leaves less than there was.
  induction size : window.length using Nat.strongRecOn generalizing window with
  | _ size ih =>
      by_cases full : (fill final limits.capacity window).stop = .outputFull
      · have shorter := Decoding.length_rest_lt_of_stop_eq_outputFull limits.capacity_pos full
        obtain ⟨texts, left, drains⟩ := ih _ (size ▸ shorter) _ rfl
        exact ⟨_, left, .again full drains⟩
      · exact ⟨_, _, .last full⟩

@[simp] theorem flatten_pieceOf (text : Text) : (pieceOf text).flatten = text := by
  unfold pieceOf
  split
  · next empty => exact (List.isEmpty_iff.1 empty).symm
  · exact List.append_nil text

theorem ne_nil_of_mem_pieceOf {piece text : Text} (member : piece ∈ pieceOf text) :
    piece = text ∧ piece ≠ [] := by
  unfold pieceOf at member
  split at member
  · contradiction
  · next nonempty =>
      obtain rfl := List.mem_singleton.1 member
      exact ⟨rfl, fun empty => nonempty (List.isEmpty_iff.2 empty)⟩

namespace Drains

variable {window left : Bytes} {texts : List Text}

/-- However little room the runs have, together they decode what one with room for all does. -/
theorem eq_fillAll (drains : Drains limits final window texts left) :
    texts.flatten = (fillAll final window).text ∧ left = (fillAll final window).rest := by
  induction drains with
  | last ample =>
      rw [flatten_pieceOf, Decoding.fill_eq_fillAll_of_stop_ne_outputFull ample]
      exact ⟨rfl, rfl⟩
  | again full _ ih =>
      rw [List.flatten_append, flatten_pieceOf, Decoding.fillAll_of_stop_eq_outputFull full, ih.1]
      exact ⟨rfl, ih.2⟩

theorem decode_append (drains : Drains limits false window texts left) (more : Bytes) :
    decode (window ++ more) = texts.flatten ++ decode (left ++ more) := by
  rw [drains.eq_fillAll.1, drains.eq_fillAll.2]
  exact Decoding.decode_append_fillAll window more

theorem sized (drains : Drains limits final window texts left) :
    ∀ piece ∈ texts, piece ≠ [] ∧ piece.length ≤ limits.capacity := by
  have ofRun {window : Bytes} {piece : Text}
      (member : piece ∈ pieceOf (fill final limits.capacity window).text) :
      piece ≠ [] ∧ piece.length ≤ limits.capacity := by
    obtain ⟨rfl, nonempty⟩ := ne_nil_of_mem_pieceOf member
    exact ⟨nonempty, Decoding.length_text_le _ _ _⟩
  induction drains with
  | last ample =>
      intro piece member
      exact ofRun member
  | again full _ ih =>
      intro piece member
      rcases List.mem_append.1 member with here | there
      · exact ofRun here
      · exact ih piece there

theorem drain_eq (drains : Drains limits final window texts left) (reversed : List Event) :
    drain limits final reversed window = ((texts.map .piece).reverse ++ reversed, left) := by
  have noted (text : Text) (reversed : List Event) :
      (if text.isEmpty then reversed else .piece text :: reversed) =
        ((pieceOf text).map .piece).reverse ++ reversed := by
    unfold pieceOf
    split <;> rfl
  induction drains generalizing reversed with
  | last ample =>
      rw [drain]
      simp only [noted]
      exact dif_neg ample
  | again full _ ih =>
      rw [drain]
      simp only [noted]
      rw [dif_pos full, ih, List.map_append, List.reverse_append, List.append_assoc]

theorem suffix (drains : Drains limits final window texts left) : left <:+ window := by
  obtain ⟨front, -, parts⟩ := Decoding.exists_encode_fill final window.length window
  rw [drains.eq_fillAll.2]
  exact ⟨front, parts⟩

end Drains

/-! ## Draining in place -/

theorem drainInPlace_step (final : Bool) {bytes : Bytes} {position : Nat}
    (reached : position ≤ bytes.length) (row : Row limits.capacity) {progress : Decoding.Progress}
    (run : fill final limits.capacity (bytes.drop position) = progress) :
    ∃ after, drainInPlace limits final bytes row position =
      Course.andThen ⟨(pieceOf progress.text).map .piece, .ok ()⟩ fun _ =>
        if progress.stop = .outputFull then
          drainInPlace limits final bytes after (bytes.length - progress.rest.length)
        else pure (after, bytes.length - progress.rest.length) := by
  have outcome := row.decode_fst_of_le final reached
  have slots := row.take_slots_decode final reached (congrArg Decoding.Progress.text run)
  have used := Decoding.length_rest_add_length_text_le final limits.capacity (bytes.drop position)
  rw [run] at outcome used
  rw [List.length_drop] at used
  rw [drainInPlace]
  split
  · next rejected =>
      rw [rejected] at outcome
      contradiction
  · next consumed produced stop after decoded =>
      rw [decoded] at outcome slots
      injection outcome with consumedIs producedIs stopIs
      subst consumedIs producedIs stopIs
      have place : position + (bytes.length - position - progress.rest.length) =
          bytes.length - progress.rest.length := by omega
      dsimp only at slots
      rw [List.length_drop, slots, place]
      refine ⟨after, ?_⟩
      cases progress.text with
      | nil => rfl
      | cons scalar text => rfl

theorem Drains.drainInPlace_eq {bytes left : Bytes} {texts : List Text} {position : Nat}
    (reached : position ≤ bytes.length)
    (drains : Drains limits final (bytes.drop position) texts left)
    (row : Row limits.capacity) :
    ∃ after, drainInPlace limits final bytes row position =
      ⟨texts.map .piece, .ok (after, bytes.length - left.length)⟩ := by
  generalize windowIs : bytes.drop position = window at drains
  induction drains generalizing position row with
  | @last window ample =>
      obtain ⟨after, run⟩ := drainInPlace_step final reached row (congrArg _ windowIs)
      refine ⟨after, ?_⟩
      rw [run, if_neg ample]
      exact congrArg (Course.mk · _) (List.append_nil _)
  | @again window left texts full _ ih =>
      obtain ⟨next, run⟩ := drainInPlace_step final reached row (congrArg _ windowIs)
      have suffix : (fill final limits.capacity window).rest <:+ bytes := by
        obtain ⟨front, -, parts⟩ := Decoding.exists_encode_fill final limits.capacity window
        exact List.IsSuffix.trans ⟨front, parts⟩ (windowIs ▸ List.drop_suffix position bytes)
      obtain ⟨after, rest⟩ := ih (Nat.sub_le _ _) next (List.suffix_iff_eq_drop.1 suffix).symm
      refine ⟨after, ?_⟩
      rw [run, if_pos full, rest, List.map_append]
      rfl

/-! ## Receiving a read -/

/-- The note that is left of bytes that are carried over. -/
def noteOf (left : Bytes) : List Event :=
  if left.isEmpty then [] else [.carried left.length]

namespace Drains

variable {pending read left : Bytes} {texts : List Text}

theorem receive_eq (drains : Drains limits final (pending ++ read) texts left)
    (reversed : List Event) :
    receive limits final reversed pending read =
      ((texts.map Event.piece ++ noteOf left).reverse ++ reversed, left) := by
  rw [receive, drains.drain_eq, noteOf]
  by_cases empty : left.isEmpty
  · rw [if_pos empty, if_pos empty, List.append_nil]
  · rw [if_neg empty, if_neg empty, List.reverse_append]
    rfl

theorem receiveInPlace_eq (drains : Drains limits final (pending ++ read) texts left)
    (row : Row limits.capacity) :
    ∃ after, receiveInPlace limits final row pending read =
      ⟨texts.map .piece ++ noteOf left, .ok (after, left)⟩ := by
  have reached := Nat.zero_le (pending ++ read).length
  obtain ⟨after, drained⟩ := Drains.drainInPlace_eq reached drains row
  have behind := (List.suffix_iff_eq_drop.1 drains.suffix).symm
  refine ⟨after, ?_⟩
  rw [receiveInPlace, drained, noteOf]
  simp only [bind, Course.andThen, behind]
  cases left with
  | nil => rfl
  | cons lead rest => rfl

end Drains

/-! ## Feeding reads -/

/-- How reads are received one after the other: what happens, and what is pending behind them. -/
inductive Feeds (limits : Limits) : Bytes → List Bytes → List Event → Bytes → Prop where
  | nil {pending : Bytes} : Feeds limits pending [] [] pending
  | cons {pending read left last : Bytes} {reads : List Bytes} {texts : List Text}
      {events : List Event} :
      read ≠ [] → Drains limits false (pending ++ read) texts left →
      Feeds limits left reads events last →
      Feeds limits pending (read :: reads) (texts.map .piece ++ noteOf left ++ events) last

theorem exists_feeds (limits : Limits) (pending : Bytes) {reads : List Bytes}
    (nonempty : ∀ read ∈ reads, read ≠ []) :
    ∃ events last, Feeds limits pending reads events last := by
  induction reads generalizing pending with
  | nil => exact ⟨[], pending, .nil⟩
  | cons read reads ih =>
      rw [List.forall_mem_cons] at nonempty
      obtain ⟨texts, left, drains⟩ := exists_drains limits false (pending ++ read)
      obtain ⟨events, last, feeds⟩ := ih left nonempty.2
      exact ⟨_, last, .cons nonempty.1 drains feeds⟩

/-- What is pending behind some reads, whatever the limits are. -/
def pendingAfter (pending : Bytes) (reads : List Bytes) : Bytes :=
  reads.foldl (fun pending read => (fillAll false (pending ++ read)).rest) pending

@[simp] theorem pieces_append (front back : List Event) :
    pieces (front ++ back) = pieces front ++ pieces back :=
  List.filterMap_append

@[simp] theorem pieces_map_piece (texts : List Text) : pieces (texts.map .piece) = texts := by
  rw [pieces, List.filterMap_map]
  exact List.filterMap_some

@[simp] theorem pieces_noteOf (left : Bytes) : pieces (noteOf left) = [] := by
  unfold noteOf
  split <;> rfl

namespace Feeds

variable {pending last : Bytes} {reads : List Bytes} {events : List Event}

theorem last_eq (feeds : Feeds limits pending reads events last) :
    last = pendingAfter pending reads := by
  induction feeds with
  | nil => rfl
  | cons _ drains _ ih =>
      rw [ih, drains.eq_fillAll.2]
      rfl

theorem length_last_le (feeds : Feeds limits pending reads events last)
    (few : pending.length ≤ 3) : last.length ≤ 3 := by
  induction feeds with
  | nil => exact few
  | cons _ drains _ ih =>
      apply ih
      rw [drains.eq_fillAll.2]
      exact Decoding.length_rest_fillAll_le _ _

theorem sized (feeds : Feeds limits pending reads events last) :
    ∀ piece ∈ pieces events, piece ≠ [] ∧ piece.length ≤ limits.capacity := by
  induction feeds with
  | nil => simp [pieces]
  | cons _ drains _ ih =>
      simp only [pieces_append, pieces_map_piece, pieces_noteOf, List.append_nil]
      exact List.forall_mem_append.2 ⟨drains.sized, ih⟩

/-- What is still to come is decoded as it would have been without the cuts before it. -/
theorem decode_append (feeds : Feeds limits pending reads events last) (more : Bytes) :
    decode (pending ++ reads.flatten ++ more) =
      (pieces events).flatten ++ decode (last ++ more) := by
  induction feeds with
  | nil =>
      rw [List.flatten_nil, List.append_nil]
      rfl
  | @cons pending read left last reads texts events _ drains _ ih =>
      calc
        decode (pending ++ (read :: reads).flatten ++ more)
        _ = decode (pending ++ read ++ (reads.flatten ++ more)) := by
          rw [List.flatten_cons, List.append_assoc, List.append_assoc, List.append_assoc]
        _ = texts.flatten ++ decode (left ++ reads.flatten ++ more) := by
          rw [drains.decode_append, List.append_assoc]
        _ = (pieces (texts.map .piece ++ noteOf left ++ events)).flatten ++
            decode (last ++ more) := by
          rw [ih, pieces_append, pieces_append, pieces_map_piece, pieces_noteOf,
            List.append_nil, List.flatten_append, List.append_assoc]

theorem feedInPlace_eq (feeds : Feeds limits pending reads events last)
    (row : Row limits.capacity) :
    ∃ after, feedInPlace limits row pending reads = ⟨events, .ok (after, last)⟩ := by
  induction feeds generalizing row with
  | nil => exact ⟨row, rfl⟩
  | cons _ drains _ ih =>
      obtain ⟨next, received⟩ := drains.receiveInPlace_eq row
      obtain ⟨after, fed⟩ := ih next
      refine ⟨after, ?_⟩
      rw [feedInPlace, received]
      simp only [bind, Course.andThen, fed]

theorem resume_append (feeds : Feeds limits pending reads events last) (reversed : List Event)
    (total : Nat) (later : List Bytes) :
    resume limits reversed pending total (reads ++ later) =
      resume limits (events.reverse ++ reversed) last (total + reads.flatten.length) later := by
  induction feeds generalizing reversed total with
  | nil => rfl
  | @cons pending read left last reads texts events nonempty drains _ ih =>
      have goesOn : resume limits reversed pending total (read :: (reads ++ later)) =
          resume limits (receive limits false reversed pending read).1
            (receive limits false reversed pending read).2 (total + read.length)
            (reads ++ later) := by
        cases read with
        | nil => contradiction
        | cons lead rest => rfl
      rw [List.cons_append, goesOn, drains.receive_eq, ih]
      simp only [List.reverse_append, List.append_assoc, List.flatten_cons, List.length_append,
        Nat.add_assoc]

end Feeds

/-! ## Whole sessions -/

/-- The reads in front of the one that ends the input. -/
def received (reads : List Bytes) : List Bytes :=
  reads.takeWhile fun read => !read.isEmpty

theorem ne_nil_of_mem_received {read : Bytes} {reads : List Bytes}
    (member : read ∈ received reads) : read ≠ [] := by
  have nonempty := List.all_takeWhile (p := fun read => !read.isEmpty) (l := reads)
  rw [List.all_eq_true] at nonempty
  simpa using nonempty read member

theorem resume_of_received (reversed : List Event) (pending : Bytes) (total : Nat)
    (reads : List Bytes) :
    resume limits reversed pending total (reads.dropWhile fun read => !read.isEmpty) =
      (.finished total :: (receive limits true reversed pending []).1).reverse := by
  induction reads with
  | nil => rfl
  | cons read reads ih =>
      cases read with
      | nil => rfl
      | cons lead rest => exact ih

/-- A session feeds all reads but the last, drains what that leaves, and comes to its end. -/
theorem session_eq {reads : List Bytes} {events : List Event} {last left : Bytes}
    {texts : List Text} (feeds : Feeds limits [] (received reads) events last)
    (drains : Drains limits true (last ++ []) texts left) :
    session limits reads =
      events ++ texts.map .piece ++ noteOf left ++
        [.finished (received reads).flatten.length] := by
  have cut : received reads ++ reads.dropWhile (fun read => !read.isEmpty) = reads :=
    List.takeWhile_append_dropWhile
  rw [session, ← cut, feeds.resume_append, resume_of_received, drains.receive_eq, cut]
  simp

theorem Drains.left_eq_nil {window left : Bytes} {texts : List Text}
    (drains : Drains limits true window texts left) : left = [] := by
  rw [drains.eq_fillAll.2, Decoding.fillAll_true]

theorem decodeInPlace_eq (limits : Limits) (row : Row limits.capacity) (reads : List Bytes) :
    decodeInPlace limits row reads = ⟨session limits reads, .ok []⟩ := by
  obtain ⟨events, last, feeds⟩ := exists_feeds limits [] fun _ => ne_nil_of_mem_received
  obtain ⟨texts, left, drains⟩ := exists_drains limits true (last ++ [])
  obtain ⟨row, fed⟩ := feeds.feedInPlace_eq row
  obtain ⟨after, drained⟩ := drains.receiveInPlace_eq row
  have whole := session_eq feeds drains
  cases drains.left_eq_nil
  rw [received] at fed whole
  rw [decodeInPlace, fed, whole]
  simp only [bind, Course.andThen, drained]
  simp [pure, Course.report]

/-- Both kinds of session lack memory for the same streams. -/
theorem sessionInPlace_eq (memory : Memory) (limits : Limits) (stream : Stream) :
    sessionInPlace memory limits stream =
      match decodeStream memory limits stream with
      | .ok events => ⟨events, .ok []⟩
      | .error fault => ⟨[], .error (.outOfMemory fault)⟩ := by
  rw [sessionInPlace, Row.fresh, decodeStream]
  cases memory.slots limits.capacity with
  | error fault => rfl
  | ok granted =>
      cases stream with
      | error fault => rfl
      | ok reads => exact decodeInPlace_eq limits _ reads

theorem decodeStream_of_error {memory : Memory} {fault : Memory.Fault}
    (lacking : memory.slots limits.capacity = .error fault) (stream : Stream) :
    decodeStream memory limits stream = .error fault := by
  rw [decodeStream, lacking]
  rfl

theorem decodeStream_of_ok {memory : Memory} (granted : memory.slots limits.capacity = .ok ())
    (reads : List Bytes) : decodeStream memory limits (.ok reads) = .ok (session limits reads) := by
  rw [decodeStream, granted]
  rfl

theorem exists_feeds_received (limits : Limits) (reads : List Bytes) :
    ∃ events last texts, Feeds limits [] (received reads) events last ∧
      Drains limits true (last ++ []) texts [] ∧
      pieces (session limits reads) = pieces events ++ texts := by
  obtain ⟨events, last, feeds⟩ := exists_feeds limits [] fun _ => ne_nil_of_mem_received
  obtain ⟨texts, left, drains⟩ := exists_drains limits true (last ++ [])
  obtain rfl := drains.left_eq_nil
  refine ⟨events, last, texts, feeds, drains, ?_⟩
  simp only [session_eq feeds drains, pieces_append, pieces_map_piece, pieces_noteOf]
  rw [List.append_nil]
  exact List.append_nil _

theorem flatten_pieces_session (limits : Limits) (reads : List Bytes) :
    (pieces (session limits reads)).flatten = decode (received reads).flatten := by
  obtain ⟨events, last, texts, feeds, drains, parts⟩ := exists_feeds_received limits reads
  have whole := feeds.decode_append []
  have ending := drains.eq_fillAll.1
  rw [Decoding.fillAll_true] at ending
  rw [parts, List.flatten_append, ending, ← whole, List.nil_append, List.append_nil]

theorem sized_pieces_session (limits : Limits) (reads : List Bytes) :
    ∀ piece ∈ pieces (session limits reads), piece ≠ [] ∧ piece.length ≤ limits.capacity := by
  obtain ⟨events, last, texts, feeds, drains, parts⟩ := exists_feeds_received limits reads
  rw [parts]
  exact List.forall_mem_append.2 ⟨feeds.sized, drains.sized⟩

end LosslessUtf8.Chunked
