import LosslessUtf8.Proofs.Spans

/-!
# Checks of arguments

What is wrong with arguments is stated here of the arguments as they are given, without following
the rounds in which they are read: all faulty arguments in order, or else the first pair of limits
out of order, or else the first limits that a buffer does not reach (`Checks.Fail`). Each single
check finds what it is for and nothing else (`complains_faultOf`, `checked_ofLimits`,
`checked_fit`). All of it can be read in the words in which it is reported (`reads_message`).
-/

namespace LosslessUtf8

/-! ## Arguments on their own -/

namespace Argument

variable {argument : Argument} {position : Nat} {limit? : Option Nat} {flag : Bool}

/-- The argument is an integer that is not negative. -/
def IsPosition (argument : Argument) : Prop :=
  ∃ position : Nat, argument = .integer position

/-- The argument is a position or left out. -/
def IsLimit (argument : Argument) : Prop :=
  argument = .null ∨ argument.IsPosition

/-- The argument is one of the two flags. -/
def IsFlag (argument : Argument) : Prop :=
  ∃ flag, argument = .boolean flag

/-- The argument that a limit is given by. -/
def ofLimit? : Option Nat → Argument
  | none => .null
  | some limit => .integer limit

theorem toPosition_eq_ok_iff :
    argument.toPosition = .ok position ↔ argument = .integer position := by
  constructor
  · intro reading
    cases argument with
    | integer value =>
        cases value with
        | ofNat found =>
            cases reading
            rfl
        | negSucc found => contradiction
    | boolean flag => contradiction
    | null => contradiction
    | other => contradiction
  · rintro rfl
    rfl

theorem toLimit?_eq_ok_iff :
    argument.toLimit? = .ok limit? ↔ argument = ofLimit? limit? := by
  constructor
  · intro reading
    cases argument with
    | null =>
        cases reading
        rfl
    | integer value =>
        cases value with
        | ofNat found =>
            cases reading
            rfl
        | negSucc found => contradiction
    | boolean flag => contradiction
    | other => contradiction
  · rintro rfl
    cases limit? with
    | none => rfl
    | some limit => rfl

theorem toFlag_eq_ok_iff : argument.toFlag = .ok flag ↔ argument = .boolean flag := by
  cases argument <;> simp [toFlag]

theorem isPosition_of_toPosition (reading : argument.toPosition = .ok position) :
    argument.IsPosition :=
  ⟨position, toPosition_eq_ok_iff.1 reading⟩

theorem isLimit_of_toLimit? (reading : argument.toLimit? = .ok limit?) : argument.IsLimit := by
  obtain rfl := toLimit?_eq_ok_iff.1 reading
  cases limit? with
  | none => exact .inl rfl
  | some limit => exact .inr ⟨limit, rfl⟩

theorem faultOf_eq_nil_iff {α : Type} {name : ArgumentName} {reading : Except ArgumentFault α} :
    faultOf name reading = [] ↔ ∃ value, reading = .ok value := by
  cases reading <;> simp [faultOf]

end Argument

open Argument

/-- What an argument of a name has to be. -/
def ArgumentName.Admits : ArgumentName → Argument → Prop
  | .start | .outputStart => IsPosition
  | .stop | .outputStop => IsLimit
  | .endOfInput => IsFlag

/-- The fault that an argument of a name is reported with if the name does not admit it. -/
inductive ArgumentFault.Explains : ArgumentName → Argument → ArgumentFault → Prop where
  | notInteger {name : ArgumentName} {argument : Argument} : name ≠ .endOfInput →
      (∀ value, argument ≠ .integer value) → Explains name argument .notInteger
  | negative {name : ArgumentName} {value : Int} : name ≠ .endOfInput → value < 0 →
      Explains name (.integer value) .negative
  | notBoolean {argument : Argument} : Explains .endOfInput argument .notBoolean

/-- All the faults of some arguments, in the order of the arguments. -/
inductive Complains :
    List (ArgumentName × Argument) → List (ArgumentName × ArgumentFault) → Prop where
  | nil : Complains [] []
  | admitted {name : ArgumentName} {argument : Argument}
      {arguments : List (ArgumentName × Argument)} {faults : List (ArgumentName × ArgumentFault)} :
      name.Admits argument → Complains arguments faults →
      Complains ((name, argument) :: arguments) faults
  | faulty {name : ArgumentName} {argument : Argument} {fault : ArgumentFault}
      {arguments : List (ArgumentName × Argument)} {faults : List (ArgumentName × ArgumentFault)} :
      ¬ name.Admits argument → fault.Explains name argument → Complains arguments faults →
      Complains ((name, argument) :: arguments) ((name, fault) :: faults)

theorem Complains.append {front back : List (ArgumentName × Argument)}
    {frontFaults backFaults : List (ArgumentName × ArgumentFault)}
    (inFront : Complains front frontFaults) (behind : Complains back backFaults) :
    Complains (front ++ back) (frontFaults ++ backFaults) := by
  induction inFront with
  | nil => exact behind
  | admitted admitted _ ih => exact .admitted admitted ih
  | faulty notAdmitted explains _ ih => exact .faulty notAdmitted explains ih

section Readings

variable {name : ArgumentName} {argument : Argument} {fault : ArgumentFault}

theorem explains_of_toPosition (integral : name ≠ .endOfInput)
    (reading : argument.toPosition = .error fault) :
    ¬ argument.IsPosition ∧ fault.Explains name argument := by
  constructor
  · rintro ⟨position, rfl⟩
    contradiction
  · cases argument with
    | integer value =>
        cases value with
        | ofNat position => contradiction
        | negSucc position =>
            cases reading
            exact .negative integral (Int.negSucc_lt_zero position)
    | boolean flag | null | other =>
        cases reading
        apply ArgumentFault.Explains.notInteger integral
        intro value same
        contradiction

theorem toPosition_of_toLimit? (reading : argument.toLimit? = .error fault) :
    argument ≠ .null ∧ argument.toPosition = .error fault := by
  cases argument with
  | integer value =>
      cases value with
      | ofNat position => contradiction
      | negSucc position =>
          cases reading
          exact ⟨nofun, rfl⟩
  | null => contradiction
  | boolean flag | other =>
      cases reading
      exact ⟨nofun, rfl⟩

theorem explains_of_toLimit? (integral : name ≠ .endOfInput)
    (reading : argument.toLimit? = .error fault) :
    ¬ argument.IsLimit ∧ fault.Explains name argument := by
  obtain ⟨present, reading⟩ := toPosition_of_toLimit? reading
  obtain ⟨notPosition, explains⟩ := explains_of_toPosition integral reading
  refine ⟨?_, explains⟩
  intro limit
  cases limit with
  | inl missing => exact present missing
  | inr position => exact notPosition position

theorem explains_of_toFlag (reading : argument.toFlag = .error fault) :
    ¬ argument.IsFlag ∧ fault.Explains .endOfInput argument := by
  constructor
  · rintro ⟨flag, rfl⟩
    contradiction
  · cases argument with
    | boolean flag => contradiction
    | integer value | null | other =>
        cases reading
        exact .notBoolean

/-- A reading that finds faults exactly in arguments that its name does not admit tells them all. -/
theorem complains_faultOf {α : Type} {reading : Except ArgumentFault α}
    (admits : ∀ value, reading = .ok value → name.Admits argument)
    (explains : ∀ fault, reading = .error fault →
      ¬ name.Admits argument ∧ fault.Explains name argument) :
    Complains [(name, argument)] (faultOf name reading) := by
  cases reading with
  | ok value => exact .admitted (admits value rfl) .nil
  | error fault =>
      obtain ⟨notAdmitted, explains⟩ := explains fault rfl
      exact .faulty notAdmitted explains .nil

theorem complains_toPosition (takes : name.Admits argument ↔ argument.IsPosition)
    (integral : name ≠ .endOfInput) :
    Complains [(name, argument)] (faultOf name argument.toPosition) := by
  apply complains_faultOf
  · intro position reading
    exact takes.2 (isPosition_of_toPosition reading)
  · intro fault reading
    rw [takes]
    exact explains_of_toPosition integral reading

theorem complains_toLimit? (takes : name.Admits argument ↔ argument.IsLimit)
    (integral : name ≠ .endOfInput) :
    Complains [(name, argument)] (faultOf name argument.toLimit?) := by
  apply complains_faultOf
  · intro limit? reading
    exact takes.2 (isLimit_of_toLimit? reading)
  · intro fault reading
    rw [takes]
    exact explains_of_toLimit? integral reading

theorem complains_toFlag (argument : Argument) :
    Complains [(.endOfInput, argument)] (faultOf .endOfInput argument.toFlag) := by
  apply complains_faultOf
  · intro flag reading
    exact ⟨flag, toFlag_eq_ok_iff.1 reading⟩
  · intro fault reading
    exact explains_of_toFlag reading

end Readings

/-! ## Rounds of checks -/

/-- Limits on one side are given in the wrong order. -/
def Inverts (side : Side) (start stop : Argument) (rejection : Rejection) : Prop :=
  ∃ first last : Nat, start = .integer first ∧ stop = .integer last ∧ last < first ∧
    rejection = .inverted ⟨side, first, last⟩

/-- A buffer of some length does not reach the limits on its side. A limit that is left out is the
length. -/
def Exceeds (side : Side) (length : Nat) (start stop : Argument) (rejection : Rejection) : Prop :=
  ∃ first last : Nat, start = .integer first ∧
    (stop = .integer last ∨ stop = .null ∧ last = length) ∧ (length < first ∨ length < last) ∧
    rejection = .exceeds ⟨side, first, last, length⟩

/-- A buffer of some length does not reach the position at which writing to it would start. -/
def StartsBeyond (length : Nat) (start : Argument) (rejection : Rejection) : Prop :=
  ∃ first : Nat, start = .integer first ∧ length < first ∧
    rejection = .outputStartExceeds first length

section NotFaulty

variable {side : Side} {start stop : Argument} {length : Nat}
  {faults : List (ArgumentName × ArgumentFault)}

@[simp] theorem not_inverts_faulty : ¬ Inverts side start stop (.faulty faults) := by
  rintro ⟨_, _, _, _, _, same⟩
  contradiction

@[simp] theorem not_exceeds_faulty : ¬ Exceeds side length start stop (.faulty faults) := by
  rintro ⟨_, _, _, _, _, same⟩
  contradiction

@[simp] theorem not_startsBeyond_faulty : ¬ StartsBeyond length start (.faulty faults) := by
  rintro ⟨_, _, _, same⟩
  contradiction

end NotFaulty

/-- The first of some checks that fails fails with the given rejection. -/
inductive FirstFails : List (Rejection → Prop) → Rejection → Prop where
  | here {check : Rejection → Prop} {checks : List (Rejection → Prop)} {rejection : Rejection} :
      check rejection → FirstFails (check :: checks) rejection
  | behind {check : Rejection → Prop} {checks : List (Rejection → Prop)} {rejection : Rejection} :
      (∀ other, ¬ check other) → FirstFails checks rejection →
      FirstFails (check :: checks) rejection

namespace FirstFails

variable {front : List (Rejection → Prop)} {rejection : Rejection}

theorem exists_mem (fails : FirstFails front rejection) : ∃ check ∈ front, check rejection := by
  induction fails with
  | here fails => exact ⟨_, List.mem_cons_self, fails⟩
  | behind _ _ ih =>
      obtain ⟨check, member, fails⟩ := ih
      exact ⟨check, List.mem_cons_of_mem _ member, fails⟩

theorem append_right (fails : FirstFails front rejection) (back : List (Rejection → Prop)) :
    FirstFails (front ++ back) rejection := by
  induction fails with
  | here fails => exact .here fails
  | behind passes _ ih => exact .behind passes ih

theorem append_left {back : List (Rejection → Prop)}
    (passes : ∀ check ∈ front, ∀ other, ¬ check other) (fails : FirstFails back rejection) :
    FirstFails (front ++ back) rejection := by
  induction front with
  | nil => exact fails
  | cons check front ih =>
      obtain ⟨passes, behindPass⟩ := List.forall_mem_cons.1 passes
      exact .behind passes (ih behindPass)

end FirstFails

/-- The checks of a call: of each argument, of limits against each other, and of limits against
buffers. A check of limits is the set of rejections that it fails with. -/
structure Checks where
  arguments : List (ArgumentName × Argument)
  orderings : List (Rejection → Prop)
  lengths : List (Rejection → Prop)
  /-- Faulty arguments are a matter of the first round alone. -/
  not_faulty : ∀ check ∈ orderings ++ lengths, ∀ faults, ¬ check (.faulty faults)

/-- The ways in which checks turn arguments down. -/
inductive Checks.Fail (checks : Checks) : Rejection → Prop where
  | faulty {faults : List (ArgumentName × ArgumentFault)} :
      Complains checks.arguments faults → faults ≠ [] → Fail checks (.faulty faults)
  | limits {rejection : Rejection} : Complains checks.arguments [] →
      FirstFails (checks.orderings ++ checks.lengths) rejection → Fail checks rejection

theorem Checks.Fail.ne_faulty_nil {checks : Checks} {rejection : Rejection}
    (fails : checks.Fail rejection) : rejection ≠ .faulty [] := by
  rintro rfl
  cases fails with
  | faulty _ present => exact present rfl
  | limits _ fails =>
      obtain ⟨check, member, failed⟩ := fails.exists_mem
      exact checks.not_faulty check member [] failed

/-- What comes of checks made one after the other: the first failure, or a value that they vouch
for. -/
inductive Checked {α : Type} (checks : List (Rejection → Prop)) (sound : α → Prop) :
    Except Rejection α → Prop where
  | passed {value : α} : (∀ check ∈ checks, ∀ other, ¬ check other) → sound value →
      Checked checks sound (.ok value)
  | failed {rejection : Rejection} : FirstFails checks rejection →
      Checked checks sound (.error rejection)

theorem Checked.bind {α β : Type} {front back : List (Rejection → Prop)} {sound : α → Prop}
    {soundBehind : β → Prop} {result : Except Rejection α} {next : α → Except Rejection β}
    (checked : Checked front sound result)
    (behind : ∀ value, sound value → Checked back soundBehind (next value)) :
    Checked (front ++ back) soundBehind (result >>= next) := by
  cases checked with
  | failed fails => exact .failed (fails.append_right back)
  | @passed value passes isSound =>
      have checkedBehind := behind value isSound
      dsimp only [Bind.bind, Except.bind]
      generalize next value = reached at checkedBehind ⊢
      cases checkedBehind with
      | failed fails => exact .failed (.append_left passes fails)
      | passed passesBehind isSound =>
          exact .passed (List.forall_mem_append.2 ⟨passes, passesBehind⟩) isSound

/-- An extent has its limits from arguments. -/
structure Extent.IsGiven (extent : Extent) (start stop : Argument) : Prop where
  start_eq : start = .integer extent.start
  stop_eq : stop = ofLimit? extent.stop?

/-- A span has its limits from arguments. -/
structure Span.IsGiven {length : Nat} (span : Span length) (start stop : Argument) : Prop where
  start_eq : start = .integer span.start
  stop_eq : stop = .integer span.stop ∨ stop = .null ∧ span.stop = length

section Rounds

variable {start stop : Argument} {first : Nat} {stop? : Option Nat}

theorem checked_ofLimits (side : Side) (startIs : start.toPosition = .ok first)
    (stopIs : stop.toLimit? = .ok stop?) :
    Checked [Inverts side start stop] (fun extent => extent.IsGiven start stop)
      ((Extent.ofLimits side first stop?).mapError .inverted) := by
  obtain rfl := toPosition_eq_ok_iff.1 startIs
  obtain rfl := toLimit?_eq_ok_iff.1 stopIs
  cases stop? with
  | none =>
      apply Checked.passed (List.forall_mem_singleton.2 _) ⟨rfl, rfl⟩
      rintro other ⟨_, _, _, noLimit, _⟩
      contradiction
  | some last =>
      rw [Extent.ofLimits]
      split
      · next ordered =>
          apply Checked.passed (List.forall_mem_singleton.2 _) ⟨rfl, rfl⟩
          rintro other ⟨_, _, sameStart, sameStop, inverted, _⟩
          simp only [ofLimit?, integer.injEq, Int.natCast_inj] at sameStart sameStop
          omega
      · next inverted =>
          exact .failed (.here ⟨first, last, rfl, rfl, Nat.lt_of_not_le inverted, rfl⟩)

theorem checked_fit {extent : Extent} (side : Side) (length : Nat)
    (given : extent.IsGiven start stop) :
    Checked [Exceeds side length start stop] (fun span => span.IsGiven start stop)
      ((extent.fit side length).mapError .exceeds) := by
  obtain ⟨rfl, rfl⟩ := given
  obtain ⟨first, stop?, ordered⟩ := extent
  cases stop? with
  | none =>
      by_cases reached : first ≤ length
      · rw [Extent.fit_from side reached]
        apply Checked.passed (List.forall_mem_singleton.2 _) ⟨rfl, .inr ⟨rfl, rfl⟩⟩
        rintro other ⟨_, _, sameStart, sameStop, beyond, _⟩
        simp only [ofLimit?, integer.injEq, Int.natCast_inj, reduceCtorEq, false_or, true_and]
          at sameStart sameStop
        omega
      · have beyond := Nat.lt_of_not_le reached
        rw [Extent.fit_of_lt side beyond]
        exact .failed (.here ⟨first, length, rfl, .inr ⟨rfl, rfl⟩, .inl beyond, rfl⟩)
  | some last =>
      have inOrder := ordered last rfl
      by_cases reached : last ≤ length
      · rw [Extent.fit_span side ⟨first, last, inOrder, reached⟩]
        apply Checked.passed (List.forall_mem_singleton.2 _) ⟨rfl, .inl rfl⟩
        rintro other ⟨_, _, sameStart, sameStop, beyond, _⟩
        simp only [ofLimit?, integer.injEq, Int.natCast_inj, reduceCtorEq, false_and, or_false]
          at sameStart sameStop
        omega
      · have beyond := Nat.lt_of_not_le reached
        rw [Extent.fit_limit_of_lt side beyond]
        exact .failed (.here ⟨first, last, rfl, .inl rfl, .inr beyond, rfl⟩)

end Rounds

/-! ## Reasons in words -/

/-- An entry of a reason: what stands in front of its first colon, and what stands behind that and a
blank. -/
def entryOf (part : List Char) : String × String :=
  let entry := part.dropWhile (· == ' ')
  let label := entry.takeWhile (· != ':')
  (.ofList label, .ofList (entry.drop (label.length + 2)))

/-- The entries of a reason, with semicolons between them. -/
def entries (reason : String) : List (String × String) :=
  (reason.toList.splitOn ';').map entryOf

/-- How a rejection reads. Faulty arguments are listed under their names. Limits are told with their
side and with all numbers, unless one of these is too long to be written; an order of limits is a
matter of the request as a whole. -/
inductive Rejection.Reads : Rejection → String → Prop where
  | faulty {faults : List (ArgumentName × ArgumentFault)} {reason : String} :
      entries reason = faults.map (fun (name, fault) => (name.text, fault.message)) →
      Reads (.faulty faults) reason
  | inverted {side : Side} {first last : Nat} :
      ¬ Numeral.AnyLong [first, last] →
      Reads (.inverted ⟨side, first, last⟩)
        ("request: Value error, " ++ (side.name ++ " range is inverted: start=" ++
          toString first ++ ", end=" ++ toString last))
  | invertedLong {side : Side} {first last : Nat} :
      Numeral.AnyLong [first, last] →
      Reads (.inverted ⟨side, first, last⟩) ("request: Value error, " ++ Numeral.longMessage)
  | exceeds {side : Side} {first last length : Nat} :
      ¬ Numeral.AnyLong [first, last, length] →
      Reads (.exceeds ⟨side, first, last, length⟩)
        (side.name ++ " range [" ++ toString first ++ ", " ++ toString last ++
          ") exceeds buffer length " ++ toString length)
  | exceedsLong {side : Side} {first last length : Nat} :
      Numeral.AnyLong [first, last, length] →
      Reads (.exceeds ⟨side, first, last, length⟩) Numeral.longMessage
  | outputStartExceeds {first length : Nat} :
      ¬ Numeral.AnyLong [first, length] →
      Reads (.outputStartExceeds first length)
        ("output start " ++ toString first ++ " exceeds buffer length " ++ toString length)
  | outputStartLong {first length : Nat} :
      Numeral.AnyLong [first, length] →
      Reads (.outputStartExceeds first length) Numeral.longMessage

section Reasons

theorem entryOf_append {label : List Char} (plain : ':' ∉ label) (opened : ' ' ∉ label)
    (words : List Char) :
    entryOf (label ++ ':' :: ' ' :: words) = (.ofList label, .ofList words) := by
  have kept : (label ++ ':' :: ' ' :: words).dropWhile (· == ' ') =
      label ++ ':' :: ' ' :: words := by
    cases label with
    | nil => rfl
    | cons first rest =>
        have differs : first ≠ ' ' := (List.ne_of_not_mem_cons opened).symm
        exact List.dropWhile_cons_of_neg (by simpa using differs)
  have before : (label ++ ':' :: ' ' :: words).takeWhile (· != ':') = label := by
    have passed : ∀ character ∈ label, (character != ':') = true := fun character member =>
      bne_iff_ne.2 (ne_of_mem_of_not_mem member plain)
    rw [List.takeWhile_append_of_pos passed]
    exact List.append_nil label
  rw [entryOf, kept, before]
  simp

theorem marks_notMem_text (name : ArgumentName) :
    ':' ∉ name.text.toList ∧ ' ' ∉ name.text.toList ∧ ';' ∉ name.text.toList := by
  cases name <;> decide

theorem semicolon_notMem_message (fault : ArgumentFault) : ';' ∉ fault.message.toList := by
  cases fault <;> decide

/-- How a fault of an argument is listed. -/
def partOf (entry : ArgumentName × ArgumentFault) : List Char :=
  entry.1.text.toList ++ ':' :: ' ' :: entry.2.message.toList

theorem entryOf_partOf (entry : ArgumentName × ArgumentFault) :
    entryOf (partOf entry) = (entry.1.text, entry.2.message) := by
  obtain ⟨noColon, noBlank, -⟩ := marks_notMem_text entry.1
  rw [partOf, entryOf_append noColon noBlank, String.ofList_toList, String.ofList_toList]

/-- No part can be taken for two. -/
theorem semicolon_notMem_partOf (entry : ArgumentName × ArgumentFault) : ';' ∉ partOf entry := by
  simp only [partOf, List.mem_append, List.mem_cons, not_or]
  exact ⟨(marks_notMem_text entry.1).2.2, by decide, by decide, semicolon_notMem_message entry.2⟩

theorem toList_message_faulty (faults : List (ArgumentName × ArgumentFault)) :
    (Rejection.faulty faults).message.toList = [';', ' '].intercalate (faults.map partOf) := by
  have each (name : ArgumentName) (fault : ArgumentFault) :
      (name.text ++ ": " ++ fault.message).toList = partOf (name, fault) := by
    rw [String.toList_append, String.toList_append, List.append_assoc]
    rfl
  rw [Rejection.message, String.toList_intercalate, List.map_map]
  exact congrArg _ (List.map_congr_left fun entry _ => each entry.1 entry.2)

/-- A blank behind a separator may as well belong to the part that follows. -/
theorem intercalate_blank {α : Type} (separator blank : α) (first : List α) (rest : List (List α)) :
    [separator, blank].intercalate (first :: rest) =
      [separator].intercalate (first :: rest.map (blank :: ·)) := by
  induction rest generalizing first with
  | nil => rfl
  | cons next rest ih =>
      have moved : [separator].intercalate ((blank :: next) :: rest.map (blank :: ·)) =
          blank :: [separator].intercalate (next :: rest.map (blank :: ·)) := by
        cases rest <;> simp
      rw [List.intercalate_cons_cons, ih, List.map_cons, List.intercalate_cons_cons, moved]
      simp

/-- From the words one can tell which arguments are faulty, and what is wrong with each. -/
theorem entries_message {faults : List (ArgumentName × ArgumentFault)} (present : faults ≠ []) :
    entries (Rejection.faulty faults).message =
      faults.map fun (name, fault) => (name.text, fault.message) := by
  obtain ⟨first, rest, rfl⟩ := List.exists_cons_of_ne_nil present
  have plain : ∀ part ∈ partOf first :: (rest.map partOf).map (' ' :: ·), ';' ∉ part := by
    rw [List.forall_mem_cons]
    refine ⟨semicolon_notMem_partOf first, fun part member => ?_⟩
    obtain ⟨_, listed, rfl⟩ := List.mem_map.1 member
    obtain ⟨other, -, rfl⟩ := List.mem_map.1 listed
    simpa using semicolon_notMem_partOf other
  have blankIgnored (entry : ArgumentName × ArgumentFault) :
      entryOf (' ' :: partOf entry) = (entry.1.text, entry.2.message) := entryOf_partOf entry
  rw [entries, toList_message_faulty, List.map_cons, intercalate_blank,
    List.splitOn_intercalate ';' plain (List.cons_ne_nil _ _), List.map_cons, List.map_map,
    List.map_map, entryOf_partOf, List.map_cons]
  simp only [Function.comp_def, blankIgnored]

/-- Every rejection reads as it is meant to. -/
theorem reads_message {rejection : Rejection} (told : rejection ≠ .faulty []) :
    rejection.Reads rejection.message := by
  cases rejection with
  | faulty faults =>
      refine .faulty (entries_message ?_)
      rintro rfl
      exact told rfl
  | inverted inversion =>
      rw [Rejection.message, Inversion.message, Numeral.telling]
      split
      · next long => exact .invertedLong long
      · next short => exact .inverted short
  | exceeds excess =>
      rw [Rejection.message, Excess.message, Numeral.telling]
      split
      · next long => exact .exceedsLong long
      · next short => exact .exceeds short
  | outputStartExceeds first length =>
      rw [Rejection.message, Numeral.telling]
      split
      · next long => exact .outputStartLong long
      · next short => exact .outputStartExceeds short

end Reasons

end LosslessUtf8
