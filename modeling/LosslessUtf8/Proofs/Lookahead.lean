import LosslessUtf8.Lookahead

/-!
# Where a look ahead goes

Reading byte by byte never leaves the stretch that it was given: in front of each byte, the stop was
ruled out for all places up to it (`within_lookahead`). And it answers what reading all bytes in
reach at once answers, whatever the positions (`result_lookahead`).
-/

namespace LosslessUtf8

namespace Position

/-! ## Where the reading goes -/

theorem within_goOn {data : Bytes} {position stop : Int} {final : Bool} {lead : UInt8}
    {count : Int} {next : UInt8 → Traced Loaded} (behind : 0 ≤ count)
    (reached : count ≤ stop - position)
    (goesOn : count < stop - position → ∀ byte, (next byte).Within position stop) :
    (goOn data position (stop - position) final lead count next).Within position stop := by
  apply Traced.within_ite
  · exact Traced.within_done _
  · intro further
    have before : count < stop - position := by omega
    exact Traced.within_read (by omega) (by omega) (goesOn before)

/-- No byte is addressed that does not lie between the two positions. -/
theorem within_lookahead (data : Bytes) (position stop : Int) (final : Bool) :
    (lookahead data position stop final).Within position stop := by
  apply Traced.within_ite
  · exact Traced.within_done _
  intro first
  refine Traced.within_read (by omega) (by omega) fun lead => ?_
  refine Traced.within_ite (Traced.within_done _) fun _ => ?_
  refine Traced.within_ite (Traced.within_done _) fun _ => ?_
  refine within_goOn (by omega) (by omega) fun further second => ?_
  refine Traced.within_ite (Traced.within_done _) fun _ => ?_
  refine Traced.within_ite (Traced.within_done _) fun _ => ?_
  refine within_goOn (by omega) (by omega) fun further third => ?_
  refine Traced.within_ite (Traced.within_done _) fun _ => ?_
  apply Traced.within_ite
  · exact Traced.within_ite (Traced.within_done _) fun _ => Traced.within_done _
  intro _
  refine within_goOn (by omega) (by omega) fun further fourth => ?_
  refine Traced.within_ite (Traced.within_done _) fun _ => ?_
  exact Traced.within_ite (Traced.within_done _) fun _ => Traced.within_done _

-- The second byte settles that the first is stray, so the third is not addressed.
example : (lookahead [0xE2, 0x41, 0x80] 0 3 true).positions = [0, 1] := rfl

/-! ## The same answer -/

section Gather

variable {data rest : Bytes} {position : Int} {byte : UInt8}

theorem gather_succ_of_error (count : Nat) {fault : AddressFault}
    (missing : fetch data position = .error fault) :
    gather data position (count + 1) = ([], some fault) := by
  rw [fetch] at missing
  rw [gather]
  cases located : locate data.length position with
  | error other =>
      rw [located] at missing
      cases missing
      rfl
  | ok index =>
      rw [located] at missing
      contradiction

theorem gather_succ_of_ok (count : Nat) (fetched : fetch data position = .ok byte) :
    gather data position (count + 1) =
      (byte :: (gather data (position + 1) count).1, (gather data (position + 1) count).2) := by
  rw [fetch] at fetched
  rw [gather]
  cases located : locate data.length position with
  | error fault =>
      rw [located] at fetched
      contradiction
  | ok index =>
      rw [located] at fetched
      cases fetched
      rfl

end Gather

/-- The bytes in reach from so many places behind a position on. -/
def reach (data : Bytes) (position available count : Int) : Bytes × Option AddressFault :=
  gather data (position + count) (min 4 available - count).toNat

theorem reach_of_cons {data rest : Bytes} {position available count : Int} {byte : UInt8}
    {fault : Option AddressFault}
    (reached : reach data position available count = (byte :: rest, fault)) :
    count < available ∧ reach data position available (count + 1) = (rest, fault) := by
  rw [reach] at reached ⊢
  cases total : (min 4 available - count).toNat with
  | zero =>
      rw [total] at reached
      cases reached
  | succ more =>
      have left : (min 4 available - (count + 1)).toNat = more := by omega
      rw [total] at reached
      rw [left, ← Int.add_assoc]
      cases fetched : fetch data (position + count) with
      | error fault =>
          rw [gather_succ_of_error more fetched] at reached
          cases reached
      | ok byte =>
          rw [gather_succ_of_ok more fetched] at reached
          cases reached
          exact ⟨by omega, rfl⟩

/-- What is read when a scan of the bytes in reach has come to an end. -/
def settle (available : Int) (final : Bool) (lead : UInt8) (fault : Option AddressFault) :
    Option (Token × Bytes) → Except AddressFault Loaded
  | some (found, _) => .ok (.token found)
  | none =>
    match fault with
    | some fault => .error fault
    | none => .ok (cutShort final lead available)

theorem settle_ite {condition : Prop} [Decidable condition] (available : Int) (final : Bool)
    (lead : UInt8) (fault : Option AddressFault) (yes no : Option (Token × Bytes)) :
    settle available final lead fault (if condition then yes else no) =
      if condition then settle available final lead fault yes
      else settle available final lead fault no :=
  apply_ite _ _ _ _

theorem load_of_fetch {data : Bytes} {position stop : Int} {lead : UInt8} (final : Bool)
    (first : 0 < stop - position) (fetched : fetch data position = .ok lead) :
    load data position stop final =
      settle (stop - position) final lead (reach data position (stop - position) 1).2
        (Token.scan lead (reach data position (stop - position) 1).1) := by
  have total : min 4 (stop - position).toNat = (min 4 (stop - position) - 1).toNat + 1 := by omega
  rw [load, total, gather_succ_of_ok _ fetched, reach]
  generalize gather data (position + 1) (min 4 (stop - position) - 1).toNat = reached
  obtain ⟨rest, fault⟩ := reached
  dsimp only
  cases Token.scan lead rest with
  | some found => rfl
  | none =>
      cases fault with
      | some fault => rfl
      | none => rfl

/-- To go on is to go on with the next of the bytes in reach, if there is one. -/
theorem result_goOn {data : Bytes} {position available : Int} {final : Bool} {lead : UInt8}
    {count : Int} (few : count < 4) (reached : count ≤ available)
    (next : UInt8 → Traced Loaded) :
    (goOn data position available final lead count next).result =
      match reach data position available count with
      | ([], fault) => settle available final lead fault none
      | (byte :: _, _) => (next byte).result := by
  rw [goOn, reach]
  by_cases ends : available = count
  · have nothing : (min 4 available - count).toNat = 0 := by omega
    rw [if_pos ends, nothing]
    rfl
  obtain ⟨more, total⟩ : ∃ more, (min 4 available - count).toNat = more + 1 :=
    Nat.exists_eq_add_one.2 (by omega)
  rw [if_neg ends, total]
  cases fetched : fetch data (position + count) with
  | error fault =>
      rw [Traced.result_read_of_error fetched, gather_succ_of_error more fetched]
      rfl
  | ok byte => rw [Traced.result_read_of_ok fetched, gather_succ_of_ok more fetched]

theorem needsThreeBytes_iff (number : Nat) :
    Token.NeedsThreeBytes number ↔ 0x800 ≤ number ∧ ¬ (0xD800 ≤ number ∧ number < 0xE000) := by
  rw [Token.NeedsThreeBytes]
  omega

/-- Reading byte by byte gives what a scan of all bytes in reach gives. -/
theorem result_lookahead (data : Bytes) (position stop : Int) (final : Bool) :
    (lookahead data position stop final).result = load data position stop final := by
  rw [lookahead]
  simp only [ne_eq, ← isContinuation_iff_and, Token.twoByteBits_eq, Token.threeByteBits_eq,
    Token.fourByteBits_eq, ← needsThreeBytes_iff, ← Token.NeedsFourBytes.eq_1]
  by_cases nothing : stop - position ≤ 0
  · have none : min 4 (stop - position).toNat = 0 := by omega
    rw [if_pos nothing, load, none]
    rfl
  rw [if_neg nothing]
  cases leadRead : fetch data position with
  | error fault =>
      obtain ⟨count, total⟩ : ∃ count, min 4 (stop - position).toNat = count + 1 :=
        Nat.exists_eq_add_one.2 (by omega)
      rw [Traced.result_read_of_error leadRead, load, total, gather_succ_of_error count leadRead]
  | ok lead =>
  rw [Traced.result_read_of_ok leadRead, load_of_fetch final (by omega) leadRead]
  -- The bytes in reach are taken off one by one. Wherever they come to an end, the scan and the
  -- reading make the same distinctions.
  have further := @result_goOn data position (stop - position) final lead
  have fromSecond := @further 1 (by omega) (by omega)
  cases reachSecond : reach data position (stop - position) 1 with
  | mk rest fault =>
  cases rest with
  | nil =>
      simp only [fromSecond, reachSecond, Token.scan, settle_ite, Traced.result_ite]
      rfl
  | cons second rest =>
  obtain ⟨two, reachThird : reach data position (stop - position) 2 = (rest, fault)⟩ :=
    reach_of_cons reachSecond
  have fromThird := @further 2 (by omega) (by omega)
  cases rest with
  | nil =>
      simp only [fromSecond, reachSecond, fromThird, reachThird, Token.scan, settle_ite,
        Traced.result_ite]
      rfl
  | cons third rest =>
  obtain ⟨three, reachFourth : reach data position (stop - position) 3 = (rest, fault)⟩ :=
    reach_of_cons reachThird
  have fromFourth := @further 3 (by omega) (by omega)
  cases rest with
  | nil | cons fourth rest =>
      simp only [fromSecond, reachSecond, fromThird, reachThird, fromFourth, reachFourth,
        Token.scan, settle_ite, Traced.result_ite]
      rfl

end Position

end LosslessUtf8
