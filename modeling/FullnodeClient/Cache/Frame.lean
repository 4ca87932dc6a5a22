import FullnodeClient.Cache.RoutineOne

/-!
# Records of other blocks

What a call of `save_block` leaves alone. The key of the hash entry is the hex of the hash, and a hash
that a reply announces can have any length.
-/

namespace FullnodeClient.Cache
open FullnodeClient.Lib FullnodeClient.Text

variable {env : Env} {wire : One.Wire}

def Save.run (s : Save) (succeeds : Nat → Bool) (disk : Disk Event) : Log :=
  ((saveBlock s.number s.hash s.dump s.ext).runOn succeeds disk).2.log

inductive Source
  | routine
  | checked
  | unchecked

inductive Calls (env : Env) (wire : One.Wire) : Source → Save → Log → Prop
  | routine {st : One.State} {action : One.Action} {s : Save} :
      st.save env wire action = some s → Calls env wire .routine s st.log
  | checked {st : State} {fetch : Nat → Option Bytes} {c : Candidate} :
      st.candidate env fetch = some c → Calls env wire .checked c.save (.block c.block :: st.log)
  | unchecked {st : State} {s : Save} : st.unverified env = some s → Calls env wire .unchecked s st.log

structure Framed (n : Nat) (before after : Log) : Prop where
  block : ∀ m < 2 ^ 64, m ≠ n → getBlockByNum after (decimal m) false = getBlockByNum before (decimal m) false
  data : ∀ m < 2 ^ 64, m ≠ n → getExtraData after m = getExtraData before m
  extra : ∀ m < 2 ^ 64, m ≠ n → getExtraBlockFor after m = getExtraBlockFor before m
  nextBlock : after.get (text "next_block") = before.get (text "next_block")
  lastSigned : after.get (text "last_signed_block") = before.get (text "last_signed_block")

/-- If the hash entry is written, its key is not the number of another block, or the record of that block
already is what the entry holds. -/
def Apart (s : Save) (before : Log) (succeeds : Nat → Bool) (attempts : Nat) : Prop :=
  succeeds attempts = true → s.hash ≠ [] → succeeds (attempts + 1) = true →
    ∀ m < 2 ^ 64, m ≠ s.number → StringUtils.bin2hex s.hash = decimal m → before.record m = some (decimal s.number)

variable {s : Save} {succeeds : Nat → Bool} {disk : Disk Event}

theorem Save.run_cases (s : Save) (succeeds : Nat → Bool) (disk : Disk Event) :
    succeeds disk.attempts = false ∧ s.run succeeds disk = disk.log ∨
    (s.hash = [] ∨ succeeds (disk.attempts + 1) = false) ∧
      s.run succeeds disk = .put (.dump s.number s.dump) :: disk.log ∨
    (succeeds disk.attempts = true ∧ s.hash ≠ [] ∧ succeeds (disk.attempts + 1) = true) ∧
      (s.run succeeds disk = .put (.index s.hash s.number) :: .put (.dump s.number s.dump) :: disk.log ∨
        s.run succeeds disk = s.stored disk.log) := by
  simp only [Save.run, saveBlock, put, saveExtraData, LogM.runOn_bind, LogM.runOn_attempt]
  cases first : succeeds disk.attempts with
  | false => exact .inl ⟨rfl, rfl⟩
  | true =>
      simp only [if_true]
      split
      case isTrue empty => exact .inr (.inl ⟨.inl empty, rfl⟩)
      case isFalse nonempty =>
        simp only [LogM.runOn_bind, LogM.runOn_attempt]
        cases second : succeeds (disk.attempts + 1) with
        | false => exact .inr (.inl ⟨.inr rfl, rfl⟩)
        | true =>
            refine .inr (.inr ⟨⟨trivial, nonempty, rfl⟩, ?_⟩)
            simp only [if_true, LogM.runOn_attempt]
            split
            case isTrue => exact .inr rfl
            case isFalse => exact .inl rfl

theorem framed_dump (n : Nat) (d : Bytes) (past : Log) : Framed n past (.put (.dump n d) :: past) where
  block m _ other := by simp [getBlockByNum, Ne.symm other]
  data m _ _ := by simp
  extra m _ _ := by simp [getExtraBlockFor]
  nextBlock := by simp
  lastSigned := by simp

theorem framed_stored_iff {past after : Log} (wrote : after = .put (.index s.hash s.number) ::
    .put (.dump s.number s.dump) :: past ∨ after = s.stored past) :
    Framed s.number past after ↔ ∀ m < 2 ^ 64, m ≠ s.number → StringUtils.bin2hex s.hash = decimal m →
      past.record m = some (decimal s.number) := by
  have record (m : Nat) (other : m ≠ s.number) : after.get (decimal m) =
      if StringUtils.bin2hex s.hash = decimal m then some (decimal s.number) else past.get (decimal m) := by
    rcases wrote with rfl | rfl <;> simp [Save.stored, Ne.symm other]
  constructor
  · intro framed m small other same
    have kept := framed.block m small other
    simp only [getBlockByNum, Bool.false_and, Bool.false_eq_true, if_false] at kept
    rw [record m other, if_pos same] at kept
    exact kept.symm
  · intro apart
    refine ⟨fun m small other => ?_, fun m _ other => ?_, fun m _ _ => ?_, ?_, ?_⟩
    · simp only [getBlockByNum, Bool.false_and, Bool.false_eq_true, if_false]
      rw [record m other]
      split
      case isTrue same => exact (apart m small other same).symm
      case isFalse => rfl
    · rcases wrote with rfl | rfl <;> simp [Save.stored, Ne.symm other]
    · rcases wrote with rfl | rfl <;> simp [Save.stored, getExtraBlockFor]
    · rcases wrote with rfl | rfl <;> simp [Save.stored]
    · rcases wrote with rfl | rfl <;> simp [Save.stored]

theorem framed_run_iff (s : Save) (succeeds : Nat → Bool) (disk : Disk Event) :
    Framed s.number disk.log (s.run succeeds disk) ↔ Apart s disk.log succeeds disk.attempts := by
  rcases s.run_cases succeeds disk with ⟨failed, same⟩ | ⟨skipped, same⟩ | ⟨⟨first, nonempty, second⟩, wrote⟩
  · rw [same]
    refine ⟨fun _ passed => ?_, fun _ => ⟨fun _ _ _ => rfl, fun _ _ _ => rfl, fun _ _ _ => rfl, rfl, rfl⟩⟩
    rw [failed] at passed
    cases passed
  · rw [same]
    refine ⟨fun _ _ nonempty second => ?_, fun _ => framed_dump _ _ _⟩
    rcases skipped with empty | failed
    · exact absurd empty nonempty
    · rw [failed] at second
      cases second
  · rw [framed_stored_iff wrote]
    exact ⟨fun apart _ _ _ => apart, fun apart => apart first nonempty second⟩

theorem Calls.long (hashes : env.lib.Hashes) {source : Source} {past : Log} (calls : Calls env wire source s past)
    (known : source ≠ .unchecked) : s.hash.length = 32 := by
  cases calls with
  | routine chosen => exact One.State.save_long hashes chosen
  | checked chosen => exact hashes.length_of_holds (State.candidate_checked chosen).holds
  | unchecked => exact absurd rfl known

theorem saves_leave_other_records_iff (env : Env) (wire : One.Wire) (hashes : env.lib.Hashes) (source : Source)
    (s : Save) (past : Log) (calls : Calls env wire source s past) (succeeds : Nat → Bool) (attempts : Nat) :
    Framed s.number past (s.run succeeds ⟨past, attempts⟩) ↔ (source = .unchecked → Apart s past succeeds attempts) := by
  rw [framed_run_iff s succeeds ⟨past, attempts⟩]
  refine ⟨fun apart _ => apart, fun apart => ?_⟩
  by_cases unchecked : source = .unchecked
  · exact apart unchecked
  · intro _ _ _ m small _ same
    exact absurd same (bin2hex_ne_decimal (calls.long hashes unchecked) small)

theorem saves_leave_other_records_genesis :
    let st : State := ⟨[.put (.dump 13001 [1])], .initial,
      .walk ⟨bigEndian 8 1 ++ [0], 9⟩ [] [⟨1, Sample.hashOf 0, [], by decide⟩]⟩
    ∃ s, st.unverified Sample.pair = some s ∧ Framed 1 st.log (s.run (fun _ => true) ⟨st.log, 0⟩) := by
  intro st
  have chosen : st.unverified Sample.pair = some ⟨1, Sample.hashOf 0, [0], ExtData.of ExtData.signed⟩ := rfl
  refine ⟨_, chosen, (saves_leave_other_records_iff Sample.pair ⟨some, fun _ => false⟩ (Sample.env_hashes (by decide))
    .unchecked _ _ (.unchecked chosen) (fun _ => true) 0).mpr fun _ _ _ _ m small _ same => ?_⟩
  exact absurd same (bin2hex_ne_decimal rfl small)

/-- The first block is announced with the hash `130001`, which is the number of a stored block. -/
theorem save_overwrites_other_record :
    Sample.pair.lib.Hashes ∧ Sample.pair.settings.blockVerification = true ∧
    ∃ st, Reached (step Sample.pair) (fun _ l => l.killed = none ∧ l.action.faults = []) .initial st ∧
      ∃ s ∈ st.unverified Sample.pair, ¬Framed s.number st.log (s.run (fun _ => true) ⟨st.log, 0⟩) := by
  have ran : ∃ st ∈ runAllowed (step Sample.pair) (fun _ l => l.killed = none ∧ l.action.faults = [])
      .initial (Sample.start 130001 :: Sample.deliver [(130001, 1), (130002, 2)] ++
        [Sample.turn (some [0]), Sample.turn none, Sample.turn none,
          ⟨.poll (some [some ⟨none, some 1, some (text "130001"), []⟩]) none, none⟩,
          ⟨.dumps (some ⟨bigEndian 8 1 ++ [0], []⟩), none⟩]),
      ∃ s ∈ st.unverified Sample.pair, s.number = 1 ∧ getBlockByNum st.log (decimal 130001) false = some [1] ∧
        getBlockByNum (s.run (fun _ => true) ⟨st.log, 0⟩) (decimal 130001) false = some (decimal 1) := by
    decide +kernel
  obtain ⟨st, ran, s, chosen, number, before, after⟩ := ran
  refine ⟨Sample.env_hashes (by decide), rfl, st, Reached.run .start ran, s, chosen, fun framed => ?_⟩
  have kept := framed.block 130001 (by decide) (by omega)
  rw [before, after] at kept
  exact absurd kept (by decide)

end FullnodeClient.Cache
