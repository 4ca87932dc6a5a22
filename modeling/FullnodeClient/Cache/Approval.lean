import FullnodeClient.Cache.Walk

/-!
# Approval over time

A status `signed` is lost only to a number that is saved again or to a sign block that does not verify.
-/

namespace FullnodeClient.Cache
open FullnodeClient.Lib FullnodeClient.Text

variable {env : Env} {st : State}

def ApprovalKept (log : Log) : Prop :=
  ∀ earlier later : Log, earlier <:+ later → later <:+ log → ∀ n dump, earlier.Signed n →
    (∀ moment : Log, earlier <:+ moment → moment <:+ later → moment.record n = some dump) → later.Signed n

structure RespectsApproval (env : Env) (st : State) (action : Action) : Prop where
  saves : ∀ s ∈ st.save env action, st.log.Signed s.number → s.number = 1
  signBlocks : ∀ x ∈ st.signBlock env, ∀ num ∈ getBlockNumByHash st.log x.2.prevHash,
    (∃ ext ∈ st.log.get (dataKey num), ExtData.status ext = ExtData.signed) → 0 < signBlockVerification env x.2

instance (action : Action) : Decidable (RespectsApproval env st action) :=
  decidable_of_iff (_ ∧ _) ⟨fun ⟨a, b⟩ => ⟨a, b⟩, fun ⟨a, b⟩ => ⟨a, b⟩⟩

theorem Candidate.AfterSave.not_signed {c : Candidate} {past u : Log} (after : c.AfterSave past u) :
    ¬u.Signed c.number := by
  have status : ExtData.status (ExtData.of ExtData.notChecked) ≠ ExtData.signed := by decide
  rcases after with rfl | rfl <;>
    simp [Log.Signed, Candidate.saved, Save.saved, Save.stored, Candidate.save, status]

theorem RespectsApproval.data {action : Action} {u : Log} {n : Nat} {ext : ExtData}
    (respects : RespectsApproval env st action) (emitted : st.Emits env action u (.put (.data (decimal n) ext)))
    (signed : u.Signed n) : ExtData.status ext = ExtData.signed := by
  cases emitted with
  | unverified chosen saving =>
      obtain ⟨number, rfl, rfl⟩ := saving.data_eq
      obtain rfl := decimal_injective number
      have first := respects.saves _ (State.save_of_unverified chosen) (by simpa [Log.Signed] using signed)
      obtain ⟨iter, dump, -, rfl, -⟩ := State.unverified_frame chosen
      simp only [BlkInfo.save] at first ⊢
      rw [if_pos first]
      rfl
  | block chosen emitted =>
      generalize same : decimal n = num at emitted
      cases emitted with
      | save saving =>
          obtain ⟨number, rfl, rfl⟩ := saving.data_eq
          obtain rfl := decimal_injective (same.trans number)
          have first := respects.saves _ (State.save_of_candidate chosen) (by simpa [Log.Signed] using signed)
          have above := (State.candidate_checked chosen).above
          exact absurd first above.ne'
      | awaiting _ after =>
          obtain rfl := decimal_injective same
          exact absurd signed after.not_signed
      | status signs => exact signs.status
  | signBlock chosen emitted =>
      generalize same : decimal n = num at emitted
      cases emitted with
      | data found =>
          have marked : ∃ ext ∈ st.log.get (dataKey num), ExtData.status ext = ExtData.signed := by
            simpa [Log.Signed, same] using signed
          have accepted := respects.signBlocks _ chosen _ found marked
          simp only [signBlockStatus, if_pos accepted]
          rfl

theorem approval_is_permanent (env : Env) (st : State)
    (reached : Reached (step env) (fun st l => RespectsApproval env st l.action) .initial st) :
    ApprovalKept st.log := by
  have held := (Reached.moments State.log (fun st l => st.Emits env l.action) (fun _ => True)
    (fun log => ∀ earlier, earlier <:+ log → ∀ n, Log.Signed earlier n → Log.Signed log n) ?start
    (fun _ _ _ => step_grows) ?entry (fun _ _ _ _ _ _ _ => trivial) reached).2
  case start =>
    refine ⟨trivial, fun moment inside earlier before n signed => ?_⟩
    obtain rfl := List.suffix_nil.mp inside
    rwa [← List.suffix_nil.mp before]
  case entry =>
    intro st l u e _ respects _ emitted held earlier before n signed
    rcases List.suffix_cons_iff.mp before with rfl | before
    · exact signed
    · have signed := held u (List.suffix_refl _) earlier before n signed
      rcases e.data_eq u with ⟨num, ext, rfl⟩ | same
      · rw [Log.signed_data]
        split
        case isTrue here =>
          subst here
          exact respects.data emitted signed
        case isFalse => exact signed
      · simpa only [Log.Signed, same] using signed
  exact fun earlier later order past n dump signed _ => held later past earlier order n signed

def Sample.signBlocks : Env := Sample.env [Sample.block 0 9 [], Sample.block 1 0 [Sample.transfer],
  Sample.block 2 1 [Sample.signature 1], .signBlock ⟨Sample.hashOf 1, [⟨Sample.hashOf 1, Sample.core⟩]⟩,
  .signBlock ⟨Sample.hashOf 1, [⟨Sample.hashOf 1, [98]⟩]⟩]

def Sample.extra (k : UInt8) : List Label :=
  Sample.start 13001 :: Sample.deliver [(13001, 1), (13002, 2)] ++
    [Sample.turn (some [0]), Sample.turn none, Sample.turn none,
      ⟨.poll (some []) (some ⟨13002, [StringUtils.bin2hex (Sample.hashOf k)]⟩), none⟩,
      ⟨.extraDumps (some ⟨bigEndian 8 1 ++ [k], []⟩), none⟩, ⟨.extraFrame [], none⟩]

theorem approval_kept_by_valid_sign_block :
    ∃ st, Reached (step Sample.signBlocks) (fun st l => RespectsApproval Sample.signBlocks st l.action) .initial st ∧
      st.log.Signed 13001 ∧ ApprovalKept st.log := by
  have ran : ∃ st ∈ runAllowed (step Sample.signBlocks)
      (fun st l => RespectsApproval Sample.signBlocks st l.action) .initial (Sample.extra 3),
      st.log.Signed 13001 := by
    decide +kernel
  obtain ⟨st, ran, signed⟩ := ran
  have reached := Reached.run .start ran
  exact ⟨st, reached, signed, approval_is_permanent _ st reached⟩

theorem approval_lost_to_invalid_sign_block :
    ∃ st, Reached (step Sample.signBlocks) (fun _ _ => True) .initial st ∧ ¬ApprovalKept st.log := by
  have ran : ∃ st ∈ runAllowed (step Sample.signBlocks) (fun _ _ => True) .initial (Sample.extra 4),
      Log.Signed (st.log.drop 3) 13001 ∧ ¬st.log.Signed 13001 ∧
      ∀ moment ∈ st.log.tails, st.log.drop 3 <:+ moment → Log.record moment 13001 = some [1] := by
    decide +kernel
  obtain ⟨st, ran, signed, lost, kept⟩ := ran
  refine ⟨st, Reached.run .start ran, fun permanent => lost ?_⟩
  exact permanent _ _ (List.drop_suffix 3 _) (List.suffix_refl _) 13001 [1] signed
    fun moment later earlier => kept moment ((List.mem_tails _ _).mpr earlier) later

end FullnodeClient.Cache
