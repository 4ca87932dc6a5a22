import FullnodeClient.Cache.Height

/-!
# Holes below the height

Between two turns of the loops, every stored number up to the height is signed, as long as a block that
raises the height comes when the height is at most one block behind its predecessor, or two blocks
behind it and the rule for broken blocks closes the gap.
-/

namespace FullnodeClient.Cache
open FullnodeClient.Lib FullnodeClient.Text

variable {env : Env} {st st' : State} {count : Option CountReply}

def Log.NoHoles (log : Log) : Prop :=
  ∀ n ∈ log.stored, n < log.lastSignedBlock → log.Signed n ∧ getBlockByNum log (decimal n) true ≠ none

def Candidate.repairs (env : Env) (fetch : Nat → Option Bytes) (log : Log) (c : Candidate) : Bool :=
  match brokenBlock env fetch log c.prev (c.number - 1) with
  | .ok (some _) => decide c.SignsPrevious && decide (ExtData.status c.ext = ExtData.awaiting)
  | _ => false

/-- Numbers are new and consecutive. A block that raises the height finds everything that is stored below
its predecessor at or below the height, or repairs the one block that is not; a block that needs no
signatures finds its predecessor there too, or signs it. Sign blocks that fail are for numbers above
the height, and others leave nothing out. The process is not killed inside a turn, and Puts succeed. -/
structure LeavesNoHoles (env : Env) (st : State) (l : Label) : Prop where
  new : ∀ s ∈ st.save env l.action, st.log.lastSignedBlock < s.number
  consecutive : ∀ c ∈ st.accepted env l.action, c.prev.blockNumber = some (c.number - 1)
  below : ∀ c ∈ st.accepted env l.action, 0 < c.verify → ∀ j ∈ st.log.stored, j < c.number - 1 →
    j ≤ st.log.lastSignedBlock ∨ j = c.number - 2 ∧ c.repairs env l.action.fetch st.log
  own : ∀ c ∈ st.accepted env l.action, c.verify = intMax → c.number - 1 ∈ st.log.stored →
    c.number - 1 ≤ st.log.lastSignedBlock ∨ c.SignsPrevious
  failed : ∀ x ∈ st.signBlock env, ∀ num ∈ getBlockNumByHash st.log x.2.prevHash,
    ¬0 < signBlockVerification env x.2 → st.log.lastSignedBlock < atoi num
  passed : ∀ x ∈ st.signBlock env, ∀ num ∈ getBlockNumByHash st.log x.2.prevHash,
    0 < signBlockVerification env x.2 → ∀ j ∈ st.log.stored, j < atoi num → j ≤ st.log.lastSignedBlock
  small : ∀ s ∈ st.save env l.action, s.number < 2 ^ 31
  hashes : ∀ s ∈ st.unverified env, s.hash.length = 32
  faults : l.action.faults = []
  whole : l.killed = none ∨ st.save env l.action = none ∧ st.signBlock env = none

instance (l : Label) : Decidable (LeavesNoHoles env st l) :=
  decidable_of_iff (_ ∧ _ ∧ _ ∧ _ ∧ _ ∧ _ ∧ _ ∧ _ ∧ _ ∧ _)
    ⟨fun ⟨a, b, c, d, e, f, g, h, i, j⟩ => ⟨a, b, c, d, e, f, g, h, i, j⟩,
      fun ⟨a, b, c, d, e, f, g, h, i, j⟩ => ⟨a, b, c, d, e, f, g, h, i, j⟩⟩

structure Log.Filled (log : Log) : Prop where
  filed : log.Filed (2 ^ 31)
  disk : (log.get (text "last_signed_block")).elim 0 atoi = log.lastSignedBlock
  signed : ∀ n ∈ log.stored, n ≤ log.lastSignedBlock → log.Signed n

theorem Log.Filled.above {past u : Log} {n : Nat} (filled : past.Filled) (filed : u.Filed (2 ^ 31))
    (disk : u.get (text "last_signed_block") = past.get (text "last_signed_block"))
    (memory : u.lastSignedBlock = past.lastSignedBlock) (new : past.lastSignedBlock < n)
    (stored : ∀ k ∈ u.stored, k = n ∨ k ∈ past.stored)
    (signed : ∀ k, k ≠ n → past.Signed k → u.Signed k) : u.Filled where
  filed := filed
  disk := by rw [disk, memory, filled.disk]
  signed k member low := by
    rw [memory] at low
    rcases stored k member with rfl | member
    · omega
    · exact signed k (by omega) (filled.signed k member low)

namespace Candidate

variable {fetch : Nat → Option Bytes} {c : Candidate} {past u : Log}

theorem repairs_eq_true (repairs : c.repairs env fetch past = true) :
    c.SignsPrevious ∧ ExtData.status c.ext = ExtData.awaiting ∧
      ∃ ext, brokenBlock env fetch past c.prev (c.number - 1) = .ok (some ext) := by
  unfold Candidate.repairs at repairs
  split at repairs
  case h_1 ext repaired =>
    simp only [Bool.and_eq_true, decide_eq_true_eq] at repairs
    exact ⟨repairs.1, repairs.2, ext, repaired⟩
  case h_2 => cases repairs

theorem Concerns.number_le {n : Nat} (concerns : c.Concerns n) (number : c.prev.blockNumber = some (c.number - 1))
    (above : 1 < c.number) : n ≤ c.number ∧ 0 < c.verify ∧ (n = c.number → c.verify = intMax) ∧
      (n ≠ c.number → c.SignsPrevious) := by
  rcases concerns with ⟨exempt, rfl⟩ | ⟨signs, m, known, positive, lower⟩
  · exact ⟨le_rfl, by rw [exempt]; decide, fun _ => exempt, fun other => absurd rfl other⟩
  · obtain rfl := Option.some.inj (number.symm.trans known)
    have below : n < c.number := by
      rcases lower with rfl | ⟨-, rfl⟩ <;> omega
    exact ⟨below.le, signs.1, fun same => absurd same below.ne, fun _ => signs⟩

theorem AfterSave.stored_eq (after : c.AfterSave past u) : u.stored = c.number :: past.stored := by
  rcases after with rfl | rfl <;> rfl

theorem AfterSave.memory (after : c.AfterSave past u) : u.lastSignedBlock = past.lastSignedBlock := by
  rcases after with rfl | rfl <;> rfl

theorem AfterSave.disk (after : c.AfterSave past u) :
    u.get (text "last_signed_block") = past.get (text "last_signed_block") := by
  rcases after with rfl | rfl <;> simp [Candidate.saved, Save.saved, Save.stored]

theorem AfterSave.data_eq (after : c.AfterSave past u) {n : Nat} (other : n ≠ c.number) :
    getExtraData u n = getExtraData past n := by
  rcases after with rfl | rfl <;>
    simp [Candidate.saved, Save.saved, Save.stored, Candidate.save, other.symm]

theorem AfterSave.brokenBlock_eq (after : c.AfterSave past u) (long : c.block.hash.length = 32)
    (above : 1 < c.number) (small : c.number < 2 ^ 32) :
    brokenBlock env fetch u c.prev (c.number - 1) = brokenBlock env fetch past c.prev (c.number - 1) := by
  have same (num : Nat) (other : num ≠ c.number) (fits : num < 2 ^ 64) (exdata : ExtData) :
      getBlock env fetch u num exdata = getBlock env fetch past num exdata := by
    refine getBlock_congr exdata ?_ (after.data_eq other)
    rw [(Candidate.After.saved after).record_eq long fits, if_neg other.symm]
  unfold brokenBlock
  rw [same (c.number - 1 - 1) (by omega) (by omega)]
  split
  case h_1 => rfl
  case h_2 => rfl
  case h_3 => rw [same ((c.number - 1 + 2 ^ 64 - 2) % 2 ^ 64) (by omega) (by omega)]

namespace After

theorem stored_eq (after : c.After past u) : u.stored = c.number :: past.stored := by
  induction after with
  | saved after => exact after.stored_eq
  | awaiting _ after => exact after.stored_eq
  | status _ _ _ ih => exact ih
  | raised _ _ _ ih => exact ih

theorem memory (after : c.After past u) :
    u.lastSignedBlock = past.lastSignedBlock ∨ c.Concerns u.lastSignedBlock := by
  induction after with
  | saved after => exact .inl after.memory
  | awaiting _ after => exact .inl after.memory
  | status _ _ _ ih => exact ih
  | raised _ concerns => exact .inr concerns

theorem disk (after : c.After past u) (small : ∀ n, c.Concerns n → n < 2 ^ 31)
    (synced : (past.get (text "last_signed_block")).elim 0 atoi = past.lastSignedBlock) :
    (u.get (text "last_signed_block")).elim 0 atoi = u.lastSignedBlock := by
  induction after with
  | saved after => rw [after.disk, after.memory, synced]
  | awaiting _ after => simp [after.disk, synced, after.memory]
  | status _ _ _ ih => simpa using ih
  | @raised u n _ concerns =>
      have := small n concerns
      simp [atoi_decimal (n := n) (by omega), castNumber_small this]

theorem signed (after : c.After past u) {n : Nat} (other : n ≠ c.number) (signed : past.Signed n) : u.Signed n := by
  have saved {u : Log} (after : c.AfterSave past u) : u.Signed n := by
    simpa only [Log.Signed, after.data_eq other] using signed
  induction after with
  | saved after => exact saved after
  | awaiting _ after => exact (saved after).cons fun ext same => absurd same (by simp [other.symm])
  | status _ _ marked ih =>
      refine ih.cons fun ext same => ?_
      simp only [Event.put.injEq, Write.data.injEq] at same
      exact same.2 ▸ marked
  | raised _ _ _ ih => exact (ih.cons (by simp)).cons (by simp)

end After

end Candidate

theorem Log.Filled.start {log : Log} (filled : log.Filled) (filed : Log.Filed (2 ^ 31)
    (startEvent env.settings log count :: log)) : Log.Filled (startEvent env.settings log count :: log) where
  filed := filed
  disk := by simp [startEvent, Log.lastSignedBlock]
  signed n member low := by
    simp only [startEvent, Log.lastSignedBlock, filled.disk] at low
    simpa [startEvent, Log.Signed] using filled.signed n member low

theorem Log.Filled.block {c : Candidate} {u : Log} {l : Label}
    (filled : st.log.Filled) (filed : u.Filed (2 ^ 31)) (hashes : env.lib.Hashes)
    (leaves : LeavesNoHoles env st l) (chosen : st.candidate env l.action.fetch = some c)
    (accepted : st.accepted env l.action = some c) (saves : st.save env l.action = some c.save)
    (after : c.After st.log u) (finished : c.Finished env l.action.fetch st.log u) : u.Filled := by
  have checked := State.candidate_checked chosen
  have long := hashes.length_of_holds checked.holds
  have above := checked.above
  have new : st.log.lastSignedBlock < c.number := leaves.new _ saves
  have small : c.number < 2 ^ 31 := leaves.small _ saves
  have number := leaves.consecutive c accepted
  have old {j : Nat} (member : j ∈ st.log.stored) (low : j ≤ st.log.lastSignedBlock) : u.Signed j :=
    after.signed (by omega) (filled.signed j member low)
  have below {j : Nat} (verified : 0 < c.verify) (member : j ∈ st.log.stored) (low : j < c.number - 1) :
      u.Signed j := by
    rcases leaves.below c accepted verified j member low with low | ⟨same, repairs⟩
    · exact old member low
    · obtain ⟨signs, waits, ext, repaired⟩ := Candidate.repairs_eq_true repairs
      rw [same, show c.number - 2 = c.number - 1 - 1 by omega]
      refine finished.broken signs waits (c.number - 1) number (by omega) fun v after => ⟨ext, ?_⟩
      rw [after.brokenBlock_eq long above checked.small, repaired]
  have fits {n : Nat} (concerns : c.Concerns n) : n < 2 ^ 31 := by
    have := (concerns.number_le number above).1
    omega
  refine ⟨filed, after.disk (fun n => fits) filled.disk, ?_⟩
  intro j member low
  rw [after.stored_eq] at member
  rcases after.memory with same | concerns
  · rw [same] at low
    rcases List.mem_cons.mp member with rfl | member
    · omega
    · exact old member low
  · obtain ⟨top, verified, own, previous⟩ := concerns.number_le number above
    rcases List.mem_cons.mp member with rfl | member
    · exact finished.own (own (by omega))
    · rcases lt_trichotomy j (c.number - 1) with lower | rfl | higher
      · exact below verified member lower
      · by_cases same : u.lastSignedBlock = c.number
        · rcases leaves.own c accepted (own same) member with low | signs
          · exact old member low
          · exact finished.previous signs _ number (by omega)
        · exact finished.previous (previous same) _ number (by omega)
      · obtain rfl : j = c.number := by omega
        exact finished.own (own (by omega))

theorem Applied.effects {faults : List Nat} (reliable : faults = []) {dump num : Bytes} {info : SignBlockInfo}
    {past u : Log} (applied : Applied env (succeeds faults) dump info past num u) :
    u.stored = past.stored ∧ u.lastSignedBlock = past.lastSignedBlock ∧
    u.get (text "last_signed_block") = past.get (text "last_signed_block") ∧
    ∀ j, (if num = decimal j then 0 < signBlockVerification env info else past.Signed j) → u.Signed j := by
  have data {j : Nat} (signed : if num = decimal j then 0 < signBlockVerification env info else past.Signed j) :
      Log.Signed (.put (.data num (ExtData.of (signBlockStatus env info))) :: .signBlock info :: past) j := by
    rw [Log.signed_data]
    split at signed
    case isTrue here => rw [if_pos here, signBlockStatus, if_pos signed]; rfl
    case isFalse other => rw [if_neg other]; exact signed.cons (by simp)
  obtain ⟨filed, rfl, rfl | rfl⟩ := applied.eq_append reliable
  · exact ⟨rfl, rfl, by simp, fun j signed => (data signed).cons (by simp)⟩
  · exact ⟨rfl, rfl, by simp, fun j signed => data signed⟩

theorem Log.Filled.signBlock {u : Log} {l : Label} {dump : Bytes} {info : SignBlockInfo} (filled : st.log.Filled)
    (filed : u.Filed (2 ^ 31)) (hashes : env.lib.Hashes) (leaves : LeavesNoHoles env st l)
    (chosen : st.signBlock env = some (dump, info))
    (after : SignBlockAfter env (succeeds l.action.faults) dump info st.log u) : u.Filled := by
  have long := hashes.signBlock _ _ (State.signBlock_parse chosen)
  cases after with
  | unknown => exact ⟨filed, filled.disk, filled.signed⟩
  | @applied num u found applied =>
      obtain ⟨stored, memory, disk, signed⟩ := applied.effects leaves.faults
      -- the number on file is one that was stored, so `atoi` reads it back
      obtain ⟨k, -, rfl, read, -⟩ := filled.filed.index_atoi long found
      refine ⟨filed, by rw [disk, memory, filled.disk], fun j member low => signed j ?_⟩
      rw [stored] at member
      rw [memory] at low
      split
      case isFalse => exact filled.signed j member low
      case isTrue same =>
        by_contra refused
        have := leaves.failed _ chosen _ found refused
        rw [read, decimal_injective same] at this
        omega
  | @raised num u found applied valid higher =>
      obtain ⟨stored, -, -, signed⟩ := applied.effects leaves.faults
      obtain ⟨k, small, rfl, read, -⟩ := filled.filed.index_atoi long found
      have accepted : 0 < signBlockVerification env info := by
        by_contra refused
        simp [signBlockStatus, refused, ExtData.notSigned, ExtData.signed] at valid
      refine ⟨filed, by simp [read], fun j member low => ?_⟩
      have signed : u.Signed j := by
        refine signed j ?_
        split
        case isTrue => exact accepted
        case isFalse other =>
          have member : j ∈ st.log.stored := stored ▸ member
          refine filled.signed j member (leaves.passed _ chosen _ found accepted j member ?_)
          refine lt_of_le_of_ne low fun same => other ?_
          simp [same, read]
      exact (signed.cons (by simp)).cons (by simp)

theorem Log.Filled.saved {past u : Log} {s : Save} (filled : past.Filled) (filed : u.Filed (2 ^ 31))
    (new : past.lastSignedBlock < s.number)
    (same : u = s.saved past ∨ u = .put (.nextBlock (s.number + 1)) :: s.saved past) : u.Filled := by
  refine filled.above filed ?_ ?_ new ?_ fun k other signed => ?_
  · rcases same with rfl | rfl <;> simp [Save.saved, Save.stored]
  · rcases same with rfl | rfl <;> rfl
  · rcases same with rfl | rfl <;> simp [Save.saved, Save.stored, Log.stored]
  · rcases same with rfl | rfl <;> simpa [Save.saved, Save.stored, Log.Signed, other.symm] using signed

theorem filled_step (hashes : env.lib.Hashes) {l : Label} (filled : st.log.Filled)
    (leaves : LeavesNoHoles env st l) (stepped : step env st l = some st') : st'.log.Filled := by
  have filed : st'.log.Filed (2 ^ 31) := (step_grows stepped).always filled.filed fun _ _ _ emitted filed =>
    filed.entry hashes leaves.hashes leaves.small emitted
  rcases step_cases stepped with acted | ⟨killed, -⟩
  case inr =>
    obtain ⟨unsaved, unsigned⟩ := leaves.whole.resolve_left killed
    refine (step_grows stepped).always filled fun u e _ emitted filled => ?_
    have filed := filled.filed.entry hashes leaves.hashes leaves.small emitted
    generalize l.action = action at emitted unsaved
    cases emitted with
    | start => exact filled.start filed
    | unverified chosen => cases unsaved.symm.trans (State.save_of_unverified chosen)
    | block chosen => cases unsaved.symm.trans (State.save_of_candidate chosen)
    | signBlock chosen => cases unsigned.symm.trans chosen
  case inl =>
    have ended := (act_effects acted).2
    obtain ⟨action, killed⟩ := l
    generalize st'.log = u at ended filed
    cases ended with
    | same => exact filled
    | start => exact filled.start filed
    | unverified chosen same =>
        exact filled.saved filed (leaves.new _ (State.save_of_unverified chosen)) same
    | @threw fetch faults c u chosen after =>
        have saves : st.save env (.frame fetch faults) = some c.save := State.save_of_candidate chosen
        have checked := State.candidate_checked chosen
        refine filled.above filed after.disk after.memory (leaves.new _ saves) ?_ fun k other =>
          (Candidate.After.saved after).signed other
        simp [after.stored_eq, Candidate.save]
    | @block fetch faults c u chosen after finished =>
        have reliable : faults = [] := leaves.faults
        exact filled.block filed hashes leaves chosen chosen (State.save_of_candidate chosen) after
          (finished fun i => reliable ▸ succeeds_nil i)
    | @unsaved fetch faults s u chosen failed =>
        have long := State.save_long hashes leaves.hashes chosen
        have reliable : faults = [] := leaves.faults
        rcases failed with empty | ⟨i, failed⟩
        · rw [empty] at long
          cases long
        · rw [reliable, succeeds_nil] at failed
          cases failed
    | signBlock chosen after => exact filled.signBlock filed hashes leaves chosen after

theorem no_holes_below_height (env : Env) (hashes : env.lib.Hashes) (st : State)
    (reached : Reached (step env) (LeavesNoHoles env) .initial st) : st.log.NoHoles := by
  have filled : st.log.Filled := by
    induction reached with
    | start => exact ⟨.nil, rfl, by simp [State.initial, Log.stored]⟩
    | step _ leaves stepped ih => exact filled_step hashes ih leaves stepped
  intro n member low
  have signed := filled.signed n member low.le
  have ok : verifiedOk st.log (decimal n) = true := by
    obtain ⟨ext, found, status⟩ := signed
    simp only [verifiedOk, Option.mem_def.mp found, status, decide_true]
  exact ⟨signed, by simpa [getBlockByNum, ok] using (filled.filed.stored (by norm_num) member).2⟩

theorem no_holes_below_height_two_blocks :
    ∃ st, Reached (step Sample.pair) (LeavesNoHoles Sample.pair) .initial st ∧
      st.log.lastSignedBlock = 13001 ∧ st.log.stored = [13002, 13001] ∧ st.log.NoHoles := by
  have ran : ∃ st ∈ runAllowed (step Sample.pair) (LeavesNoHoles Sample.pair)
      .initial (Sample.start 13001 :: Sample.deliver [(13001, 1), (13002, 2)] ++
        [Sample.turn (some [0]), Sample.turn none]),
      st.log.lastSignedBlock = 13001 ∧ st.log.stored = [13002, 13001] := by
    decide +kernel
  obtain ⟨st, ran, height, stored⟩ := ran
  have reached := Reached.run .start ran
  exact ⟨st, reached, height, stored, no_holes_below_height _ (Sample.env_hashes (by decide)) st reached⟩

def Sample.closing : Env :=
  Sample.env [block 0 9 [], block 1 0 [transfer], .block ⟨hashOf 2, hashOf 1, true, false, none, []⟩]

theorem hole_below_height :
    Sample.closing.lib.Hashes ∧ Sample.closing.settings.blockVerification = true ∧
    ∃ st, Reached (step Sample.closing) (fun st l => l.killed = none ∧ l.action.faults = [] ∧
        ∀ c ∈ st.accepted Sample.closing l.action, c.prev.blockNumber = some (c.number - 1)) .initial st ∧
      ¬st.log.NoHoles := by
  have ran : ∃ st ∈ runAllowed (step Sample.closing) (fun st l => l.killed = none ∧ l.action.faults = [] ∧
        ∀ c ∈ st.accepted Sample.closing l.action, c.prev.blockNumber = some (c.number - 1))
      .initial (Sample.start 13001 :: Sample.deliver [(13001, 1), (13002, 2)] ++
        [Sample.turn (some [0]), Sample.turn none]),
      st.log.lastSignedBlock = 13002 ∧ st.log.stored = [13002, 13001] ∧
      getExtraData st.log 13001 = some (ExtData.of ExtData.awaiting) ∧
      getBlockByNum st.log (decimal 13001) true = none := by
    decide +kernel
  obtain ⟨st, ran, height, stored, -, missing⟩ := ran
  refine ⟨Sample.env_hashes (by decide), rfl, st, Reached.run .start ran, fun noHoles => ?_⟩
  exact (noHoles 13001 (by simp [stored]) (by simp [height])).2 missing

end FullnodeClient.Cache
