import FullnodeClient.Cache.Walk

/-!
# The reported height

`m_last_signed_block` is what `get-count-blocks` answers from the cache. The block with that number can
be read as long as no step marks a block that is not stored, or takes back the status of the height.
-/

namespace FullnodeClient.Cache
open FullnodeClient.Lib FullnodeClient.Text

variable {env : Env} {st : State}

def Log.Servable (log : Log) : Prop :=
  0 < log.lastSignedBlock → getBlockByNum log (decimal log.lastSignedBlock) true ≠ none

def Log.Height (log : Log) (n : Nat) : Prop :=
  n = log.lastSignedBlock ∨ log.get (text "last_signed_block") = some (decimal n)

instance (log : Log) (n : Nat) : Decidable (log.Height n) := by
  unfold Log.Height
  infer_instance

/-- The block at the height is not saved again and gets no sign block that fails; a predecessor is signed
only if it is stored, and the block before it, if it is not stored, is not to be had; numbers fit an
`int`, and Puts succeed. -/
structure KeepsHeight (env : Env) (st : State) (action : Action) : Prop where
  saves : ∀ s ∈ st.save env action, 1 < s.number → ¬st.log.Height s.number
  small : ∀ s ∈ st.save env action, s.number < 2 ^ 31
  stored : ∀ c ∈ st.accepted env action, c.SignsPrevious → ∀ m ∈ c.prev.blockNumber,
    st.log.record m ≠ none ∧ (ExtData.status c.ext = ExtData.awaiting →
      st.log.record (m - 1) ≠ none ∨ action.fetch (m - 1) = none)
  signBlocks : ∀ x ∈ st.signBlock env, ¬0 < signBlockVerification env x.2 →
    ∀ num ∈ getBlockNumByHash st.log x.2.prevHash,
      num ≠ decimal st.log.lastSignedBlock ∧ st.log.get (text "last_signed_block") ≠ some num
  hashes : ∀ s ∈ st.unverified env, s.hash.length = 32
  faults : action.faults = []

instance (action : Action) : Decidable (KeepsHeight env st action) :=
  decidable_of_iff (_ ∧ _ ∧ _ ∧ _ ∧ _ ∧ _)
    ⟨fun ⟨a, b, c, d, e, f⟩ => ⟨a, b, c, d, e, f⟩, fun ⟨a, b, c, d, e, f⟩ => ⟨a, b, c, d, e, f⟩⟩

structure Log.HeightHolds (log : Log) : Prop where
  filed : log.Filed (2 ^ 31)
  indexed : ∀ hash n, .put (.index hash n) ∈ log → log.record n ≠ none
  disk : ∀ v, log.get (text "last_signed_block") = some v → ∃ n < 2 ^ 31, v = decimal n
  height : ∀ n, 0 < n → log.Height n → n < 2 ^ 31 ∧ log.record n ≠ none ∧ log.Signed n

theorem succeeds_nil (i : Nat) : succeeds [] i = true := by simp [succeeds]

theorem Candidate.Marked.eq_cons {faults : List Nat} (reliable : faults = []) {number : Nat} {ext : ExtData}
    {before u : Log} (marked : Candidate.Marked (succeeds faults) number ext before u) :
    u = .put (.data (decimal number) ext) :: before := by
  subst reliable
  rcases marked with same | ⟨-, i, failed⟩
  · exact same
  · rw [succeeds_nil] at failed
    cases failed

theorem Log.Signed.cons {u : Log} {e : Event} {n : Nat} (signed : u.Signed n)
    (data : ∀ ext, e = .put (.data (decimal n) ext) → ExtData.status ext = ExtData.signed) :
    Log.Signed (e :: u) n := by
  rcases e.data_eq u with ⟨num, ext, rfl⟩ | same
  · rw [Log.signed_data]
    split
    case isTrue here => exact data ext (here ▸ rfl)
    case isFalse => exact signed
  · simpa only [Log.Signed, same] using signed

theorem KeepsHeight.data {action : Action} {u : Log} {n : Nat} {ext : ExtData}
    (verified : env.settings.blockVerification = true) (keeps : KeepsHeight env st action)
    (emitted : st.Emits env action u (.put (.data (decimal n) ext))) (positive : 0 < n) (height : u.Height n) :
    ExtData.status ext = ExtData.signed := by
  generalize same : decimal n = num at emitted
  cases emitted with
  | unverified chosen saving =>
      obtain ⟨number, rfl, -⟩ := saving.data_eq
      obtain rfl := decimal_injective (same.trans number)
      obtain ⟨low, ext⟩ := State.unverified_number verified chosen
      rw [ext, if_pos (by omega)]
      rfl
  | block chosen emitted =>
      have fresh := keeps.saves _ (State.save_of_candidate chosen) (State.candidate_checked chosen).above
      cases emitted with
      | save saving =>
          obtain ⟨number, rfl, rfl⟩ := saving.data_eq
          obtain rfl := decimal_injective (same.trans number)
          exact absurd (by simpa [Log.Height, Log.lastSignedBlock] using height) fresh
      | awaiting _ after =>
          obtain rfl := decimal_injective same
          refine absurd ?_ fresh
          rcases after with rfl | rfl <;>
            simpa [Log.Height, Log.lastSignedBlock, Candidate.saved, Save.saved, Save.stored, Candidate.save]
              using height
      | status signs => exact signs.status
  | @signBlock _ _ info _ _ chosen emitted =>
      cases emitted with
      | data found =>
          have accepted : 0 < signBlockVerification env info := by
            by_contra refused
            obtain ⟨memory, disk⟩ := keeps.signBlocks _ chosen refused num found
            rcases height with height | height
            · exact memory (same.symm.trans (by rw [height]; rfl))
            · exact disk (same ▸ by simpa using height)
          simp only [signBlockStatus, if_pos accepted]
          rfl

theorem KeepsHeight.signs_stored {fetch : Nat → Option Bytes} {faults : List Nat} {c : Candidate} {u : Log} {n : Nat}
    {ext : ExtData} (hashes : env.lib.Hashes) (keeps : KeepsHeight env st (.frame fetch faults))
    (linked : Linked env st) (before : st.log.HeightHolds) (chosen : st.candidate env fetch = some c)
    (signs : c.Signs env fetch st.log u n ext) : n < 2 ^ 31 ∧ u.record n ≠ none := by
  have checked := State.candidate_checked chosen
  have long := hashes.length_of_holds checked.holds
  have small : c.number < 2 ^ 31 := keeps.small _ (State.save_of_candidate chosen)
  have kept {m : Nat} (fits : m < 2 ^ 32) (found : st.log.record m ≠ none) (after : c.After st.log u) :
      u.record m ≠ none := by
    rw [after.record_eq long (by omega)]
    split
    case isTrue => simp
    case isFalse => exact found
  have below {m : Nat} (fits : m < 2 ^ 32) (found : st.log.record m ≠ none) : m < 2 ^ 31 := by
    obtain ⟨d, found⟩ := Option.ne_none_iff_exists'.mp found
    exact before.filed.dump m d (before.filed.record_mem (by omega) found)
  obtain ⟨m', -, fits, number, -⟩ := checked.prev_holds linked
  cases signs with
  | own _ after =>
      refine ⟨small, ?_⟩
      rw [(Candidate.After.saved after).record_eq long (by omega), if_pos rfl]
      simp
  | previous signs known _ after =>
      obtain rfl := Option.some.inj (number.symm.trans known)
      have found := (keeps.stored c chosen signs _ known).1
      exact ⟨below fits found, kept fits found after⟩
  | broken signs known _ after waits repaired =>
      obtain rfl := Option.some.inj (number.symm.trans known)
      obtain ⟨found, earlier⟩ := keeps.stored c chosen signs _ known
      have := below fits found
      refine ⟨by omega, ?_⟩
      obtain ⟨b1, ex1, b2, got, -⟩ := brokenBlock_eq_some repaired
      obtain ⟨-, d, -, source⟩ := getBlock_eq_some got
      rcases source with stored | ⟨-, fetched⟩
      · simp [stored]
      · rcases earlier waits with stored | missing
        · exact kept (by omega) stored after
        · exact absurd (fetched.symm.trans missing) (by simp)

theorem Applied.eq_append {faults : List Nat} (reliable : faults = []) {dump num : Bytes} {info : SignBlockInfo}
    {past u : Log} (applied : Applied env (succeeds faults) dump info past num u) :
    ∃ filed, u = filed ++ .put (.data num (ExtData.of (signBlockStatus env info))) :: .signBlock info :: past ∧
      (filed = [.put (.extra num dump)] ∨ filed = []) := by
  subst reliable
  obtain ⟨written, filed, rfl, rfl | ⟨-, i, failed⟩, extra⟩ := applied
  · exact ⟨filed, by simp, extra⟩
  · rw [succeeds_nil] at failed
    cases failed

theorem KeepsHeight.raised {action : Action} {u : Log} {n : Nat} (hashes : env.lib.Hashes)
    (keeps : KeepsHeight env st action) (linked : Linked env st) (before : st.log.HeightHolds)
    (emitted : st.Emits env action u (.put (.lastSigned n))) :
    n < 2 ^ 31 ∧ u.record n ≠ none ∧ u.Signed n := by
  cases emitted with
  | unverified chosen saving => cases saving
  | block chosen emitted =>
      cases emitted with
      | save saving => cases saving
      | lastSigned signs marked =>
          obtain rfl := marked.eq_cons keeps.faults
          obtain ⟨small, stored⟩ := keeps.signs_stored hashes linked before chosen signs
          refine ⟨small, by simpa using stored, ?_⟩
          rw [Log.signed_data, if_pos rfl]
          exact signs.status
  | signBlock chosen emitted =>
      cases emitted with
      | lastSigned found applied valid =>
          have long := hashes.signBlock _ _ (State.signBlock_parse chosen)
          obtain ⟨k, small, rfl, read, member⟩ := before.filed.index_atoi long found
          have stored := before.indexed _ _ member
          rw [read]
          refine ⟨small, ?_⟩
          obtain ⟨filed, rfl, rfl | rfl⟩ := applied.eq_append keeps.faults <;>
            simp [Log.Signed, valid, ExtData.of, ExtData.status, stored]

theorem Log.HeightHolds.quiet {u : Log} {e : Event} {action : Action} (holds : u.HeightHolds)
    (hashes : env.lib.Hashes) (verified : env.settings.blockVerification = true)
    (keeps : KeepsHeight env st action) (emitted : st.Emits env action u e)
    (memory : 0 < Log.lastSignedBlock (e :: u) → u.Height (Log.lastSignedBlock (e :: u)))
    (disk : Log.get (e :: u) (text "last_signed_block") = u.get (text "last_signed_block")) :
    Log.HeightHolds (e :: u) where
  filed := holds.filed.entry hashes keeps.hashes keeps.small emitted
  indexed hash n member := by
    rcases List.mem_cons.mp member with rfl | member
    · obtain ⟨s, past, -, rfl, rfl, rfl⟩ := emitted.index_eq
      refine emitted.record_ne_none hashes keeps.hashes ?_ (by simp)
      have := holds.filed.dump s.number s.dump List.mem_cons_self
      omega
    · have := (holds.filed.index hash n member).1
      exact emitted.record_ne_none hashes keeps.hashes (by omega) (holds.indexed hash n member)
  disk v found := holds.disk v (disk ▸ found)
  height n positive height := by
    have before : u.Height n := by
      rcases height with rfl | found
      · exact memory positive
      · exact .inr (disk ▸ found)
    obtain ⟨small, stored, signed⟩ := holds.height n positive before
    refine ⟨small, emitted.record_ne_none hashes keeps.hashes (by omega) stored, signed.cons fun ext same => ?_⟩
    subst same
    exact keeps.data verified emitted positive before

theorem State.Emits.setLast_disk {action : Action} {u : Log} {n : Nat}
    (emitted : st.Emits env action u (.setLast n)) : u.get (text "last_signed_block") = some (decimal n) := by
  cases emitted with
  | unverified chosen saving => cases saving
  | block chosen emitted =>
      cases emitted with
      | save saving => cases saving
      | setLast => simp
  | signBlock chosen emitted =>
      cases emitted with
      | setLast => simp

theorem Log.HeightHolds.raise {u : Log} {n : Nat} {action : Action} (holds : u.HeightHolds)
    (hashes : env.lib.Hashes) (keeps : KeepsHeight env st action)
    (emitted : st.Emits env action u (.put (.lastSigned n)))
    (fits : n < 2 ^ 31 ∧ u.record n ≠ none ∧ u.Signed n) : Log.HeightHolds (.put (.lastSigned n) :: u) where
  filed := holds.filed.entry hashes keeps.hashes keeps.small emitted
  indexed hash n member := by
    have := holds.indexed hash n (by simpa using member)
    simpa using this
  disk v found := ⟨n, fits.1, by simpa using found.symm⟩
  height k positive height := by
    have known : k < 2 ^ 31 ∧ u.record k ≠ none ∧ u.Signed k := by
      rcases height with same | found
      · exact holds.height k positive (.inl same)
      · have same : n = k := by simpa using found
        exact same ▸ fits
    simpa [Log.Signed] using known

theorem Log.HeightHolds.entry {u : Log} {e : Event} {action : Action} (holds : u.HeightHolds)
    (hashes : env.lib.Hashes) (verified : env.settings.blockVerification = true) (linked : Linked env st)
    (keeps : KeepsHeight env st action) (before : st.log.HeightHolds) (emitted : st.Emits env action u e) :
    Log.HeightHolds (e :: u) := by
  have other (memory : Log.lastSignedBlock (e :: u) = u.lastSignedBlock)
      (disk : Log.get (e :: u) (text "last_signed_block") = u.get (text "last_signed_block")) :
      Log.HeightHolds (e :: u) :=
    holds.quiet hashes verified keeps emitted (fun _ => .inl memory) disk
  cases e with
  | put w =>
      cases w with
      | lastSigned n => exact holds.raise hashes keeps emitted (keeps.raised hashes linked before emitted)
      | _ => exact other rfl (by simp)
  | setLast n => exact holds.quiet hashes verified keeps emitted (fun _ => .inr emitted.setLast_disk) (by simp)
  | start fresh next last =>
      refine holds.quiet hashes verified keeps emitted (fun positive => .inr ?_) (by simp)
      obtain ⟨rfl, count, -, same⟩ := emitted.start_eq
      cases same
      simp only [Log.lastSignedBlock] at positive ⊢
      cases found : Log.get st.log (text "last_signed_block") with
      | none => simp [found] at positive
      | some v =>
          obtain ⟨n, small, rfl⟩ := holds.disk v found
          simp [atoi_decimal (n := n) (by omega), castNumber_small small]
  | _ => exact other rfl (by simp)

theorem reported_height_servable (env : Env) (hashes : env.lib.Hashes)
    (verified : env.settings.blockVerification = true) (st : State)
    (reached : Reached (step env) (fun st l => KeepsHeight env st l.action) .initial st)
    (moment : Log) (past : moment <:+ st.log) : moment.Servable := by
  have holds := (Reached.moments State.log (fun st l => st.Emits env l.action) (Linked env) Log.HeightHolds
    ?start (fun _ _ _ => step_grows) ?entry ?keeps reached).2 moment past
  case start =>
    refine ⟨fun _ _ _ walking => Phase.noConfusion walking, fun moment inside => ?_⟩
    obtain rfl := List.suffix_nil.mp inside
    refine ⟨.nil, by simp, by simp, fun n positive height => ?_⟩
    rcases height with rfl | found
    · cases positive
    · cases found
  case entry =>
    intro st l u e linked keeps later emitted held
    exact (held u (List.suffix_refl _)).entry hashes verified linked keeps (held st.log later) emitted
  case keeps => exact fun st l st' linked keeps stepped _ => linked_step hashes verified keeps.hashes linked stepped
  intro positive
  obtain ⟨-, stored, signed⟩ := holds.height _ positive (.inl rfl)
  have ok : verifiedOk moment (decimal moment.lastSignedBlock) = true := by
    obtain ⟨ext, found, status⟩ := signed
    simp only [verifiedOk, Option.mem_def.mp found, status, decide_true]
  simpa [getBlockByNum, ok] using stored

theorem reported_height_servable_two_blocks :
    ∃ st, Reached (step Sample.pair) (fun st l => KeepsHeight Sample.pair st l.action) .initial st ∧
      st.log.lastSignedBlock = 13001 ∧ st.log.Servable := by
  have ran : ∃ st ∈ runAllowed (step Sample.pair) (fun st l => KeepsHeight Sample.pair st l.action)
      .initial (Sample.start 13001 :: Sample.deliver [(13001, 1), (13002, 2)] ++
        [Sample.turn (some [0]), Sample.turn none]), st.log.lastSignedBlock = 13001 := by
    decide +kernel
  obtain ⟨st, ran, height⟩ := ran
  have reached := Reached.run .start ran
  exact ⟨st, reached, height, reported_height_servable _ (Sample.env_hashes (by decide)) rfl st reached st.log
    (List.suffix_refl _)⟩

theorem reported_height_not_servable :
    Sample.pair.lib.Hashes ∧ Sample.pair.settings.blockVerification = true ∧
    ∃ st, Reached (step Sample.pair) (fun _ _ => True) .initial st ∧ ¬st.log.Servable := by
  have ran : ∃ st ∈ runAllowed (step Sample.pair) (fun _ _ => True)
      .initial (Sample.start 13001 :: Sample.deliver [(13001, 2)] ++ [Sample.turn (some [1])]),
      st.log.lastSignedBlock = 13000 ∧ getBlockByNum st.log (decimal 13000) true = none := by
    decide +kernel
  obtain ⟨st, ran, height, missing⟩ := ran
  refine ⟨Sample.env_hashes (by decide), rfl, st, Reached.run .start ran, fun servable => ?_⟩
  simp only [Log.Servable, height] at servable
  exact servable (by norm_num) missing

end FullnodeClient.Cache
