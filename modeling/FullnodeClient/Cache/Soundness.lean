import FullnodeClient.Cache.Walk

/-!
# Signed means signed

A status `signed` is backed by what the replies contained, as long as the server does not make two
blocks share a number.
-/

namespace FullnodeClient.Cache
open FullnodeClient.Lib FullnodeClient.Text

variable {env : Env} {st : State}

inductive Evidence (env : Env) (log : Log) (n : Nat) (b : BlockInfo) : Prop
  | stateBlock : b.isStateBlock = true → Evidence env log n b
  | forgingBlock : b.isForgingBlock = true → Evidence env log n b
  | autoSigned : autoSignedBlock n = true → Evidence env log n b
  | block {c : BlockInfo} : .block c ∈ log → c.prevHash = b.hash →
      0 < coreAddrVerification env c (StringUtils.bin2hex b.hash) → Evidence env log n b
  | child {dump : Bytes} {m : Nat} {child c : BlockInfo} : env.lib.Holds dump m child → child.prevHash = b.hash →
      .block c ∈ log → c.prevHash = child.hash →
      0 < coreAddrVerification env c (StringUtils.bin2hex child.hash) → Evidence env log n b
  | signBlock {s : SignBlockInfo} : .signBlock s ∈ log → s.prevHash = b.hash → 0 < signBlockVerification env s →
      Evidence env log n b

def Log.Sound (env : Env) (log : Log) : Prop :=
  ∀ n dump b, 1 < n → n < 2 ^ 64 → log.Signed n → log.record n = some dump → env.lib.blockOf dump = some b →
    Evidence env log n b

structure KeepsApart (env : Env) (st : State) (action : Action) : Prop where
  signed : ∀ s ∈ st.save env action, st.log.Signed s.number → st.log.record s.number = some s.dump
  distinct : ∀ c ∈ st.accepted env action, c.prev.blockNumber ≠ some c.number
  indexed : ∀ x ∈ st.signBlock env, 0 < signBlockVerification env x.2 →
    ∀ num ∈ getBlockNumByHash st.log x.2.prevHash, ∀ d ∈ st.log.get num,
      ∃ b ∈ env.lib.blockOf d, b.hash = x.2.prevHash
  hashes : ∀ s ∈ st.unverified env, s.hash.length = 32

instance (action : Action) : Decidable (KeepsApart env st action) :=
  decidable_of_iff (_ ∧ _ ∧ _ ∧ _) ⟨fun ⟨a, b, c, d⟩ => ⟨a, b, c, d⟩, fun ⟨a, b, c, d⟩ => ⟨a, b, c, d⟩⟩

theorem Evidence.cons {log : Log} {n : Nat} {b : BlockInfo} {e : Event} (evidence : Evidence env log n b) :
    Evidence env (e :: log) n b := by
  cases evidence with
  | stateBlock h => exact .stateBlock h
  | forgingBlock h => exact .forgingBlock h
  | autoSigned h => exact .autoSigned h
  | block seen linked verified => exact .block (List.mem_cons_of_mem _ seen) linked verified
  | child holds parent seen linked verified =>
      exact .child holds parent (List.mem_cons_of_mem _ seen) linked verified
  | signBlock seen linked verified => exact .signBlock (List.mem_cons_of_mem _ seen) linked verified

namespace Log.Sound

variable {past : Log}

theorem quiet (sound : Sound env past) {e : Event} (record : ∀ n < 2 ^ 64, Log.record (e :: past) n = past.record n)
    (data : ∀ n, getExtraData (e :: past) n = getExtraData past n) : Sound env (e :: past) := by
  intro n dump b above small signed found parsed
  rw [record n small] at found
  simp only [Log.Signed, data] at signed
  exact (sound n dump b above small signed found parsed).cons

theorem dump (sound : Sound env past) {n : Nat} {d : Bytes} (same : past.Signed n → past.record n = some d) :
    Sound env (.put (.dump n d) :: past) := by
  intro k dump b above small signed found parsed
  have signed : past.Signed k := by simpa [Log.Signed] using signed
  have found : past.record k = some dump := by
    by_cases here : n = k
    · subst here
      rw [same signed]
      simpa using found
    · simpa [here] using found
  exact (sound k dump b above small signed found parsed).cons

theorem data (sound : Sound env past) {num : Bytes} {ext : ExtData}
    (backed : ∀ n dump b, 1 < n → n < 2 ^ 64 → num = decimal n → ExtData.status ext = ExtData.signed →
      past.record n = some dump → env.lib.blockOf dump = some b → Evidence env past n b) :
    Sound env (.put (.data num ext) :: past) := by
  intro n dump b above small signed found parsed
  have found : past.record n = some dump := by simpa using found
  rw [Log.signed_data] at signed
  split at signed
  case isTrue here => exact (backed n dump b above small here signed found parsed).cons
  case isFalse => exact (sound n dump b above small signed found parsed).cons

theorem save {u : Log} {e : Event} {s : Save} (sound : Sound env u) (saving : s.Emits past u e)
    (long : s.hash.length = 32) (same : past.Signed s.number → past.record s.number = some s.dump)
    (status : 1 < s.number → ExtData.status s.ext ≠ ExtData.signed) : Sound env (e :: u) := by
  cases saving with
  | dump => exact sound.dump same
  | index =>
      exact sound.quiet (fun n small => by simp [bin2hex_ne_decimal long small]) fun n => by simp
  | data =>
      refine sound.data fun n dump b above small number signed _ _ => absurd signed (status ?_)
      rwa [decimal_injective number]
  | next => exact sound.quiet (fun n _ => by simp) fun n => by simp
  | nextBlock => exact sound.quiet (fun n _ => by simp) fun n => by simp

end Log.Sound

theorem Candidate.Signs.evidence {fetch : Nat → Option Bytes} {c : Candidate} {u : Log} {n : Nat} {ext : ExtData}
    (hashes : env.lib.Hashes) (checked : c.Checked env fetch st) (linked : Linked env st)
    (distinct : c.prev.blockNumber ≠ some c.number) (signs : c.Signs env fetch st.log u n ext) (small : n < 2 ^ 64)
    {dump : Bytes} {b : BlockInfo} (found : u.record n = some dump) (parsed : env.lib.blockOf dump = some b) :
    Evidence env u n b := by
  have long := hashes.length_of_holds checked.holds
  obtain ⟨m, dump₀, -, number, holds, stored⟩ := checked.prev_holds linked
  cases signs with
  | own exempt after =>
      rw [(Candidate.After.saved after).record_eq long small, if_pos rfl] at found
      obtain rfl := Option.some.inj found
      obtain ⟨b', parsed', same⟩ := checked.holds
      obtain rfl := Option.some.inj (parsed.symm.trans parsed')
      rw [checked.verify] at exempt
      rcases coreAddrVerification_intMax exempt with state | forging | ⟨number, known, auto⟩
      · exact .stateBlock (by simpa [same] using state)
      · exact .forgingBlock (by simpa [same] using forging)
      · refine .autoSigned ?_
        rw [same] at known
        exact Option.some.inj known ▸ auto
  | previous verified known _ after =>
      obtain rfl := Option.some.inj (number.symm.trans known)
      have other : c.number ≠ m := fun same => distinct (same ▸ number)
      rw [after.record_eq long small, if_neg other] at found
      obtain rfl := stored _ found
      obtain ⟨b', parsed', same⟩ := holds
      obtain rfl := Option.some.inj (parsed.symm.trans parsed')
      have hash : c.prev.hash = b.hash := by rw [same]
      refine .block after.block_mem (checked.linked.trans hash) ?_
      rw [← hash, ← checked.verify]
      exact verified.1
  | broken verified known _ after _ repaired =>
      obtain rfl := Option.some.inj (number.symm.trans known)
      obtain ⟨b1, ex1, b2, got, -, child, -⟩ := brokenBlock_eq_some repaired
      obtain ⟨-, dump₁, ⟨b', parsed', same⟩, source⟩ := getBlock_eq_some got
      rcases source with stored | ⟨missing, -⟩
      · obtain rfl := Option.some.inj (found.symm.trans stored)
        obtain rfl := Option.some.inj (parsed.symm.trans parsed')
        refine .child holds (child.trans (by rw [same])) after.block_mem checked.linked ?_
        rw [← checked.verify]
        exact verified.1
      · rw [found] at missing
        cases missing

theorem Log.Sound.entry {action : Action} {u : Log} {e : Event} (hashes : env.lib.Hashes)
    (verified : env.settings.blockVerification = true) (linked : Linked env st) (apart : KeepsApart env st action)
    (emitted : st.Emits env action u e) (sound : Sound env u) : Sound env (e :: u) := by
  cases emitted with
  | start => exact sound.quiet (fun n _ => by simp [startEvent]) fun n => by simp [startEvent]
  | unverified chosen saving =>
      obtain ⟨low, ext⟩ := State.unverified_number verified chosen
      exact sound.save saving (apart.hashes _ chosen) (apart.signed _ (State.save_of_unverified chosen))
        fun above => absurd above (by omega)
  | block chosen emitted =>
      have checked := State.candidate_checked chosen
      have long := hashes.length_of_holds checked.holds
      cases emitted with
      | block => exact sound.quiet (fun n _ => by simp) fun n => by simp
      | save saving =>
          exact sound.save saving long (apart.signed _ (State.save_of_candidate chosen)) fun _ =>
            (by decide : ExtData.status (ExtData.of ExtData.notChecked) ≠ ExtData.signed)
      | awaiting => exact sound.data fun n dump b _ _ _ signed => absurd signed (by decide)
      | status signs =>
          refine sound.data fun n dump b _ small same _ found parsed => ?_
          obtain rfl := decimal_injective same
          exact signs.evidence hashes checked linked (apart.distinct _ chosen) small found parsed
      | lastSigned => exact sound.quiet (fun n _ => by simp) fun n => by simp
      | setLast => exact sound.quiet (fun n _ => by simp) fun n => by simp
  | @signBlock faults _ info _ _ chosen emitted =>
      cases emitted with
      | signBlock => exact sound.quiet (fun n _ => by simp) fun n => by simp
      | data found =>
          refine sound.data fun n dump b _ small same signed stored parsed => ?_
          have accepted : 0 < signBlockVerification env info := by
            by_contra refused
            simp [signBlockStatus, refused, ExtData.of, ExtData.status, ExtData.notSigned, ExtData.signed] at signed
          have stored : st.log.get (decimal n) = some dump := by simpa using stored
          obtain ⟨b', parsed', hash⟩ := apart.indexed _ chosen accepted _ found dump (same ▸ stored)
          obtain rfl := Option.some.inj (parsed.symm.trans parsed')
          exact .signBlock List.mem_cons_self hash.symm accepted
      | extra => exact sound.quiet (fun n _ => by simp) fun n => by simp
      | lastSigned => exact sound.quiet (fun n _ => by simp) fun n => by simp
      | setLast => exact sound.quiet (fun n _ => by simp) fun n => by simp

theorem signed_status_sound (env : Env) (hashes : env.lib.Hashes) (verified : env.settings.blockVerification = true)
    (st : State) (reached : Reached (step env) (fun st l => KeepsApart env st l.action) .initial st)
    (moment : Log) (past : moment <:+ st.log) : moment.Sound env := by
  refine (Reached.moments State.log (fun st l => st.Emits env l.action) (Linked env) (Log.Sound env)
    ?_ ?_ ?_ ?_ reached).2 moment past
  · refine ⟨fun _ _ _ walking => Phase.noConfusion walking, fun moment inside => ?_⟩
    obtain rfl := List.suffix_nil.mp inside
    rintro n dump b - - ⟨ext, missing, -⟩
    simp at missing
  · exact fun _ _ _ => step_grows
  · intro st l u e linked apart _ emitted sound
    exact Log.Sound.entry hashes verified linked apart emitted (sound u (List.suffix_refl _))
  · exact fun st l st' linked apart stepped _ => linked_step hashes verified apart.hashes linked stepped

theorem signed_status_sound_two_blocks :
    ∃ st, Reached (step Sample.pair) (fun st l => KeepsApart Sample.pair st l.action) .initial st ∧
      st.log.Signed 13001 ∧ st.log.Sound Sample.pair := by
  have ran : ∃ st ∈ runAllowed (step Sample.pair) (fun st l => KeepsApart Sample.pair st l.action)
      .initial (Sample.start 13001 :: Sample.deliver [(13001, 1), (13002, 2)] ++
        [Sample.turn (some [0]), Sample.turn none]), st.log.Signed 13001 := by
    decide +kernel
  obtain ⟨st, ran, signed⟩ := ran
  have reached := Reached.run .start ran
  have hashes : Sample.pair.lib.Hashes := Sample.env_hashes (by decide)
  exact ⟨st, reached, signed, signed_status_sound _ hashes rfl st reached st.log (List.suffix_refl _)⟩

theorem signed_status_unsound :
    Sample.pair.lib.Hashes ∧ Sample.pair.settings.blockVerification = true ∧
    ∃ st, Reached (step Sample.pair) (fun _ _ => True) .initial st ∧
      ¬st.log.Sound Sample.pair := by
  have ran : ∃ st ∈ runAllowed (step Sample.pair) (fun _ _ => True)
      .initial (Sample.start 13001 :: Sample.deliver [(13001, 1), (13001, 2)] ++
        [Sample.turn (some [0]), Sample.turn none]),
      st.log.Signed 13001 ∧ st.log.record 13001 = some [2] ∧
      (st.log.all fun
        | .block c => c.prevHash ≠ Sample.hashOf 2
        | .signBlock _ => false
        | _ => true) := by
    decide +kernel
  have childless (dump : Bytes) (b : BlockInfo) (parsed : Sample.pair.lib.blockOf dump = some b) :
      b.prevHash ≠ Sample.hashOf 2 := by
    have member := Sample.mem_of_parse (TorrentLib.blockOf_eq_some.mp parsed)
    simp only [List.mem_cons, Sample.block, SomeBlock.block.injEq, List.not_mem_nil, or_false] at member
    rcases member with rfl | rfl | rfl <;> decide
  refine ⟨Sample.env_hashes (by decide), rfl, ?_⟩
  obtain ⟨st, ran, signed, stored, seen⟩ := ran
  rw [List.all_eq_true] at seen
  refine ⟨st, Reached.run .start ran, fun sound => ?_⟩
  cases sound 13001 [2] _ (by decide) (by decide) signed stored rfl with
  | stateBlock state => cases state
  | forgingBlock forging => cases forging
  | autoSigned auto => revert auto; decide
  | block member linked => simpa [linked] using seen _ member
  | child holds linked =>
      obtain ⟨b, parsed, rfl⟩ := holds
      exact childless _ b parsed linked
  | signBlock member => simpa using seen _ member

end FullnodeClient.Cache
