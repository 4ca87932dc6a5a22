import FullnodeClient.Cache.Walk

/-!
# Lookup by hash

The hash index shares its key space with the other records and keeps an entry when the number it names
is saved again. What a lookup returns has the hash that was asked for as long as the string is the key of
no other kind of record, and a stored number is saved again only with a block of the same hash.
-/

namespace FullnodeClient.Cache
open FullnodeClient.Lib FullnodeClient.Text

variable {env : Env} {st : State} {lib : TorrentLib}

def TorrentLib.LooksUp (lib : TorrentLib) (log : Log) (h : Bytes) : Prop :=
  ∀ verify num dump, getBlockByHash log h verify = some (num, dump) →
    ∃ n b, num = decimal n ∧ log.record n = some dump ∧ lib.blockOf dump = some b ∧ StringUtils.bin2hex b.hash = h

inductive Reserved : Bytes → Prop
  | dump {n : Nat} : n < 2 ^ 64 → Reserved (decimal n)
  | data (num : Bytes) : Reserved (dataKey num)
  | extra (num : Bytes) : Reserved (extraKey num)
  | nextBlock : Reserved (text "next_block")
  | lastSigned : Reserved (text "last_signed_block")

def TorrentLib.HasHash (lib : TorrentLib) (dump hash : Bytes) : Prop :=
  ∃ b ∈ lib.blockOf dump, b.hash = hash

instance (dump hash : Bytes) : Decidable (lib.HasHash dump hash) := by
  unfold TorrentLib.HasHash
  infer_instance

structure KeepsHashes (env : Env) (st : State) (action : Action) : Prop where
  again : ∀ s ∈ st.save env action, ∀ d ∈ st.log.record s.number, ∀ b ∈ env.lib.blockOf d, env.lib.HasHash s.dump b.hash
  announced : ∀ s ∈ st.unverified env, env.lib.HasHash s.dump s.hash

instance (action : Action) : Decidable (KeepsHashes env st action) :=
  decidable_of_iff (_ ∧ _) ⟨fun ⟨a, b⟩ => ⟨a, b⟩, fun ⟨a, b⟩ => ⟨a, b⟩⟩

structure Log.Indexed (lib : TorrentLib) (log : Log) : Prop where
  filed : log.Filed (2 ^ 32)
  hash : ∀ hash n, .put (.index hash n) ∈ log → ∃ d, log.record n = some d ∧ lib.HasHash d hash

theorem Log.Filed.get_eq {log : Log} (filed : log.Filed (2 ^ 32)) {h num : Bytes} (free : ¬Reserved h)
    (found : log.get h = some num) :
    ∃ hash n, h = StringUtils.bin2hex hash ∧ num = decimal n ∧ .put (.index hash n) ∈ log := by
  induction log with
  | nil => simp at found
  | cons e past ih =>
      have rest (found : Log.get past h = some num) :
          ∃ hash n, h = StringUtils.bin2hex hash ∧ num = decimal n ∧ .put (.index hash n) ∈ e :: past := by
        obtain ⟨hash, n, key, value, member⟩ := ih filed.tail found
        exact ⟨hash, n, key, value, List.mem_cons_of_mem _ member⟩
      cases e with
      | put w =>
          rw [Log.get_put] at found
          split at found
          case isFalse => exact rest found
          case isTrue here =>
            subst here
            cases w with
            | index hash n => exact ⟨hash, n, rfl, (Option.some.inj found).symm, List.mem_cons_self⟩
            | dump n d =>
                have small := filed.dump n d List.mem_cons_self
                exact absurd (Reserved.dump (by omega)) free
            | data num ext => exact absurd (Reserved.data num) free
            | extra num d => exact absurd (Reserved.extra num) free
            | nextBlock n => exact absurd Reserved.nextBlock free
            | lastSigned n => exact absurd Reserved.lastSigned free
      | _ => exact rest found

theorem Log.Indexed.looksUp {log : Log} (indexed : log.Indexed lib) {h : Bytes} (free : ¬Reserved h) :
    lib.LooksUp log h := by
  intro verify num dump read
  unfold getBlockByHash at read
  split at read
  case h_2 => cases read
  case h_1 num' found =>
    obtain ⟨hash, n, rfl, rfl, member⟩ := indexed.filed.get_eq free found
    obtain ⟨d, stored, b, parsed, same⟩ := indexed.hash hash n member
    simp only [decimal_ne_nil, if_false, Option.map_eq_some_iff, Prod.mk.injEq] at read
    obtain ⟨dump', got, rfl, rfl⟩ := read
    have got : log.record n = some dump' := by
      unfold getBlockByNum at got
      split at got
      case isTrue => cases got
      case isFalse => exact got
    obtain rfl := Option.some.inj (got.symm.trans stored)
    exact ⟨n, b, rfl, stored, parsed, by rw [same]⟩

theorem State.save_hasHash {action : Action} {s : Save} (announced : ∀ s ∈ st.unverified env, env.lib.HasHash s.dump s.hash)
    (chosen : st.save env action = some s) : env.lib.HasHash s.dump s.hash := by
  rcases State.save_cases chosen with ⟨c, accepted, rfl⟩ | chosen
  · obtain ⟨b, parsed, same⟩ := (State.candidate_checked accepted).holds
    exact ⟨b, parsed, by simp [Candidate.save, same]⟩
  · exact announced s chosen

theorem State.save_small {action : Action} {s : Save} (chosen : st.save env action = some s) : s.number < 2 ^ 32 := by
  rcases State.save_cases chosen with ⟨c, accepted, rfl⟩ | chosen
  · exact (State.candidate_checked accepted).small
  · obtain ⟨iter, dump, -, rfl, -⟩ := State.unverified_frame chosen
    exact iter.small

theorem Log.Indexed.entry {action : Action} {u : Log} {e : Event} (hashes : env.lib.Hashes)
    (keeps : KeepsHashes env st action) (emitted : st.Emits env action u e) (indexed : u.Indexed env.lib) :
    Log.Indexed env.lib (e :: u) := by
  have long (s : Save) (chosen : st.unverified env = some s) : s.hash.length = 32 := by
    obtain ⟨b, parsed, same⟩ := keeps.announced s chosen
    exact same ▸ hashes.block _ b (TorrentLib.blockOf_eq_some.mp parsed)
  have filed := indexed.filed.entry hashes long (fun s chosen => State.save_small chosen) emitted
  refine ⟨filed, fun hash n member => ?_⟩
  rcases List.mem_cons.mp member with rfl | member
  · obtain ⟨s, past, chosen, rfl, rfl, rfl⟩ := emitted.index_eq
    have small := State.save_small chosen
    have other := bin2hex_ne_decimal (n := s.number) (State.save_long hashes long chosen) (by omega)
    exact ⟨s.dump, by simp [other], State.save_hasHash keeps.announced chosen⟩
  · obtain ⟨d, stored, b, parsed, same⟩ := indexed.hash hash n member
    have small := (indexed.filed.index hash n member).1
    rcases emitted.record_eq hashes long with ⟨s, chosen, rfl, get⟩ | kept
    · by_cases here : s.number = n
      · subst here
        have stored : st.log.record s.number = some d := by rw [Log.record, ← get]; exact stored
        exact ⟨s.dump, by simp, same ▸ keeps.again s chosen d stored b parsed⟩
      · exact ⟨d, by simpa [here] using stored, b, parsed, same⟩
    · exact ⟨d, by rw [kept n (by omega)]; exact stored, b, parsed, same⟩

theorem hash_lookup_sound (env : Env) (hashes : env.lib.Hashes) (st : State)
    (reached : Reached (step env) (fun st l => KeepsHashes env st l.action) .initial st)
    (moment : Log) (past : moment <:+ st.log) (h : Bytes) (free : ¬Reserved h) : env.lib.LooksUp moment h := by
  refine ((Reached.moments State.log (fun st l => st.Emits env l.action) (fun _ => True) (Log.Indexed env.lib)
    ?start (fun _ _ _ => step_grows) ?entry (fun _ _ _ _ _ _ _ => trivial) reached).2 moment past).looksUp free
  case start =>
    refine ⟨trivial, fun moment inside => ?_⟩
    obtain rfl := List.suffix_nil.mp inside
    exact ⟨.nil, by simp⟩
  case entry =>
    intro st l u e _ keeps _ emitted held
    exact (held u (List.suffix_refl _)).entry hashes keeps emitted

theorem hash_lookup_of_stored_block :
    ∃ st, Reached (step Sample.pair) (fun st l => KeepsHashes Sample.pair st l.action) .initial st ∧
      getBlockByHash st.log (StringUtils.bin2hex (Sample.hashOf 1)) true = some (decimal 13001, [1]) ∧
      Sample.pair.lib.LooksUp st.log (StringUtils.bin2hex (Sample.hashOf 1)) := by
  have ran : ∃ st ∈ runAllowed (step Sample.pair) (fun st l => KeepsHashes Sample.pair st l.action)
      .initial (Sample.start 13001 :: Sample.deliver [(13001, 1), (13002, 2)] ++
        [Sample.turn (some [0]), Sample.turn none]),
      getBlockByHash st.log (StringUtils.bin2hex (Sample.hashOf 1)) true = some (decimal 13001, [1]) := by
    decide +kernel
  have free : ¬Reserved (StringUtils.bin2hex (Sample.hashOf 1)) := by
    generalize key : StringUtils.bin2hex (Sample.hashOf 1) = h
    rintro (small | num | num | _ | _)
    · exact bin2hex_ne_decimal rfl small key
    · exact bin2hex_ne_dataKey num _ key
    · exact extraKey_ne_bin2hex num _ key.symm
    · exact bin2hex_ne_nextBlock _ key
    · exact bin2hex_ne_lastSigned _ key
  obtain ⟨st, ran, found⟩ := ran
  have reached := Reached.run .start ran
  exact ⟨st, reached, found, hash_lookup_sound _ (Sample.env_hashes (by decide)) st reached st.log
    (List.suffix_refl _) _ free⟩

theorem hash_lookup_of_counter :
    Sample.pair.lib.Hashes ∧ Sample.pair.settings.blockVerification = true ∧
    ∃ st, Reached (step Sample.pair) (fun _ l => l.killed = none ∧ l.action.faults = []) .initial st ∧
      ¬Sample.pair.lib.LooksUp st.log (text "last_signed_block") := by
  have ran : ∃ st ∈ runAllowed (step Sample.pair) (fun _ l => l.killed = none ∧ l.action.faults = [])
      .initial (Sample.start 13001 :: Sample.deliver [(13001, 1), (13002, 2)] ++
        [Sample.turn (some [0]), Sample.turn none]),
      getBlockByHash st.log (text "last_signed_block") true = some (decimal 13001, [1]) := by
    decide +kernel
  obtain ⟨st, ran, found⟩ := ran
  refine ⟨Sample.env_hashes (by decide), rfl, st, Reached.run .start ran, fun sound => ?_⟩
  obtain ⟨n, b, -, -, -, same⟩ := sound true _ _ found
  exact bin2hex_ne_lastSigned _ same

end FullnodeClient.Cache
