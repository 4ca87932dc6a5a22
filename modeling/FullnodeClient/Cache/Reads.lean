import FullnodeClient.Cache.Walk

/-!
# Verified reads

`get_block_by_num` reads the status and the record in two Gets, at two moments of the log.
-/

namespace FullnodeClient.Cache
open FullnodeClient.Lib FullnodeClient.Text

variable {env : Env} {st : State}

/-- `get_block_by_num` with `verify`, its first Get at the moment `first` and its second one at `second`. -/
def verifiedRead (first second : Log) (n : Nat) : Option Bytes :=
  if verifiedOk first (decimal n) then second.record n else none

theorem verifiedRead_self (log : Log) (n : Nat) : verifiedRead log log n = getBlockByNum log (decimal n) true := by
  cases ok : verifiedOk log (decimal n) <;> simp [verifiedRead, getBlockByNum, ok]

def SignedWhile (log : Log) (n : Nat) (dump : Bytes) : Prop :=
  ∃ (ext : ExtData) (past : Log), .put (.data (decimal n) ext) :: past <:+ log ∧
    ExtData.status ext = ExtData.signed ∧ past.record n = some dump

structure SavesOnce (env : Env) (st : State) (action : Action) : Prop where
  once : ∀ s ∈ st.save env action, st.log.record s.number = some s.dump ∨
    (st.log.record s.number = none ∧ getExtraData st.log s.number = none)
  hashes : ∀ s ∈ st.unverified env, s.hash.length = 32

instance (action : Action) : Decidable (SavesOnce env st action) :=
  decidable_of_iff (_ ∧ _) ⟨fun ⟨a, b⟩ => ⟨a, b⟩, fun ⟨a, b⟩ => ⟨a, b⟩⟩

def Log.Settled (log : Log) : Prop :=
  ∀ moment : Log, moment <:+ log → ∀ n < 2 ^ 64, getExtraData moment n ≠ none →
    log.record n = moment.record n ∧ getExtraData log n ≠ none

def Log.SignedRecords (log : Log) : Prop :=
  ∀ n < 2 ^ 64, ∀ dump, log.Signed n → log.record n = some dump → SignedWhile log n dump

theorem SignedWhile.mono {log log' : Log} {n : Nat} {dump : Bytes} (signed : SignedWhile log n dump)
    (later : log <:+ log') : SignedWhile log' n dump := by
  obtain ⟨ext, past, inside, status, found⟩ := signed
  exact ⟨ext, past, inside.trans later, status, found⟩

theorem getExtraData_ne_none_cons {e : Event} {u : Log} {n : Nat} (present : getExtraData u n ≠ none) :
    getExtraData (e :: u) n ≠ none := by
  rcases e.data_eq u with ⟨num, ext, rfl⟩ | same
  · simp only [Log.get_put]
    split
    case isTrue => simp
    case isFalse => exact present
  · rwa [same]

theorem SavesOnce.record_eq {action : Action} {u : Log} {e : Event} (hashes : env.lib.Hashes)
    (once : SavesOnce env st action) (emitted : st.Emits env action u e) {n : Nat} (small : n < 2 ^ 64)
    (present : getExtraData u n ≠ none) : Log.record (e :: u) n = u.record n := by
  rcases emitted.record_eq hashes once.hashes with ⟨s, chosen, rfl, same⟩ | kept
  · by_cases here : s.number = n
    · subst here
      rw [getExtraData, same] at present
      rcases once.once s chosen with stored | ⟨-, absent⟩
      · have stored : u.record s.number = some s.dump := by rw [Log.record, same]; exact stored
        simp [stored]
      · exact absurd absent present
    · simp [here]
  · exact kept n small

theorem Log.Settled.entry {action : Action} {u : Log} {e : Event} (hashes : env.lib.Hashes)
    (once : SavesOnce env st action) (emitted : st.Emits env action u e) (settled : u.Settled) :
    Log.Settled (e :: u) := by
  intro moment inside n small present
  rcases List.suffix_cons_iff.mp inside with rfl | inside
  · exact ⟨rfl, present⟩
  · obtain ⟨kept, still⟩ := settled moment inside n small present
    exact ⟨(once.record_eq hashes emitted small still).trans kept, getExtraData_ne_none_cons still⟩

theorem Log.SignedRecords.entry {action : Action} {u : Log} {e : Event} (hashes : env.lib.Hashes)
    (once : SavesOnce env st action) (emitted : st.Emits env action u e) (signed : u.SignedRecords) :
    Log.SignedRecords (e :: u) := by
  intro n small dump marked found
  have mono : SignedWhile u n dump → SignedWhile (e :: u) n dump := (·.mono (List.suffix_cons _ _))
  have before (marked : u.Signed n) : u.record n = some dump := by
    obtain ⟨ext, present, -⟩ := marked
    rw [← found, once.record_eq hashes emitted small (by rw [present]; simp)]
  rcases e.data_eq u with ⟨num, ext, rfl⟩ | same
  · rw [Log.signed_data] at marked
    split at marked
    case isTrue here =>
      subst here
      exact ⟨ext, u, List.suffix_refl _, marked, by simpa using found⟩
    case isFalse => exact mono (signed n small dump marked (before marked))
  · have marked : u.Signed n := by simpa only [Log.Signed, same] using marked
    exact mono (signed n small dump marked (before marked))

theorem verified_read_fails_closed (env : Env) (hashes : env.lib.Hashes) (st : State)
    (reached : Reached (step env) (fun st l => SavesOnce env st l.action) .initial st)
    (first second : Log) (order : first <:+ second) (past : second <:+ st.log) (n : Nat) (small : n < 2 ^ 64)
    (present : getExtraData first n ≠ none) (dump : Bytes) (read : verifiedRead first second n = some dump) :
    SignedWhile second n dump := by
  have held := (Reached.moments State.log (fun st l => st.Emits env l.action) (fun _ => True)
    (fun log => Log.Settled log ∧ Log.SignedRecords log) ?start (fun _ _ _ => step_grows) ?entry
    (fun _ _ _ _ _ _ _ => trivial) reached).2
  case start =>
    refine ⟨trivial, fun moment inside => ?_⟩
    obtain rfl := List.suffix_nil.mp inside
    refine ⟨fun moment inside n _ present => ?_, fun n _ dump marked => ?_⟩
    · obtain rfl := List.suffix_nil.mp inside
      exact absurd rfl present
    · obtain ⟨ext, missing, -⟩ := marked
      cases missing
  case entry =>
    intro st l u e _ once _ emitted held
    obtain ⟨settled, signed⟩ := held u (List.suffix_refl _)
    exact ⟨settled.entry hashes once emitted, signed.entry hashes once emitted⟩
  unfold verifiedRead at read
  split at read
  case isFalse => cases read
  case isTrue ok =>
    have marked : first.Signed n := by
      unfold verifiedOk at ok
      split at ok
      case h_1 ext found => exact ⟨ext, found, by simpa using ok⟩
      case h_2 missing => exact absurd missing present
    have kept := ((held second past).1 first order n small present).1
    exact ((held first (order.trans past)).2 n small dump marked (kept ▸ read)).mono order

theorem verified_read_signed_block :
    ∃ st, Reached (step Sample.pair) (fun st l => SavesOnce Sample.pair st l.action) .initial st ∧
      verifiedRead st.log st.log 13001 = some [1] ∧ SignedWhile st.log 13001 [1] := by
  have ran : ∃ st ∈ runAllowed (step Sample.pair) (fun st l => SavesOnce Sample.pair st l.action)
      .initial (Sample.start 13001 :: Sample.deliver [(13001, 1), (13002, 2)] ++
        [Sample.turn (some [0]), Sample.turn none]),
      getExtraData st.log 13001 ≠ none ∧ verifiedRead st.log st.log 13001 = some [1] := by
    decide +kernel
  obtain ⟨st, ran, present, read⟩ := ran
  have reached := Reached.run .start ran
  exact ⟨st, reached, read, verified_read_fails_closed _ (Sample.env_hashes (by decide)) st reached st.log st.log
    (List.suffix_refl _) (List.suffix_refl _) 13001 (by decide) present [1] read⟩

/-- The process is killed after the first Put of `save_block`: the record is there, its status is not, and
the read returns the block. -/
theorem verified_read_without_status :
    ∃ st, Reached (step Sample.pair) (fun _ _ => True) .initial st ∧
      verifiedRead st.log st.log 13001 = some [1] ∧ ¬SignedWhile st.log 13001 [1] := by
  have ran : ∃ st ∈ runAllowed (step Sample.pair) (fun _ _ => True)
      .initial (Sample.start 13001 :: Sample.deliver [(13001, 1)] ++
        [⟨(Sample.turn (some [0])).action, some 2⟩]),
      verifiedRead st.log st.log 13001 = some [1] ∧ ∀ moment ∈ st.log.tails, getExtraData moment 13001 = none := by
    decide +kernel
  obtain ⟨st, ran, read, unmarked⟩ := ran
  refine ⟨st, Reached.run .start ran, read, ?_⟩
  rintro ⟨ext, past, inside, -⟩
  simpa using unmarked _ ((List.mem_tails _ _).mpr inside)

end FullnodeClient.Cache
