import FullnodeClient.Cache.RoutineOne

/-!
# Two versions on one database

A database directory that is synchronised by `routine` or by `routine_2`, whichever the settings name
when the process starts. Readers parse a record as it is stored.
-/

namespace FullnodeClient.Cache
open FullnodeClient.Lib FullnodeClient.Text

variable {env : Env} {wire : One.Wire}

inductive Running
  | down
  | one (phase : One.Phase)
  | two (carried : Carried) (phase : Phase)

/-- `downloads` remembers the uncompressed dumps of the blocks whose records were written, newest first. -/
structure Host where
  log : Log
  downloads : List (Nat × Bytes)
  running : Running

inductive HostLabel
  | one (l : One.Label)
  | two (l : Label)

namespace Host

def initial : Host := ⟨[], [], .down⟩

def one (h : Host) : Option One.State :=
  match h.running with
  | .down => some ⟨h.log, .down⟩
  | .one phase => some ⟨h.log, phase⟩
  | .two _ _ => none

def two (h : Host) : Option State :=
  match h.running with
  | .down => some ⟨h.log, .initial, .down⟩
  | .one _ => none
  | .two carried phase => some ⟨h.log, carried, phase⟩

def download (env : Env) (wire : One.Wire) (h : Host) : HostLabel → Option (Nat × Bytes)
  | .one l => do
      let s ← (← h.one).save env wire l.action
      return (s.number, ← wire.decompress s.dump)
  | .two l => do
      let s ← (← h.two).save env l.action
      return (s.number, s.dump)

def advance (h : Host) (download : Option (Nat × Bytes)) (log : Log) (running : Running) : Host where
  log := log
  downloads := if h.log.stored.length < log.stored.length then download.toList ++ h.downloads else h.downloads
  running := running

def step (env : Env) (wire : One.Wire) (h : Host) : HostLabel → Option Host
  | .one l => do
      let st ← One.step env wire (← h.one) l
      return h.advance (h.download env wire (.one l)) st.log (if st.phase = .down then .down else .one st.phase)
  | .two l => do
      let st ← Cache.step env (← h.two) l
      return h.advance (h.download env wire (.two l)) st.log
        (if st.phase = .down then .down else .two st.carried st.phase)

def downloaded (h : Host) (n : Nat) : Option Bytes := (h.downloads.find? (·.1 = n)).map Prod.snd

def ReadsBack (lib : TorrentLib) (h : Host) : Prop :=
  ∀ n < 2 ^ 64,
    match h.downloaded n with
    | some dump => ∃ d, getBlockByNum h.log (decimal n) false = some d ∧ lib.parseBlockDump d = lib.parseBlockDump dump
    | none => getBlockByNum h.log (decimal n) false = none

end Host

def Readable (env : Env) (wire : One.Wire) (h : Host) : HostLabel → Prop
  | .one l => ∀ st ∈ h.one, ∀ s ∈ st.save env wire l.action, ∀ buf ∈ wire.decompress s.dump,
      env.lib.parseBlockDump s.dump = env.lib.parseBlockDump buf
  | .two _ => ∀ st ∈ h.two, ∀ s ∈ st.unverified env, s.hash.length = 32

instance (h : Host) (l : HostLabel) : Decidable (Readable env wire h l) := by
  cases l <;> unfold Readable <;> infer_instance

inductive Log.Gains (start : Log) (save : Option Save) (u : Log) : Prop
  | same : u.stored = start.stored → (∀ n < 2 ^ 64, u.record n = start.record n) → Gains start save u
  | saved {s : Save} : save = some s → u.stored = s.number :: start.stored →
      (∀ n < 2 ^ 64, u.record n = if s.number = n then some s.dump else start.record n) → Gains start save u

def Event.Quiet (e : Event) (u : Log) : Prop :=
  Log.stored (e :: u) = u.stored ∧ ∀ n < 2 ^ 64, Log.record (e :: u) n = u.record n

theorem Log.Gains.of_grows {emits : Log → Event → Prop} {start finish : Log} {save : Option Save}
    (grown : Grows emits start finish)
    (each : ∀ u e, emits u e → (∃ s, save = some s ∧ e = .put (.dump s.number s.dump) ∧
      u.stored = start.stored ∧ u.get = start.get) ∨ e.Quiet u) : start.Gains save finish := by
  refine grown.always (P := start.Gains save) (.same rfl fun _ _ => rfl) fun u e _ emitted gains => ?_
  rcases each u e emitted with ⟨s, chosen, rfl, stored, get⟩ | ⟨stored, records⟩
  · exact .saved chosen (congrArg (s.number :: ·) stored) fun n small => by simp [get]
  · cases gains with
    | same before kept => exact .same (stored.trans before) fun n small => (records n small).trans (kept n small)
    | saved chosen before kept =>
        exact .saved chosen (stored.trans before) fun n small => (records n small).trans (kept n small)

theorem Save.Emits.dump_or_quiet {s : Save} {past u : Log} {e : Event} (saving : s.Emits past u e)
    (long : s.hash.length = 32) : e = .put (.dump s.number s.dump) ∧ u = past ∨ e.Quiet u := by
  cases saving with
  | dump => exact .inl ⟨rfl, rfl⟩
  | index => exact .inr ⟨rfl, fun n small => by simp [bin2hex_ne_decimal long small]⟩
  | data => exact .inr ⟨rfl, fun n _ => by simp⟩
  | next => exact .inr ⟨rfl, fun n _ => rfl⟩
  | nextBlock => exact .inr ⟨rfl, fun n _ => by simp⟩

theorem One.step_gains (hashes : env.lib.Hashes) {st st' : One.State} {l : One.Label}
    (stepped : One.step env wire st l = some st') : st.log.Gains (st.save env wire l.action) st'.log := by
  refine .of_grows (One.step_grows stepped) fun u e emitted => ?_
  cases emitted with
  | start => exact .inr ⟨rfl, fun n _ => rfl⟩
  | count => exact .inr ⟨rfl, fun n _ => rfl⟩
  | next => exact .inr ⟨rfl, fun n _ => rfl⟩
  | nextBlock => exact .inr ⟨rfl, fun n _ => by simp⟩
  | save chosen saving =>
      refine (saving.dump_or_quiet (One.State.save_long hashes chosen)).imp_left ?_
      rintro ⟨rfl, rfl⟩
      exact ⟨_, chosen, rfl, rfl, rfl⟩

theorem step_gains (hashes : env.lib.Hashes) {st st' : State} {l : Label}
    (long : ∀ s ∈ st.unverified env, s.hash.length = 32) (stepped : step env st l = some st') :
    st.log.Gains (st.save env l.action) st'.log := by
  refine .of_grows (step_grows stepped) fun u e emitted => ?_
  generalize acted : l.action = action at emitted
  cases emitted with
  | start => exact .inr ⟨rfl, fun n _ => rfl⟩
  | unverified chosen saving =>
      refine (saving.dump_or_quiet (long _ chosen)).imp_left ?_
      rintro ⟨rfl, rfl⟩
      exact ⟨_, State.save_of_unverified chosen, rfl, rfl, rfl⟩
  | @block fetch faults c _ _ chosen emitted =>
      cases emitted with
      | save saving =>
          have accepted : st.save env (.frame fetch faults) = some c.save := State.save_of_candidate chosen
          refine (saving.dump_or_quiet (State.save_long hashes long accepted)).imp_left ?_
          rintro ⟨rfl, rfl⟩
          exact ⟨_, accepted, rfl, rfl, rfl⟩
      | block => exact .inr ⟨rfl, fun n _ => rfl⟩
      | setLast => exact .inr ⟨rfl, fun n _ => rfl⟩
      | _ => exact .inr ⟨rfl, fun n _ => by simp⟩
  | signBlock chosen emitted =>
      cases emitted with
      | signBlock => exact .inr ⟨rfl, fun n _ => rfl⟩
      | setLast => exact .inr ⟨rfl, fun n _ => rfl⟩
      | _ => exact .inr ⟨rfl, fun n _ => by simp⟩

theorem Host.one_log {h : Host} {st : One.State} (running : h.one = some st) : st.log = h.log := by
  unfold Host.one at running
  split at running <;> cases running <;> rfl

theorem Host.two_log {h : Host} {st : State} (running : h.two = some st) : st.log = h.log := by
  unfold Host.two at running
  split at running <;> cases running <;> rfl

theorem Host.ReadsBack.advance {lib : TorrentLib} {h : Host} {download : Option (Nat × Bytes)} {log : Log}
    {running : Running} {save : Option Save} (back : h.ReadsBack lib) (gains : h.log.Gains save log)
    (source : ∀ s ∈ save, ∃ buf, download = some (s.number, buf) ∧ lib.parseBlockDump s.dump = lib.parseBlockDump buf) :
    (h.advance download log running).ReadsBack lib := by
  intro n small
  have before := back n small
  simp only [getBlockByNum, Bool.false_and, Bool.false_eq_true, if_false, Host.downloaded, Host.advance] at before ⊢
  cases gains with
  | same stored records =>
      have kept : log.get (decimal n) = h.log.get (decimal n) := records n small
      rw [stored, if_neg (lt_irrefl _), kept]
      exact before
  | @saved s chosen stored records =>
      obtain ⟨buf, rfl, parsed⟩ := source s chosen
      have found : log.get (decimal n) = if s.number = n then some s.dump else h.log.get (decimal n) := records n small
      rw [stored, if_pos (by simp), found]
      by_cases here : s.number = n
      · simpa [here] using parsed
      · simpa [here] using before

theorem stored_dumps_read_back (env : Env) (wire : One.Wire) (hashes : env.lib.Hashes) (h : Host)
    (reached : Reached (Host.step env wire) (Readable env wire) .initial h) : h.ReadsBack env.lib := by
  induction reached with
  | start => exact fun n _ => rfl
  | @step h h' l _ readable stepped back =>
      cases l with
      | one l =>
          obtain ⟨st, running, next⟩ := Option.bind_eq_some_iff.mp stepped
          obtain ⟨st', took, same⟩ := Option.bind_eq_some_iff.mp next
          obtain rfl := Option.some.inj same
          have log : st.log = h.log := Host.one_log running
          refine back.advance (log ▸ One.step_gains hashes took) fun s (chosen : _ = some s) => ?_
          obtain ⟨buf, b, decompressed, -⟩ := One.State.save_eq_some chosen
          refine ⟨buf, ?_, readable st running s chosen buf decompressed⟩
          simp [Host.download, running, chosen, decompressed]
      | two l =>
          obtain ⟨st, running, next⟩ := Option.bind_eq_some_iff.mp stepped
          obtain ⟨st', took, same⟩ := Option.bind_eq_some_iff.mp next
          obtain rfl := Option.some.inj same
          have log : st.log = h.log := Host.two_log running
          refine back.advance (log ▸ step_gains hashes (readable st running) took) fun s (chosen : _ = some s) => ?_
          exact ⟨s.dump, by simp [Host.download, running, chosen], rfl⟩

def Sample.marked : One.Wire where
  decompress body := if body.head? = some 9 then some body.tail else some body
  isJson _ := false

theorem stored_dumps_read_back_two_versions :
    ∃ h, Reached (Host.step Sample.pair Sample.marked) (Readable Sample.pair Sample.marked) .initial h ∧
      h.downloaded 13001 = some [1] ∧ h.downloaded 13002 = some [2] ∧ h.ReadsBack Sample.pair.lib := by
  have ran : ∃ h ∈ runAllowed (Host.step Sample.pair Sample.marked) (Readable Sample.pair Sample.marked) .initial
      ([.one ⟨.start, none⟩, .one ⟨.count (some 13002), none⟩, .one ⟨.dump [1] [], none⟩, .one ⟨.stop, some 0⟩] ++
        (Sample.start 13001 :: Sample.deliver [(13002, 2)] ++ [Sample.turn none]).map .two),
      h.downloaded 13001 = some [1] ∧ h.downloaded 13002 = some [2] := by
    decide +kernel
  obtain ⟨h, ran, first, second⟩ := ran
  have reached := Reached.run .start ran
  exact ⟨h, reached, first, second, stored_dumps_read_back _ _ (Sample.env_hashes (by decide)) h reached⟩

theorem stored_dump_is_compressed :
    Sample.pair.lib.Hashes ∧
    ∃ h, Reached (Host.step Sample.pair Sample.marked) (fun _ _ => True) .initial h ∧ ¬h.ReadsBack Sample.pair.lib := by
  have ran : ∃ h ∈ runAllowed (Host.step Sample.pair Sample.marked) (fun _ _ => True) .initial
      [.one ⟨.start, none⟩, .one ⟨.count (some 13002), none⟩, .one ⟨.dump [9, 1] [], none⟩],
      h.downloaded 13001 = some [1] ∧ getBlockByNum h.log (decimal 13001) false = some [9, 1] := by
    decide +kernel
  obtain ⟨h, ran, downloaded, read⟩ := ran
  refine ⟨Sample.env_hashes (by decide), h, Reached.run .start ran, fun back => ?_⟩
  have read' := back 13001 (by decide)
  rw [downloaded] at read'
  obtain ⟨d, found, parsed⟩ := read'
  obtain rfl := Option.some.inj (read.symm.trans found)
  cases parsed

end FullnodeClient.Cache
