import FullnodeClient.History.Cache

/-!
# Consistency of the history cache

Every list that is stored or in memory names transactions that are stored, none of them twice. A Put is
described by the log it is made on, and a list in memory by the log of its moment; both survive what comes
later, because no key is ever removed.
-/

namespace FullnodeClient.History
open FullnodeClient.Lib FullnodeClient.Text FullnodeClient.Rpc

def IsId (id : Bytes) : Prop := id.length = 64 ∧ ∀ c ∈ id, JsonText.isHexDigit c = true

instance (id : Bytes) : Decidable (IsId id) :=
  decidable_of_iff (id.length = 64 ∧ id.all JsonText.isHexDigit = true) (and_congr_right fun _ => List.all_eq_true)

def jsonIds (ids : List Bytes) : List Json := ids.map .str

theorem IsId.cStr_eq {id : Bytes} (isId : IsId id) : cStr id = id := by
  refine List.takeWhile_eq_self_iff.mpr fun c member => ?_
  have hex := isId.2 c member
  have : c ≠ 0 := by
    rintro rfl
    exact absurd hex (by decide)
  simpa using this

theorem found_eq {ids : List Bytes} (all : ∀ id ∈ ids, IsId id) {name : Bytes} (isId : IsId name) :
    found name (jsonIds ids) = some (decide (name ∈ ids)) := by
  induction ids with
  | nil => rfl
  | cons id ids ih =>
      obtain ⟨here, rest⟩ := List.forall_mem_cons.mp all
      have compared : (cStr id).take id.length = (cStr name).take id.length ↔ name = id := by
        rw [here.cStr_eq, isId.cStr_eq, List.take_length, here.1, ← isId.1, List.take_length, eq_comm]
      rw [jsonIds, List.map_cons, found, ← jsonIds, ih rest]
      simp only [compared, List.mem_cons, Bool.decide_or]
      by_cases same : name = id <;> simp [same]

variable {codec : Codec} {log log' : Log} {ids : List Bytes}

theorem Log.get_cons (put : Put) (log : Log) (key : Bytes) :
    Log.get (put :: log) key = if put.key = key then some put.value else log.get key := by
  unfold Log.get
  by_cases same : put.key = key <;> simp [same]

theorem Log.get_isSome_mono {key : Bytes} (later : log <:+ log') (stored : (log.get key).isSome) :
    (log'.get key).isSome := by
  obtain ⟨puts, rfl⟩ := later
  induction puts with
  | nil => exact stored
  | cons put puts ih =>
      rw [List.cons_append, Log.get_cons]
      split
      · rfl
      · exact ih

structure Listed (log : Log) (ids : List Bytes) : Prop where
  nodup : ids.Nodup
  isId : ∀ id ∈ ids, IsId id
  stored : ∀ id ∈ ids, (log.get id).isSome

theorem Listed.mono (listed : Listed log ids) (later : log <:+ log') : Listed log' ids :=
  ⟨listed.nodup, listed.isId, fun id member => Log.get_isSome_mono later (listed.stored id member)⟩

theorem Listed.snoc {id : Bytes} (listed : Listed log ids) (isId : IsId id) (fresh : id ∉ ids)
    (stored : (log.get id).isSome) : Listed log (ids ++ [id]) := by
  refine ⟨listed.nodup.append (List.nodup_singleton id) (by simpa using fresh), ?_, ?_⟩
  · intro other member
    rcases List.mem_append.mp member with member | member
    · exact listed.isId other member
    · exact List.mem_singleton.mp member ▸ isId
  · intro other member
    rcases List.mem_append.mp member with member | member
    · exact listed.stored other member
    · exact List.mem_singleton.mp member ▸ stored

def Describes (element : Json) (id : Bytes) : Prop := element.get (text "transaction") = some (.str id)

inductive Written (codec : Codec) (log : Log) : Put → Prop
  | transaction {id : Bytes} {element : Json} : IsId id → Describes element id →
      Written codec log ⟨id, codec.stringify element⟩
  | history {addr : Bytes} {ids : List Bytes} : addr.length = 52 → Listed log ids →
      Written codec log ⟨addr, codec.stringify (.arr (jsonIds ids))⟩

structure Sound (codec : Codec) (log : Log) : Prop where
  lists : ∀ addr value, addr.length = 52 → log.get addr = some value →
    ∃ ids, value = codec.stringify (.arr (jsonIds ids)) ∧ Listed log ids
  records : ∀ id value, IsId id → log.get id = some value →
    ∃ element, value = codec.stringify element ∧ Describes element id

theorem Sound.nil : Sound codec [] :=
  ⟨fun _ _ _ stored => (by cases stored), fun _ _ _ stored => (by cases stored)⟩

-- Addresses and ids differ in length, so a Put of one kind leaves the records of the other kind alone.
theorem Sound.cons {put : Put} (sound : Sound codec log) (written : Written codec log put) :
    Sound codec (put :: log) := by
  have later : log <:+ put :: log := List.suffix_cons put log
  cases written with
  | @transaction id element isId describes =>
      constructor
      · intro addr value length stored
        have other : id ≠ addr := by
          rintro rfl
          cases isId.1.symm.trans length
        rw [Log.get_cons, if_neg other] at stored
        obtain ⟨ids, eq, listed⟩ := sound.lists addr value length stored
        exact ⟨ids, eq, listed.mono later⟩
      · intro other value isId stored
        rw [Log.get_cons] at stored
        split at stored
        case isTrue same =>
          cases same
          exact ⟨element, (Option.some.inj stored).symm, describes⟩
        case isFalse => exact sound.records other value isId stored
  | @history addr ids length listed =>
      constructor
      · intro other value length' stored
        rw [Log.get_cons] at stored
        split at stored
        case isTrue => exact ⟨ids, (Option.some.inj stored).symm, listed.mono later⟩
        case isFalse =>
          obtain ⟨ids, eq, listed⟩ := sound.lists other value length' stored
          exact ⟨ids, eq, listed.mono later⟩
      · intro id value isId stored
        have other : addr ≠ id := by
          rintro rfl
          cases isId.1.symm.trans length
        rw [Log.get_cons, if_neg other] at stored
        exact sound.records id value isId stored

def Known (log : Log) (info : Info) : Prop :=
  info.addr.length = 52 ∧ ∃ ids, info.trx = .arr (jsonIds ids) ∧ Listed log ids

theorem Known.mono {info : Info} (known : Known log info) (later : log <:+ log') : Known log' info := by
  obtain ⟨length, ids, trx, listed⟩ := known
  exact ⟨length, ids, trx, listed.mono later⟩

def hexId : Json → Bool
  | .str id => IsId id
  | _ => false

def hexIds (reply : Option Json) : Bool :=
  match result reply with
  | some (.arr page) => page.all fun element => (element.get (text "transaction")).all hexId
  | _ => true

def Action.hexIds : Action → Bool
  | .page reply _ => History.hexIds reply
  | _ => true

def WellFormed (_ : State) (l : Label) : Prop := l.action.hexIds = true

instance (st : State) (l : Label) : Decidable (WellFormed st l) := inferInstanceAs (Decidable (_ = true))

variable {succeeds : Nat → Bool} {disk : Disk Put}

theorem saveElement_meets {element : Json} (listed : Listed disk.log ids)
    (hex : (element.get (text "transaction")).all hexId = true) :
    LogM.Meets (Written codec) succeeds (saveElement codec element (jsonIds ids)) disk
      (fun trx after => ∃ ids, trx = jsonIds ids ∧ Listed after.log ids) (fun _ => True) := by
  unfold saveElement
  split
  case h_1 => exact .throw trivial
  case h_2 => exact .pure ⟨ids, rfl, listed⟩
  case h_4 => exact .throw trivial
  case h_3 name _ got =>
    rw [got] at hex
    have isId : IsId name := by simpa [hexId] using hex
    rw [found_eq listed.isId isId]
    by_cases known : name ∈ ids
    · simp only [known, decide_true]
      exact .pure ⟨ids, rfl, listed⟩
    · simp only [known, decide_false]
      refine .bind (.attempt ?_ (.pure ?_) fun _ => .pure ⟨ids, rfl, listed⟩)
      · rw [isId.cStr_eq]
        exact .transaction isId got
      · refine ⟨ids ++ [name], by simp [jsonIds], ?_⟩
        refine (listed.mono (List.suffix_cons _ _)).snoc isId known ?_
        rw [Log.get_cons, isId.cStr_eq, if_pos rfl]
        rfl

theorem savePage_meets {page : List Json} (listed : Listed disk.log ids)
    (hex : page.all (fun element => (element.get (text "transaction")).all hexId) = true) :
    LogM.Meets (Written codec) succeeds (savePage codec page (jsonIds ids)) disk
      (fun trx after => ∃ ids, trx = jsonIds ids ∧ Listed after.log ids) (fun _ => True) := by
  induction page generalizing ids disk with
  | nil => exact .pure ⟨ids, rfl, listed⟩
  | cons element page ih =>
      rw [List.all_cons, Bool.and_eq_true] at hex
      refine .bind ((saveElement_meets listed hex.1).weaken fun trx after kept => ?_)
      obtain ⟨ids, rfl, listed⟩ := kept
      exact ih listed hex.2

theorem turn_meets {info : Info} {trx : List Json} (known : Known disk.log info) :
    LogM.Meets (Written codec) succeeds (turn codec info trx) disk
      (fun _ after => Known after.log info) (fun _ => True) := by
  unfold turn
  split
  case isTrue => exact .pure known
  case isFalse =>
    obtain ⟨length, ids, eq, listed⟩ := known
    refine .bind (.attempt ?_ (.pure ?_) fun _ => .pure ⟨length, ids, eq, listed⟩)
    · rw [eq]
      exact .history length listed
    · exact ⟨length, ids, eq, listed.mono (List.suffix_cons _ _)⟩

inductive Outcome (settings : Settings) (st : State) : Action → State → Prop
  | started (phase : Phase) :
      Outcome settings st .start ⟨st.log, settings.addrs.map (reload settings.codec st.log), phase⟩
  | down (action : Action) : Outcome settings st action ⟨st.log, [], .down⟩
  | moved (action : Action) (phase : Phase) : st.phase ≠ .down → Outcome settings st action { st with phase := phase }
  | rewound (action : Action) (index : Nat) (info : Info) : st.phase ≠ .down → st.infos[index]? = some info →
      Outcome settings st action { st with infos := st.infos.set index { info with begin := 0 } }
  | counted (index : Nat) (info : Info) (trx : List Json) (count : UInt32) (reply : Option Json) (junk : UInt32)
      (faults : List Nat) : st.phase ≠ .down → st.infos[index]? = some info → info.trx = .arr trx →
      Outcome settings st (.balance reply junk faults)
        (st.proceed index faults (balanceReply settings.codec info count trx))
  | paged (index : Nat) (info : Info) (page trx : List Json) (reply : Option Json) (faults : List Nat) :
      st.phase ≠ .down → st.infos[index]? = some info → info.trx = .arr trx → result reply = some (.arr page) →
      Outcome settings st (.page reply faults) (st.proceed index faults (pageReply settings.codec info page trx))

theorem act_outcome {settings : Settings} {st st' : State} {action : Action}
    (acted : act settings st action = some st') :
    Outcome settings st action st' := by
  cases action with
  | start =>
      simp only [act] at acted
      split at acted <;> cases acted
      exact .started _
  | stop =>
      simp only [act] at acted
      split at acted <;> cases acted
      case h_2 running => exact .moved _ _ running
  | balance reply junk faults =>
      simp only [act] at acted
      split at acted
      case h_2 => cases acted
      case h_1 index here =>
        have running : st.phase ≠ .down := by simp [here]
        split at acted
        case h_1 => cases acted
        case h_2 => cases acted; exact .moved _ _ running
        case h_3 info value chosen _ =>
          split at acted
          case h_1 => cases acted; exact .down _
          case h_2 => cases acted; exact .moved _ _ running
          case h_4 => cases acted; exact .down _
          case h_3 trx _ _ eq =>
            split at acted <;> cases acted
            · exact .moved _ _ running
            · exact .counted index info trx _ reply junk faults running chosen eq
  | page reply faults =>
      simp only [act] at acted
      split at acted
      case h_2 => cases acted
      case h_1 index here =>
        have running : st.phase ≠ .down := by simp [here]
        split at acted
        case h_1 => cases acted
        case h_2 info chosen _ => cases acted; exact .rewound _ index info running chosen
        case h_3 info page _ chosen got =>
          split at acted <;> cases acted
          case h_1 trx eq => exact .paged index info page trx reply faults running chosen eq got
          case h_2 => exact .down _
        case h_4 => cases acted; exact .moved _ _ running

/-- What is documented of rapidjson: what it writes is not empty and it reads it again, and it reads a list
of plain strings as it was. -/
structure Codec.Lawful (codec : Codec) : Prop where
  written : ∀ value, codec.stringify value ≠ []
  readable : ∀ value, ∃ value', codec.parse (codec.stringify value) = .ok value'
  ids : ∀ ids, (∀ id ∈ ids, IsId id) → codec.parse (codec.stringify (.arr (jsonIds ids))) = .ok (.arr (jsonIds ids))

variable {settings : Settings} {st st' : State}

structure Consistent (settings : Settings) (st : State) : Prop where
  known : ∀ info ∈ st.infos, Known st.log info
  addrs : st.phase ≠ .down → st.infos.map Info.addr = settings.addrs

theorem Settings.length_of_mem {addr : Bytes} (member : addr ∈ settings.addrs) : addr.length = 52 := by
  obtain ⟨-, valid⟩ := List.mem_filter.mp member
  simp only [Tx.validateAddress, Bool.and_eq_true, decide_eq_true_eq] at valid
  exact valid.1.1.1

theorem reload_known (lawful : codec.Lawful) (sound : Sound codec log) {addr : Bytes} (length : addr.length = 52) :
    Known log (reload codec log addr) ∧ (reload codec log addr).addr = addr := by
  unfold reload
  split
  case h_1 => exact ⟨⟨length, [], rfl, ⟨List.nodup_nil, by simp, by simp⟩⟩, rfl⟩
  case h_2 res stored =>
    obtain ⟨ids, rfl, listed⟩ := sound.lists addr res length stored
    rw [lawful.ids ids listed.isId]
    exact ⟨⟨length, ids, rfl, listed⟩, rfl⟩

theorem map_addr_set {infos : List Info} {index : Nat} {info info' : Info} (chosen : infos[index]? = some info)
    (same : info'.addr = info.addr) : (infos.set index info').map Info.addr = infos.map Info.addr := by
  obtain ⟨inside, rfl⟩ := List.getElem?_eq_some_iff.mp chosen
  have inside' : index < (infos.map Info.addr).length := by rwa [List.length_map]
  have addr : (infos.map Info.addr)[index] = infos[index].addr := List.getElem_map _
  rw [List.map_set, same, ← addr, List.set_getElem_self]

theorem Consistent.down (log : Log) : Consistent settings ⟨log, [], .down⟩ :=
  ⟨fun _ member => (by cases member), fun up => absurd rfl up⟩

theorem Consistent.proceed (consistent : Consistent settings st) (running : st.phase ≠ .down)
    {index : Nat} {info : Info}
    (chosen : st.infos[index]? = some info) {faults : List Nat} {program : HistoryM (Info × Bool)}
    (meets : LogM.Meets (Written settings.codec) (History.succeeds faults) program ⟨st.log, 0⟩
      (fun after disk => Known disk.log after.1 ∧ after.1.addr = info.addr) (fun _ => True)) :
    Grows (Written settings.codec) st.log (st.proceed index faults program).log ∧
      Consistent settings (st.proceed index faults program) := by
  obtain ⟨grown, ended⟩ := meets
  unfold State.proceed
  split
  case h_1 info' more disk ran =>
    rw [ran] at grown ended
    obtain ⟨known, same⟩ := ended
    refine ⟨grown, fun other member => ?_, fun _ => ?_⟩
    · rcases List.mem_or_eq_of_mem_set member with before | rfl
      · exact (consistent.known other before).mono grown.suffix
      · exact known
    · exact (map_addr_set chosen same).trans (consistent.addrs running)
  case h_2 e disk ran =>
    rw [ran] at grown
    exact ⟨grown, .down _⟩

theorem act_consistent (lawful : settings.codec.Lawful) (sound : Sound settings.codec st.log)
    (consistent : Consistent settings st) {action : Action} (hex : action.hexIds = true)
    (acted : act settings st action = some st') :
    Grows (Written settings.codec) st.log st'.log ∧ Consistent settings st' := by
  cases act_outcome acted with
  | started phase =>
      refine ⟨.refl, fun info member => ?_, fun _ => ?_⟩
      · obtain ⟨addr, inside, rfl⟩ := List.mem_map.mp member
        exact (reload_known lawful sound (Settings.length_of_mem inside)).1
      · rw [List.map_map]
        refine (List.map_congr_left fun addr inside => ?_).trans (List.map_id _)
        exact (reload_known lawful sound (Settings.length_of_mem inside)).2
  | down => exact ⟨.refl, .down _⟩
  | moved _ phase running => exact ⟨.refl, consistent.known, fun _ => consistent.addrs running⟩
  | rewound _ index info running chosen =>
      refine ⟨.refl, fun other member => ?_, fun _ => ?_⟩
      · rcases List.mem_or_eq_of_mem_set member with before | rfl
        · exact consistent.known other before
        · exact consistent.known info (List.mem_of_getElem? chosen)
      · refine (map_addr_set chosen ?_).trans (consistent.addrs running)
        rfl
  | counted index info trx count reply junk faults running chosen eq =>
      have known := consistent.known info (List.mem_of_getElem? chosen)
      refine consistent.proceed running chosen (.bind ((turn_meets known).weaken fun more after kept => ?_))
      exact .pure ⟨kept, rfl⟩
  | paged index info page trx reply faults running chosen eq got =>
      obtain ⟨length, ids, same, listed⟩ := consistent.known info (List.mem_of_getElem? chosen)
      cases eq.symm.trans same
      have hex : page.all (fun element => (element.get (text "transaction")).all hexId) = true := by
        simpa [Action.hexIds, hexIds, got] using hex
      refine consistent.proceed running chosen (.bind ((savePage_meets listed hex).weaken fun trx after kept => ?_))
      obtain ⟨ids, rfl, listed⟩ := kept
      have known : Known after.log { info with trx := .arr (jsonIds ids), begin := info.begin + 10 } :=
        ⟨length, ids, rfl, listed⟩
      exact .bind ((turn_meets known).weaken fun more after kept => .pure ⟨kept, rfl⟩)

theorem step_consistent (lawful : settings.codec.Lawful)
    (sound : ∀ moment, moment <:+ st.log → Sound settings.codec moment)
    (consistent : Consistent settings st) {l : Label} (hex : WellFormed st l)
    (stepped : step settings st l = some st') :
    (∀ moment, moment <:+ st'.log → Sound settings.codec moment) ∧ Consistent settings st' := by
  unfold step at stepped
  cases acted : act settings st l.action with
  | none =>
      rw [acted] at stepped
      cases stepped
  | some after =>
      obtain ⟨grown, consistent⟩ := act_consistent lawful (sound _ List.suffix_rfl) consistent hex acted
      -- Each Put is made on a sound log, so the log is sound at every moment of the action.
      have moments : ∀ moment, moment <:+ after.log → Sound settings.codec moment := by
        refine grown.always (P := fun log => ∀ moment, moment <:+ log → Sound settings.codec moment) sound ?_
        intro past put _ written before moment inside
        rcases List.suffix_cons_iff.mp inside with rfl | inside
        · exact (before past List.suffix_rfl).cons written
        · exact before moment inside
      rw [acted] at stepped
      cases killed : l.killed with
      | none =>
          rw [killed] at stepped
          cases stepped
          exact ⟨moments, consistent⟩
      | some entries =>
          rw [killed] at stepped
          cases stepped
          exact ⟨fun moment inside => moments moment (inside.trans (List.drop_suffix _ _)), .down _⟩

theorem reached_consistent (lawful : settings.codec.Lawful)
    (reached : Reached (step settings) WellFormed .initial st) :
    (∀ moment, moment <:+ st.log → Sound settings.codec moment) ∧ Consistent settings st := by
  induction reached with
  | start =>
      refine ⟨fun moment inside => ?_, .down _⟩
      rw [List.suffix_nil.mp inside]
      exact .nil
  | step _ hex stepped ih => exact step_consistent lawful ih.1 ih.2 hex stepped

/-! ## Reading -/

def Returned (codec : Codec) (log : Log) (id : Bytes) (entry : Json) : Prop :=
  ∃ element, log.get id = some (codec.stringify element) ∧ Describes element id ∧
    codec.parse (codec.stringify element) = .ok entry

theorem collect_returns (lawful : codec.Lawful) (sound : Sound codec log) (all : ∀ id ∈ ids, IsId id)
    (stored : ∀ id ∈ ids, (log.get id).isSome) :
    ∃ entries, collect codec log (jsonIds ids) = some entries ∧ List.Forall₂ (Returned codec log) ids entries := by
  induction ids with
  | nil => exact ⟨[], rfl, .nil⟩
  | cons id ids ih =>
      obtain ⟨isId, otherIds⟩ := List.forall_mem_cons.mp all
      obtain ⟨here, others⟩ := List.forall_mem_cons.mp stored
      obtain ⟨entries, collected, returned⟩ := ih otherIds others
      obtain ⟨value, found⟩ := Option.isSome_iff_exists.mp here
      obtain ⟨element, rfl, describes⟩ := sound.records id value isId found
      obtain ⟨entry, parsed⟩ := lawful.readable element
      refine ⟨entry :: entries, ?_, .cons ⟨element, found, describes, parsed⟩ returned⟩
      simp only [jsonIds, List.map_cons, collect, isId.cStr_eq, found, lawful.written element, if_false, parsed]
      rw [← jsonIds, collected]
      rfl

theorem present_of_configured (addrs : st.infos.map Info.addr = settings.addrs) {address : Bytes}
    (configured : toLower address ∈ settings.addrs) : ¬(st.infos.all fun v => v.addr ≠ toLower address) = true := by
  rw [← addrs] at configured
  obtain ⟨info, member, same⟩ := List.mem_map.mp configured
  intro all
  have := List.all_eq_true.mp all info member
  simp [same] at this

theorem getHistory_returns (lawful : settings.codec.Lawful) (sound : Sound settings.codec st.log)
    (addrs : st.infos.map Info.addr = settings.addrs) {address : Bytes}
    (configured : toLower address ∈ settings.addrs)
    (listed : Listed st.log ids)
    (stored : st.log.get (toLower address) = some (settings.codec.stringify (.arr (jsonIds ids)))) :
    ∃ entries, getHistory settings.codec st address = some (true, .arr entries) ∧
      List.Forall₂ (Returned settings.codec st.log) ids entries := by
  obtain ⟨entries, collected, returned⟩ := collect_returns lawful sound listed.isId listed.stored
  refine ⟨entries, ?_, returned⟩
  simp only [getHistory, if_neg (present_of_configured addrs configured), stored, lawful.ids ids listed.isId, collected]
  rfl

theorem history_consistent (settings : Settings) (lawful : settings.codec.Lawful) {st : State}
    (reached : Reached (step settings) WellFormed .initial st) {addr value : Bytes}
    (configured : addr ∈ settings.addrs)
    (stored : st.log.get addr = some value) :
    ∃ ids, settings.codec.parse value = .ok (.arr (ids.map .str)) ∧ ids.Nodup ∧
      (∀ id ∈ ids, ∃ record, st.log.get id = some record) ∧
      (st.phase ≠ .down → ∀ address, toLower address = addr →
        ∃ entries, getHistory settings.codec st address = some (true, .arr entries) ∧
          List.Forall₂ (Returned settings.codec st.log) ids entries) := by
  obtain ⟨moments, consistent⟩ := reached_consistent lawful reached
  have sound := moments st.log List.suffix_rfl
  obtain ⟨ids, rfl, listed⟩ := sound.lists addr value (Settings.length_of_mem configured) stored
  refine ⟨ids, lawful.ids ids listed.isId, listed.nodup, ?_, ?_⟩
  · exact fun id member => Option.isSome_iff_exists.mp (listed.stored id member)
  · rintro running address rfl
    exact getHistory_returns lawful sound (consistent.addrs running) configured listed stored

/-! ## A sample server

Lists and transactions of plain strings, as JSON text; other values are written as `null`. -/

namespace Sample

def plain : Json → Option Bytes
  | .str raw => if raw.all fun c => JsonText.IsPlain c then some raw else none
  | _ => none

def plainField : Bytes × Json → Option (Bytes × Bytes)
  | (name, .str raw) => if JsonText.IsPlainField (name, raw) then some (name, raw) else none
  | _ => none

def stringify : Json → Bytes
  | .arr elements => (elements.mapM plain).elim (text "null") JsonText.array
  | .obj members => (members.mapM plainField).elim (text "null") JsonText.object
  | _ => text "null"

def jsonCodec : Codec where
  parse bytes := (JsonText.parse bytes).elim (.error 3) fun tree => .ok (Json.ofTree tree)
  stringify := stringify

theorem plain_eq_some {value : Json} {raw : Bytes} (read : plain value = some raw) :
    ∀ c ∈ raw, JsonText.IsPlain c := by
  unfold plain at read
  split at read
  case h_1 s =>
    split at read <;> cases read
    case isTrue plain => simpa using plain
  case h_2 => cases read

theorem plainField_eq_some {member : Bytes × Json} {field : Bytes × Bytes} (read : plainField member = some field) :
    JsonText.IsPlainField field := by
  unfold plainField at read
  split at read
  case h_1 =>
    split at read <;> cases read
    case isTrue plain => exact plain
  case h_2 => cases read

theorem forall_mem_mapM {α β : Type} {f : α → Option β} {P : β → Prop} (all : ∀ {a b}, f a = some b → P b)
    {elements : List α} {images : List β} (read : elements.mapM f = some images) : ∀ b ∈ images, P b := by
  induction elements generalizing images with
  | nil =>
      cases read
      simp
  | cons a elements ih =>
      rw [List.mapM_cons] at read
      obtain ⟨b, here, others⟩ := Option.bind_eq_some_iff.mp read
      obtain ⟨images, rest, same⟩ := Option.bind_eq_some_iff.mp others
      cases same
      exact List.forall_mem_cons.mpr ⟨all here, ih rest⟩

theorem plain_of_isId {id : Bytes} (isId : IsId id) : ∀ c ∈ id, JsonText.IsPlain c := by
  intro c member
  have digit := isId.2 c member
  revert digit
  refine forall_byte (P := fun c => JsonText.isHexDigit c = true → JsonText.IsPlain c) ?_ c
  decide +kernel

theorem mapM_jsonIds {ids : List Bytes} (all : ∀ id ∈ ids, IsId id) : (jsonIds ids).mapM plain = some ids := by
  induction ids with
  | nil => rfl
  | cons id ids ih =>
      obtain ⟨here, rest⟩ := List.forall_mem_cons.mp all
      have read : plain (.str id) = some id := if_pos (by simpa using plain_of_isId here)
      rw [jsonIds, List.map_cons, List.mapM_cons, read, ← jsonIds, ih rest]
      rfl

theorem parse_stringify (value : Json) : ∃ tree, JsonText.parse (stringify value) = some tree := by
  unfold stringify
  split
  case h_1 elements =>
    cases read : elements.mapM plain with
    | none => exact ⟨.null, rfl⟩
    | some raws => exact ⟨_, JsonText.parse_array (forall_mem_mapM plain_eq_some read)⟩
  case h_2 members =>
    cases read : members.mapM plainField with
    | none => exact ⟨.null, rfl⟩
    | some fields => exact ⟨_, JsonText.parse_object (forall_mem_mapM plainField_eq_some read)⟩
  case h_3 => exact ⟨.null, rfl⟩

theorem ofTrees_strings (raws : List Bytes) : Json.ofTrees (raws.map .string) = raws.map .str := by
  induction raws with
  | nil => rfl
  | cons raw raws ih => rw [List.map_cons, Json.ofTrees, ih, Json.ofTree, List.map_cons]

theorem jsonCodec_lawful : jsonCodec.Lawful where
  written value empty := by
    obtain ⟨tree, parsed⟩ := parse_stringify value
    rw [show stringify value = [] from empty] at parsed
    cases parsed
  readable value := by
    obtain ⟨tree, parsed⟩ := parse_stringify value
    exact ⟨Json.ofTree tree, by simp [jsonCodec, parsed]⟩
  ids ids all := by
    have parsed := JsonText.parse_array fun id member => plain_of_isId (all id member)
    have read := mapM_jsonIds all
    simp only [jsonCodec, stringify, read, Option.elim_some, parsed, Json.ofTree, ofTrees_strings]
    rfl

def address : Bytes := text "0x001b3b70b8710b7fc1b12b3c1668d667dce83b8dac7d987c33"

def sha256 (_ : Bytes) : Bytes := [125, 152, 124, 51] ++ List.replicate 28 0

def config : Settings := ⟨jsonCodec, sha256, [text "0x001B3B70B8710B7FC1B12B3C1668D667DCE83B8DAC7D987C33"]⟩

def idOf (c : UInt8) : Bytes := List.replicate 64 c

def transaction (id : Bytes) : Json := .obj [(text "transaction", .str id)]

def reply (value : Json) : Option Json := some (.obj [(text "id", .int 1), (text "result", value)])

def labels : List Label :=
  [⟨.start, none⟩, ⟨.balance (reply (.obj [(text "count_txs", .int 2)])) 0 [], none⟩,
    ⟨.page (reply (.arr [transaction (idOf 50), transaction (idOf 97)])) [], none⟩]

end Sample

theorem history_consistent_of_two :
    ∃ st entries, Reached (step Sample.config) WellFormed .initial st ∧
      getHistory Sample.jsonCodec st (text "0X001b3b70b8710b7fc1b12b3c1668d667dce83b8dac7d987C33") =
        some (true, .arr entries) ∧
      List.Forall₂ (Returned Sample.jsonCodec st.log) [Sample.idOf 50, Sample.idOf 97] entries := by
  have ran : runAllowed (step Sample.config) WellFormed .initial Sample.labels = some _ := rfl
  have reached := Reached.run .start ran
  have configured : Sample.address ∈ Sample.config.addrs := by decide
  obtain ⟨ids, parsed, -, -, returns⟩ :=
    history_consistent Sample.config Sample.jsonCodec_lawful reached configured rfl
  have wrote := Sample.jsonCodec_lawful.ids [Sample.idOf 50, Sample.idOf 97] (by decide)
  have elements := Json.arr.inj (Except.ok.inj (parsed.symm.trans wrote))
  have same : ids = [Sample.idOf 50, Sample.idOf 97] :=
    List.map_injective_iff.mpr (fun _ _ equal => Json.str.inj equal) elements
  obtain ⟨entries, history, returned⟩ :=
    returns Phase.noConfusion (text "0X001b3b70b8710b7fc1b12b3c1668d667dce83b8dac7d987C33") (by decide)
  exact ⟨_, entries, reached, history, same ▸ returned⟩

end FullnodeClient.History
