import FullnodeClient.History.Consistency

/-!
# Completeness of the history cache

One poll of an address against a server whose history does not change: the inner loop ends, and every
transaction is in the list then.
-/

namespace FullnodeClient.History
open FullnodeClient.Lib FullnodeClient.Text FullnodeClient.Rpc

def turns (settings : Settings) (pages : UInt32 → Option Json) (index : Nat) : Nat → State → Option State
  | 0, st => if st.phase = .page index then none else some st
  | fuel + 1, st =>
      if st.phase = .page index then do
        let info ← st.infos[index]?
        let st ← act settings st (.page (pages info.begin) [])
        turns settings pages index fuel st
      else some st

def poll (settings : Settings) (balance : Option Json) (pages : UInt32 → Option Json)
    (index fuel : Nat) (st : State) :
    Option State := do
  let st ← act settings st (.balance balance 0 [])
  turns settings pages index fuel st

structure Serves (history : List Json) (ids : List Bytes) (balance : Option Json) (pages : UInt32 → Option Json) :
    Prop where
  describes : List.Forall₂ Describes history ids
  small : ids.length < 2 ^ 32
  count : ∃ value, result balance = some value ∧ value.get (text "count_txs") = some (.int ids.length)
  page : ∀ begin, result (pages begin) = some (.arr ((history.drop begin.toNat).take 10))

def addId (ids : List Bytes) (id : Bytes) : List Bytes := if ids.any (· = id) then ids else ids ++ [id]

theorem addId_of_mem {ids : List Bytes} {id : Bytes} (known : id ∈ ids) : addId ids id = ids :=
  if_pos (by simpa using known)

theorem addId_of_not_mem {ids : List Bytes} {id : Bytes} (fresh : id ∉ ids) : addId ids id = ids ++ [id] :=
  if_neg (by simpa using fresh)

theorem mem_addId {ids : List Bytes} {id other : Bytes} : other ∈ addId ids id ↔ other ∈ ids ∨ other = id := by
  by_cases known : id ∈ ids
  · rw [addId_of_mem known]
    refine ⟨.inl, ?_⟩
    rintro (member | rfl)
    · exact member
    · exact known
  · simp [addId_of_not_mem known]

theorem mem_addIds {page ids : List Bytes} {id : Bytes} : id ∈ page.foldl addId ids ↔ id ∈ ids ∨ id ∈ page := by
  induction page generalizing ids with
  | nil => simp
  | cons next page ih => rw [List.foldl_cons, ih, mem_addId, List.mem_cons, or_assoc]

theorem nodup_addIds {page ids : List Bytes} (nodup : ids.Nodup) : (page.foldl addId ids).Nodup := by
  induction page generalizing ids with
  | nil => exact nodup
  | cons next page ih =>
      refine ih ?_
      by_cases known : next ∈ ids
      · rwa [addId_of_mem known]
      · rw [addId_of_not_mem known]
        exact nodup.append (List.nodup_singleton next) (by simpa using known)

variable {codec : Codec} {disk : Disk Put}

-- The postcondition `False` of a throw says that the program does not throw.
theorem saveElement_succeeds {element : Json} {id : Bytes} {ids : List Bytes} (describes : Describes element id)
    (isId : IsId id) (all : ∀ id ∈ ids, IsId id) :
    LogM.Meets (fun _ _ => True) (succeeds []) (saveElement codec element (jsonIds ids)) disk
      (fun trx _ => trx = jsonIds (addId ids id)) (fun _ => False) := by
  have object : element.isObject = true := by
    cases element with
    | obj members => rfl
    | _ => cases describes
  unfold saveElement
  rw [object, describes]
  simp only [found_eq all isId]
  by_cases known : id ∈ ids
  · simp only [known, decide_true]
    exact .pure (by rw [addId_of_mem known])
  · simp only [known, decide_false]
    refine .bind (.attempt trivial (.pure ?_) fun failed => by simp [succeeds] at failed)
    simp [addId_of_not_mem known, jsonIds]

theorem savePage_succeeds {page : List Json} {pageIds ids : List Bytes}
    (describes : List.Forall₂ Describes page pageIds)
    (pageAll : ∀ id ∈ pageIds, IsId id) (all : ∀ id ∈ ids, IsId id) :
    LogM.Meets (fun _ _ => True) (succeeds []) (savePage codec page (jsonIds ids)) disk
      (fun trx _ => trx = jsonIds (pageIds.foldl addId ids)) (fun _ => False) := by
  induction describes generalizing ids disk with
  | nil => exact .pure rfl
  | @cons element id page pageIds here _ ih =>
      obtain ⟨isId, rest⟩ := List.forall_mem_cons.mp pageAll
      refine .bind ((saveElement_succeeds here isId all).weaken fun trx after saved => ?_)
      subst saved
      refine ih rest fun other member => ?_
      rcases mem_addId.mp member with member | rfl
      · exact all other member
      · exact isId

theorem turn_succeeds (info : Info) (trx : List Json) :
    LogM.Meets (fun _ _ => True) (succeeds []) (turn codec info trx) disk
      (fun more after => if info.begin < info.txCount ∧ size trx < info.txCount then more = true
        else more = false ∧ after.log = ⟨info.addr, codec.stringify info.trx⟩ :: disk.log) (fun _ => False) := by
  unfold turn
  split
  case isTrue => exact .pure rfl
  case isFalse => exact .bind (.attempt trivial (.pure ⟨rfl, rfl⟩) fun failed => by simp [succeeds] at failed)

theorem State.proceed_eq {st : State} (index : Nat) {faults : List Nat} {program : HistoryM (Info × Bool)}
    {emits : Log → Put → Prop} {done : Info × Bool → Disk Put → Prop}
    (meets : LogM.Meets emits (succeeds faults) program ⟨st.log, 0⟩ done (fun _ => False)) :
    ∃ info more disk, done (info, more) disk ∧ st.proceed index faults program =
      ⟨disk.log, st.infos.set index info, if more then .page index else st.next index⟩ := by
  obtain ⟨-, ended⟩ := meets
  unfold State.proceed
  split at ended
  case h_1 after disk ran =>
    rw [ran]
    exact ⟨after.1, after.2, disk, ended, rfl⟩
  case h_2 => exact ended.elim

section
variable {settings : Settings} {history : List Json} {ids : List Bytes} {balance : Option Json}
  {pages : UInt32 → Option Json} {st st' : State} {index count : Nat}

/-- What the loop has before its turn `k`: the first `10 * k` transactions are in the list. -/
structure Progress (ids : List Bytes) (index count k : Nat) (info : Info)
    (current : List Bytes) (st : State) : Prop where
  phase : st.phase = .page index
  length : st.infos.length = count
  chosen : st.infos[index]? = some info
  trx : info.trx = .arr (jsonIds current)
  total : info.txCount = UInt32.ofNat ids.length
  begin : info.begin = UInt32.ofNat (10 * k)
  nodup : current.Nodup
  subset : current ⊆ ids
  passed : ids.take (10 * k) ⊆ current
  missing : current.length < ids.length

theorem lt_of_missing {current : List Bytes} {n : Nat} (distinct : ids.Nodup) (passed : ids.take n ⊆ current)
    (missing : current.length < ids.length) : n < ids.length := by
  by_contra beyond
  rw [List.take_of_length_le (not_lt.mp beyond)] at passed
  exact missing.not_ge (distinct.subperm passed).length_le

theorem Progress.inside {info : Info} {current : List Bytes} {k : Nat} (distinct : ids.Nodup)
    (progress : Progress ids index count k info current st) : 10 * k < ids.length :=
  lt_of_missing distinct progress.passed progress.missing

structure Complete (settings : Settings) (ids : List Bytes) (index count : Nat)
    (addr : Bytes) (st : State) : Prop where
  phase : st.phase = .balance (if index + 1 < count then index + 1 else 0)
  list : ∃ info final, st.infos[index]? = some info ∧ info.trx = .arr (jsonIds final) ∧ final.Perm ids ∧
    st.log.get addr = some (settings.codec.stringify (.arr (jsonIds final)))

theorem size_jsonIds (current : List Bytes) : size (jsonIds current) = UInt32.ofNat current.length := by
  rw [size, jsonIds, List.length_map]

theorem ofNat_lt_iff {a b : Nat} (smallA : a < 2 ^ 32) (smallB : b < 2 ^ 32) :
    UInt32.ofNat a < UInt32.ofNat b ↔ a < b := by
  rw [UInt32.lt_iff_toNat_lt, UInt32.toNat_ofNat_of_lt' smallA, UInt32.toNat_ofNat_of_lt' smallB]

theorem take_subset_addIds {current : List Bytes} {k : Nat} (passed : ids.take (10 * k) ⊆ current) :
    ids.take (10 * (k + 1)) ⊆ ((ids.drop (10 * k)).take 10).foldl addId current := by
  intro id member
  rw [Nat.mul_add, Nat.mul_one, List.take_add] at member
  rcases List.mem_append.mp member with before | here
  · exact mem_addIds.mpr (.inl (passed before))
  · exact mem_addIds.mpr (.inr here)

-- A turn that is not the last one leaves transactions to fetch; after the last one none is missing, whichever
-- of the two conditions of the loop ends it.
theorem perm_of_left {current : List Bytes} {k : Nat} (small : ids.length < 2 ^ 32) (distinct : ids.Nodup)
    (nodup : current.Nodup) (subset : current ⊆ ids) (passed : ids.take (10 * k) ⊆ current)
    (left : ¬(UInt32.ofNat (10 * k) < UInt32.ofNat ids.length ∧ size (jsonIds current) < UInt32.ofNat ids.length)) :
    current.Perm ids := by
  have subperm := nodup.subperm subset
  refine subperm.perm_of_length_le ?_
  by_contra missing
  have shorter := not_le.mp missing
  have fewer : size (jsonIds current) < UInt32.ofNat ids.length := by
    rw [size_jsonIds]
    exact (ofNat_lt_iff (shorter.trans small) small).mpr shorter
  have inside := lt_of_missing distinct passed shorter
  exact left ⟨(ofNat_lt_iff (inside.trans small) small).mpr inside, fewer⟩

theorem pageReply_succeeds {info : Info} {current pageIds : List Bytes} {page : List Json}
    (describes : List.Forall₂ Describes page pageIds) (pageAll : ∀ id ∈ pageIds, IsId id)
    (all : ∀ id ∈ current, IsId id) :
    LogM.Meets (fun _ _ => True) (succeeds []) (pageReply codec info page (jsonIds current)) disk
      (fun after disk =>
        let final := jsonIds (pageIds.foldl addId current)
        after.1 = { info with trx := .arr final, begin := info.begin + 10 } ∧
          if info.begin + 10 < info.txCount ∧ size final < info.txCount then after.2 = true
          else after.2 = false ∧ Log.get disk.log info.addr = some (codec.stringify (.arr final)))
      (fun _ => False) := by
  refine .bind ((savePage_succeeds describes pageAll all).weaken fun trx after saved => ?_)
  subst saved
  refine .bind ((turn_succeeds _ _).weaken fun more after turned => .pure ⟨rfl, ?_⟩)
  simp only at turned ⊢
  split at turned
  case isTrue again =>
    rw [if_pos again]
    exact turned
  case isFalse left =>
    rw [if_neg left]
    refine ⟨turned.1, ?_⟩
    rw [turned.2, Log.get_cons, if_pos rfl]

theorem act_page_eq (settings : Settings) {info : Info} {current : List Bytes} {k : Nat}
    (serves : Serves history ids balance pages) (distinct : ids.Nodup)
    (progress : Progress ids index count k info current st) :
    act settings st (.page (pages info.begin) []) = some (st.proceed index []
      (pageReply settings.codec info ((history.drop (10 * k)).take 10) (jsonIds current))) := by
  have inside := progress.inside distinct
  have begin : info.begin.toNat = 10 * k := by
    rw [progress.begin]
    exact UInt32.toNat_ofNat_of_lt' (inside.trans serves.small)
  have nonempty : (history.drop (10 * k)).take 10 ≠ [] := by
    intro empty
    have lengths := congrArg List.length empty
    rw [List.length_nil, List.length_take, List.length_drop, serves.describes.length_eq] at lengths
    omega
  obtain ⟨element, page, eq⟩ := List.exists_cons_of_ne_nil nonempty
  simp only [act, progress.phase, progress.chosen, serves.page, begin, eq, progress.trx]

theorem Progress.turn (settings : Settings) {info : Info} {current : List Bytes} {k : Nat}
    (serves : Serves history ids balance pages)
    (distinct : ids.Nodup) (all : ∀ id ∈ ids, IsId id) (progress : Progress ids index count k info current st) :
    ∃ st', act settings st (.page (pages info.begin) []) = some st' ∧
      ((∃ info' current', info'.addr = info.addr ∧ Progress ids index count (k + 1) info' current' st') ∨
        Complete settings ids index count info.addr st') := by
  refine ⟨_, act_page_eq settings serves distinct progress, ?_⟩
  have describes := List.forall₂_take 10 (List.forall₂_drop (10 * k) serves.describes)
  have pageSubset : (ids.drop (10 * k)).take 10 ⊆ ids :=
    ((List.take_sublist _ _).trans (List.drop_sublist _ _)).subset
  have meets : LogM.Meets _ (succeeds [])
      (pageReply settings.codec info ((history.drop (10 * k)).take 10) (jsonIds current)) ⟨st.log, 0⟩ _ _ :=
    pageReply_succeeds describes (fun id member => all id (pageSubset member))
      fun id member => all id (progress.subset member)
  obtain ⟨info', more, disk, ⟨rfl, turned⟩, proceeded⟩ := State.proceed_eq index meets
  rw [proceeded]
  have next : info.begin + 10 = UInt32.ofNat (10 * (k + 1)) := by
    rw [progress.begin, Nat.mul_add, UInt32.ofNat_add]
    rfl
  have nodup : (((ids.drop (10 * k)).take 10).foldl addId current).Nodup := nodup_addIds progress.nodup
  have subset : ((ids.drop (10 * k)).take 10).foldl addId current ⊆ ids := by
    intro id member
    rcases mem_addIds.mp member with before | here
    · exact progress.subset before
    · exact pageSubset here
  have passed := take_subset_addIds progress.passed
  have place : index < st.infos.length := (List.getElem?_eq_some_iff.mp progress.chosen).1
  have chosen (other : Info) : (st.infos.set index other)[index]? = some other := List.getElem?_set_self place
  rw [next, progress.total] at turned
  simp only at turned
  split at turned
  case isTrue again =>
    have missing : (((ids.drop (10 * k)).take 10).foldl addId current).length < ids.length := by
      have bound := (nodup.subperm subset).length_le
      have fewer := again.2
      rw [size_jsonIds] at fewer
      exact (ofNat_lt_iff (bound.trans_lt serves.small) serves.small).mp fewer
    refine .inl ⟨{ info with
        trx := .arr (jsonIds (((ids.drop (10 * k)).take 10).foldl addId current)), begin := info.begin + 10 },
      _, rfl, ?_, ?_, chosen _, rfl, progress.total, next, nodup, subset, passed, missing⟩
    · rw [turned]
      rfl
    · rw [List.length_set, progress.length]
  case isFalse left =>
    obtain ⟨rfl, saved⟩ := turned
    have perm := perm_of_left serves.small distinct nodup subset passed left
    refine .inr ⟨?_, _, _, chosen _, rfl, perm, saved⟩
    rw [← progress.length]
    rfl

-- The number of transactions that have not been passed bounds the turns that are left.
theorem Progress.completes {info : Info} {current : List Bytes} {k : Nat} (serves : Serves history ids balance pages)
    (distinct : ids.Nodup) (all : ∀ id ∈ ids, IsId id) (progress : Progress ids index count k info current st) :
    ∃ fuel st', turns settings pages index fuel st = some st' ∧ Complete settings ids index count info.addr st' := by
  induction left : ids.length - 10 * k using Nat.strong_induction_on generalizing k info current st with
  | _ n ih =>
      obtain ⟨mid, acted, ⟨info', current', addr, further⟩ | complete⟩ := progress.turn settings serves distinct all
      · have inside := progress.inside distinct
        obtain ⟨fuel, st', ran, complete⟩ := ih (ids.length - 10 * (k + 1)) (by omega) further rfl
        refine ⟨fuel + 1, st', ?_, addr ▸ complete⟩
        simp [turns, progress.phase, progress.chosen, acted, ran]
      · refine ⟨1, mid, ?_, complete⟩
        simp [turns, progress.phase, progress.chosen, acted, complete.phase]

theorem act_balance_eq (settings : Settings) {info : Info} {cached : List Bytes}
    (serves : Serves history ids balance pages)
    (polling : st.phase = .balance index) (chosen : st.infos[index]? = some info)
    (trx : info.trx = .arr (jsonIds cached)) :
    act settings st (.balance balance 0 []) =
      if UInt32.ofNat cached.length = UInt32.ofNat ids.length then some { st with phase := st.next index }
      else some (st.proceed index []
        (balanceReply settings.codec info (UInt32.ofNat ids.length) (jsonIds cached))) := by
  obtain ⟨value, got, counted⟩ := serves.count
  have object : value.isObject = true := by
    cases value with
    | obj members => rfl
    | _ => cases counted
  have count : getUint (.int ids.length) 0 = UInt32.ofNat ids.length := by
    have small : (ids.length : Int) < 2 ^ 32 := by exact_mod_cast serves.small
    rw [getUint, if_pos ⟨Int.natCast_nonneg _, small⟩, Int.toNat_natCast]
  simp only [act, polling, chosen, got, object, counted, trx, count, size_jsonIds]

theorem balanceReply_progress (settings : Settings) {info : Info} {cached : List Bytes} (small : ids.length < 2 ^ 32)
    (chosen : st.infos[index]? = some info) (trx : info.trx = .arr (jsonIds cached)) (nodup : cached.Nodup)
    (subset : cached ⊆ ids) (missing : cached.length < ids.length) :
    ∃ info', info'.addr = info.addr ∧ Progress ids index st.infos.length 0 info' cached
      (st.proceed index [] (balanceReply settings.codec info (UInt32.ofNat ids.length) (jsonIds cached))) := by
  let info' : Info := { info with txCount := UInt32.ofNat ids.length, begin := 0 }
  have enters : info'.begin < info'.txCount ∧ size (jsonIds cached) < info'.txCount := by
    rw [size_jsonIds]
    exact ⟨(ofNat_lt_iff (by decide) small).mpr (Nat.zero_lt_of_lt missing),
      (ofNat_lt_iff (missing.trans small) small).mpr missing⟩
  have meets : LogM.Meets (fun _ _ => True) (succeeds [])
      (balanceReply settings.codec info (UInt32.ofNat ids.length) (jsonIds cached)) ⟨st.log, 0⟩
      (fun after _ => after = (info', true)) (fun _ => False) := by
    refine .bind ((turn_succeeds info' _).weaken fun more after turned => .pure ?_)
    rw [if_pos enters] at turned
    rw [turned]
  obtain ⟨info'', more, disk, eq, proceeded⟩ := State.proceed_eq index meets
  cases eq
  rw [proceeded]
  have place : index < st.infos.length := (List.getElem?_eq_some_iff.mp chosen).1
  exact ⟨info', rfl, rfl, List.length_set, List.getElem?_set_self place, trx, rfl, rfl,
    nodup, subset, by simp, missing⟩

end

theorem poll_completes (settings : Settings) {history : List Json} {ids cached : List Bytes} {balance : Option Json}
    {pages : UInt32 → Option Json} (serves : Serves history ids balance pages) (distinct : ids.Nodup)
    (all : ∀ id ∈ ids, IsId id) {st : State} {index : Nat} {info : Info} (polling : st.phase = .balance index)
    (chosen : st.infos[index]? = some info) (trx : info.trx = .arr (cached.map .str)) (nodup : cached.Nodup)
    (subset : cached ⊆ ids) :
    ∃ fuel st', poll settings balance pages index fuel st = some st' ∧ st'.phase = st.next index ∧
      (∃ (info' : Info) (final : List Bytes), st'.infos[index]? = some info' ∧ info'.trx = .arr (final.map .str) ∧
        final.Perm ids ∧ (cached.length ≠ ids.length →
          st'.log.get info.addr = some (settings.codec.stringify (.arr (final.map .str))))) ∧
      (cached.length = ids.length → st'.log = st.log ∧ st'.infos = st.infos) := by
  have bound := (nodup.subperm subset).length_le
  have acted := act_balance_eq settings serves polling chosen trx
  by_cases same : cached.length = ids.length
  · rw [same, if_pos rfl] at acted
    refine ⟨0, { st with phase := st.next index }, ?_, rfl, ⟨info, cached, chosen, trx, ?_, absurd same⟩,
      fun _ => ⟨rfl, rfl⟩⟩
    · simp [poll, acted, turns, State.next]
    · exact (nodup.subperm subset).perm_of_length_le same.ge
  · have missing := lt_of_le_of_ne bound same
    have different : UInt32.ofNat cached.length ≠ UInt32.ofNat ids.length :=
      UInt32.ne_of_lt ((ofNat_lt_iff (missing.trans serves.small) serves.small).mpr missing)
    rw [if_neg different] at acted
    obtain ⟨info', addr, progress⟩ :=
      balanceReply_progress settings serves.small chosen trx nodup subset missing
    obtain ⟨fuel, st', ran, complete⟩ := progress.completes serves distinct all
    obtain ⟨info'', final, found, list, perm, saved⟩ := complete.list
    refine ⟨fuel, st', ?_, complete.phase, ⟨info'', final, found, list, perm, fun _ => addr ▸ saved⟩,
      fun equal => absurd equal same⟩
    simp [poll, acted, ran]

theorem poll_completes_two_pages :
    let ids : List Bytes := (text "0123456789ab").map Sample.idOf
    let history := ids.map Sample.transaction
    let st : State := ⟨[], [⟨0, 0, Sample.address, .arr [.str (Sample.idOf 53)]⟩], .balance 0⟩
    ∃ fuel st', poll Sample.config (Sample.reply (.obj [(text "count_txs", .int 12)]))
        (fun begin => Sample.reply (.arr ((history.drop begin.toNat).take 10))) 0 fuel st = some st' ∧
      ∃ (info : Info) (final : List Bytes), st'.infos[0]? = some info ∧ info.trx = .arr (final.map .str) ∧
        final.Perm ids := by
  intro ids history st
  have describes : List.Forall₂ Describes history ids :=
    List.forall₂_map_left_iff.mpr (List.forall₂_same.mpr fun id _ => rfl)
  have serves : Serves history ids (Sample.reply (.obj [(text "count_txs", .int 12)]))
      (fun begin => Sample.reply (.arr ((history.drop begin.toNat).take 10))) :=
    ⟨describes, by decide, ⟨_, rfl, rfl⟩, fun _ => rfl⟩
  obtain ⟨fuel, st', polled, -, ⟨info, final, chosen, trx, perm, -⟩, -⟩ :=
    poll_completes Sample.config serves (by decide) (by decide)
      (rfl : st.phase = .balance 0) rfl (rfl : Json.arr _ = .arr ([Sample.idOf 53].map .str)) (by decide) (by decide)
  exact ⟨fuel, st', polled, info, final, chosen, trx, perm⟩

end FullnodeClient.History
