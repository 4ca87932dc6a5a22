import FullnodeClient.Cache.Effects

/-!
# The block loop

What is known of a block that the loop accepts: its dump, its predecessor and the database it leaves.
-/

namespace FullnodeClient.Cache
open FullnodeClient.Lib FullnodeClient.Text

variable {env : Env} {fetch : Nat → Option Bytes} {st st' : State} {c : Candidate}

def TorrentLib.Holds (lib : TorrentLib) (dump : Bytes) (number : Nat) (info : BlockInfo) : Prop :=
  ∃ b, lib.blockOf dump = some b ∧ info = { b with blockNumber := some number }

theorem TorrentLib.blockOf_eq_some {lib : TorrentLib} {dump : Bytes} {b : BlockInfo} :
    lib.blockOf dump = some b ↔ lib.parseBlockDump dump = some (.block b) := by
  unfold blockOf
  split <;> simp_all

theorem TorrentLib.Hashes.length_of_holds {lib : TorrentLib} (hashes : lib.Hashes) {dump : Bytes} {number : Nat}
    {info : BlockInfo} (holds : lib.Holds dump number info) : info.hash.length = 32 := by
  obtain ⟨b, parsed, rfl⟩ := holds
  exact hashes.block dump b (blockOf_eq_some.mp parsed)

theorem getBlock_eq_some {log : Log} {num : Nat} {exdata ext : ExtData} {b : BlockInfo}
    (got : getBlock env fetch log num exdata = .ok (some b, ext)) :
    ext = readExtData log num exdata ∧
    ∃ dump, env.lib.Holds dump num b ∧
      (log.record num = some dump ∨ log.record num = none ∧ fetch num = some dump) := by
  simp only [getBlock, getBlockByNum, Bool.false_and, Bool.false_eq_true, if_false] at got
  split at got
  case h_1 dump found =>
    split at got <;> cases got
    case h_1 b parsed => exact ⟨rfl, dump, ⟨b, parsed, rfl⟩, .inl found⟩
  case h_2 missing =>
    split at got
    case h_1 => cases got
    case h_2 dump fetched =>
      split at got <;> cases got
      case h_1 b parsed =>
        exact ⟨rfl, dump, ⟨b, TorrentLib.blockOf_eq_some.mpr parsed, rfl⟩, .inr ⟨missing, fetched⟩⟩

theorem getBlock_congr {log log' : Log} {num : Nat} (exdata : ExtData)
    (record : log.record num = log'.record num) (data : getExtraData log num = getExtraData log' num) :
    getBlock env fetch log num exdata = getBlock env fetch log' num exdata := by
  simp only [getBlock, readExtData, getBlockByNum, Bool.false_and, Bool.false_eq_true, if_false, record, data]

structure Candidate.Checked (env : Env) (fetch : Nat → Option Bytes) (st : State) (c : Candidate) : Prop where
  above : 1 < c.number
  small : c.number < 2 ^ 32
  previous : previousBlock env fetch st.log c.number st.carried = .ok (some c.prev, c.ext)
  holds : env.lib.Holds c.dump c.number c.block
  linked : c.block.prevHash = c.prev.hash
  verify : c.verify = coreAddrVerification env c.block (StringUtils.bin2hex c.prev.hash)
  valid : c.verify ≠ -1
  framed : ∃ iter, st.frame = some (iter, some c.dump) ∧ iter.number = c.number ∧ iter.hash = c.block.hash

theorem State.candidate_checked (chosen : st.candidate env fetch = some c) : c.Checked env fetch st := by
  unfold State.candidate at chosen
  split at chosen
  case h_2 => cases chosen
  case h_1 iter content framed =>
    split at chosen
    case isFalse => cases chosen
    case isTrue verified =>
      split at chosen
      case h_2 => cases chosen
      case h_1 c' checked =>
        cases chosen
        unfold checkBlock at checked
        split at checked <;> try cases checked
        case h_3 prev ext previous =>
          split at checked <;> try cases checked
          case h_2 dump =>
            split at checked <;> try cases checked
            case h_2 b parsed =>
              simp only at checked
              split at checked <;> cases checked
              case isTrue passed =>
                obtain ⟨hash, linked, valid⟩ := passed
                exact ⟨verified.2, iter.small, previous, ⟨b, parsed, rfl⟩, linked, rfl, valid,
                  iter, framed, rfl, hash.symm⟩

theorem Candidate.Checked.prev_number (checked : c.Checked env fetch st) (fresh : st.carried.prev.hash = []) :
    c.prev.blockNumber = some (c.number - 1) := by
  have previous := checked.previous
  simp only [previousBlock, if_pos fresh] at previous
  obtain ⟨-, dump, ⟨b, -, same⟩, -⟩ := getBlock_eq_some previous
  rw [same]

theorem State.save_cases {action : Action} {s : Save} (chosen : st.save env action = some s) :
    (∃ c, st.candidate env action.fetch = some c ∧ s = c.save) ∨ st.unverified env = some s := by
  cases action <;> simp only [State.save, Option.or_eq_some_iff, Option.map_eq_some_iff, reduceCtorEq] at chosen
  rcases chosen with ⟨c, chosen, rfl⟩ | ⟨-, chosen⟩
  · exact .inl ⟨c, chosen, rfl⟩
  · exact .inr chosen

theorem State.Emits.dump_eq {action : Action} {u : Log} {n : Nat} {d : Bytes}
    (emitted : st.Emits env action u (.put (.dump n d))) :
    ∃ s, st.save env action = some s ∧ n = s.number ∧ d = s.dump ∧ u.get = st.log.get ∧
      u.nextblock = st.log.nextblock := by
  cases emitted with
  | unverified chosen saving =>
      cases saving
      exact ⟨_, State.save_of_unverified chosen, rfl, rfl, rfl, rfl⟩
  | block chosen emitted =>
      cases emitted with
      | save saving =>
          cases saving
          exact ⟨_, State.save_of_candidate chosen, rfl, rfl, rfl, rfl⟩
  | signBlock chosen emitted => cases emitted

theorem State.Emits.index_eq {action : Action} {u : Log} {hash : Bytes} {n : Nat}
    (emitted : st.Emits env action u (.put (.index hash n))) :
    ∃ s past, st.save env action = some s ∧ hash = s.hash ∧ n = s.number ∧
      u = .put (.dump s.number s.dump) :: past := by
  cases emitted with
  | unverified chosen saving =>
      cases saving
      exact ⟨_, _, State.save_of_unverified chosen, rfl, rfl, rfl⟩
  | block chosen emitted =>
      cases emitted with
      | save saving =>
          cases saving
          exact ⟨_, _, State.save_of_candidate chosen, rfl, rfl, rfl⟩
  | signBlock chosen emitted => cases emitted

theorem State.Emits.setNext_eq {action : Action} {u : Log} {n : Nat}
    (emitted : st.Emits env action u (.setNext n)) :
    ∃ s past, st.save env action = some s ∧ n = s.number + 1 ∧ u = s.stored past ∧
      past.get = st.log.get ∧ past.nextblock = st.log.nextblock := by
  cases emitted with
  | unverified chosen saving =>
      cases saving
      exact ⟨_, _, State.save_of_unverified chosen, rfl, rfl, rfl, rfl⟩
  | block chosen emitted =>
      cases emitted with
      | save saving =>
          cases saving
          exact ⟨_, _, State.save_of_candidate chosen, rfl, rfl, rfl, rfl⟩
  | signBlock chosen emitted => cases emitted

theorem State.Emits.nextBlock_eq {action : Action} {u : Log} {n : Nat}
    (emitted : st.Emits env action u (.put (.nextBlock n))) :
    ∃ s, st.save env action = some s ∧ n = s.number + 1 ∧ u.nextblock = n := by
  cases emitted with
  | unverified chosen saving =>
      cases saving
      exact ⟨_, State.save_of_unverified chosen, rfl, rfl⟩
  | block chosen emitted =>
      cases emitted with
      | save saving =>
          cases saving
          exact ⟨_, State.save_of_candidate chosen, rfl, rfl⟩
  | signBlock chosen emitted => cases emitted

theorem State.Emits.start_eq {action : Action} {u : Log} {fresh : Bool} {next last : Nat}
    (emitted : st.Emits env action u (.start fresh next last)) :
    u = st.log ∧ ∃ count, action = .start count ∧
      Event.start fresh next last = startEvent env.settings st.log count := by
  generalize same : Event.start fresh next last = e at emitted
  cases emitted with
  | start => exact ⟨rfl, _, rfl, rfl⟩
  | unverified chosen saving => cases saving <;> cases same
  | block chosen emitted =>
      cases emitted with
      | save saving => cases saving <;> cases same
      | _ => cases same
  | signBlock chosen emitted => cases emitted <;> cases same

theorem Save.Emits.data_eq {s : Save} {past u : Log} {num : Bytes} {ext : ExtData}
    (saving : s.Emits past u (.put (.data num ext))) :
    num = decimal s.number ∧ ext = s.ext ∧
      u = .put (.index s.hash s.number) :: .put (.dump s.number s.dump) :: past := by
  cases saving
  exact ⟨rfl, rfl, rfl⟩

theorem State.signBlock_parse {x : Bytes × SignBlockInfo} (chosen : st.signBlock env = some x) :
    env.lib.parseBlockDump x.1 = some (.signBlock x.2) := by
  unfold State.signBlock at chosen
  split at chosen
  case h_2 => cases chosen
  case h_1 =>
    split at chosen
    case h_2 => cases chosen
    case h_1 =>
      split at chosen <;> cases chosen
      case h_1 parsed => exact parsed

theorem State.save_long (hashes : env.lib.Hashes) (long : ∀ s ∈ st.unverified env, s.hash.length = 32)
    {action : Action} {s : Save} (chosen : st.save env action = some s) : s.hash.length = 32 := by
  rcases State.save_cases chosen with ⟨c, accepted, rfl⟩ | chosen
  · exact hashes.length_of_holds (State.candidate_checked accepted).holds
  · exact long s chosen

theorem State.Emits.record_eq {action : Action} {u : Log} {e : Event} (hashes : env.lib.Hashes)
    (long : ∀ s ∈ st.unverified env, s.hash.length = 32) (emitted : st.Emits env action u e) :
    (∃ s, st.save env action = some s ∧ e = .put (.dump s.number s.dump) ∧ u.get = st.log.get) ∨
    ∀ n < 2 ^ 64, Log.record (e :: u) n = u.record n := by
  cases e with
  | put w =>
      cases w with
      | dump n d =>
          obtain ⟨s, chosen, rfl, rfl, same, -⟩ := emitted.dump_eq
          exact .inl ⟨s, chosen, rfl, same⟩
      | index hash n =>
          obtain ⟨s, -, chosen, rfl, rfl, -⟩ := emitted.index_eq
          exact .inr fun n small => by simp [bin2hex_ne_decimal (State.save_long hashes long chosen) small]
      | _ => exact .inr fun n _ => by simp
  | _ => exact .inr fun n _ => by simp

theorem Event.data_eq (e : Event) (u : Log) :
    (∃ num ext, e = .put (.data num ext)) ∨ ∀ n, getExtraData (e :: u) n = getExtraData u n := by
  cases e with
  | put w =>
      cases w with
      | data num ext => exact .inl ⟨num, ext, rfl⟩
      | _ => exact .inr fun n => by simp
  | _ => exact .inr fun n => by simp

namespace Candidate.After

variable {past u : Log} {n : Nat}

theorem block_mem (after : c.After past u) : .block c.block ∈ u := by
  have saved {u : Log} (after : c.AfterSave past u) : .block c.block ∈ u := by
    rcases after with rfl | rfl <;> simp [Candidate.saved, Save.saved, Save.stored]
  induction after with
  | saved after => exact saved after
  | awaiting _ after => exact List.mem_cons_of_mem _ (saved after)
  | status _ _ _ ih => exact List.mem_cons_of_mem _ ih
  | raised _ _ _ ih => exact List.mem_cons_of_mem _ (List.mem_cons_of_mem _ ih)

theorem record_eq (after : c.After past u) (long : c.block.hash.length = 32) (small : n < 2 ^ 64) :
    u.record n = if c.number = n then some c.dump else past.record n := by
  have saved {u : Log} (after : c.AfterSave past u) :
      u.record n = if c.number = n then some c.dump else past.record n := by
    rcases after with rfl | rfl <;>
      simp [Candidate.saved, Save.saved, Save.stored, Candidate.save, bin2hex_ne_decimal long small]
  induction after with
  | saved after => exact saved after
  | awaiting _ after => simpa using saved after
  | status _ _ _ ih => simpa using ih
  | raised _ _ _ ih => simpa using ih

theorem nextblock_eq (after : c.After past u) : u.nextblock = c.number + 1 := by
  have saved {u : Log} (after : c.AfterSave past u) : u.nextblock = c.number + 1 := by
    rcases after with rfl | rfl <;> rfl
  induction after with
  | saved after => exact saved after
  | awaiting _ after => simpa using saved after
  | status _ _ _ ih => exact ih
  | raised _ _ _ ih => exact ih

end Candidate.After

theorem State.Emits.record_ne_none {action : Action} {u : Log} {e : Event} (hashes : env.lib.Hashes)
    (long : ∀ s ∈ st.unverified env, s.hash.length = 32) (emitted : st.Emits env action u e) {n : Nat}
    (small : n < 2 ^ 64) (stored : u.record n ≠ none) : Log.record (e :: u) n ≠ none := by
  rcases emitted.record_eq hashes long with ⟨s, -, rfl, -⟩ | kept
  · by_cases here : s.number = n
    · simp [here]
    · simpa [here] using stored
  · rwa [kept n small]

/-! ## Files -/

def Log.stored : Log → List Nat
  | [] => []
  | .put (.dump n _) :: past => n :: stored past
  | _ :: past => stored past

structure Log.Filed (bound : Nat) (log : Log) : Prop where
  dump : ∀ n d, .put (.dump n d) ∈ log → n < bound
  index : ∀ hash n, .put (.index hash n) ∈ log → n < bound ∧ hash.length = 32

namespace Log.Filed

variable {bound : Nat} {log : Log}

theorem nil : Filed bound [] := ⟨by simp, by simp⟩

theorem entry {action : Action} {e : Event} (filed : log.Filed bound) (hashes : env.lib.Hashes)
    (long : ∀ s ∈ st.unverified env, s.hash.length = 32) (small : ∀ s ∈ st.save env action, s.number < bound)
    (emitted : st.Emits env action log e) : Log.Filed bound (e :: log) where
  dump n d member := by
    rcases List.mem_cons.mp member with rfl | member
    · obtain ⟨s, chosen, rfl, -⟩ := emitted.dump_eq
      exact small s chosen
    · exact filed.dump n d member
  index hash n member := by
    rcases List.mem_cons.mp member with rfl | member
    · obtain ⟨s, -, chosen, rfl, rfl, -⟩ := emitted.index_eq
      exact ⟨small s chosen, State.save_long hashes long chosen⟩
    · exact filed.index hash n member

theorem tail {e : Event} (filed : Log.Filed bound (e :: log)) : log.Filed bound :=
  ⟨fun n d member => filed.dump n d (List.mem_cons_of_mem _ member),
    fun hash n member => filed.index hash n (List.mem_cons_of_mem _ member)⟩

theorem record_mem (filed : log.Filed bound) {n : Nat} {d : Bytes} (small : n < 2 ^ 64)
    (found : log.record n = some d) : .put (.dump n d) ∈ log := by
  induction log with
  | nil => simp at found
  | cons e past ih =>
      have rest (found : Log.record past n = some d) : .put (.dump n d) ∈ e :: past :=
        List.mem_cons_of_mem _ (ih filed.tail found)
      cases e with
      | put w =>
          cases w with
          | dump m d' =>
              by_cases same : m = n
              · subst same
                simp only [Log.get_put, Write.key, if_true, Write.value, Option.some.injEq] at found
                simp [found]
              · exact rest (by simpa [same] using found)
          | index hash m =>
              have long := (filed.index hash m List.mem_cons_self).2
              exact rest (by simpa [bin2hex_ne_decimal long small] using found)
          | _ => exact rest (by simpa using found)
      | _ => exact rest (by simpa using found)

theorem index_eq (room : bound ≤ 2 ^ 64) (filed : log.Filed bound) {hash num : Bytes} (long : hash.length = 32)
    (found : getBlockNumByHash log hash = some num) : ∃ n, num = decimal n ∧ .put (.index hash n) ∈ log := by
  induction log with
  | nil => simp at found
  | cons e past ih =>
      have rest (found : getBlockNumByHash past hash = some num) :
          ∃ n, num = decimal n ∧ .put (.index hash n) ∈ e :: past := by
        obtain ⟨n, same, member⟩ := ih filed.tail found
        exact ⟨n, same, List.mem_cons_of_mem _ member⟩
      cases e with
      | put w =>
          cases w with
          | index hash' n =>
              by_cases same : hash' = hash
              · subst same
                simp only [Log.get_put, Write.key, if_true, Option.some.injEq, Write.value] at found
                exact ⟨n, found.symm, List.mem_cons_self⟩
              · exact rest (by simpa [same] using found)
          | dump n d =>
              have small := filed.dump n d List.mem_cons_self
              exact rest (by simpa [(bin2hex_ne_decimal long (small.trans_le room)).symm] using found)
          | _ => exact rest (by simpa using found)
      | _ => exact rest (by simpa using found)

theorem stored (room : bound ≤ 2 ^ 64) (filed : log.Filed bound) {n : Nat} (member : n ∈ log.stored) :
    n < bound ∧ log.record n ≠ none := by
  induction log with
  | nil => cases member
  | cons e past ih =>
      have rest (member : n ∈ Log.stored past) : n < bound ∧ Log.record past n ≠ none := ih filed.tail member
      cases e with
      | put w =>
          cases w with
          | dump m d =>
              by_cases same : m = n
              · exact ⟨same ▸ filed.dump m d List.mem_cons_self, by simp [same]⟩
              · have earlier := rest ((List.mem_cons.mp member).resolve_left (Ne.symm same))
                exact ⟨earlier.1, by simpa [same] using earlier.2⟩
          | index hash m =>
              have long := (filed.index hash m List.mem_cons_self).2
              have earlier := rest member
              exact ⟨earlier.1, by simpa [bin2hex_ne_decimal (n := n) long (by omega)] using earlier.2⟩
          | _ => exact ⟨(rest member).1, by simpa using (rest member).2⟩
      | _ => exact ⟨(rest member).1, by simpa using (rest member).2⟩

theorem index_atoi (filed : log.Filed (2 ^ 31)) {hash num : Bytes} (long : hash.length = 32)
    (found : getBlockNumByHash log hash = some num) :
    ∃ k < 2 ^ 31, num = decimal k ∧ atoi num = k ∧ .put (.index hash k) ∈ log := by
  obtain ⟨k, rfl, member⟩ := filed.index_eq (by norm_num) long found
  have small := (filed.index hash k member).1
  exact ⟨k, small, rfl, by rw [atoi_decimal (by omega), castNumber_small small], member⟩

end Log.Filed

def Linked (env : Env) (st : State) : Prop :=
  ∀ buf before after, st.phase = .walk buf before after → st.carried.prev.hash ≠ [] →
    ∃ m dump, 1 < m ∧ m < 2 ^ 32 ∧ st.log.record m = some dump ∧ env.lib.Holds dump m st.carried.prev

theorem State.frame_walk {iter : BlkInfo} {content : Option Bytes} (framed : st.frame = some (iter, content)) :
    ∃ buf before after, st.phase = .walk buf before after := by
  unfold State.frame at framed
  split at framed
  case h_1 buf before iter' after phase => exact ⟨buf, before, iter' :: after, phase⟩
  case h_2 => cases framed

theorem Candidate.Checked.prev_holds (checked : c.Checked env fetch st) (linked : Linked env st) :
    ∃ m dump, m < 2 ^ 32 ∧ c.prev.blockNumber = some m ∧ env.lib.Holds dump m c.prev ∧
      ∀ dump', st.log.record m = some dump' → dump' = dump := by
  have previous := checked.previous
  by_cases empty : st.carried.prev.hash = []
  · simp only [previousBlock, if_pos empty] at previous
    obtain ⟨-, dump, holds, source⟩ := getBlock_eq_some previous
    have small := checked.small
    refine ⟨c.number - 1, dump, by omega, checked.prev_number empty, holds, fun dump' found => ?_⟩
    rcases source with stored | ⟨missing, -⟩
    · exact Option.some.inj (found.symm.trans stored)
    · rw [missing] at found
      cases found
  · simp only [previousBlock, if_neg empty, Except.ok.injEq, Prod.mk.injEq, Option.some.injEq] at previous
    obtain ⟨iter, framed, -, -⟩ := checked.framed
    obtain ⟨buf, before, after, phase⟩ := State.frame_walk framed
    obtain ⟨m, dump, -, small, stored, holds⟩ := linked _ _ _ phase empty
    rw [previous.1] at holds
    refine ⟨m, dump, small, ?_, holds, fun dump' found => Option.some.inj (found.symm.trans stored)⟩
    obtain ⟨b, -, same⟩ := holds
    rw [same]

theorem pollPhase_loading {settings : Settings} {log : Log} {reply : Option (List (Option Header))}
    {count : Option CountReply} (loading : (pollPhase settings log reply count).loading = true) :
    ∃ elements, reply = some elements ∧
      pollPhase settings log reply count = .dumps (collect settings elements 0 []) := by
  unfold pollPhase at loading ⊢
  split at loading
  case h_1 => cases loading
  case h_2 =>
    split at loading
    case h_1 => cases loading
    case h_2 =>
      split at loading
      case isTrue => cases loading
      case isFalse => cases loadExtraBlocks_loading.symm.trans loading
  case h_3 elements _ =>
    split at loading
    case h_1 => cases loading
    case h_2 => exact ⟨elements, rfl, rfl⟩

theorem act_loads {action : Action} (acted : act env st action = some st') (loading : st'.phase.loading = true) :
    (∃ elements count, action = .poll (some elements) count ∧ st'.log = st.log ∧
      st'.phase = .dumps (collect env.settings elements 0 [])) ∨
    (∃ body hashes, action = .dumps (some body) ∧ st.phase = .dumps hashes ∧ st'.log = st.log ∧
      st'.carried.prev.hash = [] ∧ st'.phase = .walk (.of body) [] hashes) ∨
    ∃ fetch faults, action = .frame fetch faults := by
  cases action with
  | frame fetch faults => exact .inr (.inr ⟨fetch, faults, rfl⟩)
  | dumps body =>
      simp only [act] at acted
      split at acted
      case h_1 => cases acted; cases loading
      case h_3 => cases acted
      case h_2 hashes body phase =>
        split at acted <;> cases acted
        · cases loading
        · exact .inr (.inl ⟨body, hashes, rfl, phase, rfl, rfl, rfl⟩)
  | start count =>
      simp only [act] at acted
      split at acted <;> cases acted
      cases loading
  | poll reply count =>
      simp only [act] at acted
      split at acted <;> cases acted
      obtain ⟨elements, rfl, phase⟩ := pollPhase_loading loading
      exact .inl ⟨elements, count, rfl, rfl, phase⟩
  | extraDumps body =>
      simp only [act] at acted
      split at acted
      case h_2 => cases acted
      case h_1 =>
        split at acted <;> cases acted
        · cases loadExtraBlocks_loading.symm.trans loading
        · cases loading
  | extraFrame faults =>
      simp only [act] at acted
      split at acted
      case h_2 => cases acted
      case h_1 =>
        split at acted
        case h_1 => cases acted; cases loading
        case h_3 => cases acted; cases loadExtraBlocks_loading.symm.trans loading
        case h_2 => split at acted <;> cases acted <;> cases loading
  | stop =>
      simp only [act] at acted
      split at acted <;> cases acted
      cases loading

theorem step_walk {l : Label} (stepped : step env st l = some st') {buf : Buf} {before after : List BlkInfo}
    (walking : st'.phase = .walk buf before after) (filled : st'.carried.prev.hash ≠ []) :
    ∃ fetch faults buf' before' after', l.action = .frame fetch faults ∧ st.phase = .walk buf' before' after' ∧
      st.Walked env fetch st'.carried st'.log := by
  have loading : st'.phase.loading = true := by rw [walking]; rfl
  rcases step_cases stepped with acted | ⟨-, -, -, -, -, down⟩
  case inr => rw [down] at walking; cases walking
  case inl =>
    rcases act_loads acted loading with ⟨elements, count, -, -, phase⟩ | ⟨-, -, -, -, -, empty, -⟩ | ⟨fetch, faults, same⟩
    · rw [phase] at walking
      cases walking
    · exact absurd empty filled
    · rw [same] at acted
      obtain ⟨buf', before', iter, after', -, -, phase, -, -, walked⟩ := (act_frame acted).2.2 loading
      exact ⟨fetch, faults, buf', before', iter :: after', same, phase, walked⟩

theorem linked_step (hashes : env.lib.Hashes) (verified : env.settings.blockVerification = true) {l : Label}
    (long : ∀ s, st.unverified env = some s → s.hash.length = 32) (linked : Linked env st)
    (stepped : step env st l = some st') : Linked env st' := by
  intro buf before after walking nonempty
  obtain ⟨fetch, faults, buf', before', after', -, phase, accepted⟩ := step_walk stepped walking nonempty
  rcases accepted with ⟨c, chosen, carried, later⟩ | ⟨s, chosen, carried, later⟩
  case inl =>
    have checked := State.candidate_checked chosen
    refine ⟨c.number, c.dump, checked.above, checked.small, ?_, ?_⟩
    · rw [later.record_eq (hashes.length_of_holds checked.holds) (by have := checked.small; omega), if_pos rfl]
    · rw [carried]
      exact checked.holds
  case inr =>
    rw [carried] at nonempty ⊢
    obtain ⟨m, dump, above, small, found, holds⟩ := linked _ _ _ phase nonempty
    have low := (State.unverified_number verified chosen).1
    have other : s.number ≠ m := by omega
    have index := bin2hex_ne_decimal (n := m) (long s chosen) (by omega)
    refine ⟨m, dump, above, small, ?_, holds⟩
    rcases later with later | later <;> simpa [later, Save.saved, Save.stored, other, index] using found

end FullnodeClient.Cache
