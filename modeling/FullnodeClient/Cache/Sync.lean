import FullnodeClient.Cache.Walk

/-!
# Synchronisation with an honest server

If the replies come from one chain, everything below the persisted `next_block` is in the database, with
the process killed and started again at any point and any Put failing.
-/

namespace FullnodeClient.Cache
open FullnodeClient.Lib FullnodeClient.Text

structure Chain (lib : TorrentLib) where
  count : Nat
  block : Nat → BlockInfo
  dump : Nat → Bytes
  small : count < 2 ^ 32
  parse : ∀ n ≤ count, 0 < n → lib.parseBlockDump (dump n) = some (.block (block n))
  linked : ∀ n ≤ count, 1 < n → (block n).prevHash = (block (n - 1)).hash
  distinct : ∀ n ≤ count, 0 < n → ∀ m ≤ count, 0 < m → (block n).hash = (block m).hash → n = m
  sized : ∀ n ≤ count, 0 < n → (dump n).length < 2 ^ 64

namespace Chain

variable {lib : TorrentLib} (chain : Chain lib)

structure Has (n : Nat) : Prop where
  upper : n ≤ chain.count
  lower : 0 < n

instance (n : Nat) : Decidable (chain.Has n) :=
  decidable_of_iff (n ≤ chain.count ∧ 0 < n) ⟨fun both => ⟨both.1, both.2⟩, fun has => ⟨has.upper, has.lower⟩⟩

def hash (n : Nat) : Bytes := (chain.block n).hash

def find (hash : Bytes) : Option Nat := (List.range' 1 chain.count).find? fun n => chain.hash n = hash

def dumps (hashes : List Bytes) : Bytes :=
  hashes.flatMap fun hash => (chain.find hash).elim [] fun n => frameOf (chain.dump n)

def Announces : Nat → List (Option Header) → Prop
  | _, [] => True
  | _, none :: _ => False
  | begin, some header :: rest =>
      chain.Has begin ∧ header.number.map UInt32.toNat = some begin ∧
      header.hash.map Common.fromHex = some (chain.hash begin) ∧ Announces (begin + 1) rest

instance (begin : Nat) (elements : List (Option Header)) : Decidable (chain.Announces begin elements) := by
  induction elements generalizing begin with
  | nil => exact .isTrue trivial
  | cons element rest ih =>
      cases element with
      | none => exact .isFalse id
      | some header => unfold Announces; infer_instance

def Honest (st : State) : Action → Prop
  | .poll (some elements) _ => chain.Announces st.log.nextblock elements
  | .dumps (some body) =>
      match st.phase with
      | .dumps hashes => body.bytes = chain.dumps (hashes.map (·.hash))
      | _ => True
  | _ => True

instance (st : State) (action : Action) : Decidable (chain.Honest st action) := by
  unfold Honest
  split <;> try infer_instance
  split <;> infer_instance

end Chain

/-! ## What is in the database -/

/-- The value that `m_nextblock` was given by the last start that found no `next_block`. -/
def Log.origin : Log → Option Nat
  | [] => none
  | .start true next _ :: _ => some next
  | _ :: past => origin past

section

variable {env : Env} {chain : Chain env.lib} {st st' : State} {u : Log} {n : Nat}

structure Chain.Held (chain : Chain env.lib) (log : Log) (n : Nat) : Prop where
  inside : chain.Has n
  dump : log.record n = some (chain.dump n)
  index : getBlockNumByHash log (chain.hash n) = some (decimal n)
  data : getExtraData log n ≠ none

def Chain.Synced (chain : Chain env.lib) (log : Log) : Prop :=
  ∀ lo ∈ log.origin, ∀ v ∈ log.get (text "next_block"), ∃ next, v = decimal next ∧
    ∀ n, lo ≤ n → n < next → chain.Held log n

structure Chain.Next (chain : Chain env.lib) (log : Log) (s : Save) : Prop where
  number : s.number = log.nextblock
  inside : chain.Has s.number
  hash : s.hash = chain.hash s.number
  dump : s.dump = chain.dump s.number

namespace Chain

theorem find_hash (chain : Chain env.lib) (inside : chain.Has n) : chain.find (chain.hash n) = some n := by
  cases found : chain.find (chain.hash n) with
  | none =>
      have := List.find?_eq_none.mp found n (List.mem_range'_1.mpr ⟨inside.lower, by have := inside.upper; omega⟩)
      simp at this
  | some m =>
      have same : chain.hash m = chain.hash n := by simpa using List.find?_some found
      obtain ⟨lower, upper⟩ := List.mem_range'_1.mp (List.mem_of_find?_eq_some found)
      rw [chain.distinct m (by omega) lower n inside.upper inside.lower same]

theorem hash_length (hashes : env.lib.Hashes) (chain : Chain env.lib) (inside : chain.Has n) :
    (chain.hash n).length = 32 :=
  hashes.block _ _ (chain.parse n inside.upper inside.lower)

theorem dumps_cons (chain : Chain env.lib) (inside : chain.Has n) (hashes : List Bytes) :
    chain.dumps (chain.hash n :: hashes) = frameOf (chain.dump n) ++ chain.dumps hashes := by
  simp [dumps, chain.find_hash inside]

theorem Held.entry {action : Action} {e : Event} (held : chain.Held u n) (hashes : env.lib.Hashes)
    (next : ∀ s ∈ st.save env action, chain.Next st.log s) (emitted : st.Emits env action u e) :
    chain.Held (e :: u) n := by
  have room := chain.small
  have inside := held.inside
  have below := inside.upper
  cases e with
  | put w =>
      cases w with
      | dump m d =>
          obtain ⟨s, chosen, rfl, rfl, -, -⟩ := emitted.dump_eq
          have saved := next s chosen
          have apart := bin2hex_ne_decimal (n := s.number) (chain.hash_length hashes inside) (by
            have := saved.inside.upper
            omega)
          refine ⟨inside, ?_, by simpa [apart.symm] using held.index, by simpa using held.data⟩
          by_cases same : s.number = n
          · simp [saved.dump, same]
          · simpa [same] using held.dump
      | index hash m =>
          obtain ⟨s, -, chosen, rfl, rfl, -⟩ := emitted.index_eq
          have saved := next s chosen
          have long : s.hash.length = 32 := saved.hash ▸ chain.hash_length hashes saved.inside
          have apart := bin2hex_ne_decimal (n := n) long (by omega)
          refine ⟨inside, by simpa [apart] using held.dump, ?_, by simpa using held.data⟩
          by_cases same : s.number = n
          · simp [saved.hash, same]
          · have other : s.hash ≠ chain.hash n := fun equal =>
              same (chain.distinct _ saved.inside.upper saved.inside.lower _ inside.upper inside.lower
                (saved.hash.symm.trans equal))
            simpa [other] using held.index
      | data num ext =>
          refine ⟨inside, by simpa using held.dump, by simpa using held.index, ?_⟩
          by_cases same : num = decimal n
          · simp [same]
          · simpa [same] using held.data
      | _ => exact ⟨inside, by simpa using held.dump, by simpa using held.index, by simpa using held.data⟩
  | _ => exact ⟨inside, by simpa using held.dump, by simpa using held.index, by simpa using held.data⟩

theorem Next.held {s : Save} {past : Log} (next : chain.Next st.log s) (hashes : env.lib.Hashes) :
    chain.Held (s.stored past) s.number := by
  have room := chain.small
  have inside := next.inside
  have below := inside.upper
  have apart := bin2hex_ne_decimal (n := s.number) (chain.hash_length hashes inside) (by omega)
  refine ⟨inside, ?_, ?_, ?_⟩ <;> simp [Save.stored, next.hash, apart, next.dump]

structure Tracked (chain : Chain env.lib) (log : Log) : Prop where
  memory : ∀ lo ∈ log.origin, log.nextblock ≤ 2 ^ 32 → ∀ n, lo ≤ n → n < log.nextblock → chain.Held log n
  disk : ∀ v ∈ log.get (text "next_block"), ∃ next, v = decimal next ∧ 0 < next ∧ next ≤ 2 ^ 32 ∧
    ∀ lo ∈ log.origin, ∀ n, lo ≤ n → n < next → chain.Held log n

end Chain

theorem castNumber_le {k : Nat} (small : k ≤ 2 ^ 32) (low : castNumber k ≤ 2 ^ 32) :
    castNumber k = k ∨ castNumber k = 0 ∧ k = 2 ^ 32 := by
  simp only [castNumber, Int.bmod_def] at low ⊢
  split at low <;> split <;> omega

namespace Chain.Tracked

theorem start {settings : Settings} {count : Option CountReply} (tracked : chain.Tracked u) :
    chain.Tracked (startEvent settings u count :: u) := by
  have held {n : Nat} (held : chain.Held u n) : chain.Held (startEvent settings u count :: u) n :=
    ⟨held.inside, held.dump, held.index, held.data⟩
  cases found : u.get (text "next_block") with
  | none =>
      have origin : Log.origin (startEvent settings u count :: u) =
          some (Log.nextblock (startEvent settings u count :: u)) := by
        simp [startEvent, found, Log.origin, Log.nextblock]
      refine ⟨fun lo member _ n above below => ?_, fun v stored => ?_⟩
      · rw [origin] at member
        cases member
        omega
      · cases found.symm.trans stored
  | some v =>
      have origin : Log.origin (startEvent settings u count :: u) = u.origin := by
        simp [startEvent, found, Log.origin]
      obtain ⟨k, rfl, positive, small, below⟩ := tracked.disk v found
      have next : Log.nextblock (startEvent settings u count :: u) = startNumber settings (castNumber k) count := by
        simp [startEvent, found, Log.nextblock, atoi_decimal (n := k) (by omega)]
      refine ⟨fun lo member fits n above lower => ?_, fun v stored => ?_⟩
      · rw [next] at fits lower
        refine held (below lo (origin ▸ member) n above ?_)
        by_cases zero : castNumber k = 0
        · have := castNumber_le small (by omega)
          omega
        · rw [show startNumber settings (castNumber k) count = castNumber k from if_pos zero] at fits lower
          have := castNumber_le small fits
          omega
      · cases found.symm.trans stored
        exact ⟨k, rfl, positive, small, fun lo member n above lower => held (below lo (origin ▸ member) n above lower)⟩

theorem entry {action : Action} {e : Event} (tracked : chain.Tracked u) (hashes : env.lib.Hashes)
    (next : ∀ s ∈ st.save env action, chain.Next st.log s) (emitted : st.Emits env action u e) :
    chain.Tracked (e :: u) := by
  have room := chain.small
  have kept {n : Nat} (held : chain.Held u n) : chain.Held (e :: u) n := held.entry hashes next emitted
  have disk (origin : Log.origin (e :: u) = u.origin)
      (same : Log.get (e :: u) (text "next_block") = u.get (text "next_block")) :
      ∀ v ∈ Log.get (e :: u) (text "next_block"), ∃ next, v = decimal next ∧ 0 < next ∧ next ≤ 2 ^ 32 ∧
        ∀ lo ∈ Log.origin (e :: u), ∀ n, lo ≤ n → n < next → chain.Held (e :: u) n := by
    intro v stored
    obtain ⟨k, value, positive, small, below⟩ := tracked.disk v (same ▸ stored)
    exact ⟨k, value, positive, small, fun lo member n above lower => kept (below lo (origin ▸ member) n above lower)⟩
  have quiet (origin : Log.origin (e :: u) = u.origin) (nextblock : Log.nextblock (e :: u) = u.nextblock)
      (same : Log.get (e :: u) (text "next_block") = u.get (text "next_block")) : chain.Tracked (e :: u) := by
    refine ⟨fun lo member fits n above below => kept ?_, disk origin same⟩
    rw [nextblock] at fits below
    exact tracked.memory lo (origin ▸ member) fits n above below
  cases e with
  | put w =>
      cases w with
      | nextBlock k =>
          obtain ⟨s, chosen, rfl, advanced⟩ := emitted.nextBlock_eq
          have fits : u.nextblock ≤ 2 ^ 32 := by have := (next s chosen).inside.upper; omega
          have memory := tracked.memory
          refine ⟨fun lo member _ n above below => kept (memory lo member fits n above below), fun v stored => ?_⟩
          refine ⟨s.number + 1, by simpa using stored.symm, by omega, by omega, fun lo member n above below => ?_⟩
          exact kept (memory lo member fits n above (by omega))
      | _ => exact quiet rfl rfl (by simp)
  | setNext k =>
      obtain ⟨s, past, chosen, rfl, rfl, -, same⟩ := emitted.setNext_eq
      have saved := next s chosen
      have current : (s.stored past).nextblock = s.number := same.trans saved.number.symm
      refine ⟨fun lo member _ n above below => kept ?_, disk rfl rfl⟩
      rcases (Nat.lt_succ_iff.mp below).lt_or_eq with lower | rfl
      · have := saved.inside.upper
        exact tracked.memory lo member (by omega) n above (by omega)
      · exact saved.held hashes
  | start fresh next last =>
      obtain ⟨rfl, count, -, same⟩ := emitted.start_eq
      rw [same]
      exact tracked.start
  | _ => exact quiet rfl rfl (by simp)

end Chain.Tracked

def Chain.Lists (chain : Chain env.lib) : Nat → List BlkInfo → Prop
  | _, [] => True
  | begin, iter :: rest =>
      chain.Has begin ∧ iter.number = begin ∧ iter.hash = chain.hash begin ∧ Lists chain (begin + 1) rest

theorem Chain.lists_append {begin : Nat} {xs ys : List BlkInfo} :
    chain.Lists begin (xs ++ ys) ↔ chain.Lists begin xs ∧ chain.Lists (begin + xs.length) ys := by
  induction xs generalizing begin with
  | nil => simp [Chain.Lists]
  | cons x xs ih => simp [Chain.Lists, ih, and_assoc, Nat.add_assoc, Nat.add_comm 1]

theorem Chain.lists_collect {settings : Settings} {elements : List (Option Header)} {begin : Nat} {size : UInt32}
    {hashes : List BlkInfo} (listed : chain.Lists begin hashes)
    (announced : chain.Announces (begin + hashes.length) elements) :
    chain.Lists begin (collect settings elements size hashes) := by
  induction elements generalizing size hashes with
  | nil => exact listed
  | cons element rest ih =>
      cases element with
      | none => exact announced.elim
      | some header =>
          obtain ⟨inside, number, hash, rest⟩ := announced
          obtain ⟨number', known, number⟩ := Option.map_eq_some_iff.mp number
          obtain ⟨hash', present, hash⟩ := Option.map_eq_some_iff.mp hash
          simp only [collect, known, present]
          generalize (if settings.blockVerification = true then 1 else 0) = least
          split
          case isTrue => exact listed
          case isFalse =>
            refine ih (Chain.lists_append.mpr ⟨listed, ?_⟩) ?_
            · exact ⟨inside, number, hash, trivial⟩
            · simpa [Nat.add_assoc] using rest

structure Chain.Tracks (chain : Chain env.lib) (st : State) : Prop where
  dumps : ∀ hashes, st.phase = .dumps hashes → chain.Lists st.log.nextblock hashes
  walk : ∀ buf before after, st.phase = .walk buf before after →
    chain.Lists st.log.nextblock after ∧ ∃ beyond, buf.mem = chain.dumps (after.map (·.hash)) ++ beyond

theorem Chain.Tracks.frame (tracks : chain.Tracks st) {iter : BlkInfo} {content : Option Bytes}
    (framed : st.frame = some (iter, content)) :
    iter.number = st.log.nextblock ∧ chain.Has iter.number ∧ iter.hash = chain.hash iter.number ∧
      content = some (chain.dump iter.number) := by
  unfold State.frame at framed
  split at framed
  case h_2 => cases framed
  case h_1 buf before first after phase =>
    obtain ⟨⟨inside, number, hash, -⟩, beyond, mem⟩ := tracks.walk _ _ _ phase
    split at framed <;> cases framed
    case h_1 rest read =>
      have found := (nextFrame_eq_some read).2.2
      rw [List.map_cons, hash, chain.dumps_cons inside, List.append_assoc] at mem
      obtain ⟨same, -⟩ := Buf.frame_of (chain.sized _ inside.upper inside.lower) mem found
      rw [number]
      exact ⟨rfl, inside, hash, same⟩

theorem Chain.Tracks.next (tracks : chain.Tracks st) {action : Action} {s : Save}
    (chosen : st.save env action = some s) : chain.Next st.log s := by
  rcases State.save_cases chosen with ⟨c, accepted, rfl⟩ | unverified
  · obtain ⟨iter, framed, same, hash⟩ := (State.candidate_checked accepted).framed
    obtain ⟨number, inside, known, content⟩ := tracks.frame framed
    rw [same] at number inside known content
    exact ⟨number, inside, hash.symm.trans known, Option.some.inj content⟩
  · obtain ⟨iter, dump, framed, rfl, -⟩ := State.unverified_frame unverified
    obtain ⟨number, inside, known, content⟩ := tracks.frame framed
    exact ⟨number, inside, known, Option.some.inj content⟩

theorem State.Walked.nextblock {fetch : Nat → Option Bytes} {carried : Carried}
    (walked : st.Walked env fetch carried u) (faults : List Nat) :
    ∃ s, st.save env (.frame fetch faults) = some s ∧ u.nextblock = s.number + 1 := by
  rcases walked with ⟨c, chosen, -, after⟩ | ⟨s, chosen, -, rfl | rfl⟩
  · exact ⟨c.save, State.save_of_candidate chosen, after.nextblock_eq⟩
  · exact ⟨s, State.save_of_unverified chosen, rfl⟩
  · exact ⟨s, State.save_of_unverified chosen, rfl⟩

theorem Chain.Tracks.step {l : Label} (tracks : chain.Tracks st) (honest : chain.Honest st l.action)
    (stepped : step env st l = some st') : chain.Tracks st' := by
  by_cases loading : st'.phase.loading = true
  case neg =>
    refine ⟨fun _ phase => absurd ?_ loading, fun _ _ _ phase => absurd ?_ loading⟩ <;> rw [phase] <;> rfl
  rcases step_cases stepped with acted | ⟨-, -, -, -, -, down⟩
  case inr => rw [down] at loading; cases loading
  rcases act_loads acted loading with ⟨elements, count, action, log, phase⟩ |
    ⟨body, hashes, action, waiting, log, -, phase⟩ | ⟨fetch, faults, action⟩
  · rw [action] at honest
    refine ⟨fun hashes here => ?_, fun _ _ _ here => by cases phase.symm.trans here⟩
    cases phase.symm.trans here
    rw [log]
    exact Chain.lists_collect (by trivial) honest
  · rw [action] at honest
    refine ⟨fun _ here => (by cases phase.symm.trans here), fun buf before after here => ?_⟩
    cases phase.symm.trans here
    simp only [Chain.Honest, waiting] at honest
    rw [log]
    exact ⟨tracks.dumps _ waiting, body.beyond, by simp [Buf.of, honest]⟩
  · rw [action] at acted
    obtain ⟨buf, before, iter, after, content, rest, before', found, phase, walked⟩ := (act_frame acted).2.2 loading
    obtain ⟨⟨inside, -, hash, listed⟩, beyond, mem⟩ := tracks.walk _ _ _ before'
    obtain ⟨s, chosen, advanced⟩ := walked.nextblock faults
    rw [List.map_cons, hash, chain.dumps_cons inside, List.append_assoc] at mem
    refine ⟨fun _ here => (by cases phase.symm.trans here), fun _ _ _ here => ?_⟩
    cases phase.symm.trans here
    rw [advanced, (tracks.next chosen).number]
    exact ⟨listed, beyond, (Buf.frame_of (chain.sized _ inside.upper inside.lower) mem found).2⟩

theorem honest_sync_survives_crashes (env : Env) (hashes : env.lib.Hashes) (chain : Chain env.lib) (st : State)
    (reached : Reached (step env) (fun st l => chain.Honest st l.action) .initial st)
    (moment : Log) (past : moment <:+ st.log) : chain.Synced moment := by
  have tracked := (Reached.moments State.log (fun st l => st.Emits env l.action) chain.Tracks chain.Tracked
    ?start (fun _ _ _ => step_grows) ?entry ?keeps reached).2 moment past
  case start =>
    refine ⟨⟨fun _ here => Phase.noConfusion here, fun _ _ _ here => Phase.noConfusion here⟩, fun moment inside => ?_⟩
    obtain rfl := List.suffix_nil.mp inside
    exact ⟨by simp [Log.origin], by simp⟩
  case entry =>
    intro st l u e tracks _ _ emitted held
    exact (held u (List.suffix_refl _)).entry hashes (fun s chosen => tracks.next chosen) emitted
  case keeps => exact fun st l st' tracks honest stepped _ => tracks.step honest stepped
  intro lo member v stored
  obtain ⟨next, value, -, -, below⟩ := tracked.disk v stored
  exact ⟨next, value, below lo member⟩

end

def Sample.chain : Chain Sample.pair.lib where
  count := 2
  block n := ((Sample.pair.lib.blockOf [UInt8.ofNat n]).getD Carried.initial.prev)
  dump n := [UInt8.ofNat n]
  small := by norm_num
  parse := by decide
  linked := by decide
  distinct := by decide
  sized := by decide

theorem honest_sync_survives_crashes_restart :
    ∃ st, Reached (step Sample.pair) (fun st l => Sample.chain.Honest st l.action) .initial st ∧
      st.log.origin = some 1 ∧ st.log.get (text "next_block") = some (decimal 3) ∧ Sample.chain.Synced st.log := by
  have ran : ∃ st ∈ runAllowed (step Sample.pair) (fun st l => Sample.chain.Honest st l.action)
      .initial (Sample.start 1 :: Sample.deliver [(1, 1), (2, 2)] ++
        [Sample.turn none, ⟨.frame (fun _ => none) [], some 2⟩, Sample.start 1] ++
        Sample.deliver [(2, 2)] ++ [Sample.turn none]),
      st.log.origin = some 1 ∧ st.log.get (text "next_block") = some (decimal 3) := by
    decide +kernel
  obtain ⟨st, ran, origin, next⟩ := ran
  have reached := Reached.run .start ran
  exact ⟨st, reached, origin, next, honest_sync_survives_crashes _ (Sample.env_hashes (by decide)) Sample.chain st
    reached st.log (List.suffix_refl _)⟩

end FullnodeClient.Cache
