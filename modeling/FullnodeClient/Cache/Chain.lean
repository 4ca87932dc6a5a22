import FullnodeClient.Cache.Walk

/-!
# The stored chain

The stored blocks from the first one to `m_nextblock` are without a gap and linked by their hashes, as
long as every block that is saved has the number `m_nextblock`, and no start comes between the first
record and the first `next_block`.
-/

namespace FullnodeClient.Cache
open FullnodeClient.Lib FullnodeClient.Text

variable {env : Env} {st st' : State} {lib : TorrentLib} {u v : Log}

def Log.first (log : Log) : Option Nat := log.stored.getLast?

def TorrentLib.Joined (lib : TorrentLib) (log : Log) (n : Nat) : Prop :=
  ∃ b ∈ (log.record n).bind lib.blockOf, ∃ prev ∈ (log.record (n - 1)).bind lib.blockOf, b.prevHash = prev.hash

structure Log.Contiguous (lib : TorrentLib) (log : Log) : Prop where
  stored : ∀ lo ∈ log.first, ∀ n, lo ≤ n → n < log.nextblock → log.record n ≠ none
  joined : ∀ lo ∈ log.first, ∀ n, lo < n → n < log.nextblock → lib.Joined log n

def Action.isStart : Action → Bool
  | .start _ => true
  | _ => false

structure SavesNext (env : Env) (st : State) (action : Action) : Prop where
  next : ∀ s ∈ st.save env action, s.number = st.log.nextblock ∧ 0 < s.number ∧ s.number + 1 < 2 ^ 31
  starts : action.isStart → st.log.get (text "next_block") = none → st.log.stored = []
  hashes : ∀ s ∈ st.unverified env, s.hash.length = 32

instance (action : Action) : Decidable (SavesNext env st action) :=
  decidable_of_iff (_ ∧ _ ∧ _) ⟨fun ⟨a, b, c⟩ => ⟨a, b, c⟩, fun ⟨a, b, c⟩ => ⟨a, b, c⟩⟩

structure Log.Chained (lib : TorrentLib) (log : Log) : Prop where
  contiguous : log.Contiguous lib
  positive : ∀ lo ∈ log.first, 0 < lo
  small : log.first ≠ none → log.nextblock < 2 ^ 31
  disk : ∀ v, log.get (text "next_block") = some v → ∃ k, v = decimal k ∧ 0 < k ∧ k < 2 ^ 31 ∧ k ≤ log.nextblock

theorem Log.Contiguous.mono (contiguous : u.Contiguous lib) (first : v.first = u.first)
    (next : v.nextblock ≤ u.nextblock) (records : v.first ≠ none → ∀ n < v.nextblock, v.record n = u.record n) :
    v.Contiguous lib := by
  have kept {lo n : Nat} (member : lo ∈ v.first) (below : n < v.nextblock) : v.record n = u.record n :=
    records (fun none => by rw [none] at member; cases member) n below
  constructor
  · intro lo member n above below
    rw [kept member below]
    exact contiguous.stored lo (first ▸ member) n above (by omega)
  · intro lo member n above below
    unfold TorrentLib.Joined
    rw [kept member below, kept member (n := n - 1) (by omega)]
    exact contiguous.joined lo (first ▸ member) n above (by omega)

theorem Log.Chained.quiet {e : Event} (chained : u.Chained lib) (first : Log.first (e :: u) = u.first)
    (next : Log.nextblock (e :: u) = u.nextblock)
    (records : ∀ n < 2 ^ 64, Log.record (e :: u) n = u.record n)
    (disk : Log.get (e :: u) (text "next_block") = u.get (text "next_block")) : Log.Chained lib (e :: u) where
  contiguous := by
    refine chained.contiguous.mono first next.le fun known n below => records n ?_
    have := chained.small (first ▸ known)
    omega
  positive lo member := chained.positive lo (first ▸ member)
  small known := next ▸ chained.small (first ▸ known)
  disk v found := next ▸ chained.disk v (disk ▸ found)

theorem Log.first_dump {n : Nat} {d : Bytes} :
    Log.first (.put (.dump n d) :: u) = some (u.first.getD n) := by
  simp [Log.first, Log.stored, List.getLast?_cons]

theorem Log.Chained.dump {n : Nat} {d : Bytes} (chained : u.Chained lib) (next : n = u.nextblock) (positive : 0 < n)
    (small : n < 2 ^ 31) : Log.Chained lib (.put (.dump n d) :: u) := by
  have disk : ∀ v, Log.get (.put (.dump n d) :: u) (text "next_block") = some v →
      ∃ k, v = decimal k ∧ 0 < k ∧ k < 2 ^ 31 ∧ k ≤ u.nextblock := by
    simpa using chained.disk
  cases known : u.first with
  | none =>
      have first : Log.first (.put (.dump n d) :: u) = some n := by simp [Log.first_dump, known]
      -- the first block that is stored is the next one, so there is nothing below it yet
      have start {lo : Nat} (member : lo ∈ Log.first (.put (.dump n d) :: u)) : lo = u.nextblock := by
        rw [first] at member
        cases member
        exact next
      refine ⟨⟨?_, ?_⟩, ?_, fun _ => next ▸ small, disk⟩
      · intro lo member k above below
        exact absurd below (Nat.not_lt.mpr (start member ▸ above))
      · intro lo member k above below
        exact absurd below (Nat.not_lt.mpr (start member ▸ above.le))
      · intro lo member
        rw [start member, ← next]
        exact positive
  | some lo =>
      have first : Log.first (.put (.dump n d) :: u) = u.first := by simp [Log.first_dump, known]
      refine ⟨chained.contiguous.mono first le_rfl ?_, fun lo member => chained.positive lo (first ▸ member),
        fun known => chained.small (first ▸ known), disk⟩
      intro _ k below
      have : n ≠ k := by simp only [nextblock_put] at below; omega
      simp [this]

theorem Log.Chained.setNext {n : Nat} (chained : u.Chained lib) (next : n = u.nextblock) (small : n + 1 < 2 ^ 31)
    (stored : u.record n ≠ none) (joined : ∀ lo ∈ u.first, lo < n → lib.Joined u n) :
    Log.Chained lib (.setNext (n + 1) :: u) := by
  refine ⟨⟨?_, ?_⟩, chained.positive, fun _ => small, fun v found => ?_⟩
  · intro lo member k above below
    rcases (Nat.lt_succ_iff.mp below).lt_or_eq with lower | rfl
    · exact chained.contiguous.stored lo member k above (next ▸ lower)
    · exact stored
  · intro lo member k above below
    rcases (Nat.lt_succ_iff.mp below).lt_or_eq with lower | rfl
    · exact chained.contiguous.joined lo member k above (next ▸ lower)
    · exact joined lo member above
  · obtain ⟨k, same, positive, fits, top⟩ := chained.disk v found
    exact ⟨k, same, positive, fits, by simp only [nextblock_setNext]; omega⟩

theorem Log.Chained.start {settings : Settings} {count : Option CountReply} (chained : u.Chained lib)
    (empty : u.get (text "next_block") = none → u.stored = []) :
    Log.Chained lib (startEvent settings u count :: u) := by
  have first : Log.first (startEvent settings u count :: u) = u.first := rfl
  have get : Log.get (startEvent settings u count :: u) = u.get := rfl
  cases found : u.get (text "next_block") with
  | none =>
      have none : u.first = none := by simp [Log.first, empty found]
      refine ⟨⟨?_, ?_⟩, ?_, ?_, ?_⟩ <;> simp [first, none, get, found]
  | some v =>
      obtain ⟨k, rfl, positive, small, top⟩ := chained.disk v found
      have next : Log.nextblock (startEvent settings u count :: u) = k := by
        simp [startEvent, Log.nextblock, found, atoi_decimal (n := k) (by omega), castNumber_small small,
          startNumber, positive.ne']
      refine ⟨chained.contiguous.mono first (next ▸ top) fun _ _ _ => rfl, chained.positive, fun _ => next ▸ small, ?_⟩
      intro v known
      rw [get, found] at known
      exact ⟨k, (Option.some.inj known).symm, positive, small, next.ge⟩

structure Following (env : Env) (st : State) : Prop where
  linked : Linked env st
  last : ∀ buf before after, st.phase = .walk buf before after → st.carried.prev.hash ≠ [] →
    st.carried.prev.blockNumber = some (st.log.nextblock - 1) ∧ 2 < st.log.nextblock

theorem Following.prev_number {fetch : Nat → Option Bytes} {c : Candidate} (following : Following env st)
    (checked : c.Checked env fetch st) (next : c.number = st.log.nextblock) :
    c.prev.blockNumber = some (c.number - 1) := by
  by_cases empty : st.carried.prev.hash = []
  · exact checked.prev_number empty
  · have previous := checked.previous
    simp only [previousBlock, if_neg empty, Except.ok.injEq, Prod.mk.injEq, Option.some.injEq] at previous
    obtain ⟨iter, framed, -⟩ := checked.framed
    obtain ⟨buf, before, after, phase⟩ := State.frame_walk framed
    rw [← previous.1, next]
    exact (following.last _ _ _ phase empty).1

theorem following_step (hashes : env.lib.Hashes) (verified : env.settings.blockVerification = true) {l : Label}
    (following : Following env st) (saves : SavesNext env st l.action) (stepped : step env st l = some st') :
    Following env st' := by
  refine ⟨linked_step hashes verified saves.hashes following.linked stepped, fun buf before after walking filled => ?_⟩
  obtain ⟨fetch, faults, buf', before', after', same, phase, accepted⟩ := step_walk stepped walking filled
  rcases accepted with ⟨c, chosen, carried, later⟩ | ⟨s, chosen, carried, -⟩
  case inl =>
    have checked := State.candidate_checked chosen
    obtain ⟨b, -, same⟩ := checked.holds
    have := checked.above
    rw [carried, later.nextblock_eq, same]
    exact ⟨rfl, by omega⟩
  case inr =>
    -- `bi_prev` is then above the first block, which is the one saved without a check
    rw [carried] at filled
    have := (following.last _ _ _ phase filled).2
    have := (saves.next s (same ▸ State.save_of_unverified chosen)).1
    have := (State.unverified_number verified chosen).1
    omega

theorem Candidate.Checked.joined {fetch : Nat → Option Bytes} {c : Candidate} (checked : c.Checked env fetch st)
    (linked : Linked env st) (number : c.prev.blockNumber = some (c.number - 1))
    (own : u.record c.number = some c.dump) (before : u.record (c.number - 1) = st.log.record (c.number - 1))
    (stored : u.record (c.number - 1) ≠ none) : env.lib.Joined u c.number := by
  obtain ⟨m, dump, -, known, holds, only⟩ := checked.prev_holds linked
  obtain rfl := Option.some.inj (number.symm.trans known)
  obtain ⟨dump', found⟩ := Option.ne_none_iff_exists'.mp stored
  obtain rfl := only dump' (before ▸ found)
  obtain ⟨b, parsed, block⟩ := checked.holds
  obtain ⟨prev, prevParsed, same⟩ := holds
  have linked := checked.linked
  rw [block, same] at linked
  exact ⟨b, by simpa [own] using parsed, prev, by simpa [found] using prevParsed, linked⟩

theorem Log.Chained.entry {e : Event} {action : Action} (chained : u.Chained env.lib) (hashes : env.lib.Hashes)
    (verified : env.settings.blockVerification = true) (following : Following env st)
    (saves : SavesNext env st action) (emitted : st.Emits env action u e) : Log.Chained env.lib (e :: u) := by
  have records := emitted.record_eq hashes saves.hashes
  cases e with
  | put w =>
      cases w with
      | dump n d =>
          obtain ⟨s, chosen, rfl, rfl, -, next⟩ := emitted.dump_eq
          obtain ⟨number, positive, small⟩ := saves.next s chosen
          exact chained.dump (number.trans next.symm) positive (by omega)
      | nextBlock n =>
          obtain ⟨s, chosen, rfl, next⟩ := emitted.nextBlock_eq
          obtain ⟨number, positive, small⟩ := saves.next s chosen
          refine ⟨chained.contiguous.mono rfl le_rfl (by simp), chained.positive, chained.small, fun v found => ?_⟩
          exact ⟨s.number + 1, by simpa using found.symm, by omega, small, next.ge⟩
      | _ => exact chained.quiet rfl rfl (records.resolve_left (by simp)) (by simp)
  | setNext n =>
      obtain ⟨s, past, chosen, rfl, rfl, same, next⟩ := emitted.setNext_eq
      obtain ⟨number, positive, small⟩ := saves.next s chosen
      have index {k : Nat} (fits : k < 2 ^ 64) : StringUtils.bin2hex s.hash ≠ decimal k :=
        bin2hex_ne_decimal (State.save_long hashes saves.hashes chosen) fits
      have own : (s.stored past).record s.number = some s.dump := by
        simp [Save.stored, index (k := s.number) (by omega)]
      refine chained.setNext (number.trans next.symm) small (by simp [own]) fun lo member above => ?_
      have stored := chained.contiguous.stored lo member (s.number - 1) (by omega) (by
        rw [show (s.stored past).nextblock = s.number from next.trans number.symm]
        omega)
      rcases State.save_cases chosen with ⟨c, accepted, rfl⟩ | chosen
      · have checked := State.candidate_checked accepted
        refine checked.joined following.linked (following.prev_number checked number) own ?_ stored
        have other : c.save.number ≠ c.number - 1 := by simp only [Candidate.save] at positive ⊢; omega
        simp [Save.stored, index (k := c.number - 1) (by have := checked.small; omega), other, same]
      · have := (State.unverified_number verified chosen).1
        have := chained.positive lo member
        omega
  | start fresh next last =>
      obtain ⟨rfl, count, rfl, same⟩ := emitted.start_eq
      rw [same]
      exact chained.start (saves.starts rfl)
  | _ => exact chained.quiet rfl rfl (records.resolve_left (by simp)) (by simp)

theorem stored_chain_contiguous (env : Env) (hashes : env.lib.Hashes)
    (verified : env.settings.blockVerification = true) (st : State)
    (reached : Reached (step env) (fun st l => SavesNext env st l.action) .initial st)
    (moment : Log) (past : moment <:+ st.log) : moment.Contiguous env.lib := by
  refine ((Reached.moments State.log (fun st l => st.Emits env l.action) (Following env) (Log.Chained env.lib)
    ?start (fun _ _ _ => step_grows) ?entry ?keeps reached).2 moment past).contiguous
  case start =>
    refine ⟨⟨fun _ _ _ walking => Phase.noConfusion walking, fun _ _ _ walking => Phase.noConfusion walking⟩, ?_⟩
    intro moment inside
    obtain rfl := List.suffix_nil.mp inside
    refine ⟨⟨?_, ?_⟩, ?_, ?_, ?_⟩ <;> simp [Log.first, Log.stored]
  case entry =>
    intro st l u e following saves _ emitted held
    exact (held u (List.suffix_refl _)).entry hashes verified following saves emitted
  case keeps => exact fun st l st' following saves stepped _ => following_step hashes verified following saves stepped

theorem stored_chain_contiguous_two_blocks :
    ∃ st, Reached (step Sample.pair) (fun st l => SavesNext Sample.pair st l.action) .initial st ∧
      st.log.first = some 13001 ∧ st.log.nextblock = 13003 ∧ st.log.Contiguous Sample.pair.lib := by
  have ran : ∃ st ∈ runAllowed (step Sample.pair) (fun st l => SavesNext Sample.pair st l.action)
      .initial (Sample.start 13001 :: Sample.deliver [(13001, 1), (13002, 2)] ++
        [Sample.turn (some [0]), Sample.turn none]),
      st.log.first = some 13001 ∧ st.log.nextblock = 13003 := by
    decide +kernel
  obtain ⟨st, ran, first, next⟩ := ran
  have reached := Reached.run .start ran
  exact ⟨st, reached, first, next, stored_chain_contiguous _ (Sample.env_hashes (by decide)) rfl st reached st.log
    (List.suffix_refl _)⟩

theorem stored_chain_with_gap :
    Sample.pair.lib.Hashes ∧ Sample.pair.settings.blockVerification = true ∧
    ∃ st, Reached (step Sample.pair) (fun _ l => l.killed = none ∧ l.action.faults = []) .initial st ∧
      ¬st.log.Contiguous Sample.pair.lib := by
  have ran : ∃ st ∈ runAllowed (step Sample.pair) (fun _ l => l.killed = none ∧ l.action.faults = [])
      .initial (Sample.start 13001 :: Sample.deliver [(13001, 1), (13005, 2)] ++
        [Sample.turn (some [0]), Sample.turn none]),
      st.log.first = some 13001 ∧ st.log.nextblock = 13006 ∧ st.log.record 13002 = none := by
    decide +kernel
  obtain ⟨st, ran, first, next, missing⟩ := ran
  refine ⟨Sample.env_hashes (by decide), rfl, st, Reached.run .start ran, fun contiguous => ?_⟩
  exact contiguous.stored 13001 first 13002 (by norm_num) (by rw [next]; norm_num) missing

end FullnodeClient.Cache
