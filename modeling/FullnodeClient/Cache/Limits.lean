import FullnodeClient.Cache.RoutineOne

/-!
# The configured limits

Two numbers of the settings decide how much the cache downloads: `blocks_cache_init_count`, how far
behind the server a fresh cache starts, and `blocks_cache_recv_data_size`, how much it asks for in
one request. The first is subtracted from a 64-bit count, the second is compared with a 32-bit sum.
-/

namespace FullnodeClient.Cache
open FullnodeClient.Lib FullnodeClient.Text

/-! ## Where a fresh cache starts -/

/-- `m_nextblock` of `routine` once the first reply to `get-count-blocks` is in. -/
def One.startsAt (env : Env) (wire : One.Wire) (log : Log) (count : UInt64) : Option Nat := do
  let started ← One.act env wire ⟨log, .down⟩ .start
  let counted ← One.act env wire started (.count (some count))
  return counted.log.nextblock

def startsAt (env : Env) (log : Log) (reply : CountReply) : Option Nat := do
  let started ← act env ⟨log, .initial, .down⟩ (.start (some reply))
  return started.log.nextblock

structure StartsInRange (one two : Option Nat) (count init : Nat) : Prop where
  first : one = some (max 1 (count - init))
  second : two = some (max 1 (count - init))
  covers : ∀ start, one = some start ∨ two = some start → ∀ number, 1 ≤ number → number ≤ count →
    count < number + init → start ≤ number

theorem One.startsAt_fresh {env : Env} {log : Log} (wire : One.Wire) (fresh : log.get (text "next_block") = none)
    (count : UInt64) : One.startsAt env wire log count = some (One.firstNumber env.settings count) := by
  simp [One.startsAt, One.act, One.startEvent, fresh, Log.nextblock]

theorem startsAt_fresh {env : Env} {log : Log} (fresh : log.get (text "next_block") = none) (reply : CountReply) :
    startsAt env log reply = some (startNumber env.settings 0 (some reply)) := by
  simp [startsAt, act, startEvent, fresh, Log.nextblock]

theorem One.firstNumber_eq {settings : Settings} {count : UInt64}
    (enough : settings.initCount.toNat ≤ count.toNat) :
    One.firstNumber settings count = max 1 (count.toNat - settings.initCount.toNat) := by
  have difference : (count - settings.initCount.toUInt64).toNat = count.toNat - settings.initCount.toNat := by
    rw [UInt64.toNat_sub_of_le]
    · rfl
    · exact enough
  rw [One.firstNumber]
  split
  case isTrue positive =>
    rw [UInt64.lt_iff_toNat_lt, difference] at positive
    rw [difference]
    exact (max_eq_right positive).symm
  case isFalse zero =>
    rw [UInt64.lt_iff_toNat_lt, difference] at zero
    exact (max_eq_left (by simp at zero ⊢; omega)).symm

theorem One.lt_firstNumber {settings : Settings} {count : UInt64}
    (short : count.toNat < settings.initCount.toNat) : count.toNat < One.firstNumber settings count := by
  have narrow : settings.initCount.toNat < 2 ^ 32 := settings.initCount.toNat_lt
  have difference : (count - settings.initCount.toUInt64).toNat =
      2 ^ 64 - settings.initCount.toNat + count.toNat := by
    rw [UInt64.toNat_sub]
    exact Nat.mod_eq_of_lt (by simp; omega)
  have positive : 0 < count - settings.initCount.toUInt64 := by
    rw [UInt64.lt_iff_toNat_lt, difference]
    simp
    omega
  rw [One.firstNumber, if_pos positive, difference]
  omega

theorem startNumber_fresh {settings : Settings} (positive : 1 ≤ settings.initCount) (reply : CountReply) :
    startNumber settings 0 (some reply) =
      if settings.initCount.toNat < reply.countBlocks.toNat then
        reply.countBlocks.toNat - settings.initCount.toNat
      else reply.countBlocks.toNat := by
  have counted : ¬ settings.initCount = 0 := by
    intro zero
    rw [zero] at positive
    exact absurd positive (by decide)
  simp [startNumber, counted]

theorem starts_in_range_iff (env : Env) (wire : One.Wire) (log : Log)
    (fresh : log.get (text "next_block") = none) (reply : CountReply) (some_block : 1 ≤ reply.countBlocks)
    (positive : 1 ≤ env.settings.initCount) :
    StartsInRange (One.startsAt env wire log reply.countBlocks) (startsAt env log reply)
        reply.countBlocks.toNat env.settings.initCount.toNat ↔
      env.settings.initCount.toNat < reply.countBlocks.toNat ∨
        (reply.countBlocks = 1 ∧ env.settings.initCount = 1) := by
  have count_pos : 1 ≤ reply.countBlocks.toNat := some_block
  have init_pos : 1 ≤ env.settings.initCount.toNat := positive
  rw [One.startsAt_fresh wire fresh, startsAt_fresh fresh, startNumber_fresh positive]
  constructor
  · intro starts
    have one := Option.some.inj starts.first
    have two := Option.some.inj starts.second
    by_cases long : env.settings.initCount.toNat < reply.countBlocks.toNat
    · exact .inl long
    · -- `routine_2` starts at the count, which is right for a chain of one block only, and then
      -- `routine` wraps around unless that is also the configured number
      rw [if_neg long] at two
      have only : reply.countBlocks.toNat = 1 := by omega
      have same : env.settings.initCount.toNat = 1 := by
        by_contra more
        have short : reply.countBlocks.toNat < env.settings.initCount.toNat := by omega
        have wrapped := One.lt_firstNumber short
        omega
      exact .inr ⟨UInt64.toNat_inj.mp only, UInt32.toNat_inj.mp same⟩
  · intro right
    have enough : env.settings.initCount.toNat ≤ reply.countBlocks.toNat := by
      obtain long | ⟨one, same⟩ := right
      · exact long.le
      · rw [one, same]
        decide
    have two : (if env.settings.initCount.toNat < reply.countBlocks.toNat then
        reply.countBlocks.toNat - env.settings.initCount.toNat else reply.countBlocks.toNat) =
        max 1 (reply.countBlocks.toNat - env.settings.initCount.toNat) := by
      obtain long | ⟨one, same⟩ := right
      · rw [if_pos long]
        omega
      · rw [one, same]
        decide
    rw [One.firstNumber_eq enough, two]
    refine ⟨rfl, rfl, ?_⟩
    intro start begun number first _ last
    have begun : max 1 (reply.countBlocks.toNat - env.settings.initCount.toNat) = start := by
      simpa using begun
    omega

namespace Limits.Sample

def env (init recv : UInt32) : Env :=
  { lib := ⟨fun _ => none, id⟩
    settings := { cores := [], blockVerification := false, initCount := init, recvCount := 1, recvDataSize := recv } }

def wire : One.Wire := ⟨some, fun _ => false⟩

end Limits.Sample

theorem starts_in_range_default :
    StartsInRange (One.startsAt (Limits.Sample.env 50000 5) Limits.Sample.wire [] 120000)
      (startsAt (Limits.Sample.env 50000 5) [] ⟨120000, []⟩) 120000 50000 :=
  (starts_in_range_iff (Limits.Sample.env 50000 5) Limits.Sample.wire [] rfl ⟨120000, []⟩ (by decide) (by decide)).mpr
    (.inl (by decide))

theorem short_chain_start :
    One.startsAt (Limits.Sample.env 3 5) Limits.Sample.wire [] 2 = some (2 ^ 64 - 1) ∧
      startsAt (Limits.Sample.env 3 5) [] ⟨2, []⟩ = some 2 ∧
      ¬ StartsInRange (One.startsAt (Limits.Sample.env 3 5) Limits.Sample.wire [] 2)
        (startsAt (Limits.Sample.env 3 5) [] ⟨2, []⟩) 2 3 := by
  have two : startsAt (Limits.Sample.env 3 5) [] ⟨2, []⟩ = some 2 := by rfl
  refine ⟨by decide, two, ?_⟩
  intro starts
  rw [two] at starts
  exact absurd starts.second (by decide)

/-! ## How much one request asks for -/

structure Listed where
  number : UInt32
  hash : Bytes
  size : UInt32
  prevExtraBlocks : List Bytes

def Listed.header (element : Listed) : Header :=
  ⟨some element.size, some element.number, some element.hash, element.prevExtraBlocks⟩

def Listed.info (element : Listed) : BlkInfo where
  number := element.number.toNat
  hash := Common.fromHex element.hash
  extra := element.prevExtraBlocks.map Common.fromHex
  small := element.number.toNat_lt

def selected (settings : Settings) (reply : List Listed) : List BlkInfo :=
  collect settings (reply.map fun element => some element.header) 0 []

def unchecked (settings : Settings) : Nat := if settings.blockVerification then 2 else 1

def exactSize (reply : List Listed) : Nat := (reply.map (·.size.toNat)).sum

/-- `blocks_max_size` without the wrap-around. -/
def budget (settings : Settings) : Nat := settings.recvDataSize.toNat * (2 * 2 ^ 20)

structure WithinBudget (settings : Settings) (reply : List Listed) : Prop where
  isPrefix : selected settings reply <+: reply.map Listed.info
  enough : min (unchecked settings) reply.length ≤ (selected settings reply).length
  bounded : unchecked settings < (selected settings reply).length →
    exactSize (reply.take (selected settings reply).length) ≤ budget settings

theorem exactSize_cons (element : Listed) (reply : List Listed) :
    exactSize (element :: reply) = element.size.toNat + exactSize reply := rfl

theorem exactSize_take_le (reply : List Listed) {i j : Nat} (le : i ≤ j) :
    exactSize (reply.take i) ≤ exactSize (reply.take j) := by
  obtain ⟨more, split⟩ := List.take_prefix_take_left le
  rw [← split]
  simp [exactSize]

def StopsAt (settings : Settings) (reply : List Listed) (size : UInt32) (before j : Nat) : Prop :=
  unchecked settings ≤ before + j ∧
    (blocksMaxSize settings).toNat < (size.toNat + exactSize (reply.take (j + 1))) % 2 ^ 32

theorem stopsAt_cons_zero (settings : Settings) (element : Listed) (rest : List Listed) (size : UInt32)
    (before : Nat) :
    StopsAt settings (element :: rest) size before 0 ↔
      (if settings.blockVerification then 1 else 0) < before ∧ blocksMaxSize settings < size + element.size := by
  have enough : unchecked settings ≤ before ↔ (if settings.blockVerification then 1 else 0) < before := by
    rw [unchecked]
    split <;> rfl
  simp only [StopsAt, Nat.add_zero, enough, UInt32.lt_iff_toNat_lt, UInt32.toNat_add]
  simp [exactSize]

theorem stopsAt_cons_succ (settings : Settings) (element : Listed) (rest : List Listed) (size : UInt32)
    (before j : Nat) :
    StopsAt settings (element :: rest) size before (j + 1) ↔
      StopsAt settings rest (size + element.size) (before + 1) j := by
  have index : before + (j + 1) = before + 1 + j := by omega
  have sum : (size.toNat + exactSize ((element :: rest).take (j + 1 + 1))) % 2 ^ 32 =
      ((size + element.size).toNat + exactSize (rest.take (j + 1))) % 2 ^ 32 := by
    rw [List.take_succ_cons, exactSize_cons, UInt32.toNat_add, Nat.mod_add_mod, Nat.add_assoc]
  simp only [StopsAt, index, sum]

theorem collect_cons (settings : Settings) (element : Listed) (rest : List (Option Header)) (size : UInt32)
    (hashes : List BlkInfo) :
    collect settings (some element.header :: rest) size hashes =
      if (if settings.blockVerification then 1 else 0) < hashes.length ∧
          blocksMaxSize settings < size + element.size then hashes
      else collect settings rest (size + element.size) (hashes ++ [element.info]) := by
  simp [collect, Listed.header, Listed.info]

theorem collect_listed (settings : Settings) (reply : List Listed) (size : UInt32) (hashes : List BlkInfo) :
    ∃ k ≤ reply.length,
      collect settings (reply.map fun element => some element.header) size hashes =
        hashes ++ (reply.take k).map Listed.info ∧
      (∀ j < k, ¬ StopsAt settings reply size hashes.length j) ∧
      (k < reply.length → StopsAt settings reply size hashes.length k) := by
  induction reply generalizing size hashes with
  | nil => exact ⟨0, le_rfl, by simp [collect], by simp, by simp⟩
  | cons element rest ih =>
      have first := stopsAt_cons_zero settings element rest size hashes.length
      rw [List.map_cons, collect_cons]
      by_cases stop : StopsAt settings (element :: rest) size hashes.length 0
      · rw [if_pos (first.mp stop)]
        exact ⟨0, Nat.zero_le _, by simp, by simp, fun _ => stop⟩
      · rw [if_neg (mt first.mpr stop)]
        obtain ⟨k, inside, chosen, before, stops⟩ := ih (size + element.size) (hashes ++ [element.info])
        have length : (hashes ++ [element.info]).length = hashes.length + 1 := by simp
        rw [length] at before stops
        refine ⟨k + 1, Nat.succ_le_succ inside, ?_, ?_, ?_⟩
        · rw [chosen]
          simp
        · intro j earlier
          cases j with
          | zero => exact stop
          | succ j =>
              rw [stopsAt_cons_succ]
              exact before j (Nat.lt_of_succ_lt_succ earlier)
        · intro shorter
          rw [stopsAt_cons_succ]
          exact stops (Nat.lt_of_succ_lt_succ shorter)

theorem selected_spec (settings : Settings) (reply : List Listed) :
    ∃ k ≤ reply.length, selected settings reply = (reply.take k).map Listed.info ∧
      (∀ j < k, ¬ StopsAt settings reply 0 0 j) ∧ (k < reply.length → StopsAt settings reply 0 0 k) := by
  simpa [selected] using collect_listed settings reply 0 []

def Seen (settings : Settings) (reply : List Listed) : Prop :=
  ∀ j, unchecked settings < j → j ≤ reply.length → budget settings < exactSize (reply.take j) →
    ∃ i, unchecked settings < i ∧ i ≤ j ∧ (blocksMaxSize settings).toNat < exactSize (reply.take i) % 2 ^ 32

theorem Seen.withinBudget {settings : Settings} {reply : List Listed} (seen : Seen settings reply) :
    WithinBudget settings reply := by
  obtain ⟨k, inside, chosen, before, stops⟩ := selected_spec settings reply
  have length : (selected settings reply).length = k := by simp [chosen, inside]
  refine ⟨?_, ?_, ?_⟩
  · rw [chosen, List.map_take]
    exact List.take_prefix _ _
  · rw [length]
    by_cases shorter : k < reply.length
    · exact (min_le_left _ _).trans (by simpa using (stops shorter).1)
    · exact (min_le_right _ _).trans (Nat.le_of_not_lt shorter)
  · rw [length]
    intro more
    by_contra exceeded
    obtain ⟨i, late, early, large⟩ := seen k more inside (Nat.lt_of_not_le exceeded)
    apply before (i - 1) (by omega)
    refine ⟨by omega, ?_⟩
    rwa [Nat.sub_add_cancel (by omega), UInt32.toNat_zero, Nat.zero_add]

theorem within_budget_iff (settings : Settings) (reply : List Listed) :
    WithinBudget settings reply ↔ Seen settings reply := by
  refine ⟨?_, Seen.withinBudget⟩
  intro within j more shorter exceeded
  obtain ⟨k, inside, chosen, -, stops⟩ := selected_spec settings reply
  have length : (selected settings reply).length = k := by simp [chosen, inside]
  by_contra unseen
  push Not at unseen
  have reached : j ≤ k := by
    by_contra missed
    obtain ⟨enough, large⟩ := stops (by omega)
    rw [UInt32.toNat_zero, Nat.zero_add] at large
    exact absurd large (unseen (k + 1) (by omega) (by omega)).not_gt
  have bounded := within.bounded
  rw [length] at bounded
  have monotone := exactSize_take_le reply reached
  have kept := bounded (by omega)
  omega

theorem wrapped_size_selected :
    let settings := (Limits.Sample.env 50000 1).settings
    let reply := [⟨1, text "aa", 4294967295, []⟩, ⟨2, text "bb", 1, []⟩]
    (selected settings reply).length = 2 ∧ exactSize reply = 2 ^ 32 ∧ budget settings = 2 ^ 21 ∧
      ¬ WithinBudget settings reply := by
  intro settings reply
  have length : (selected settings reply).length = 2 := by decide
  refine ⟨length, by decide, by decide, ?_⟩
  intro within
  have bounded := within.bounded
  rw [length] at bounded
  exact absurd (bounded (by decide)) (by decide)

end FullnodeClient.Cache
