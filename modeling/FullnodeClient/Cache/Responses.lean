import FullnodeClient.Cache.Effects
import FullnodeClient.Cache.Extras
import FullnodeClient.Torrent.Dumps

/-!
# The bytes of a response

What the block loop of `routine_2` and the response loop of `load_extra_blocks` read of a decompressed
response, and what a response that could not be decompressed looks like to them.
-/

namespace FullnodeClient.Cache
open FullnodeClient.Lib FullnodeClient.Text

inductive Access
  | length
  | slice (size : Nat)
deriving DecidableEq

def Access.extent : Access → Nat
  | length => 8
  | slice size => 8 + size

def Phase.left : Phase → Nat
  | walk buf _ _ => buf.left
  | extraWalk buf _ _ => buf.left
  | _ => 0

def frameAccesses (buf : Buf) (more : Bool) (handed : Nat → Bool) : List Access :=
  match nextFrame buf more with
  | none => []
  | some (.content _ _) =>
      .length :: if handed (declared 8 buf.mem) then [.slice (declared 8 buf.mem)] else []
  | some _ => [.length]

/-- `std::string(p, blk_size)` throws for a size that no string has. -/
def copied (size : Nat) : Bool := size < 2 ^ 63

namespace State

/-- Whether the block loop hands a slice on. It needs the previous block before it parses one; a block
that is not verified is saved as a view. -/
def handed (env : Env) (fetch : Nat → Option Bytes) (st : State) (iter : BlkInfo) (size : Nat) : Bool :=
  if env.settings.blockVerification ∧ 1 < iter.number then
    match previousBlock env fetch st.log iter.number st.carried with
    | .ok (some _, _) => copied size
    | _ => false
  else true

def accesses (env : Env) (st : State) : Action → List Access
  | .frame fetch _ =>
      match st.phase with
      | .walk buf _ (iter :: _) => frameAccesses buf true (st.handed env fetch iter)
      | _ => []
  | .extraFrame _ =>
      match st.phase with
      | .extraWalk buf slots _ => frameAccesses buf (0 < slots) copied
      | _ => []
  | _ => []

end State

def Action.turns : Action → Bool
  | .frame _ _ => true
  | .extraFrame _ => true
  | _ => false

def Turn (env : Env) (st st' : State) : Prop := ∃ action, action.turns = true ∧ act env st action = some st'

def StaysInside (env : Env) (st : State) : Prop :=
  ∀ st', Relation.ReflTransGen (Turn env) st st' →
    ∀ action, ∀ access ∈ st'.accesses env action, access.extent ≤ st'.phase.left

def WholeFrames (limit : Nat) : Nat → Bytes → Prop
  | 0, _ => True
  | n + 1, bytes => bytes = [] ∨ 8 ≤ bytes.length ∧ (declared 8 bytes = 0 ∨ limit ≤ declared 8 bytes ∨
      8 + declared 8 bytes ≤ bytes.length ∧ WholeFrames limit n (bytes.drop (8 + declared 8 bytes)))

/-- The elements of `hashes` that the block loop can come to: a block without a hash is not saved. -/
def reachable : List BlkInfo → Nat
  | [] => 0
  | iter :: rest => if iter.hash = [] then 1 else reachable rest + 1

theorem reachable_cons (iter : BlkInfo) (rest : List BlkInfo) :
    ∃ n, reachable (iter :: rest) = n + 1 ∧ (iter.hash = [] ∧ n = 0 ∨ iter.hash ≠ [] ∧ n = reachable rest) := by
  rw [reachable]
  split
  case isTrue empty => exact ⟨0, rfl, .inl ⟨empty, rfl⟩⟩
  case isFalse hashed => exact ⟨reachable rest, rfl, .inr ⟨hashed, rfl⟩⟩

variable {env : Env} {st st' : State} {bytes beyond : Bytes}

theorem declared_append (whole : 8 ≤ bytes.length) (beyond : Bytes) :
    declared 8 (bytes ++ beyond) = declared 8 bytes := by
  rw [declared, declared, List.take_append_of_le_length whole]

theorem frame_of_whole (whole : 8 ≤ bytes.length) (beyond : Bytes) :
    (Buf.of ⟨bytes, beyond⟩).frame =
      if declared 8 bytes = 0 then .zero
      else .content (if 8 + declared 8 bytes ≤ (bytes ++ beyond).length then
          some (((bytes ++ beyond).drop 8).take (declared 8 bytes)) else none)
        ⟨(bytes ++ beyond).drop (8 + declared 8 bytes), bytes.length - (8 + declared 8 bytes)⟩ := by
  have room : ¬(bytes ++ beyond).length < 8 := by
    rw [List.length_append]
    omega
  have size : valueBE ((bytes ++ beyond).take 8) = declared 8 bytes := declared_append whole beyond
  simp only [Buf.frame, Buf.of, if_neg room, size]

theorem frame_of_fits (whole : 8 ≤ bytes.length) (some : declared 8 bytes ≠ 0)
    (fits : 8 + declared 8 bytes ≤ bytes.length) (beyond : Bytes) :
    (Buf.of ⟨bytes, beyond⟩).frame = .content ((bytes.drop 8).take (declared 8 bytes))
      (.of ⟨bytes.drop (8 + declared 8 bytes), beyond⟩) := by
  have room : 8 + declared 8 bytes ≤ (bytes ++ beyond).length := by
    rw [List.length_append]
    omega
  have slice : ((bytes ++ beyond).drop 8).take (declared 8 bytes) = (bytes.drop 8).take (declared 8 bytes) := by
    rw [List.drop_append_of_le_length whole, List.take_append_of_le_length (by rw [List.length_drop]; omega)]
  rw [frame_of_whole whole, if_neg some, if_pos room, slice, List.drop_append_of_le_length fits, Buf.of,
    List.length_drop]

def Buf.Whole (limit n : Nat) (buf : Buf) : Prop :=
  ∃ body, buf = .of body ∧ body.bytes.length < 2 ^ 63 ∧ WholeFrames limit n body.bytes

namespace Buf.Whole

variable {limit n : Nat} {buf rest : Buf} {more : Bool} {content : Option Bytes}

theorem accesses (whole : buf.Whole limit (n + 1)) (more : Bool) {handed : Nat → Bool}
    (small : ∀ size, size < 2 ^ 64 → handed size = true → size < limit) :
    ∀ access ∈ frameAccesses buf more handed, access.extent ≤ buf.left := by
  obtain ⟨⟨bytes, beyond⟩, rfl, -, frames⟩ := whole
  intro access member
  unfold frameAccesses at member
  cases found : nextFrame (.of ⟨bytes, beyond⟩) more with
  | none =>
      rw [found] at member
      cases member
  | some frame =>
      obtain ⟨going, -, read⟩ := nextFrame_eq_some found
      obtain ⟨room, fits⟩ := frames.resolve_left (List.length_pos_iff.mp going)
      have size : declared 8 (Buf.of ⟨bytes, beyond⟩).mem = declared 8 bytes := declared_append room beyond
      rw [found, size] at member
      rw [frame_of_whole room] at read
      split at read
      case isTrue zero =>
        subst read
        obtain rfl := List.mem_singleton.mp member
        exact room
      case isFalse positive =>
        subst read
        rcases List.mem_cons.mp member with rfl | slice
        · exact room
        · split at slice
          case isFalse => cases slice
          case isTrue used =>
            obtain rfl := List.mem_singleton.mp slice
            have below := small _ (declared_lt room) used
            rcases fits with zero | long | ⟨fits, -⟩
            · exact absurd zero positive
            · exact absurd below (not_lt.mpr long)
            · exact fits

-- Behind a length that is not read nothing is left, since no response is so long.
theorem next (whole : buf.Whole limit (n + 1)) (large : 2 ^ 63 ≤ limit)
    (found : nextFrame buf more = some (.content content rest)) : rest.Whole limit n := by
  obtain ⟨⟨bytes, beyond⟩, rfl, sized, frames⟩ := whole
  obtain ⟨going, -, read⟩ := nextFrame_eq_some found
  obtain ⟨room, fits⟩ := frames.resolve_left (List.length_pos_iff.mp going)
  rw [frame_of_whole room] at read
  split at read
  case isTrue => cases read
  case isFalse positive =>
    cases read
    rcases fits with zero | long | ⟨fits, others⟩
    · exact absurd zero positive
    · have none : bytes.length - (8 + declared 8 bytes) = 0 := by
        have short : bytes.length < 2 ^ 63 := sized
        have unread : limit ≤ declared 8 bytes := long
        omega
      rw [none]
      refine ⟨⟨[], (bytes ++ beyond).drop (8 + declared 8 bytes)⟩, rfl, by norm_num, ?_⟩
      cases n with
      | zero => trivial
      | succ n => exact .inl rfl
    · refine ⟨⟨bytes.drop (8 + declared 8 bytes), beyond⟩, ?_, ?_, others⟩
      · rw [Buf.of, List.drop_append_of_le_length fits, List.length_drop]
      · exact lt_of_le_of_lt (List.length_drop ▸ Nat.sub_le _ _) sized

end Buf.Whole

theorem saveAndAdvance_nil (number : Nat) (dump : Bytes) (ext : ExtData) (succeeds : Nat → Bool) (disk : Disk Event) :
    ∃ after, (saveAndAdvance number [] dump ext).runOn succeeds disk = (.ok false, after) := by
  unfold saveAndAdvance saveBlock put
  rw [LogM.runOn_bind, LogM.runOn_bind, LogM.runOn_attempt]
  cases succeeds disk.attempts with
  | false => exact ⟨_, rfl⟩
  | true => exact ⟨_, rfl⟩

theorem checkBlock_hash {fetch : Nat → Option Bytes} {log : Log} {iter : BlkInfo} {content : Option Bytes}
    {carried : Carried} {c : Candidate} (checked : checkBlock env fetch log iter content carried = .ok (.inr c)) :
    c.block.hash = iter.hash := by
  unfold checkBlock at checked
  split at checked
  case h_1 => cases checked
  case h_2 => cases checked
  case h_3 =>
    split at checked
    case h_1 => cases checked
    case h_2 =>
      split at checked
      case h_1 => cases checked
      case h_2 =>
        dsimp only at checked
        split at checked
        case isTrue same =>
          cases checked
          exact same.1
        case isFalse => cases checked

theorem walkFrame_hashed {fetch : Nat → Option Bytes} {iter : BlkInfo} {content : Option Bytes}
    {carried carried' : Carried} {succeeds : Nat → Bool} {disk after : Disk Event}
    (ran : (walkFrame env fetch iter content carried).runOn succeeds disk = (.ok (true, carried'), after)) :
    iter.hash ≠ [] := by
  intro empty
  unfold walkFrame at ran
  split at ran
  case isTrue =>
    rw [LogM.runOn_bind, LogM.runOn_look] at ran
    dsimp only at ran
    split at ran
    case h_1 => cases ran
    case h_2 => cases ran
    case h_3 c checked =>
      obtain ⟨saved, unsaved⟩ := saveAndAdvance_nil c.number c.dump (ExtData.of ExtData.notChecked) succeeds
        ⟨.block c.block :: disk.log, disk.attempts⟩
      simp only [acceptBlock, checkBlock_hash checked, empty, LogM.runOn_bind, LogM.runOn_note, unsaved] at ran
      cases ran
  case isFalse =>
    cases content with
    | none => cases ran
    | some dump =>
        obtain ⟨saved, unsaved⟩ := saveAndAdvance_nil iter.number dump
          (ExtData.of (if iter.number = 1 then ExtData.signed else ExtData.notChecked)) succeeds disk
        simp only [acceptUnverified, empty, LogM.runOn_bind, unsaved] at ran
        cases ran

theorem Ends.not_walk {settings : Settings} {rest : List (List Bytes)} {phase : Phase} (ends : Ends settings rest phase)
    (buf : Buf) (before after : List BlkInfo) : phase ≠ .walk buf before after := by
  rintro rfl
  rcases ends with left | stopped | down
  · cases loadExtraBlocks_loading.symm.trans (congrArg Phase.loading left.symm)
  · cases stopped
  · cases down

theorem Ends.not_extraWalk {settings : Settings} {rest : List (List Bytes)} {phase : Phase}
    (ends : Ends settings rest phase) (buf : Buf) (slots : Nat) (others : List (List Bytes)) :
    phase ≠ .extraWalk buf slots others := by
  rintro rfl
  rcases ends with left | stopped | down
  · exact loadExtraBlocks_outside _ _ _ _ _ left.symm
  · cases stopped
  · cases down

theorem act_frame_cases {fetch : Nat → Option Bytes} {faults : List Nat}
    (acted : act env st (.frame fetch faults) = some st') :
    ∃ buf before after, st.phase = .walk buf before after ∧
      (Ends env.settings (before.map (·.extra)) st'.phase ∨
        ∃ iter rest content buf', after = iter :: rest ∧ nextFrame buf true = some (.content content buf') ∧
          iter.hash ≠ [] ∧ st'.phase = .walk buf' (before ++ [iter]) rest) := by
  simp only [act] at acted
  split at acted
  case h_2 => cases acted
  case h_1 buf before after here =>
    refine ⟨buf, before, after, here, ?_⟩
    split at acted
    case h_1 =>
      cases acted
      exact .inl (.inr (.inr rfl))
    case h_3 =>
      cases acted
      exact .inl (.inl rfl)
    case h_2 content buf' iter rest read =>
      split at acted <;> cases acted
      case h_1 ran => exact .inr ⟨iter, rest, content, buf', rfl, by simpa using read, walkFrame_hashed ran, rfl⟩
      case h_2 => exact .inl (.inl rfl)
      case h_3 => exact .inl (.inr (.inl rfl))

theorem turn_walk {buf' : Buf} {before' after' : List BlkInfo} (turned : Turn env st st')
    (on : st'.phase = .walk buf' before' after') :
    ∃ buf before iter content, st.phase = .walk buf before (iter :: after') ∧
      nextFrame buf true = some (.content content buf') ∧ iter.hash ≠ [] ∧ before' = before ++ [iter] := by
  obtain ⟨action, turns, acted⟩ := turned
  cases action with
  | frame fetch faults =>
      obtain ⟨buf, before, after, here, ended | ⟨iter, rest, content, buf', rfl, found, hashed, next⟩⟩ :=
        act_frame_cases acted
      · exact absurd on (ended.not_walk _ _ _)
      · cases next.symm.trans on
        exact ⟨buf, before, iter, content, here, found, hashed, rfl⟩
  | extraFrame faults =>
      obtain ⟨buf, slots, rest, here⟩ := act_extraFrame_phase acted
      rcases act_extraFrame_cases here acted with ⟨-, ended⟩ | ⟨dump, after, found, next | stopped⟩
      · exact absurd on (ended.not_walk _ _ _)
      · cases next.symm.trans on
      · cases stopped.symm.trans on
  | _ => cases turns

theorem turn_extraWalk {buf' : Buf} {slots' : Nat} {rest' : List (List Bytes)} (turned : Turn env st st')
    (on : st'.phase = .extraWalk buf' slots' rest') :
    ∃ buf slots rest content, st.phase = .extraWalk buf slots rest ∧
      nextFrame buf (0 < slots) = some (.content content buf') ∧ slots' = slots - 1 := by
  obtain ⟨action, turns, acted⟩ := turned
  cases action with
  | frame fetch faults =>
      obtain ⟨buf, before, after, here, ended | ⟨iter, rest, content, buf', -, -, -, next⟩⟩ := act_frame_cases acted
      · exact absurd on (ended.not_extraWalk _ _ _)
      · cases next.symm.trans on
  | extraFrame faults =>
      obtain ⟨buf, slots, rest, here⟩ := act_extraFrame_phase acted
      rcases act_extraFrame_cases here acted with ⟨-, ended⟩ | ⟨dump, after, found, next | stopped⟩
      · exact absurd on (ended.not_extraWalk _ _ _)
      · cases next.symm.trans on
        exact ⟨buf, slots, _, dump, here, found, rfl⟩
      · cases stopped.symm.trans on
  | _ => cases turns

/-! ## Whole responses -/

structure State.Inside (st : State) : Prop where
  blocks : ∀ buf before after, st.phase = .walk buf before after → buf.Whole (2 ^ 64) (reachable after)
  extras : ∀ buf slots rest, st.phase = .extraWalk buf slots rest → buf.Whole (2 ^ 63) slots

namespace State.Inside

theorem turn (inside : st.Inside) (turned : Turn env st st') : st'.Inside where
  blocks buf' before' after' on := by
    obtain ⟨buf, before, iter, content, here, found, hashed, -⟩ := turn_walk turned on
    have whole := inside.blocks _ _ _ here
    rw [reachable, if_neg hashed] at whole
    exact whole.next (by norm_num) found
  extras buf' slots' rest' on := by
    obtain ⟨buf, slots, rest, content, here, found, rfl⟩ := turn_extraWalk turned on
    have positive : 0 < slots := by simpa using (nextFrame_eq_some found).2.1
    obtain ⟨n, rfl⟩ := Nat.exists_eq_add_one.mpr positive
    exact (inside.extras _ _ _ here).next le_rfl found

theorem turns (inside : st.Inside) (turned : Relation.ReflTransGen (Turn env) st st') : st'.Inside := by
  induction turned with
  | refl => exact inside
  | tail _ step ih => exact ih.turn step

theorem accesses (inside : st.Inside) (action : Action) :
    ∀ access ∈ st.accesses env action, access.extent ≤ st.phase.left := by
  intro access member
  unfold State.accesses at member
  split at member
  case h_1 fetch faults =>
    split at member
    case h_1 buf before iter rest here =>
      obtain ⟨n, count, -⟩ := reachable_cons iter rest
      have whole := inside.blocks _ _ _ here
      rw [count] at whole
      rw [here]
      exact whole.accesses true (fun size small _ => small) access member
    case h_2 => cases member
  case h_2 faults =>
    split at member
    case h_1 buf slots rest here =>
      rw [here]
      cases slots with
      | zero => simp [frameAccesses, nextFrame] at member
      | succ n =>
          exact (inside.extras _ _ _ here).accesses _ (fun size _ small => by simpa [copied] using small) access member
    case h_2 => cases member
  case h_3 => cases member

theorem stays (inside : st.Inside) (env : Env) : StaysInside env st :=
  fun _ turned action => (inside.turns turned).accesses action

end State.Inside

theorem StaysInside.turn (inside : StaysInside env st) (turned : Turn env st st') : StaysInside env st' :=
  fun later turns => inside later (.head turned turns)

theorem front_of_accesses {handed : Nat → Bool} (some : bytes ≠ [])
    (inside : ∀ access ∈ frameAccesses (.of ⟨bytes, beyond⟩) true handed, access.extent ≤ bytes.length) :
    8 ≤ bytes.length ∧ (declared 8 bytes ≠ 0 → handed (declared 8 bytes) = true →
      8 + declared 8 bytes ≤ bytes.length) := by
  have found : nextFrame (.of ⟨bytes, beyond⟩) true = .some (Buf.of ⟨bytes, beyond⟩).frame :=
    if_pos ⟨List.length_pos_iff.mpr some, rfl⟩
  rw [frameAccesses, found] at inside
  have room : 8 ≤ bytes.length := by
    cases read : (Buf.of ⟨bytes, beyond⟩).frame with
    | content dump rest => exact inside .length (by simp [read])
    | _ => exact inside .length (by simp [read])
  refine ⟨room, fun positive used => ?_⟩
  rw [frame_of_whole room, if_neg positive] at inside
  have size : declared 8 (Buf.of ⟨bytes, beyond⟩).mem = declared 8 bytes := declared_append room beyond
  exact inside (.slice (declared 8 bytes)) (by simp [size, used])

theorem act_frame_unverified {fetch : Nat → Option Bytes} {iter : BlkInfo} {buf rest : Buf} {dump : Bytes}
    {before after : List BlkInfo} {log : Log} {carried : Carried} (unverified : env.settings.blockVerification = false)
    (hashed : iter.hash ≠ []) (found : nextFrame buf true = some (.content dump rest)) :
    ∃ log', act env ⟨log, carried, .walk buf before (iter :: after)⟩ (.frame fetch []) =
      some ⟨log', carried, .walk rest (before ++ [iter]) after⟩ := by
  have more : (!(iter :: after).isEmpty) = true := rfl
  simp only [act, more, found, walkFrame, unverified, Bool.false_eq_true, false_and, if_false, acceptUnverified,
    saveAndAdvance, saveBlock, put, saveExtraData, updateNumber, LogM.runOn_bind, LogM.runOn_attempt, succeeds,
    List.not_mem_nil, not_false_eq_true, decide_true, if_true, if_neg hashed, LogM.runOn_note]
  exact ⟨_, rfl⟩

theorem wholeFrames_of_blocks {before hashes : List BlkInfo} {log : Log} {carried : Carried}
    (unverified : env.settings.blockVerification = false)
    (inside : StaysInside env ⟨log, carried, .walk (.of ⟨bytes, beyond⟩) before hashes⟩) :
    WholeFrames (2 ^ 64) (reachable hashes) bytes := by
  induction hashes generalizing bytes before log with
  | nil => trivial
  | cons iter rest ih =>
      by_cases empty : bytes = []
      · obtain ⟨n, count, -⟩ := reachable_cons iter rest
        rw [count]
        exact .inl empty
      have handed (size : Nat) :
          State.handed env (fun _ => none) ⟨log, carried, .walk (.of ⟨bytes, beyond⟩) before (iter :: rest)⟩ iter size =
            true := by
        simp [State.handed, unverified]
      obtain ⟨room, slice⟩ := front_of_accesses empty (inside _ .refl (.frame (fun _ => none) []))
      obtain ⟨n, count, later⟩ := reachable_cons iter rest
      rw [count]
      refine .inr ⟨room, ?_⟩
      by_cases zero : declared 8 bytes = 0
      · exact .inl zero
      have fits := slice zero (handed _)
      refine .inr (.inr ⟨fits, ?_⟩)
      rcases later with ⟨-, rfl⟩ | ⟨hashed, rfl⟩
      · trivial
      · have found : nextFrame (.of ⟨bytes, beyond⟩) true = some _ :=
          (if_pos ⟨List.length_pos_iff.mpr empty, rfl⟩).trans (congrArg some (frame_of_fits room zero fits beyond))
        obtain ⟨log', acted⟩ := act_frame_unverified unverified hashed found
        exact ih (inside.turn ⟨.frame (fun _ => none) [], rfl, acted⟩)

theorem wholeFrames_of_extras {slots : Nat} {rest : List (List Bytes)} {log : Log} {carried : Carried}
    (parses : ∀ dump, env.lib.parseBlockDump dump = some .other)
    (inside : StaysInside env ⟨log, carried, .extraWalk (.of ⟨bytes, beyond⟩) slots rest⟩) :
    WholeFrames (2 ^ 63) slots bytes := by
  induction slots generalizing bytes with
  | zero => trivial
  | succ slots ih =>
      by_cases empty : bytes = []
      · exact .inl empty
      have more : decide (0 < slots + 1) = true := by simp
      have front := inside _ .refl (.extraFrame [])
      simp only [State.accesses, more] at front
      obtain ⟨room, slice⟩ := front_of_accesses empty front
      refine .inr ⟨room, ?_⟩
      by_cases zero : declared 8 bytes = 0
      · exact .inl zero
      by_cases long : 2 ^ 63 ≤ declared 8 bytes
      · exact .inr (.inl long)
      have fits := slice zero (by simpa [copied] using long)
      have found : nextFrame (.of ⟨bytes, beyond⟩) true = some _ :=
        (if_pos ⟨List.length_pos_iff.mpr empty, rfl⟩).trans (congrArg some (frame_of_fits room zero fits beyond))
      have acted : act env ⟨log, carried, .extraWalk (.of ⟨bytes, beyond⟩) (slots + 1) rest⟩ (.extraFrame []) =
          some ⟨log, carried, .extraWalk (.of ⟨bytes.drop (8 + declared 8 bytes), beyond⟩) slots rest⟩ := by
        simp only [act, more, found, extraFrame, Option.bind_some, parses]
        rfl
      exact .inr (.inr ⟨fits, ih (inside.turn ⟨.extraFrame [], rfl, acted⟩)⟩)

theorem responses_stay_inside_iff (decompressed : Torrent.StdString) (hashes : List BlkInfo) :
    ((∀ env log carried beyond,
        StaysInside env ⟨log, carried, .walk (.of ⟨decompressed.bytes, beyond⟩) [] hashes⟩) ↔
      WholeFrames (2 ^ 64) (reachable hashes) decompressed.bytes) ∧
    ((∀ env log carried beyond rest,
        StaysInside env ⟨log, carried, .extraWalk (.of ⟨decompressed.bytes, beyond⟩) hashes.length rest⟩) ↔
      WholeFrames (2 ^ 63) hashes.length decompressed.bytes) := by
  let lenient : Env := ⟨⟨fun _ => some .other, id⟩, ⟨[], false, 1, 1, 0⟩⟩
  refine ⟨⟨fun inside => ?_, fun whole env log carried beyond => ?_⟩,
    ⟨fun inside => ?_, fun whole env log carried beyond rest => ?_⟩⟩
  · exact wholeFrames_of_blocks (by rfl) (inside lenient [] .initial [])
  · refine State.Inside.stays ⟨fun buf before after here => ?_, fun buf slots rest here => Phase.noConfusion here⟩ env
    cases here
    exact ⟨_, rfl, decompressed.fits, whole⟩
  · exact wholeFrames_of_extras (fun _ => by rfl) (inside lenient [] .initial [] [])
  · refine State.Inside.stays ⟨fun buf before after here => Phase.noConfusion here, fun buf slots rest here => ?_⟩ env
    cases here
    exact ⟨_, rfl, decompressed.fits, whole⟩

theorem byte_behind_saved :
    ∃ st st', runAllowed (step Sample.pair) (fun _ _ => True) .initial
        [Sample.start 1, ⟨.poll (some [some ⟨none, some 1, some (StringUtils.bin2hex (Sample.hashOf 0)), []⟩]) none, none⟩,
          ⟨.dumps (some ⟨bigEndian 8 2 ++ [5], [0]⟩), none⟩] = some st ∧
      st.phase.left = 9 ∧ st.accesses Sample.pair (.frame (fun _ => none) []) = [.length, .slice 2] ∧
      step Sample.pair st (Sample.turn none) = some st' ∧ st'.log.record 1 = some [5, 0] := by
  refine ⟨_, _, rfl, ?_, ?_, rfl, ?_⟩
  · decide +kernel
  · decide +kernel
  · decide +kernel

inductive Visits (env : Env) : State → List (BlkInfo × Option Bytes) → State → Prop
  | here {st : State} : Visits env st [] st
  | turn {st mid st' : State} {visit : BlkInfo × Option Bytes} {visits : List (BlkInfo × Option Bytes)}
      (fetch : Nat → Option Bytes) (faults : List Nat) : st.frame = some visit →
      act env st (.frame fetch faults) = some mid → mid.phase.loading = true → Visits env mid visits st' →
      Visits env st (visit :: visits) st'

variable {dumps : List Bytes} {before hashes : List BlkInfo}

theorem frame_carrying (frames : ∀ dump ∈ dumps, dump ≠ [] ∧ dump.length < 2 ^ 64)
    (here : st.phase = .walk (.carrying dumps beyond) before hashes) :
    st.frame = ((hashes.zip dumps).head?).map fun pair => (pair.1, some pair.2) := by
  cases hashes with
  | nil => simp only [State.frame, here, List.zip_nil_left, List.head?_nil, Option.map_none]
  | cons iter hashes =>
      cases dumps with
      | nil => simp only [State.frame, here, nextFrame_nil, List.zip_nil_right, List.head?_nil, Option.map_none]
      | cons dump dumps =>
          simp only [State.frame, here, nextFrame_cons (frames dump List.mem_cons_self), List.zip_cons_cons,
            List.head?_cons, Option.map_some]

-- The induction is on the dumps that are left; each visit takes one of them and one hash.
theorem Visits.pairs {visits : List (BlkInfo × Option Bytes)} (visited : Visits env st visits st')
    (frames : ∀ dump ∈ dumps, dump ≠ [] ∧ dump.length < 2 ^ 64)
    (here : st.phase = .walk (.carrying dumps beyond) before hashes) :
    visits = ((hashes.zip dumps).take visits.length).map (fun pair => (pair.1, some pair.2)) ∧
      st'.phase = .walk (.carrying (dumps.drop visits.length) beyond) (before ++ hashes.take visits.length)
        (hashes.drop visits.length) := by
  induction visited generalizing dumps before hashes with
  | here => simpa using here
  | @turn st mid st' visit visits fetch faults found acted on visited ih =>
      have framed := found.symm.trans (frame_carrying frames here)
      cases hashes with
      | nil => simp at framed
      | cons iter hashes =>
          cases dumps with
          | nil => simp at framed
          | cons dump dumps =>
              obtain ⟨frame, others⟩ := List.forall_mem_cons.mp frames
              obtain ⟨buf, before', iter', after, content, rest, here', read, next, -⟩ := (act_frame acted).2.2 on
              rw [here] at here'
              cases here'
              have read' := (nextFrame_eq_some (nextFrame_cons frame dumps beyond)).2.2
              cases read.symm.trans read'
              obtain ⟨pairs, phase⟩ := ih others next
              cases Option.some.inj framed
              refine ⟨?_, ?_⟩
              · rw [List.length_cons, List.zip_cons_cons, List.take_succ_cons, List.map_cons, ← pairs]
              · rw [phase]
                simp

theorem decoders_agree (lz4 : Torrent.Lz4) (junk : Bytes) (response : Torrent.StdString) (ds : List Bytes)
    (hashes : List BlkInfo) (nonempty : ∀ d ∈ ds, d ≠ []) (enough : ds.length ≤ hashes.length)
    (whole : response.bytes = ds.flatMap Torrent.serializeStringBigEndian) :
    Torrent.Returns lz4 junk response ds ∧
    ∀ env log carried beyond visits st,
      Visits env ⟨log, carried, .walk (.of ⟨response.bytes, beyond⟩) [] hashes⟩ visits st →
        visits = ((hashes.zip ds).take visits.length).map (fun pair => (pair.1, some pair.2)) ∧
        ((visits.length < ds.length ∧ ∃ iter d, hashes[visits.length]? = some iter ∧ ds[visits.length]? = some d ∧
            st.frame = some (iter, some d)) ∨
          (visits.length = ds.length ∧ ∀ fetch faults, act env st (.frame fetch faults) =
            some { st with phase := loadExtraBlocks env.settings ((hashes.take ds.length).map (·.extra)) })) := by
  rw [Torrent.serializeStringBigEndian_eq] at whole
  have frames : ∀ d ∈ ds, d ≠ [] ∧ d.length < 2 ^ 64 := by
    intro d member
    have short := length_le_stream 8 member
    have fits := response.fits
    rw [whole] at fits
    exact ⟨nonempty d member, (short.trans_lt fits).trans (by norm_num)⟩
  refine ⟨Torrent.returns_stream whole, ?_⟩
  intro env log carried beyond visits st visited
  have start : Buf.of ⟨response.bytes, beyond⟩ = .carrying ds beyond := by
    rw [whole]
    rfl
  obtain ⟨pairs, phase⟩ := visited.pairs frames (by rw [start])
  refine ⟨pairs, ?_⟩
  have count : visits.length ≤ ds.length := by
    have := congrArg List.length pairs
    rw [List.length_map, List.length_take, List.length_zip] at this
    omega
  rcases count.lt_or_eq with more | all
  · refine .inl ⟨more, hashes[visits.length], ds[visits.length], ?_, ?_, ?_⟩
    · exact List.getElem?_eq_getElem _
    · exact List.getElem?_eq_getElem _
    · rw [frame_carrying (fun d member => frames d (List.mem_of_mem_drop member)) phase,
        List.drop_eq_getElem_cons more, List.drop_eq_getElem_cons (more.trans_le enough)]
      rfl
  · refine .inr ⟨all, fun fetch faults => ?_⟩
    rw [all, List.drop_length] at phase
    simp only [act, phase, nextFrame_nil, List.nil_append]

def Sample.pending (number : Fin 4) : BlkInfo := ⟨number, Sample.hashOf 7, [], by omega⟩

def Sample.unverified : Env := ⟨⟨Sample.parse [], id⟩, ⟨[], false, 1, 100, 5⟩⟩

theorem decoders_agree_two_dumps :
    let lz4 : Torrent.Lz4 := ⟨fun _ _ _ => none, by simp⟩
    let response : Torrent.StdString := ⟨[[5], [6]].flatMap Torrent.serializeStringBigEndian, by decide⟩
    let hashes := [Sample.pending 1, Sample.pending 2, Sample.pending 3]
    Torrent.Returns lz4 [] response [[5], [6]] ∧
    ∃ st st', Visits Sample.unverified ⟨[], .initial, .walk (.of ⟨response.bytes, []⟩) [] hashes⟩
        [(Sample.pending 1, some [5]), (Sample.pending 2, some [6])] st ∧
      act Sample.unverified st (.frame (fun _ => none) []) = some st' ∧ st'.phase = .idle := by
  intro lz4 response hashes
  obtain ⟨returned, walk⟩ := decoders_agree lz4 [] response [[5], [6]] hashes (by decide) (by decide) rfl
  have visited : Visits Sample.unverified ⟨[], .initial, .walk (.of ⟨response.bytes, []⟩) [] hashes⟩
      [(Sample.pending 1, some [5]), (Sample.pending 2, some [6])] _ :=
    .turn (fun _ => none) [] rfl rfl rfl (.turn (fun _ => none) [] rfl rfl rfl .here)
  rcases (walk _ _ _ _ _ _ visited).2 with ⟨more, -⟩ | ⟨-, ended⟩
  · exact absurd more (by decide)
  · exact ⟨returned, _, _, visited, ended _ _, rfl⟩

/-! ## Failed decompression -/

/-- Every caller of `decompress` takes this body for none. The torrent library finds no block in an empty
dump. -/
structure NoData (body : Bytes) : Prop where
  routine : ∀ (env : Env) (st : State) (hashes : List BlkInfo) (beyond : Bytes), st.phase = .dumps hashes →
    act env st (.dumps (some ⟨body, beyond⟩)) = some { st with phase := .idle }
  getBlock : ∀ (env : Env) (fetch : Nat → Option Bytes) (log : Log) (num : Nat) (exdata : ExtData),
    env.lib.blockOf [] = none → getBlockByNum log (decimal num) false = none → fetch num = some body →
      ∀ found exdata', getBlock env fetch log num exdata ≠ .ok (some found, exdata')
  dumps : ∀ fuel, Torrent.parseDumpBlocksLoop body (fuel + 1) 0 [] = some (.ok [])

theorem noData_nil : NoData [] where
  routine env st hashes beyond here := by simp only [act, here, if_true]
  getBlock env fetch log num exdata nothing missing fetched found exdata' got := by
    simp only [Cache.getBlock, missing, fetched] at got
    split at got
    case h_1 b parsed =>
      rw [TorrentLib.blockOf, parsed] at nothing
      cases nothing
    case h_2 => cases got
    case h_3 => cases got
  dumps fuel := rfl

open Torrent in
-- What LZ4 leaves in the buffer is returned, so a result that does not depend on it is one of LZ4.
theorem narrowed_of_decompress {lz4 : Lz4} {s out : Bytes} (long : 4 < s.length) (positive : origSize s ≠ 0)
    (same : ∀ junk, decompress lz4 junk s = out) : lz4.narrowed s = some out := by
  cases called : lz4.narrowed s with
  | some out' =>
      have returned := same []
      rw [decompress_long long, called] at returned
      exact congrArg some returned
  | none =>
      have spoilt := (same [0]).trans (same [1]).symm
      obtain ⟨n, size⟩ := Nat.exists_eq_succ_of_ne_zero positive
      rw [decompress_long long, decompress_long long, called, size] at spoilt
      cases (List.cons.inj spoilt).1

open Torrent in
theorem decompress_no_capacity {lz4 : Lz4} {s : Bytes} (long : 4 < s.length) (zero : origSize s = 0) (junk : Bytes) :
    decompress lz4 junk s = (lz4.output s).getD [] := by
  have empty : (lz4.output s).getD [] = [] := by
    rw [Lz4.output, if_neg (not_le.mpr long)]
    cases done : lz4.decompressSafe (s.drop 4) (s.length - 4 : Nat) (origSize s) with
    | none => rfl
    | some out => exact eq_nil_of_no_capacity (by simp [zero]) done
  rw [decompress_long long, empty, zero]
  cases done : lz4.narrowed s with
  | none => simp [spoiled]
  | some out => exact eq_nil_of_no_capacity (by rw [zero]; exact Int.zero_bmod) done

open Torrent in
theorem failure_visible_iff (lz4 : Lz4) (s : Bytes) :
    (∀ junk, decompress lz4 junk s = (lz4.output s).getD [] ∧
      (lz4.output s = none → NoData (decompress lz4 junk s))) ↔
    s.length ≤ 4 ∨ origSize s = 0 ∨ lz4.narrowed s = some ((lz4.output s).getD []) := by
  constructor
  · intro visible
    by_cases short : s.length ≤ 4
    · exact .inl short
    by_cases zero : origSize s = 0
    · exact .inr (.inl zero)
    exact .inr (.inr (narrowed_of_decompress (not_le.mp short) zero fun junk => (visible junk).1))
  · intro good junk
    suffices same : decompress lz4 junk s = (lz4.output s).getD [] by
      refine ⟨same, fun failed => ?_⟩
      rw [same, failed]
      exact noData_nil
    by_cases short : s.length ≤ 4
    · rw [decompress_short short, Lz4.output, if_pos short]
      rfl
    have long := not_le.mp short
    rcases good with short | zero | called
    · omega
    · exact decompress_no_capacity long zero junk
    · rw [decompress_long long, called]
      rfl

namespace Sample

/-- LZ4 on a block of at most fourteen literals, which a token with their number precedes. -/
def literals : Torrent.Lz4 where
  decompressSafe src size capacity :=
    match src with
    | token :: rest =>
        if size = src.length ∧ rest.length < 15 ∧ token.toNat = 16 * rest.length ∧ (rest.length : Int) ≤ capacity then
          some rest
        else none
    | [] => none
  bounded src size capacity out done := by
    cases src with
    | nil => cases done
    | cons token rest =>
        obtain ⟨⟨-, -, -, fits⟩, same⟩ := Option.ite_none_right_eq_some.mp done
        cases same
        exact fits

example : literals.output [4, 0, 0, 0, 0x40, 0x41, 0x42, 0x43, 0x44] = some [0x41, 0x42, 0x43, 0x44] := by decide

end Sample

open Torrent in
theorem failed_decompression_walked :
    let lz4 := Sample.literals
    let s : Bytes := [3, 0, 0, 0, 0x40, 0x41, 0x42, 0x43, 0x44]
    lz4.output s = none ∧ decompress lz4 [] s = [0, 0, 0] ∧
      ∀ (env : Env) (st : State) (hashes : List BlkInfo) (beyond : Bytes), st.phase = .dumps hashes →
        ∃ st', act env st (.dumps (some ⟨decompress lz4 [] s, beyond⟩)) = some st' ∧
          st'.phase = .walk ⟨[0, 0, 0] ++ beyond, 3⟩ [] hashes := by
  intro lz4 s
  have buffer : decompress lz4 [] s = [0, 0, 0] := by decide +kernel
  refine ⟨by decide +kernel, buffer, fun env st hashes beyond here => ?_⟩
  simp only [act, here, buffer]
  exact ⟨_, rfl, rfl⟩

end FullnodeClient.Cache
