import FullnodeClient.Cache.Walk

/-!
# The first synchronisation routine

`routine` of `cache/blocks_cache.cpp`, which asks for one block at a time, as a machine on the database
that `routine_2` uses. The block is read from the decompressed reply; what is saved is the reply.
-/

namespace FullnodeClient.Cache
open FullnodeClient.Lib FullnodeClient.Text

namespace One

/-- What the routine uses of the transport. `decompress` throws where it is `none`. -/
structure Wire where
  decompress : Bytes → Option Bytes
  isJson : Bytes → Bool

inductive Phase
  | down
  | stopped
  | idle
  | load (count : Nat)
deriving DecidableEq

structure State where
  log : Log
  phase : Phase

inductive Action
  | start
  | count (reply : Option UInt64)
  | dump (body : Bytes) (faults : List Nat)
  | stop

structure Label where
  action : Action
  killed : Option Nat

def startEvent (log : Log) : Event :=
  let next := log.get (text "next_block")
  let last := log.get (text "last_signed_block")
  .start next.isNone (next.elim 0 atoi) (last.elim 0 atoi)

def firstNumber (settings : Settings) (count : UInt64) : Nat :=
  let number := count - settings.initCount.toUInt64
  if 0 < number then number.toNat else 1

def turn (log : Log) (count : Nat) : Phase := if log.nextblock ≤ count then .load count else .idle

def saveReply (number : Nat) (hash body : Bytes) : CacheM Unit := do
  if ← saveBlock number hash body (ExtData.of ExtData.notChecked) then
    let next := (number + 1) % 2 ^ 64
    LogM.note (.setNext next)
    let _ ← updateNumber next

def act (env : Env) (wire : Wire) (st : State) : Action → Option State
  | .start =>
      match st.phase with
      | .down => some ⟨startEvent st.log :: st.log, .idle⟩
      | _ => none
  | .count reply =>
      match st.phase, reply with
      | .idle, none => some st
      | .idle, some count =>
          let log := if st.log.nextblock = 0 then .setNext (firstNumber env.settings count) :: st.log else st.log
          some ⟨log, turn log count.toNat⟩
      | _, _ => none
  | .dump body faults =>
      match st.phase with
      | .load count =>
          if body = [] ∨ wire.isJson body then some { st with phase := .idle }
          else
            match (wire.decompress body).bind env.lib.parseBlockDump with
            | none => some { st with phase := .stopped }
            | some (.block b) =>
                let disk := ((saveReply st.log.nextblock b.hash body).runOn (succeeds faults) ⟨st.log, 0⟩).2
                some ⟨disk.log, turn disk.log count⟩
            | some _ => some st
      | _ => none
  | .stop =>
      match st.phase with
      | .down => none
      | _ => some { st with phase := .stopped }

def State.kill (st : State) (log : Log) (entries : Nat) : State :=
  ⟨st.log.drop (st.log.length - (log.length + entries)), .down⟩

def step (env : Env) (wire : Wire) (st : State) (l : Label) : Option State :=
  match act env wire st l.action, l.killed with
  | some st', some entries => some (st'.kill st.log entries)
  | result, _ => result

variable {env : Env} {wire : Wire} {st st' : State}

def State.save (env : Env) (wire : Wire) (st : State) : Action → Option Save
  | .dump body _ =>
      match st.phase with
      | .load _ =>
          if body = [] ∨ wire.isJson body then none
          else
            match (wire.decompress body).bind env.lib.parseBlockDump with
            | some (.block b) => some ⟨st.log.nextblock, b.hash, body, ExtData.of ExtData.notChecked⟩
            | _ => none
      | _ => none
  | _ => none

inductive State.Emits (env : Env) (wire : Wire) (st : State) (action : Action) : Log → Event → Prop
  | start : Emits env wire st action st.log (startEvent st.log)
  | count {n : Nat} : Emits env wire st action st.log (.setNext n)
  | save {s : Save} {u : Log} {e : Event} : st.save env wire action = some s → s.Emits st.log u e →
      Emits env wire st action u e
  | next {u : Log} {n : Nat} : Emits env wire st action u (.setNext n)
  | nextBlock {u : Log} {n : Nat} : Emits env wire st action u (.put (.nextBlock n))

theorem State.save_eq_some {action : Action} {s : Save} (chosen : st.save env wire action = some s) :
    ∃ buf b, wire.decompress s.dump = some buf ∧ env.lib.parseBlockDump buf = some (.block b) ∧ s.hash = b.hash ∧
      s.number = st.log.nextblock := by
  cases action <;> simp only [State.save, reduceCtorEq] at chosen
  split at chosen
  case h_2 => cases chosen
  case h_1 =>
    split at chosen
    case isTrue => cases chosen
    case isFalse =>
      split at chosen <;> cases chosen
      case h_1 b parsed =>
        obtain ⟨buf, decompressed, parsed⟩ := Option.bind_eq_some_iff.mp parsed
        exact ⟨buf, b, decompressed, parsed, rfl, rfl⟩

theorem State.save_long (hashes : env.lib.Hashes) {action : Action} {s : Save}
    (chosen : st.save env wire action = some s) : s.hash.length = 32 := by
  obtain ⟨buf, b, -, parsed, same, -⟩ := State.save_eq_some chosen
  exact same ▸ hashes.block buf b parsed

theorem saveReply_meets {emits : Log → Event → Prop} {succeeds : Nat → Bool} (disk : Disk Event) {number : Nat}
    {hash body : Bytes} (saves : ∀ u e, Save.Emits ⟨number, hash, body, ExtData.of ExtData.notChecked⟩ disk.log u e →
      emits u e) (next : ∀ u n, emits u (.setNext n)) (nextBlock : ∀ u n, emits u (.put (.nextBlock n))) :
    LogM.Meets emits succeeds (saveReply number hash body) disk (fun _ _ => True) (fun _ => True) := by
  refine .bind ((saveBlock_meets ⟨number, hash, body, ExtData.of ExtData.notChecked⟩ saves).weaken fun ok after _ => ?_)
  cases ok with
  | false => exact .pure trivial
  | true =>
      refine .bind (.note (next _ _) ?_)
      exact .bind (.attempt (nextBlock _ _) (.pure trivial) fun _ => .pure trivial)

theorem act_grows {action : Action} (acted : act env wire st action = some st') :
    Grows (st.Emits env wire action) st.log st'.log := by
  cases action with
  | start =>
      simp only [act] at acted
      split at acted <;> cases acted
      exact .cons .refl .start
  | count reply =>
      simp only [act] at acted
      split at acted <;> cases acted
      case h_1 => exact .refl
      case h_2 =>
        simp only
        split
        case isTrue => exact .cons .refl .count
        case isFalse => exact .refl
  | stop =>
      simp only [act] at acted
      split at acted <;> cases acted
      exact .refl
  | dump body faults =>
      simp only [act] at acted
      split at acted
      case h_2 => cases acted
      case h_1 count phase =>
        split at acted
        case isTrue => cases acted; exact .refl
        case isFalse readable =>
          split at acted <;> cases acted
          case h_1 => exact .refl
          case h_3 => exact .refl
          case h_2 b parsed =>
            have chosen : st.save env wire (.dump body faults) =
                some ⟨st.log.nextblock, b.hash, body, ExtData.of ExtData.notChecked⟩ := by
              simp only [State.save, phase, if_neg readable, parsed]
            exact (saveReply_meets ⟨st.log, 0⟩ (fun u e => .save chosen) (fun u n => .next)
              fun u n => .nextBlock).1

theorem step_grows {l : Label} (stepped : step env wire st l = some st') :
    Grows (st.Emits env wire l.action) st.log st'.log := by
  unfold step at stepped
  split at stepped
  case h_1 full entries acted _ =>
    cases stepped
    exact (act_grows acted).cut (suffix_drop (act_grows acted).suffix entries) (List.drop_suffix _ _)
  case h_2 => exact act_grows stepped

end One

end FullnodeClient.Cache
