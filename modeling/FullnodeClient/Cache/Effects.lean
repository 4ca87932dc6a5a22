import FullnodeClient.Cache.Routine

/-!
# What a step logs

Every entry that a step of the routine appends, with the log it is appended to. The invariants of the
cache are proved from these relations alone.
-/

namespace FullnodeClient.Cache
open FullnodeClient.Lib FullnodeClient.Text

section

variable {emits : Log → Event → Prop} {succeeds : Nat → Bool} {disk : Disk Event} {thrown : Disk Event → Prop}

structure Save where
  number : Nat
  hash : Bytes
  dump : Bytes
  ext : ExtData

namespace Save

def stored (s : Save) (past : Log) : Log :=
  .put (.data (decimal s.number) s.ext) :: .put (.index s.hash s.number) ::
    .put (.dump s.number s.dump) :: past

def saved (s : Save) (past : Log) : Log := .setNext (s.number + 1) :: s.stored past

inductive Emits (s : Save) (past : Log) : Log → Event → Prop
  | dump : Emits s past past (.put (.dump s.number s.dump))
  | index : Emits s past (.put (.dump s.number s.dump) :: past) (.put (.index s.hash s.number))
  | data : Emits s past (.put (.index s.hash s.number) :: .put (.dump s.number s.dump) :: past)
      (.put (.data (decimal s.number) s.ext))
  | next : Emits s past (s.stored past) (.setNext (s.number + 1))
  | nextBlock : Emits s past (s.saved past) (.put (.nextBlock (s.number + 1)))

end Save

theorem saveBlock_meets (s : Save) (emitted : ∀ u e, s.Emits disk.log u e → emits u e) :
    LogM.Meets emits succeeds (saveBlock s.number s.hash s.dump s.ext) disk
      (fun ok after => if ok then after.log = s.stored disk.log else s.hash = [] ∨ ∃ i, succeeds i = false)
      thrown := by
  refine .bind (.attempt (emitted _ _ .dump) ?_ fun failed => .pure (.inr ⟨_, failed⟩))
  simp only [if_true]
  split
  case isTrue empty => exact .pure (.inl empty)
  case isFalse =>
    refine .bind (.attempt (emitted _ _ .index) ?_ fun failed => .pure (.inr ⟨_, failed⟩))
    exact .attempt (emitted _ _ .data) rfl fun failed => .inr ⟨_, failed⟩

theorem saveAndAdvance_meets (s : Save) (emitted : ∀ u e, s.Emits disk.log u e → emits u e) :
    LogM.Meets emits succeeds (saveAndAdvance s.number s.hash s.dump s.ext) disk
      (fun ok after => if ok then after.log = s.saved disk.log ∨
          after.log = .put (.nextBlock (s.number + 1)) :: s.saved disk.log
        else s.hash = [] ∨ ∃ i, succeeds i = false) thrown := by
  refine .bind ((saveBlock_meets s emitted).weaken fun ok after stored => ?_)
  cases ok with
  | false => exact .pure stored
  | true =>
      have same : after.log = s.stored disk.log := stored
      refine .bind (.note (emitted _ _ (same ▸ .next)) ?_)
      refine .bind (.attempt (emitted _ _ ?_) (.pure (.inr ?_)) fun _ => .pure (.inl ?_))
      · simp only [same]
        exact .nextBlock
      · simp only [same, Save.saved]
      · simp only [same, Save.saved]

theorem updateLastSigned_meets {number : Nat} {done : Bool → Disk Event → Prop}
    (raised : Log.lastSignedBlock disk.log < number →
      emits disk.log (.put (.lastSigned number)) ∧
      emits (.put (.lastSigned number) :: disk.log) (.setLast number))
    (stays : ∀ ok after, after.log = disk.log → done ok after)
    (moves : Log.lastSignedBlock disk.log < number → ∀ ok after,
      after.log = .setLast number :: .put (.lastSigned number) :: disk.log → done ok after) :
    LogM.Meets emits succeeds (updateLastSigned number) disk done thrown := by
  refine .bind (.look ?_)
  split
  case isTrue higher =>
    refine .bind (.attempt (raised higher).1 ?_ fun _ => .pure (stays _ _ rfl))
    exact .bind (.note (raised higher).2 (.pure (moves higher _ _ rfl)))
  case isFalse => exact .pure (stays _ _ rfl)

/-! ## Accepting a block -/

theorem brokenBlock_eq_some {env : Env} {fetch : Nat → Option Bytes} {log : Log} {prev : BlockInfo} {m : Nat}
    {ext : ExtData} (repaired : brokenBlock env fetch log prev m = .ok (some ext)) :
    ∃ (b1 : BlockInfo) (ex1 : ExtData) (b2 : BlockInfo),
      getBlock env fetch log (m - 1) (ExtData.of ExtData.notChecked) = .ok (some b1, ex1) ∧
      ExtData.status ex1 ≠ ExtData.signed ∧ prev.prevHash = b1.hash ∧ b1.prevHash = b2.hash ∧
      0 < coreAddrVerification env b1 (StringUtils.bin2hex b2.hash) ∧
      ext = ExtData.setStatus ex1 ExtData.signed := by
  unfold brokenBlock at repaired
  split at repaired <;> try cases repaired
  case h_3 b1 ex1 got =>
    split at repaired <;> try cases repaired
    case isTrue fits =>
      split at repaired <;> try cases repaired
      case h_3 b2 ex2 _ =>
        split at repaired <;> cases repaired
        case isTrue passed => exact ⟨b1, ex1, b2, got, fits.1, fits.2, passed.1, passed.2, rfl⟩

namespace Candidate

def save (c : Candidate) : Save := ⟨c.number, c.block.hash, c.dump, ExtData.of ExtData.notChecked⟩

def saved (c : Candidate) (past : Log) : Log := c.save.saved (.block c.block :: past)

def extData (c : Candidate) : ExtData :=
  ExtData.of (if c.verify = intMax then ExtData.signed
    else if c.verify = 0 then ExtData.awaiting else ExtData.notChecked)

def SignsPrevious (c : Candidate) : Prop :=
  0 < c.verify ∧ (c.verify = intMax →
    ExtData.status c.ext = ExtData.notSigned ∨ ExtData.status c.ext = ExtData.notChecked)

instance (c : Candidate) : Decidable c.SignsPrevious := by
  unfold SignsPrevious
  infer_instance

def Concerns (c : Candidate) (number : Nat) : Prop :=
  c.verify = intMax ∧ number = c.number ∨
  c.SignsPrevious ∧ ∃ m, c.prev.blockNumber = some m ∧ 0 < m ∧
    (number = m ∨ ExtData.status c.ext = ExtData.awaiting ∧ number = m - 1)

def AfterSave (c : Candidate) (past u : Log) : Prop :=
  u = c.saved past ∨ u = .put (.nextBlock (c.number + 1)) :: c.saved past

inductive After (c : Candidate) (past : Log) : Log → Prop
  | saved {u : Log} : c.AfterSave past u → After c past u
  | awaiting {u : Log} : c.verify = 0 → c.AfterSave past u →
      After c past (.put (.data (decimal c.number) (ExtData.of ExtData.awaiting)) :: u)
  | status {u : Log} {number : Nat} {ext : ExtData} : After c past u → c.Concerns number →
      ExtData.status ext = ExtData.signed → After c past (.put (.data (decimal number) ext) :: u)
  | raised {u : Log} {number : Nat} : After c past u → c.Concerns number →
      Log.lastSignedBlock u < number → After c past (.setLast number :: .put (.lastSigned number) :: u)

inductive Signs (env : Env) (fetch : Nat → Option Bytes) (c : Candidate) (past : Log) :
    Log → Nat → ExtData → Prop
  | own {u : Log} : c.verify = intMax → c.AfterSave past u →
      Signs env fetch c past u c.number (ExtData.of ExtData.signed)
  | previous {u : Log} {m : Nat} : c.SignsPrevious → c.prev.blockNumber = some m → 0 < m → c.After past u →
      Signs env fetch c past u m (ExtData.setStatus c.ext ExtData.signed)
  | broken {u : Log} {m : Nat} {ext : ExtData} : c.SignsPrevious → c.prev.blockNumber = some m → 0 < m →
      c.After past u → ExtData.status c.ext = ExtData.awaiting →
      brokenBlock env fetch u c.prev m = .ok (some ext) → Signs env fetch c past u (m - 1) ext

/-- The log when the height is about to be raised; the status is missing only if its Put failed. -/
def Marked (succeeds : Nat → Bool) (number : Nat) (ext : ExtData) (before u : Log) : Prop :=
  u = .put (.data (decimal number) ext) :: before ∨ u = before ∧ ∃ i, succeeds i = false

inductive Emits (env : Env) (fetch : Nat → Option Bytes) (succeeds : Nat → Bool) (c : Candidate) (past : Log) :
    Log → Event → Prop
  | block : Emits env fetch succeeds c past past (.block c.block)
  | save {u : Log} {e : Event} : c.save.Emits (.block c.block :: past) u e →
      Emits env fetch succeeds c past u e
  | awaiting {u : Log} : c.verify = 0 → c.AfterSave past u →
      Emits env fetch succeeds c past u (.put (.data (decimal c.number) (ExtData.of ExtData.awaiting)))
  | status {u : Log} {number : Nat} {ext : ExtData} : Signs env fetch c past u number ext →
      Emits env fetch succeeds c past u (.put (.data (decimal number) ext))
  | lastSigned {u v : Log} {number : Nat} {ext : ExtData} : Signs env fetch c past v number ext →
      Marked succeeds number ext v u → Log.lastSignedBlock u < number →
      Emits env fetch succeeds c past u (.put (.lastSigned number))
  | setLast {u v : Log} {number : Nat} {ext : ExtData} : Signs env fetch c past v number ext →
      Marked succeeds number ext v u → Log.lastSignedBlock u < number →
      Emits env fetch succeeds c past (.put (.lastSigned number) :: u) (.setLast number)

structure Finished (env : Env) (fetch : Nat → Option Bytes) (c : Candidate) (past u : Log) : Prop where
  own : c.verify = intMax → u.Signed c.number
  previous : c.SignsPrevious → ∀ m, c.prev.blockNumber = some m → 0 < m → u.Signed m
  broken : c.SignsPrevious → ExtData.status c.ext = ExtData.awaiting →
    ∀ m, c.prev.blockNumber = some m → 0 < m →
    (∀ v, c.AfterSave past v → ∃ ext, brokenBlock env fetch v c.prev m = .ok (some ext)) → u.Signed (m - 1)

variable {env : Env} {fetch : Nat → Option Bytes} {c : Candidate} {past : Log}

namespace Signs

variable {u : Log} {number : Nat} {ext : ExtData}

theorem concerns (h : Signs env fetch c past u number ext) : c.Concerns number := by
  cases h with
  | own exempt => exact .inl ⟨exempt, rfl⟩
  | previous signs known positive => exact .inr ⟨signs, _, known, positive, .inl rfl⟩
  | broken signs known positive _ waits => exact .inr ⟨signs, _, known, positive, .inr ⟨waits, rfl⟩⟩

theorem status (h : Signs env fetch c past u number ext) : ExtData.status ext = ExtData.signed := by
  cases h with
  | own => rfl
  | previous => rfl
  | broken _ _ _ _ _ repaired =>
      obtain ⟨b1, ex1, b2, -, -, -, -, -, rfl⟩ := brokenBlock_eq_some repaired
      rfl

theorem after (h : Signs env fetch c past u number ext) : c.After past u := by
  cases h with
  | own _ after => exact .saved after
  | previous _ _ _ after => exact after
  | broken _ _ _ after => exact after

end Signs

def Continues (c : Candidate) (past before after : Log) : Prop :=
  c.After past after ∧ ∀ number, before.Signed number → after.Signed number

theorem Continues.refl {u : Log} (after : c.After past u) : c.Continues past u u := ⟨after, fun _ signed => signed⟩

theorem Continues.trans {u v w : Log} (first : c.Continues past u v) (second : c.Continues past v w) :
    c.Continues past u w :=
  ⟨second.1, fun number signed => second.2 number (first.2 number signed)⟩

theorem mark_meets {number : Nat} {ext : ExtData} (signs : Signs env fetch c past disk.log number ext) :
    LogM.Meets (Emits env fetch succeeds c past) succeeds (mark number ext) disk
      (fun _ after => c.Continues past disk.log after.log ∧
        ((∀ i, succeeds i = true) → Log.Signed after.log number)) thrown := by
  have update {disk' : Disk Event} (marked : Marked succeeds number ext disk.log disk'.log)
      (continues : c.Continues past disk.log disk'.log)
      (signed : (∀ i, succeeds i = true) → Log.Signed disk'.log number) :
      LogM.Meets (Emits env fetch succeeds c past) succeeds (do let _ ← updateLastSigned number) disk'
        (fun _ after => c.Continues past disk.log after.log ∧
          ((∀ i, succeeds i = true) → Log.Signed after.log number)) thrown := by
    refine .bind (updateLastSigned_meets (fun higher => ?_) ?_ ?_)
    · exact ⟨.lastSigned signs marked higher, .setLast signs marked higher⟩
    · exact fun _ _ same => .pure (by rw [same]; exact ⟨continues, signed⟩)
    · refine fun higher _ _ same => .pure ?_
      rw [same]
      have kept (n : Nat) (h : Log.Signed disk'.log n) :
          Log.Signed (.setLast number :: .put (.lastSigned number) :: disk'.log) n := by
        simpa [Log.Signed] using h
      exact ⟨⟨continues.1.raised signs.concerns higher, fun n h => kept n (continues.2 n h)⟩,
        fun reliable => kept number (signed reliable)⟩
  refine .bind (.attempt (.status signs) (update (.inl rfl) ⟨?_, fun n signed => ?_⟩ fun _ => ?_) fun failed =>
    update (.inr ⟨rfl, _, failed⟩) (.refl signs.after) fun reliable => ?_)
  · exact signs.after.status signs.concerns signs.status
  · rw [Log.signed_data]
    split
    case isTrue => exact signs.status
    case isFalse => exact signed
  · rw [Log.signed_data, if_pos rfl]
    exact signs.status
  · rw [reliable] at failed
    cases failed

theorem markBroken_meets {m : Nat} (signs : c.SignsPrevious) (known : c.prev.blockNumber = some m)
    (positive : 0 < m) (after : c.After past disk.log)
    (early : ExtData.status c.ext = ExtData.awaiting → c.AfterSave past disk.log) :
    LogM.Meets (Emits env fetch succeeds c past) succeeds (markBroken env fetch c m) disk
      (fun _ after => c.Continues past disk.log after.log ∧
        ((∀ i, succeeds i = true) → ExtData.status c.ext = ExtData.awaiting →
          (∃ ext, brokenBlock env fetch disk.log c.prev m = .ok (some ext)) → Log.Signed after.log (m - 1)))
      (fun after => c.AfterSave past after.log) := by
  unfold markBroken
  split
  case isFalse moves => exact .pure ⟨.refl after, fun _ waits => absurd waits moves⟩
  case isTrue waits =>
    refine .bind (.look ?_)
    split
    case h_1 => exact .throw (early waits)
    case h_2 repaired =>
      refine (mark_meets (.broken signs known positive after waits repaired)).weaken fun _ _ marked => ?_
      exact ⟨marked.1, fun reliable _ _ => marked.2 reliable⟩
    case h_3 intact =>
      refine .pure ⟨.refl after, fun _ _ broken => ?_⟩
      obtain ⟨ext, repaired⟩ := broken
      rw [intact] at repaired
      cases repaired

theorem markPrevious_meets (signs : c.SignsPrevious) (after : c.After past disk.log)
    (early : ExtData.status c.ext = ExtData.awaiting → c.AfterSave past disk.log) :
    LogM.Meets (Emits env fetch succeeds c past) succeeds (markPrevious env fetch c) disk
      (fun _ after => c.Continues past disk.log after.log ∧
        ((∀ i, succeeds i = true) → ∀ m, c.prev.blockNumber = some m → 0 < m → Log.Signed after.log m ∧
          (ExtData.status c.ext = ExtData.awaiting →
            (∀ v, c.AfterSave past v → ∃ ext, brokenBlock env fetch v c.prev m = .ok (some ext)) →
            Log.Signed after.log (m - 1))))
      (fun after => c.AfterSave past after.log) := by
  unfold markPrevious
  split
  case h_2 unknown => exact .pure ⟨.refl after, fun _ m known => by rw [unknown] at known; cases known⟩
  case h_1 m known =>
    split
    case isFalse zero =>
      refine .pure ⟨.refl after, fun _ m' known' positive => absurd positive ?_⟩
      rwa [← Option.some.inj (known.symm.trans known')]
    case isTrue positive =>
      refine .bind ((markBroken_meets signs known positive after early).weaken fun _ _ broken => ?_)
      refine (mark_meets (.previous signs known positive broken.1.1)).weaken fun _ _ marked => ?_
      refine ⟨broken.1.trans marked.1, fun reliable m' known' _ => ?_⟩
      obtain rfl := Option.some.inj (known.symm.trans known')
      exact ⟨marked.2 reliable, fun waits repaired =>
        marked.1.2 _ (broken.2 reliable waits (repaired _ (early waits)))⟩

theorem signBlocks_meets (after : c.AfterSave past disk.log) :
    LogM.Meets (Emits env fetch succeeds c past) succeeds (signBlocks env fetch c) disk
      (fun ext after => ext = c.extData ∧ c.After past after.log ∧
        ((∀ i, succeeds i = true) → c.Finished env fetch past after.log))
      (fun after => c.AfterSave past after.log) := by
  unfold signBlocks extData
  split
  case isTrue self =>
    have verified : 0 < c.verify := by rw [self]; decide
    refine .bind ((mark_meets (.own self after)).weaken fun _ _ own => ?_)
    split
    case isTrue behind =>
      have signs : c.SignsPrevious := ⟨verified, fun _ => behind⟩
      have early (waits : ExtData.status c.ext = ExtData.awaiting) : False := by
        rw [waits] at behind
        revert behind
        decide
      refine .bind ((markPrevious_meets signs own.1.1 fun waits => (early waits).elim).weaken
        fun _ _ previous => .pure ⟨rfl, previous.1.1, ?_⟩)
      exact fun reliable => ⟨fun _ => previous.1.2 _ (own.2 reliable),
        fun _ m known positive => (previous.2 reliable m known positive).1,
        fun _ waits m known positive => (previous.2 reliable m known positive).2 waits⟩
    case isFalse ahead =>
      refine .pure ⟨rfl, own.1.1, fun reliable => ⟨fun _ => own.2 reliable, ?_, ?_⟩⟩
      · exact fun signs => absurd (signs.2 self) ahead
      · exact fun signs => absurd (signs.2 self) ahead
  case isFalse other =>
    split
    case isTrue verified =>
      have signs : c.SignsPrevious := ⟨verified, fun self => absurd self other⟩
      refine .bind ((markPrevious_meets signs (.saved after) fun _ => after).weaken fun _ _ previous =>
        .pure ⟨?_, previous.1.1, ?_⟩)
      · rw [if_neg verified.ne']
      · exact fun reliable => ⟨fun self => absurd self other,
          fun _ m known positive => (previous.2 reliable m known positive).1,
          fun _ waits m known positive => (previous.2 reliable m known positive).2 waits⟩
    case isFalse unverified =>
      have finished {u : Log} : c.Finished env fetch past u :=
        ⟨fun self => absurd self other, fun signs => absurd signs.1 unverified,
          fun signs => absurd signs.1 unverified⟩
      split
      case isTrue unsigned =>
        exact .bind (.attempt (.awaiting unsigned after)
          (.pure ⟨rfl, .awaiting unsigned after, fun _ => finished⟩)
          fun _ => .pure ⟨rfl, .saved after, fun _ => finished⟩)
      case isFalse => exact .pure ⟨rfl, .saved after, fun _ => finished⟩

theorem acceptBlock_meets :
    LogM.Meets (Emits env fetch succeeds c disk.log) succeeds (acceptBlock env fetch c) disk
      (fun result after => if result.1 then result.2 = ⟨c.block, c.extData⟩ ∧ c.After disk.log after.log ∧
          ((∀ i, succeeds i = true) → c.Finished env fetch disk.log after.log)
        else c.block.hash = [] ∨ ∃ i, succeeds i = false)
      (fun after => c.AfterSave disk.log after.log) := by
  refine .bind (.note .block ?_)
  refine .bind ((saveAndAdvance_meets c.save fun _ _ => .save).weaken fun ok after saved => ?_)
  cases ok with
  | false => exact .pure saved
  | true => exact .bind ((signBlocks_meets saved).weaken fun ext after ended => .pure (by simpa using ended))

end Candidate

def BlkInfo.save (iter : BlkInfo) (dump : Bytes) : Save :=
  ⟨iter.number, iter.hash, dump,
    ExtData.of (if iter.number = 1 then ExtData.signed else ExtData.notChecked)⟩

theorem acceptUnverified_meets (succeeds : Nat → Bool) (disk : Disk Event) (iter : BlkInfo) (dump : Bytes)
    (carried : Carried) :
    LogM.Meets ((iter.save dump).Emits disk.log) succeeds (acceptUnverified iter dump carried) disk
      (fun result after => result.2 = carried ∧
        if result.1 then after.log = (iter.save dump).saved disk.log ∨
          after.log = .put (.nextBlock (iter.number + 1)) :: (iter.save dump).saved disk.log
        else iter.hash = [] ∨ ∃ i, succeeds i = false) thrown := by
  refine .bind ((saveAndAdvance_meets (iter.save dump) fun _ _ emitted => emitted).weaken ?_)
  exact fun _ _ saved => .pure ⟨rfl, saved⟩

section SignBlock

variable (env : Env) (succeeds : Nat → Bool) (dump : Bytes) (info : SignBlockInfo) (past : Log)

def Applied (num : Bytes) (u : Log) : Prop :=
  ∃ written filed, u = filed ++ written ++ .signBlock info :: past ∧
    (written = [.put (.data num (ExtData.of (signBlockStatus env info)))] ∨
      written = [] ∧ ∃ i, succeeds i = false) ∧
    (filed = [.put (.extra num dump)] ∨ filed = [])

inductive SignBlockEmits : Log → Event → Prop
  | signBlock : SignBlockEmits past (.signBlock info)
  | data {num : Bytes} : getBlockNumByHash past info.prevHash = some num →
      SignBlockEmits (.signBlock info :: past) (.put (.data num (ExtData.of (signBlockStatus env info))))
  | extra {num : Bytes} {u : Log} : getBlockNumByHash past info.prevHash = some num →
      Applied env succeeds dump info past num u → SignBlockEmits u (.put (.extra num dump))
  | lastSigned {num : Bytes} {u : Log} : getBlockNumByHash past info.prevHash = some num →
      Applied env succeeds dump info past num u → signBlockStatus env info = ExtData.signed →
      Log.lastSignedBlock u < atoi num → SignBlockEmits u (.put (.lastSigned (atoi num)))
  | setLast {num : Bytes} {u : Log} : getBlockNumByHash past info.prevHash = some num →
      Applied env succeeds dump info past num u → signBlockStatus env info = ExtData.signed →
      Log.lastSignedBlock u < atoi num →
      SignBlockEmits (.put (.lastSigned (atoi num)) :: u) (.setLast (atoi num))

inductive SignBlockAfter : Log → Prop
  | unknown : getBlockNumByHash past info.prevHash = none → SignBlockAfter (.signBlock info :: past)
  | applied {num : Bytes} {u : Log} : getBlockNumByHash past info.prevHash = some num →
      Applied env succeeds dump info past num u → SignBlockAfter u
  | raised {num : Bytes} {u : Log} : getBlockNumByHash past info.prevHash = some num →
      Applied env succeeds dump info past num u → signBlockStatus env info = ExtData.signed →
      Log.lastSignedBlock u < atoi num → SignBlockAfter (.setLast (atoi num) :: .put (.lastSigned (atoi num)) :: u)

end SignBlock

theorem applySignBlock_meets (succeeds : Nat → Bool) (disk : Disk Event) (env : Env) (dump : Bytes)
    (info : SignBlockInfo) :
    LogM.Meets (SignBlockEmits env succeeds dump info disk.log) succeeds (applySignBlock env dump info) disk
      (fun _ after => SignBlockAfter env succeeds dump info disk.log after.log) thrown := by
  refine .bind (.note .signBlock ?_)
  refine .bind (.look ?_)
  split
  case h_1 missing => exact .pure (.unknown missing)
  case h_2 num found =>
    have found : getBlockNumByHash disk.log info.prevHash = some num := found
    have raise {disk' : Disk Event} (applied : Applied env succeeds dump info disk.log num disk'.log) :
        LogM.Meets (SignBlockEmits env succeeds dump info disk.log) succeeds
          (if signBlockStatus env info = ExtData.signed then do let _ ← updateLastSigned (atoi num)
            else pure ()) disk'
          (fun _ after => SignBlockAfter env succeeds dump info disk.log after.log) thrown := by
      split
      case isFalse => exact .pure (.applied found applied)
      case isTrue valid =>
        refine .bind (updateLastSigned_meets (fun higher => ?_) ?_ ?_)
        · exact ⟨.lastSigned found applied valid higher, .setLast found applied valid higher⟩
        · exact fun _ _ same => .pure (same ▸ .applied found applied)
        · exact fun higher _ _ same => .pure (same ▸ .raised found applied valid higher)
    have file {disk' : Disk Event} {written : List Event}
        (same : disk'.log = written ++ .signBlock info :: disk.log)
        (h : written = [.put (.data num (ExtData.of (signBlockStatus env info)))] ∨
          written = [] ∧ ∃ i, succeeds i = false) :
        LogM.Meets (SignBlockEmits env succeeds dump info disk.log) succeeds
          (do
            let _ ← saveExtraBlock num dump
            if signBlockStatus env info = ExtData.signed then do let _ ← updateLastSigned (atoi num)
            else pure ()) disk'
          (fun _ after => SignBlockAfter env succeeds dump info disk.log after.log) thrown := by
      have applied : Applied env succeeds dump info disk.log num disk'.log :=
        ⟨written, [], by rw [same]; rfl, h, .inr rfl⟩
      refine .bind (.attempt (.extra found applied) (raise ?_) fun _ => raise applied)
      exact ⟨written, [.put (.extra num dump)], by rw [same]; rfl, h, .inl rfl⟩
    refine .bind (.attempt (.data found) (file rfl (.inl rfl)) fun failed => ?_)
    exact @file _ [] rfl (.inr ⟨rfl, _, failed⟩)

end

/-! ## Steps -/

namespace State

def frame (st : State) : Option (BlkInfo × Option Bytes) :=
  match st.phase with
  | .walk buf _ (iter :: _) =>
      match nextFrame buf true with
      | some (.content dump _) => some (iter, dump)
      | _ => none
  | _ => none

def candidate (env : Env) (fetch : Nat → Option Bytes) (st : State) : Option Candidate :=
  match st.frame with
  | some (iter, content) =>
      if env.settings.blockVerification ∧ 1 < iter.number then
        match checkBlock env fetch st.log iter content st.carried with
        | .ok (.inr c) => some c
        | _ => none
      else none
  | none => none

def unverified (env : Env) (st : State) : Option Save :=
  match st.frame with
  | some (iter, some dump) =>
      if env.settings.blockVerification ∧ 1 < iter.number then none else some (iter.save dump)
  | _ => none

def signBlock (env : Env) (st : State) : Option (Bytes × SignBlockInfo) :=
  match st.phase with
  | .extraWalk buf slots _ =>
      match nextFrame buf (0 < slots) with
      | some (.content (some dump) _) =>
          match env.lib.parseBlockDump dump with
          | some (.signBlock info) => some (dump, info)
          | _ => none
      | _ => none
  | _ => none

def save (env : Env) (st : State) : Action → Option Save
  | .frame fetch _ => ((st.candidate env fetch).map Candidate.save).or (st.unverified env)
  | _ => none

def accepted (env : Env) (st : State) : Action → Option Candidate
  | .frame fetch _ => st.candidate env fetch
  | _ => none

inductive Emits (env : Env) (st : State) : Action → Log → Event → Prop
  | start {count : Option CountReply} : Emits env st (.start count) st.log (startEvent env.settings st.log count)
  | unverified {fetch : Nat → Option Bytes} {faults : List Nat} {s : Save} {u : Log} {e : Event} :
      st.unverified env = some s → s.Emits st.log u e → Emits env st (.frame fetch faults) u e
  | block {fetch : Nat → Option Bytes} {faults : List Nat} {c : Candidate} {u : Log} {e : Event} :
      st.candidate env fetch = some c → c.Emits env fetch (succeeds faults) st.log u e →
      Emits env st (.frame fetch faults) u e
  | signBlock {faults : List Nat} {dump : Bytes} {info : SignBlockInfo} {u : Log} {e : Event} :
      st.signBlock env = some (dump, info) → SignBlockEmits env (succeeds faults) dump info st.log u e →
      Emits env st (.extraFrame faults) u e

inductive Ends (env : Env) (st : State) : Action → Log → Prop
  | same {action : Action} : Ends env st action st.log
  | start {count : Option CountReply} :
      Ends env st (.start count) (startEvent env.settings st.log count :: st.log)
  | unverified {fetch : Nat → Option Bytes} {faults : List Nat} {s : Save} {u : Log} :
      st.unverified env = some s →
      u = s.saved st.log ∨ u = .put (.nextBlock (s.number + 1)) :: s.saved st.log →
      Ends env st (.frame fetch faults) u
  | block {fetch : Nat → Option Bytes} {faults : List Nat} {c : Candidate} {u : Log} :
      st.candidate env fetch = some c → c.After st.log u →
      ((∀ i, succeeds faults i = true) → c.Finished env fetch st.log u) → Ends env st (.frame fetch faults) u
  | threw {fetch : Nat → Option Bytes} {faults : List Nat} {c : Candidate} {u : Log} :
      st.candidate env fetch = some c → c.AfterSave st.log u → Ends env st (.frame fetch faults) u
  | unsaved {fetch : Nat → Option Bytes} {faults : List Nat} {s : Save} {u : Log} :
      st.save env (.frame fetch faults) = some s → s.hash = [] ∨ (∃ i, succeeds faults i = false) →
      Ends env st (.frame fetch faults) u
  | signBlock {faults : List Nat} {dump : Bytes} {info : SignBlockInfo} {u : Log} :
      st.signBlock env = some (dump, info) → SignBlockAfter env (succeeds faults) dump info st.log u →
      Ends env st (.extraFrame faults) u

end State

section

variable {env : Env} {st st' : State}

theorem State.unverified_frame {s : Save} (chosen : st.unverified env = some s) :
    ∃ iter dump, st.frame = some (iter, some dump) ∧ s = iter.save dump ∧
      ¬(env.settings.blockVerification ∧ 1 < iter.number) := by
  unfold State.unverified at chosen
  split at chosen
  case h_2 => cases chosen
  case h_1 iter dump framed =>
    split at chosen <;> cases chosen
    case isFalse low => exact ⟨iter, dump, framed, rfl, low⟩

theorem State.unverified_number (verified : env.settings.blockVerification = true) {s : Save}
    (chosen : st.unverified env = some s) : s.number ≤ 1 ∧ s.ext = ExtData.of (if s.number = 1 then
      ExtData.signed else ExtData.notChecked) := by
  obtain ⟨iter, dump, -, rfl, low⟩ := State.unverified_frame chosen
  exact ⟨not_lt.mp fun above => low ⟨verified, above⟩, rfl⟩

theorem State.save_of_candidate {fetch : Nat → Option Bytes} {faults : List Nat} {c : Candidate}
    (chosen : st.candidate env fetch = some c) : st.save env (.frame fetch faults) = some c.save := by
  simp [State.save, chosen]

theorem State.save_of_unverified {fetch : Nat → Option Bytes} {faults : List Nat} {s : Save}
    (chosen : st.unverified env = some s) : st.save env (.frame fetch faults) = some s := by
  obtain ⟨iter, dump, framed, -, low⟩ := State.unverified_frame chosen
  have none : st.candidate env fetch = none := by simp only [State.candidate, framed, if_neg low]
  simp [State.save, none, chosen]

def State.Walked (env : Env) (st : State) (fetch : Nat → Option Bytes) (carried : Carried) (u : Log) : Prop :=
  (∃ c, st.candidate env fetch = some c ∧ carried = ⟨c.block, c.extData⟩ ∧ c.After st.log u) ∨
  (∃ s, st.unverified env = some s ∧ carried = st.carried ∧
    (u = s.saved st.log ∨ u = .put (.nextBlock (s.number + 1)) :: s.saved st.log))

theorem walkFrame_meets (env : Env) (fetch : Nat → Option Bytes) (faults : List Nat) {iter : BlkInfo}
    {content : Option Bytes} (framed : st.frame = some (iter, content)) :
    LogM.Meets (st.Emits env (.frame fetch faults)) (succeeds faults) (walkFrame env fetch iter content st.carried)
      ⟨st.log, 0⟩
      (fun result after => st.Ends env (.frame fetch faults) after.log ∧
        (result.1 = true → st.Walked env fetch result.2 after.log))
      (fun after => st.Ends env (.frame fetch faults) after.log) := by
  unfold walkFrame
  split
  case isTrue verified =>
    refine .bind (.look ?_)
    split
    case h_1 => exact .throw .same
    case h_2 => exact .pure ⟨.same, by simp⟩
    case h_3 c checked =>
      have chosen : st.candidate env fetch = some c := by
        simp only [State.candidate, framed, if_pos verified, checked]
      refine Candidate.acceptBlock_meets.mono (fun _ _ => .block chosen) ?_ fun _ => .threw chosen
      rintro ⟨going, carried⟩ after ended
      cases going with
      | false => exact ⟨.unsaved (State.save_of_candidate chosen) ended, by simp⟩
      | true => exact ⟨.block chosen ended.2.1 ended.2.2, fun _ => .inl ⟨c, chosen, ended.1, ended.2.1⟩⟩
  case isFalse unverified =>
    cases content with
    | none => exact .pure ⟨.same, by simp⟩
    | some dump =>
        have chosen : st.unverified env = some (iter.save dump) := by
          simp only [State.unverified, framed, if_neg unverified]
        refine (acceptUnverified_meets (succeeds faults) ⟨st.log, 0⟩ iter dump st.carried).mono
          (fun _ _ => .unverified chosen) ?_ fun _ => id
        rintro ⟨going, carried⟩ after ⟨same, ended⟩
        cases going with
        | false => exact ⟨.unsaved (State.save_of_unverified chosen) ended, by simp⟩
        | true => exact ⟨.unverified chosen ended, fun _ => .inr ⟨_, chosen, same, ended⟩⟩

def Phase.loading : Phase → Bool
  | .dumps _ => true
  | .walk _ _ _ => true
  | _ => false

theorem loadExtraBlocks_loading {settings : Settings} {hashes : List (List Bytes)} :
    (loadExtraBlocks settings hashes).loading = false := by
  unfold loadExtraBlocks
  split <;> rfl

theorem act_frame {fetch : Nat → Option Bytes} {faults : List Nat}
    (acted : act env st (.frame fetch faults) = some st') :
    Grows (st.Emits env (.frame fetch faults)) st.log st'.log ∧ st.Ends env (.frame fetch faults) st'.log ∧
    (st'.phase.loading = true → ∃ buf before iter after content rest,
      st.phase = .walk buf before (iter :: after) ∧ buf.frame = .content content rest ∧
      st'.phase = .walk rest (before ++ [iter]) after ∧ st.Walked env fetch st'.carried st'.log) := by
  simp only [act] at acted
  split at acted
  case h_2 => cases acted
  case h_1 buf before after phase =>
    split at acted
    case h_1 =>
      cases acted
      exact ⟨.refl, .same, fun loading => by cases loading⟩
    case h_3 =>
      cases acted
      exact ⟨.refl, .same, fun loading => by cases loadExtraBlocks_loading.symm.trans loading⟩
    case h_2 content rest iter after read =>
      have here : nextFrame buf true = some (.content content rest) := by simpa using read
      have framed : st.frame = some (iter, content) := by simp only [State.frame, phase, here]
      have found := (nextFrame_eq_some here).2.2
      obtain ⟨grown, ended⟩ := walkFrame_meets env fetch faults framed
      split at acted <;> cases acted
      case h_1 carried disk ran =>
        rw [ran] at grown ended
        exact ⟨grown, ended.1, fun _ => ⟨buf, before, iter, after, content, rest, phase, found, rfl, ended.2 rfl⟩⟩
      case h_2 carried disk ran =>
        rw [ran] at grown ended
        exact ⟨grown, ended.1, fun loading => by cases loadExtraBlocks_loading.symm.trans loading⟩
      case h_3 disk ran =>
        rw [ran] at grown ended
        exact ⟨grown, ended, fun loading => by cases loading⟩

theorem extraFrame_meets (env : Env) (faults : List Nat) {buf after : Buf} {slots : Nat}
    {rest : List (List Bytes)} {content : Option Bytes} (phase : st.phase = .extraWalk buf slots rest)
    (read : nextFrame buf (0 < slots) = some (.content content after)) :
    LogM.Meets (st.Emits env (.extraFrame faults)) (succeeds faults) (extraFrame env content) ⟨st.log, 0⟩
      (fun _ after => st.Ends env (.extraFrame faults) after.log)
      (fun after => st.Ends env (.extraFrame faults) after.log) := by
  unfold extraFrame
  split
  case h_1 => exact .throw .same
  case h_3 => exact .pure .same
  case h_2 info parsed =>
    obtain ⟨dump, rfl, signs⟩ := Option.bind_eq_some_iff.mp parsed
    have chosen : st.signBlock env = some (dump, info) := by
      simp only [State.signBlock, phase, read, signs]
    exact (applySignBlock_meets (succeeds faults) ⟨st.log, 0⟩ env dump info).mono (fun _ _ => .signBlock chosen)
      (fun _ _ => .signBlock chosen) fun _ => id

theorem act_extraFrame {faults : List Nat} (acted : act env st (.extraFrame faults) = some st') :
    Grows (st.Emits env (.extraFrame faults)) st.log st'.log ∧ st.Ends env (.extraFrame faults) st'.log := by
  simp only [act] at acted
  split at acted
  case h_2 => cases acted
  case h_1 buf slots rest phase =>
    split at acted
    case h_1 => cases acted; exact ⟨.refl, .same⟩
    case h_3 => cases acted; exact ⟨.refl, .same⟩
    case h_2 content after read =>
      obtain ⟨grown, ended⟩ := extraFrame_meets env faults phase read
      split at acted <;> cases acted
      case h_1 ran =>
        rw [ran] at grown ended
        exact ⟨grown, ended⟩
      case h_2 ran =>
        rw [ran] at grown ended
        exact ⟨grown, ended⟩

theorem act_effects {action : Action} (acted : act env st action = some st') :
    Grows (st.Emits env action) st.log st'.log ∧ st.Ends env action st'.log := by
  cases action with
  | start count =>
      simp only [act] at acted
      split at acted <;> cases acted
      exact ⟨.cons .refl .start, .start⟩
  | poll reply count =>
      simp only [act] at acted
      split at acted <;> cases acted
      exact ⟨.refl, .same⟩
  | dumps body =>
      simp only [act] at acted
      split at acted
      case h_1 => cases acted; exact ⟨.refl, .same⟩
      case h_2 => split at acted <;> cases acted <;> exact ⟨.refl, .same⟩
      case h_3 => cases acted
  | frame fetch faults => exact ⟨(act_frame acted).1, (act_frame acted).2.1⟩
  | extraDumps body =>
      simp only [act] at acted
      split at acted
      case h_1 => split at acted <;> cases acted <;> exact ⟨.refl, .same⟩
      case h_2 => cases acted
  | extraFrame faults => exact act_extraFrame acted
  | stop =>
      simp only [act] at acted
      split at acted <;> cases acted
      exact ⟨.refl, .same⟩

theorem step_cases {l : Label} (stepped : step env st l = some st') :
    act env st l.action = some st' ∨
    l.killed ≠ none ∧ ∃ full, act env st l.action = some full ∧ st.log <:+ st'.log ∧ st'.log <:+ full.log ∧
      st'.phase = .down := by
  unfold step at stepped
  split at stepped
  case h_1 full entries acted killed =>
    cases stepped
    exact .inr ⟨by simp [killed], full, acted, suffix_drop (act_effects acted).1.suffix entries,
      List.drop_suffix _ _, rfl⟩
  case h_2 => exact .inl stepped

theorem step_grows {l : Label} (stepped : step env st l = some st') :
    Grows (st.Emits env l.action) st.log st'.log := by
  rcases step_cases stepped with acted | ⟨-, full, acted, later, earlier, -⟩
  · exact (act_effects acted).1
  · exact (act_effects acted).1.cut later earlier

end

end FullnodeClient.Cache
