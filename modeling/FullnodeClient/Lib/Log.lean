import Mathlib.Tactic

/-!
# Programs that append to a log

A log is a list of entries, newest first, so that its suffixes are the logs of earlier moments. A
program reads the log, attempts entries that may be refused, notes entries that may not, and can
throw. `Meets` says what a program appends, entry by entry, and what it leaves behind.
-/

namespace FullnodeClient.Lib

variable {ε α β : Type}

/-- `finish` is `start` with entries appended that `emits` admits, each at the log before it. -/
inductive Grows (emits : List ε → ε → Prop) (start : List ε) : List ε → Prop
  | refl : Grows emits start start
  | cons {past : List ε} {entry : ε} :
      Grows emits start past → emits past entry → Grows emits start (entry :: past)

namespace Grows

variable {emits emits' : List ε → ε → Prop} {start mid finish : List ε}

theorem trans (first : Grows emits start mid) (second : Grows emits mid finish) :
    Grows emits start finish := by
  induction second with
  | refl => exact first
  | cons _ emitted ih => exact .cons ih emitted

theorem suffix (grown : Grows emits start finish) : start <:+ finish := by
  induction grown with
  | refl => exact List.suffix_refl _
  | cons _ _ ih => exact ih.trans (List.suffix_cons _ _)

theorem mono (grown : Grows emits start finish)
    (weaker : ∀ past entry, start <:+ past → emits past entry → emits' past entry) :
    Grows emits' start finish := by
  induction grown with
  | refl => exact .refl
  | cons before emitted ih => exact .cons ih (weaker _ _ before.suffix emitted)

theorem cut (grown : Grows emits start finish) (later : start <:+ mid) (earlier : mid <:+ finish) :
    Grows emits start mid := by
  induction grown with
  | refl =>
      have same : start = mid := later.eq_of_length_le earlier.length_le
      exact same ▸ .refl
  | cons before emitted ih =>
      rcases List.suffix_cons_iff.mp earlier with same | before'
      · exact same ▸ .cons before emitted
      · exact ih before'

theorem always {P : List ε → Prop} (grown : Grows emits start finish) (base : P start)
    (entry : ∀ past entry, start <:+ past → emits past entry → P past → P (entry :: past)) : P finish := by
  induction grown with
  | refl => exact base
  | cons before emitted ih => exact entry _ _ before.suffix emitted ih

end Grows

theorem suffix_drop {start finish : List ε} (grown : start <:+ finish) (entries : Nat) :
    start <:+ finish.drop (finish.length - (start.length + entries)) := by
  refine List.suffix_of_suffix_length_le grown (List.drop_suffix _ _) ?_
  have := grown.length_le
  rw [List.length_drop]
  omega

/-! ## Programs -/

theorem bind_eq_ok {thrown : Type} {x : Except thrown α} {f : α → Except thrown β} {r : β} :
    x >>= f = .ok r ↔ ∃ a, x = .ok a ∧ f a = .ok r := by
  cases x <;> simp [bind, Except.bind]

structure Disk (ε : Type) where
  log : List ε
  attempts : Nat

/-- The environment says for each attempt whether it succeeds. -/
abbrev LogM (ε : Type) := ReaderT (Nat → Bool) (ExceptT Unit (StateM (Disk ε)))

namespace LogM

def runOn (program : LogM ε α) (succeeds : Nat → Bool) (disk : Disk ε) : Except Unit α × Disk ε :=
  ((program.run succeeds).run).run disk

def look : LogM ε (List ε) := fun _ => ExceptT.mk fun disk => (.ok disk.log, disk)

def note (entry : ε) : LogM ε Unit := fun _ => ExceptT.mk fun disk =>
  (.ok (), ⟨entry :: disk.log, disk.attempts⟩)

def attempt (entry : ε) : LogM ε Bool := fun succeeds => ExceptT.mk fun disk =>
  if succeeds disk.attempts then (.ok true, ⟨entry :: disk.log, disk.attempts + 1⟩)
  else (.ok false, ⟨disk.log, disk.attempts + 1⟩)

theorem runOn_bind (program : LogM ε α) (next : α → LogM ε β) (succeeds : Nat → Bool) (disk : Disk ε) :
    (program >>= next).runOn succeeds disk =
      match program.runOn succeeds disk with
      | (.ok a, after) => (next a).runOn succeeds after
      | (.error e, after) => (.error e, after) := by
  simp only [runOn, ReaderT.run_bind, ExceptT.run_bind, StateT.run_bind]
  rcases ((program.run succeeds).run).run disk with ⟨result, after⟩
  cases result <;> rfl

theorem runOn_look (succeeds : Nat → Bool) (disk : Disk ε) : look.runOn succeeds disk = (.ok disk.log, disk) := rfl

theorem runOn_note (entry : ε) (succeeds : Nat → Bool) (disk : Disk ε) :
    (note entry).runOn succeeds disk = (.ok (), ⟨entry :: disk.log, disk.attempts⟩) := rfl

theorem runOn_attempt (entry : ε) (succeeds : Nat → Bool) (disk : Disk ε) :
    (attempt entry).runOn succeeds disk =
      if succeeds disk.attempts then (.ok true, ⟨entry :: disk.log, disk.attempts + 1⟩)
      else (.ok false, ⟨disk.log, disk.attempts + 1⟩) := rfl

/-- Run from `disk`, the program appends what `emits` admits; it ends with a value and a disk that
satisfy `done`, or throws and leaves a disk that satisfies `thrown`. -/
def Meets (emits : List ε → ε → Prop) (succeeds : Nat → Bool) (program : LogM ε α) (disk : Disk ε)
    (done : α → Disk ε → Prop) (thrown : Disk ε → Prop) : Prop :=
  Grows emits disk.log (program.runOn succeeds disk).2.log ∧
    match program.runOn succeeds disk with
    | (.ok a, after) => done a after
    | (.error _, after) => thrown after

namespace Meets

variable {emits : List ε → ε → Prop} {succeeds : Nat → Bool} {disk : Disk ε} {done : α → Disk ε → Prop}
  {thrown : Disk ε → Prop}

theorem pure {a : α} (h : done a disk) : Meets emits succeeds (Pure.pure a) disk done thrown := ⟨.refl, h⟩

theorem throw (h : thrown disk) : Meets emits succeeds (MonadExcept.throw () : LogM ε α) disk done thrown :=
  ⟨.refl, h⟩

theorem bind {program : LogM ε α} {next : α → LogM ε β} {done : β → Disk ε → Prop}
    (h : Meets emits succeeds program disk (fun a after => Meets emits succeeds (next a) after done thrown) thrown) :
    Meets emits succeeds (program >>= next) disk done thrown := by
  obtain ⟨grown, rest⟩ := h
  unfold Meets
  rw [runOn_bind]
  rcases ran : program.runOn succeeds disk with ⟨result, after⟩
  rw [ran] at grown rest
  cases result with
  | error e => exact ⟨grown, rest⟩
  | ok a => exact ⟨grown.trans rest.1, rest.2⟩

theorem mono {program : LogM ε α} {emits' : List ε → ε → Prop} {done' : α → Disk ε → Prop} {thrown' : Disk ε → Prop}
    (h : Meets emits' succeeds program disk done' thrown') (emitted : ∀ u e, emits' u e → emits u e)
    (ends : ∀ a after, done' a after → done a after) (throws : ∀ after, thrown' after → thrown after) :
    Meets emits succeeds program disk done thrown := by
  refine ⟨h.1.mono fun u e _ => emitted u e, ?_⟩
  have ended := h.2
  split at ended
  case h_1 => exact ends _ _ ended
  case h_2 => exact throws _ ended

theorem weaken {program : LogM ε α} {done' : α → Disk ε → Prop}
    (h : Meets emits succeeds program disk done' thrown) (weaker : ∀ a after, done' a after → done a after) :
    Meets emits succeeds program disk done thrown :=
  h.mono (fun _ _ => id) weaker fun _ => id

theorem look {done : List ε → Disk ε → Prop} (h : done disk.log disk) :
    Meets emits succeeds LogM.look disk done thrown := ⟨.refl, h⟩

theorem note {entry : ε} {done : Unit → Disk ε → Prop} (emitted : emits disk.log entry)
    (h : done () ⟨entry :: disk.log, disk.attempts⟩) :
    Meets emits succeeds (LogM.note entry) disk done thrown := ⟨.cons .refl emitted, h⟩

theorem attempt {entry : ε} {done : Bool → Disk ε → Prop} (emitted : emits disk.log entry)
    (succeeded : done true ⟨entry :: disk.log, disk.attempts + 1⟩)
    (failed : succeeds disk.attempts = false → done false ⟨disk.log, disk.attempts + 1⟩) :
    Meets emits succeeds (LogM.attempt entry) disk done thrown := by
  unfold Meets
  rw [runOn_attempt]
  cases outcome : succeeds disk.attempts with
  | true => exact ⟨.cons .refl emitted, succeeded⟩
  | false => exact ⟨.refl, failed outcome⟩

end Meets

end LogM

/-! ## Runs -/

section Runs

variable {σ label : Type} {step : σ → label → Option σ} {allowed : σ → label → Prop} {initial : σ}

inductive Reached (step : σ → label → Option σ) (allowed : σ → label → Prop) (initial : σ) : σ → Prop
  | start : Reached step allowed initial initial
  | step {s s' : σ} {l : label} : Reached step allowed initial s → allowed s l → step s l = some s' →
      Reached step allowed initial s'

/-- An invariant of the states and a property of every moment of their logs, proved together: an entry
keeps the property if it held at all moments before, and a step keeps the invariant if the property
holds at all moments up to its end. -/
theorem Reached.moments (log : σ → List ε) (emits : σ → label → List ε → ε → Prop) (I : σ → Prop)
    (P : List ε → Prop) (start : I initial ∧ ∀ moment, moment <:+ log initial → P moment)
    (grows : ∀ s l s', step s l = some s' → Grows (emits s l) (log s) (log s'))
    (entry : ∀ s l past entry, I s → allowed s l → log s <:+ past → emits s l past entry →
      (∀ moment, moment <:+ past → P moment) → P (entry :: past))
    (keeps : ∀ s l s', I s → allowed s l → step s l = some s' →
      (∀ moment, moment <:+ log s' → P moment) → I s')
    {s : σ} (reached : Reached step allowed initial s) :
    I s ∧ ∀ moment, moment <:+ log s → P moment := by
  induction reached with
  | start => exact start
  | @step s s' l _ permitted stepped ih =>
      obtain ⟨invariant, held⟩ := ih
      have all : ∀ moment, moment <:+ log s' → P moment := by
        refine (grows s l s' stepped).always (P := fun past => ∀ moment, moment <:+ past → P moment) held ?_
        intro past e later emitted before moment inside
        rcases List.suffix_cons_iff.mp inside with rfl | inside
        · exact entry s l past e invariant permitted later emitted before
        · exact before moment inside
      exact ⟨keeps s l s' invariant permitted stepped all, all⟩

theorem Reached.trans {a b c : σ} (first : Reached step allowed a b) (second : Reached step allowed b c) :
    Reached step allowed a c := by
  induction second with
  | start => exact first
  | step _ permitted stepped ih => exact .step ih permitted stepped

theorem Reached.simulate {τ label' : Type} {step' : τ → label' → Option τ} {allowed' : τ → label' → Prop}
    (view : σ → τ) (simulates : ∀ s l s', step s l = some s' → Reached step' allowed' (view s) (view s'))
    {s : σ} (reached : Reached step allowed initial s) : Reached step' allowed' (view initial) (view s) := by
  induction reached with
  | start => exact .start
  | step _ _ stepped ih => exact ih.trans (simulates _ _ _ stepped)

def runAllowed (step : σ → label → Option σ) (allowed : σ → label → Prop) [∀ s l, Decidable (allowed s l)]
    (s : σ) : List label → Option σ
  | [] => some s
  | l :: labels => if allowed s l then (step s l).bind (runAllowed step allowed · labels) else none

theorem Reached.run [∀ s l, Decidable (allowed s l)] {s s' : σ} {labels : List label}
    (reached : Reached step allowed initial s) (ran : runAllowed step allowed s labels = some s') :
    Reached step allowed initial s' := by
  induction labels generalizing s with
  | nil => exact Option.some.inj ran ▸ reached
  | cons l labels ih =>
      simp only [runAllowed] at ran
      split at ran
      case isTrue permitted =>
        obtain ⟨next, stepped, rest⟩ := Option.bind_eq_some_iff.mp ran
        exact ih (.step reached permitted stepped) rest
      case isFalse => cases ran

theorem length_le_of_decreases [∀ s l, Decidable (allowed s l)] (measure : σ → Nat)
    (decreases : ∀ s l s', step s l = some s' → measure s' < measure s) {s s' : σ} {labels : List label}
    (ran : runAllowed step allowed s labels = some s') : labels.length + measure s' ≤ measure s := by
  induction labels generalizing s with
  | nil =>
      cases Option.some.inj ran
      exact (Nat.zero_add _).le
  | cons l labels ih =>
      simp only [runAllowed, Option.ite_none_right_eq_some] at ran
      obtain ⟨next, stepped, rest⟩ := Option.bind_eq_some_iff.mp ran.2
      have := ih rest
      have := decreases s l next stepped
      simp only [List.length_cons]
      omega

theorem foldl_elim {γ : Type} (sets : label → Option γ) (value : γ → σ) (labels : List label) (s : σ) :
    labels.foldl (fun s l => (sets l).elim s value) s = (labels.filterMap sets).getLast?.elim s value := by
  induction labels using List.reverseRecOn with
  | nil => rfl
  | append_singleton labels l ih =>
      rw [List.foldl_concat, ih, List.filterMap_append]
      cases set : sets l <;> simp [set]

theorem elim_getLast_of_forall {γ : Type} {sets : label → Option γ} {value : γ → σ} {labels : List label} {P : σ → Prop}
    {s : σ} (start : P s) (step : ∀ l ∈ labels, ∀ c, sets l = some c → P (value c)) :
    P ((labels.filterMap sets).getLast?.elim s value) := by
  cases last : (labels.filterMap sets).getLast? with
  | none => exact start
  | some c =>
      obtain ⟨l, inside, set⟩ := List.mem_filterMap.mp (List.mem_of_getLast? last)
      exact step l inside c set

end Runs

end FullnodeClient.Lib
