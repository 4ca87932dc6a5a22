import FullnodeClient.Lib.Log

/-!
# The timer

`Timer` of `task_handlers/utils.cpp`: one caller, and the thread that `run_once` has started. A step is what
happens between two points where one of them waits, for `m_locker`, for the condition or for the end of the
thread. The caller holds `m_locker` while `run_once` joins the thread before, and the thread holds it while
the handler runs; everything else that is done under the lock is one step. How long `wait_for` takes is
left open.
-/

namespace FullnodeClient.Net
open FullnodeClient.Lib

inductive TimerThread (κ : Type)
  | created
  | waiting
  -- `wait_for` is over and has to take the lock again.
  | woken (timeout : Bool)
  | running (handler : κ)
  | ended

inductive TimerCall (κ : Type)
  | start (handler : κ) (run : Bool)
  | stop

inductive Caller (κ : Type)
  | outside
  | starting (handler : κ) (run : Bool)
  -- In `run_once`, which joins the thread before.
  | replacing
  | stopping
  -- In `stop`, which has unlocked and joins the thread.
  | joining

structure Timer (κ : Type) where
  handler : Option κ
  -- `m_stop`.
  stopped : Bool
  -- `m_thr`, if it is joinable.
  thread : Option (TimerThread κ)
  caller : Caller κ
  -- How many threads have been started, and the handlers that have been called, newest first.
  spawned : Nat
  called : List κ

namespace TimerThread

variable {κ : Type}

def isLive : Option (TimerThread κ) → Bool
  | none | some ended => false
  | some _ => true

def isPending : Option (TimerThread κ) → Bool
  | some created | some waiting | some (woken _) => true
  | _ => false

/-- `notify_one`. -/
def notified : TimerThread κ → TimerThread κ
  | waiting => woken false
  | thread => thread

theorem isPending_notified (thread : Option (TimerThread κ)) :
    isPending (thread.map (·.notified)) = isPending thread := by
  cases thread with
  | none => rfl
  | some thread => cases thread <;> rfl

theorem running_of_notified {thread : Option (TimerThread κ)} {handler : κ}
    (running : thread.map (·.notified) = some (.running handler)) : thread = some (.running handler) := by
  cases thread with
  | none => cases running
  | some thread => cases thread <;> first | exact running | cases running

theorem isPending_of_dead {thread : Option (TimerThread κ)} (dead : isLive thread = false) :
    isPending thread = false := by
  cases thread with
  | none => rfl
  | some thread => cases thread <;> first | rfl | cases dead

theorem isPending_or_running {thread : Option (TimerThread κ)} (live : isLive thread = true) :
    isPending thread = true ∨ ∃ handler, thread = some (.running handler) := by
  cases thread with
  | none => cases live
  | some thread =>
      cases thread with
      | created | waiting | woken => exact .inl rfl
      | running handler => exact .inr ⟨handler, rfl⟩
      | ended => cases live

end TimerThread

namespace Timer

variable {κ : Type}

def fresh : Timer κ := ⟨none, true, none, .outside, 0, []⟩

def isLocked (t : Timer κ) : Bool :=
  match t.caller, t.thread with
  | .replacing, _ => true
  | _, some (.running _) => true
  | _, _ => false

def call (t : Timer κ) : TimerCall κ → Option (Timer κ)
  | .start handler run =>
    match t.caller with
    | .outside => some { t with caller := .starting handler run }
    | _ => none
  | .stop =>
    match t.caller with
    | .outside => some { t with caller := .stopping }
    | _ => none

def goOn (t : Timer κ) : Option (Timer κ) :=
  match t.caller with
  | .outside => none
  | .starting handler run =>
    if t.isLocked then none
    else some { t with
      handler := some handler
      stopped := !run
      caller := if run then .replacing else .outside }
  | .replacing =>
    if TimerThread.isLive t.thread then none
    else some { t with thread := some .created, caller := .outside, spawned := t.spawned + 1 }
  | .stopping =>
    if t.isLocked then none
    else if t.stopped then some { t with handler := none, caller := .outside }
    else some { t with stopped := true, thread := t.thread.map (·.notified), caller := .joining }
  | .joining =>
    if TimerThread.isLive t.thread then none
    else some { t with thread := none, handler := none, caller := .outside }

inductive Label (κ : Type)
  | call (call : TimerCall κ)
  | goOn
  | enter
  | wake (timeout : Bool)
  | resume
  -- The handler is done. It may have called `set_callback` with `nullptr`.
  | finish (cleared : Bool)

def resume (t : Timer κ) (timeout : Bool) : Timer κ :=
  if t.stopped then { t with thread := some .ended }
  else if timeout then
    match t.handler with
    | some handler => { t with thread := some (.running handler), called := handler :: t.called }
    | none => { t with stopped := true, thread := some .ended }
  else { t with thread := some .waiting }

def step (t : Timer κ) : Label κ → Option (Timer κ)
  | .call call => t.call call
  | .goOn => t.goOn
  | .enter =>
    match t.thread with
    | some .created => if t.isLocked then none else some { t with thread := some .waiting }
    | _ => none
  | .wake timeout =>
    match t.thread with
    | some .waiting => some { t with thread := some (.woken timeout) }
    | _ => none
  | .resume =>
    match t.thread with
    | some (.woken timeout) => if t.isLocked then none else some (t.resume timeout)
    | _ => none
  | .finish cleared =>
    match t.thread with
    | some (.running _) =>
      some { t with
        stopped := true
        thread := some .ended
        handler := if cleared then none else t.handler }
    | _ => none

inductive Moved : Timer κ → Label κ → Timer κ → Prop
  | callStart {t : Timer κ} (handler : κ) (run : Bool) (outside : t.caller = .outside) :
      Moved t (.call (.start handler run)) { t with caller := .starting handler run }
  | callStop {t : Timer κ} (outside : t.caller = .outside) : Moved t (.call .stop) { t with caller := .stopping }
  | prepared {t : Timer κ} {handler : κ} (here : t.caller = .starting handler true) (free : t.isLocked = false) :
      Moved t .goOn { t with handler := some handler, stopped := false, caller := .replacing }
  | refrained {t : Timer κ} {handler : κ} (here : t.caller = .starting handler false) (free : t.isLocked = false) :
      Moved t .goOn { t with handler := some handler, stopped := true, caller := .outside }
  | spawned {t : Timer κ} (here : t.caller = .replacing) (dead : TimerThread.isLive t.thread = false) :
      Moved t .goOn { t with thread := some .created, caller := .outside, spawned := t.spawned + 1 }
  | stoppedBefore {t : Timer κ} (here : t.caller = .stopping) (free : t.isLocked = false) (stopped : t.stopped = true) :
      Moved t .goOn { t with handler := none, caller := .outside }
  | signalled {t : Timer κ} (here : t.caller = .stopping) (free : t.isLocked = false) (going : t.stopped = false) :
      Moved t .goOn { t with stopped := true, thread := t.thread.map (·.notified), caller := .joining }
  | joined {t : Timer κ} (here : t.caller = .joining) (dead : TimerThread.isLive t.thread = false) :
      Moved t .goOn { t with thread := none, handler := none, caller := .outside }
  | entered {t : Timer κ} (here : t.thread = some .created) (free : t.isLocked = false) :
      Moved t .enter { t with thread := some .waiting }
  | woken {t : Timer κ} (timeout : Bool) (here : t.thread = some .waiting) :
      Moved t (.wake timeout) { t with thread := some (.woken timeout) }
  | resumed {t : Timer κ} (timeout : Bool) (here : t.thread = some (.woken timeout)) (free : t.isLocked = false) :
      Moved t .resume (t.resume timeout)
  | finished {t : Timer κ} {handler : κ} (cleared : Bool) (here : t.thread = some (.running handler)) :
      Moved t (.finish cleared)
        { t with stopped := true, thread := some .ended, handler := if cleared then none else t.handler }

variable {t t' : Timer κ}

theorem goOn_moved (went : t.goOn = some t') : Moved t .goOn t' := by
  unfold goOn at went
  cases here : t.caller with
  | outside => simp [here] at went
  | starting handler run =>
      simp only [here, Option.ite_none_left_eq_some, Bool.not_eq_true, Option.some.injEq] at went
      obtain ⟨free, rfl⟩ := went
      cases run with
      | true => exact .prepared here free
      | false => exact .refrained here free
  | replacing =>
      simp only [here, Option.ite_none_left_eq_some, Bool.not_eq_true, Option.some.injEq] at went
      obtain ⟨dead, rfl⟩ := went
      exact .spawned here dead
  | stopping =>
      simp only [here, Option.ite_none_left_eq_some, Bool.not_eq_true] at went
      obtain ⟨free, went⟩ := went
      cases stopped : t.stopped with
      | true =>
          rw [if_pos stopped] at went
          exact Option.some.inj went ▸ .stoppedBefore here free stopped
      | false =>
          rw [if_neg (by simp [stopped])] at went
          exact Option.some.inj went ▸ .signalled here free stopped
  | joining =>
      simp only [here, Option.ite_none_left_eq_some, Bool.not_eq_true, Option.some.injEq] at went
      obtain ⟨dead, rfl⟩ := went
      exact .joined here dead

theorem call_moved {call : TimerCall κ} (called : t.call call = some t') : Moved t (.call call) t' := by
  cases call with
  | start handler run =>
      unfold Timer.call at called
      dsimp only at called
      split at called <;> cases called
      case h_1 outside => exact .callStart handler run outside
  | stop =>
      unfold Timer.call at called
      dsimp only at called
      split at called <;> cases called
      case h_1 outside => exact .callStop outside

theorem step_moved {label : Label κ} (stepped : t.step label = some t') : Moved t label t' := by
  cases label with
  | call call => exact call_moved stepped
  | goOn => exact goOn_moved stepped
  | enter =>
      simp only [step] at stepped
      split at stepped
      case h_1 here =>
        simp only [Option.ite_none_left_eq_some, Bool.not_eq_true, Option.some.injEq] at stepped
        obtain ⟨free, rfl⟩ := stepped
        exact .entered here free
      case h_2 => cases stepped
  | wake timeout =>
      simp only [step] at stepped
      split at stepped <;> cases stepped
      case h_1 here => exact .woken timeout here
  | resume =>
      simp only [step] at stepped
      split at stepped
      case h_1 timeout here =>
        simp only [Option.ite_none_left_eq_some, Bool.not_eq_true, Option.some.injEq] at stepped
        obtain ⟨free, rfl⟩ := stepped
        exact .resumed timeout here free
      case h_2 => cases stepped
  | finish cleared =>
      simp only [step] at stepped
      split at stepped <;> cases stepped
      case h_1 here => exact .finished cleared here

theorem resume_cases (t : Timer κ) (timeout : Bool) :
    (t.resume timeout = { t with stopped := true, thread := some .ended } ∧ (t.stopped = true ∨ t.handler = none)) ∨
    (t.stopped = false ∧ t.resume timeout = { t with thread := some .waiting }) ∨
    (∃ handler, t.stopped = false ∧ timeout = true ∧ t.handler = some handler ∧
      t.resume timeout = { t with thread := some (.running handler), called := handler :: t.called }) := by
  unfold resume
  cases stopped : t.stopped with
  | true => exact .inl ⟨by simp, .inl rfl⟩
  | false =>
      cases timeout with
      | false => exact .inr (.inl ⟨rfl, rfl⟩)
      | true =>
          cases set : t.handler with
          | none => exact .inl ⟨rfl, .inr rfl⟩
          | some handler => exact .inr (.inr ⟨handler, rfl, rfl, rfl, rfl⟩)

theorem isLocked_eq_false (free : t.isLocked = false) :
    t.caller ≠ .replacing ∧ ∀ handler, t.thread ≠ some (.running handler) := by
  unfold isLocked at free
  split at free
  · cases free
  · cases free
  case h_3 outside quiet =>
    exact ⟨outside, fun handler running => quiet handler running⟩

theorem isLocked_of_not (outside : t.caller ≠ .replacing) (idle : ∀ handler, t.thread ≠ some (.running handler)) :
    t.isLocked = false := by
  unfold isLocked
  split
  case h_1 => exact absurd ‹_› outside
  case h_2 => exact absurd ‹_› (idle _)
  case h_3 => rfl

theorem isLocked_of_replacing (inside : t.caller = .replacing) : t.isLocked = true := by
  simp [isLocked, inside]

theorem goOn_of_starting {handler : κ} (here : t.caller = .starting handler true) (free : t.isLocked = false) :
    t.goOn = some { t with handler := some handler, stopped := false, caller := .replacing } := by
  simp [goOn, here, free]

theorem goOn_of_replacing (here : t.caller = .replacing) (dead : TimerThread.isLive t.thread = false) :
    t.goOn = some { t with thread := some .created, caller := .outside, spawned := t.spawned + 1 } := by
  simp [goOn, here, dead]

theorem goOn_of_stopping (here : t.caller = .stopping) (free : t.isLocked = false) (going : t.stopped = false) :
    t.goOn = some { t with stopped := true, thread := t.thread.map (·.notified), caller := .joining } := by
  simp [goOn, here, free, going]

theorem goOn_of_stopped (here : t.caller = .stopping) (free : t.isLocked = false) (stopped : t.stopped = true) :
    t.goOn = some { t with handler := none, caller := .outside } := by
  simp [goOn, here, free, stopped]

theorem goOn_of_joining (here : t.caller = .joining) (dead : TimerThread.isLive t.thread = false) :
    t.goOn = some { t with thread := none, handler := none, caller := .outside } := by
  simp [goOn, here, dead]

/-! ## The invariant -/

structure Sound (t : Timer κ) : Prop where
  running : ∀ handler, t.thread = some (.running handler) → t.stopped = false ∧ t.caller ≠ .replacing
  joining : t.caller = .joining → t.stopped = true
  replacing : t.caller = .replacing → t.stopped = false
  dead : TimerThread.isLive t.thread = false → t.caller = .replacing ∨ t.stopped = true
  counted : t.called.length + (TimerThread.isPending t.thread).toNat ≤ t.spawned

theorem Sound.fresh : (fresh : Timer κ).Sound := by
  refine ⟨?_, ?_, ?_, ?_, ?_⟩ <;> simp [Timer.fresh, TimerThread.isPending]

theorem Sound.resume {timeout : Bool} (sound : t.Sound) (here : t.thread = some (.woken timeout))
    (free : t.isLocked = false) : (t.resume timeout).Sound := by
  obtain ⟨unlocked, -⟩ := isLocked_eq_false free
  have counted : t.called.length + 1 ≤ t.spawned := by
    simpa [here, TimerThread.isPending] using sound.counted
  rcases resume_cases t timeout with ⟨eq, -⟩ | ⟨going, eq⟩ | ⟨handler, going, -, -, eq⟩
  · rw [eq]
    exact ⟨nofun, fun _ => rfl, fun inside => absurd inside unlocked, fun _ => .inr rfl, Nat.le_of_succ_le counted⟩
  · rw [eq]
    exact ⟨nofun, sound.joining, sound.replacing, nofun, counted⟩
  · rw [eq]
    exact ⟨fun _ _ => ⟨going, unlocked⟩, sound.joining, sound.replacing, nofun, counted⟩

theorem Sound.step {label : Label κ} (sound : t.Sound) (stepped : t.step label = some t') : t'.Sound := by
  obtain ⟨running, joining, replacing, dead, counted⟩ := sound
  cases step_moved stepped with
  | callStart handler run outside =>
      refine ⟨fun h inside => ⟨(running h inside).1, nofun⟩, nofun, nofun, fun gone => .inr ?_, counted⟩
      exact (dead gone).resolve_left (by simp [outside])
  | callStop outside =>
      refine ⟨fun h inside => ⟨(running h inside).1, nofun⟩, nofun, nofun, fun gone => .inr ?_, counted⟩
      exact (dead gone).resolve_left (by simp [outside])
  | prepared here free =>
      have idle := (isLocked_eq_false free).2
      exact ⟨fun h inside => absurd inside (idle h), nofun, fun _ => rfl, fun _ => .inl rfl, counted⟩
  | refrained here free =>
      have idle := (isLocked_eq_false free).2
      exact ⟨fun h inside => absurd inside (idle h), nofun, nofun, fun _ => .inr rfl, counted⟩
  | spawned here gone =>
      rw [TimerThread.isPending_of_dead gone] at counted
      exact ⟨nofun, nofun, nofun, nofun, Nat.succ_le_succ counted⟩
  | stoppedBefore here free stopped =>
      have idle := (isLocked_eq_false free).2
      exact ⟨fun h inside => absurd inside (idle h), nofun, nofun, fun _ => .inr stopped, counted⟩
  | signalled here free going =>
      have idle := (isLocked_eq_false free).2
      refine ⟨fun h inside => ?_, fun _ => rfl, nofun, fun _ => .inr rfl, ?_⟩
      · exact absurd (TimerThread.running_of_notified inside) (idle h)
      · rw [TimerThread.isPending_notified]
        exact counted
  | joined here gone =>
      have stopped := joining here
      exact ⟨nofun, nofun, nofun, fun _ => .inr stopped, Nat.le_of_add_right_le counted⟩
  | entered here free =>
      rw [here] at counted
      exact ⟨nofun, joining, replacing, nofun, counted⟩
  | woken timeout here =>
      rw [here] at counted
      exact ⟨nofun, joining, replacing, nofun, counted⟩
  | resumed timeout here free => exact Sound.resume ⟨running, joining, replacing, dead, counted⟩ here free
  | finished cleared here =>
      have unlocked := (running _ here).2
      rw [here] at counted
      exact ⟨nofun, fun _ => rfl, fun inside => absurd inside unlocked, fun _ => .inr rfl, counted⟩

theorem Sound.reached {allowed : Timer κ → Label κ → Prop} (reached : Reached Timer.step allowed .fresh t) : t.Sound := by
  induction reached with
  | start => exact .fresh
  | step _ _ stepped ih => exact ih.step stepped

def StartsNothing (_ : Timer κ) : Label κ → Prop
  | .call (.start _ true) => False
  | _ => True

structure Silent (t : Timer κ) : Prop where
  stopped : t.stopped = true
  idle : ∀ handler, t.thread ≠ some (.running handler)
  caller : t.caller ≠ .replacing ∧ ∀ handler, t.caller ≠ .starting handler true

theorem Silent.step {label : Label κ} (silent : t.Silent) (permitted : StartsNothing t label)
    (stepped : t.step label = some t') : t'.Silent ∧ t'.called = t.called := by
  obtain ⟨stopped, idle, outside, noStart⟩ := silent
  cases step_moved stepped with
  | callStart handler run =>
      cases run with
      | true => exact permitted.elim
      | false => exact ⟨⟨stopped, idle, nofun, nofun⟩, rfl⟩
  | callStop => exact ⟨⟨stopped, idle, nofun, nofun⟩, rfl⟩
  | prepared here => exact absurd here (noStart _)
  | spawned here => exact absurd here outside
  | refrained | stoppedBefore => exact ⟨⟨by first | rfl | assumption, idle, nofun, nofun⟩, rfl⟩
  | signalled here free going => simp [stopped] at going
  | joined => exact ⟨⟨stopped, nofun, nofun, nofun⟩, rfl⟩
  | entered | woken => exact ⟨⟨stopped, nofun, outside, noStart⟩, rfl⟩
  | resumed timeout here free =>
      rcases resume_cases t timeout with ⟨eq, -⟩ | ⟨going, -⟩ | ⟨handler, going, -⟩
      · rw [eq]
        exact ⟨⟨rfl, nofun, outside, noStart⟩, rfl⟩
      · simp [stopped] at going
      · simp [stopped] at going
  | finished cleared here => exact absurd here (idle _)

theorem Silent.reached (silent : t.Silent) (later : Reached Timer.step StartsNothing t t') :
    t'.Silent ∧ t'.called = t.called := by
  induction later with
  | start => exact ⟨silent, rfl⟩
  | step _ permitted stepped ih =>
      obtain ⟨silent, same⟩ := ih.1.step permitted stepped
      exact ⟨silent, same.trans ih.2⟩

theorem Sound.silent_of_returned (sound : t.Sound) (inside : t.caller = .stopping ∨ t.caller = .joining)
    (went : t.goOn = some t') (returned : t'.caller = .outside) : t'.Silent := by
  cases goOn_moved went with
  | prepared here | refrained here | spawned here => rcases inside with inside | inside <;> simp [inside] at here
  | stoppedBefore here free stopped => exact ⟨stopped, (isLocked_eq_false free).2, nofun, nofun⟩
  | signalled => cases returned
  | joined here => exact ⟨sound.joining here, nofun, nofun, nofun⟩

theorem stopped_timer_silent (t stopping stopped later : Timer κ)
    (reached : Reached Timer.step (fun _ _ => True) fresh t)
    (before : Reached Timer.step (fun _ _ => True) fresh stopping)
    (inside : stopping.caller = .stopping ∨ stopping.caller = .joining) (went : stopping.goOn = some stopped)
    (returned : stopped.caller = .outside) (after : Reached Timer.step StartsNothing stopped later) :
    t.called.length ≤ t.spawned ∧ later.called = stopped.called := by
  have counted := (Sound.reached reached).counted
  have silent := (Sound.reached before).silent_of_returned inside went returned
  exact ⟨Nat.le_of_add_right_le counted, (silent.reached after).2⟩

namespace Sample

def started : List (Label Nat) := [.call (.start 7 true), .goOn, .goOn]

-- The thread has not come to its wait when `stop` notifies it, and waits for the whole interval.
def joining : List (Label Nat) := started ++ [.call .stop, .goOn, .enter, .wake true, .resume]

def joined : Timer Nat := ⟨some 7, true, some .ended, .joining, 1, []⟩

def silent : Timer Nat := ⟨none, true, none, .outside, 1, []⟩

end Sample

theorem stopped_timer_silent_after_join :
    ∃ later, Reached Timer.step (fun _ _ => True) fresh Sample.joined ∧ Sample.joined.goOn = some Sample.silent ∧
      Reached Timer.step StartsNothing Sample.silent later ∧ later.caller = .starting 8 false ∧
      later.called = Sample.silent.called := by
  have ran : runAllowed Timer.step (fun _ _ => True) fresh Sample.joining = some Sample.joined := rfl
  have before := Reached.run .start ran
  have asked : Sample.silent.step (.call (.start 8 false)) = some _ := rfl
  have permitted : Sample.silent.StartsNothing (.call (.start 8 false)) := trivial
  have after : Reached Timer.step StartsNothing Sample.silent _ := .step .start permitted asked
  exact ⟨_, before, rfl, after, rfl, (stopped_timer_silent _ _ _ _ before before (.inr rfl) rfl rfl after).2⟩

/-! ## Who waits for whom -/

structure Stuck (t : Timer κ) : Prop where
  caller : t.caller = .replacing
  thread : TimerThread.isPending t.thread = true

theorem Stuck.step {label : Label κ} (stuck : t.Stuck) (stepped : t.step label = some t') : t'.Stuck := by
  obtain ⟨inside, live⟩ := stuck
  have locked := isLocked_of_replacing inside
  cases step_moved stepped with
  | callStart handler run here | callStop here | refrained here | prepared here | stoppedBefore here
  | signalled here | joined here => simp [inside] at here
  | spawned here dead => simp [TimerThread.isPending_of_dead dead] at live
  | entered here free | resumed timeout here free => simp [locked] at free
  | woken timeout here => exact ⟨inside, rfl⟩
  | finished cleared here => simp [here, TimerThread.isPending] at live

theorem Stuck.reached (stuck : t.Stuck) (later : Reached Timer.step (fun _ _ => True) t t') : t'.Stuck := by
  induction later with
  | start => exact stuck
  | step _ _ stepped ih => exact ih.step stepped

theorem start_returns_iff (t : Timer κ) (reached : Reached Timer.step (fun _ _ => True) fresh t)
    (inside : t.caller = .replacing) :
    (∃ t', Reached Timer.step (fun _ _ => True) t t' ∧ t'.caller = .outside) ↔
      TimerThread.isLive t.thread = false := by
  constructor
  · rintro ⟨t', later, outside⟩
    by_contra live
    rw [Bool.not_eq_false] at live
    rcases TimerThread.isPending_or_running live with pending | ⟨handler, running⟩
    · have inside' := (Stuck.reached ⟨inside, pending⟩ later).caller
      rw [outside] at inside'
      cases inside'
    · exact absurd inside ((Sound.reached reached).running handler running).2
  · intro dead
    have went : t.step .goOn = some _ := goOn_of_replacing inside dead
    exact ⟨_, .step .start trivial went, rfl⟩

theorem start_blocks_on_running_thread :
    ∃ t : Timer Nat, Reached Timer.step (fun _ _ => True) fresh t ∧
      ¬∃ t', Reached Timer.step (fun _ _ => True) t t' ∧ t'.caller = .outside := by
  have ran : runAllowed Timer.step (fun _ _ => True) fresh (Sample.started ++ [.call (.start 8 true), .goOn]) =
      some _ := rfl
  have reached := Reached.run .start ran
  exact ⟨_, reached, fun returns => nomatch (start_returns_iff _ reached rfl).mp returns⟩

end Timer

end FullnodeClient.Net
