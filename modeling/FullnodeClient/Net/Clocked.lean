import FullnodeClient.Net.Callback
import FullnodeClient.Net.Timer
import FullnodeClient.Net.Tls

/-!
# Requests and their timer

A request with the `Timer` it owns in place of the `timer` of its state, which is what the request asked for
last and has not been told about. A step of the request that calls `start` or `stop` happens when the call
returns, and `on_timeout` runs in the thread of the timer.
-/

namespace FullnodeClient.Net
open FullnodeClient.Lib FullnodeClient.Text FullnodeClient.Rpc

namespace State

def timerCall (client : Client) (s : State) : Label → Option (TimerCall Timeout)
  | .execute _ pooled => if pooled then some (.start .request true) else none
  | .advance pooled =>
    match s.thread with
    | .entered _ op _ => if op = .connect ∨ op = .read then some .stop else none
    | .failing _ _ _ _ => some .stop
    | .closing _ _ _ _ => if s.attempt < client.attemptsCount ∧ pooled then some (.start .request true) else none
    | .passed _ .resolve _ => some (.start .connection true)
    | .passed _ .connect _ => some (.start .request true)
    | _ => none
  | _ => none

def asked (timer : Option Timeout) : Option (TimerCall Timeout) → Option Timeout
  | none => timer
  | some .stop => none
  | some (.start timeout _) => some timeout

variable {client : Client} {s t : State}

theorem advance_timer {pooled : Bool} (advanced : s.advance client pooled = some t) :
    t.timer = asked s.timer (s.timerCall client (.advance pooled)) := by
  unfold State.advance at advanced
  unfold timerCall
  cases here : s.thread with
  | idle => simp [here] at advanced
  | entered call op outcome =>
      simp only [here, Option.some.injEq] at advanced
      subst advanced
      dsimp only
      split <;> rfl
  | checking call op outcome =>
      simp only [here, Option.some.injEq, errorHandler] at advanced
      subst advanced
      split
      · split <;> rfl
      · split
        · rfl
        · split <;> rfl
  | failing call op code message | starting call op | calling call =>
      simp only [here, Option.some.injEq] at advanced
      subst advanced
      rfl
  | closing call op code message =>
      simp only [here] at advanced
      split at advanced
      case isTrue more =>
        cases Option.some.inj advanced
        cases pooled <;> simp [attemptOnce, asked, more]
      case isFalse last =>
        cases Option.some.inj advanced
        simp only [last, false_and, if_false, asked, callBack]
        split <;> rfl
  | passed call op response =>
      simp only [here] at advanced
      cases op with
      | read =>
          cases Option.some.inj advanced
          simp only [asked, callBack]
          split <;> rfl
      | _ =>
          cases Option.some.inj advanced
          rfl

theorem execute_timer (client : Client) (callback pooled : Bool) (s : State) :
    (s.execute client callback pooled).timer = asked s.timer (s.timerCall client (.execute callback pooled)) := by
  cases pooled <;> rfl

theorem throwException_timer {message : Bytes} {response : Response}
    (threw : s.throwException client message response = some t) : t.timer = s.timer := by
  unfold State.throwException at threw
  cases here : s.thread with
  | idle | checking call op outcome => simp [here] at threw
  | _ =>
      simp only [here, Option.some.injEq] at threw
      subst threw
      rfl

theorem requestStep_timer {label : Label} (inner : label ≠ .expire)
    (stepped : Tls.requestStep client s label = some t) : t.timer = asked s.timer (s.timerCall client label) := by
  cases label with
  | resetAttempts =>
      simp only [Tls.requestStep, Option.ite_none_right_eq_some, Option.some.injEq] at stepped
      exact stepped.2 ▸ rfl
  | execute callback pooled =>
      simp only [Tls.requestStep, Option.ite_none_right_eq_some, Option.some.injEq] at stepped
      exact stepped.2 ▸ execute_timer client callback pooled s
  | leave =>
      simp only [Tls.requestStep, State.step, Option.ite_none_right_eq_some, Option.some.injEq] at stepped
      exact stepped.2 ▸ rfl
  | complete i outcome =>
      simp only [Tls.requestStep, State.step, Option.ite_none_right_eq_some, Option.map_eq_some_iff] at stepped
      obtain ⟨-, entry, -, rfl⟩ := stepped
      rfl
  | advance pooled => exact advance_timer stepped
  | expire => exact absurd rfl inner
  | throw message response => exact throwException_timer stepped

def ReadyAt (s : State) : Thread → Prop
  | .idle => ∀ entry ∈ s.ops, entry.2 = .resolve → s.timer = none
  | .entered _ op _ | .starting _ op => op = .resolve → s.timer = none
  | .checking _ op _ | .passed _ op _ | .failing _ op _ _ => op = .resolve ∨ op = .connect → s.timer = none
  | .closing _ _ _ _ => s.timer = none
  | .calling _ => True

structure Ready (s : State) : Prop where
  alone : s.thread ≠ .idle → s.ops = []
  few : s.ops.length ≤ 1
  unset : s.ReadyAt s.thread

theorem Ready.of_quiet (idle : t.thread = .idle) (ops : t.ops = []) : t.Ready :=
  ⟨fun busy => absurd idle busy, by simp [ops], by simp [idle, ReadyAt, ops]⟩

theorem Ready.of_alone (ops : t.ops = []) (unset : t.ReadyAt t.thread) : t.Ready := ⟨fun _ => ops, by simp [ops], unset⟩

theorem Ready.callBack (ops : s.ops = []) (call : Nat) : (s.callBack client call).Ready := by
  unfold State.callBack
  split
  · exact .of_alone ops trivial
  · exact .of_quiet rfl ops

theorem Ready.advance {pooled : Bool} (ready : s.Ready) (advanced : s.advance client pooled = some t) : t.Ready := by
  have busy : s.thread ≠ .idle := (advance_frame advanced).1
  have ops := ready.alone busy
  have unset := ready.unset
  unfold State.advance at advanced
  cases here : s.thread with
  | idle => exact absurd here busy
  | entered call op outcome =>
      simp only [here, Option.some.injEq] at advanced unset
      subst advanced
      refine .of_alone ops fun first => ?_
      rcases first with rfl | rfl
      · exact unset rfl
      · rfl
  | checking call op outcome =>
      simp only [here, Option.some.injEq, errorHandler] at advanced unset
      subst advanced
      split
      · split <;> exact .of_alone ops unset
      · split
        · exact .of_quiet rfl ops
        · split <;> exact .of_alone ops unset
  | failing call op code message =>
      simp only [here, Option.some.injEq] at advanced
      subst advanced
      exact .of_alone ops rfl
  | closing call op code message =>
      simp only [here] at advanced unset
      split at advanced <;> cases Option.some.inj advanced
      · cases pooled with
        | true => exact .of_alone ops fun resolve => by cases resolve
        | false => exact .of_alone ops fun _ => unset
      · refine .callBack ?_ call
        exact ops
  | passed call op response =>
      simp only [here] at advanced
      cases op with
      | read =>
          cases Option.some.inj advanced
          refine .callBack ?_ call
          exact ops
      | connect =>
          cases Option.some.inj advanced
          refine .of_alone ops fun resolve => ?_
          split at resolve <;> cases resolve
      | resolve | handshake | write =>
          cases Option.some.inj advanced
          exact .of_alone ops fun resolve => by cases resolve
  | starting call op =>
      simp only [here, Option.some.injEq] at advanced unset
      subst advanced
      refine ⟨fun busy => absurd rfl busy, by simp [ops], fun entry inside resolve => ?_⟩
      simp only [ops, List.nil_append, List.mem_singleton] at inside
      exact unset (by rw [inside] at resolve; exact resolve)
  | calling call =>
      simp only [here, Option.some.injEq] at advanced
      subst advanced
      exact .of_quiet rfl ops

theorem Ready.throwException {message : Bytes} {response : Response} (ready : s.Ready)
    (threw : s.throwException client message response = some t) : t.Ready := by
  have unset := ready.unset
  have alone := ready.alone
  unfold State.throwException at threw
  cases here : s.thread with
  | idle | checking call op outcome => simp [here] at threw
  | entered call op outcome | passed call op response | starting call op | calling call =>
      simp only [here, Option.some.injEq] at threw
      subst threw
      exact .of_quiet rfl (alone (by simp [here]))
  | failing call op code text =>
      simp only [here, Option.some.injEq] at threw unset
      subst threw
      exact .of_alone (alone (by simp [here])) unset
  | closing call op code text =>
      simp only [here, Option.some.injEq] at threw unset
      subst threw
      exact .of_alone (alone (by simp [here])) fun _ => unset

theorem Ready.onTimeout (ready : s.Ready) (timeout : Timeout) : (s.onTimeout client timeout).Ready := by
  obtain ⟨thread, ops, -, timer⟩ := onTimeout_frame client timeout s
  refine ⟨by rw [thread, ops]; exact ready.alone, by rw [ops]; exact ready.few, ?_⟩
  cases (s.onTimeout client timeout).thread with
  | calling => trivial
  | closing => exact timer
  | idle => exact fun _ _ _ => timer
  | _ => exact fun _ => timer

theorem Ready.execute (quiet : s.ops = []) (unset : s.timer = none) (callback pooled : Bool) :
    (s.execute client callback pooled).Ready := by
  cases pooled with
  | true => exact .of_alone quiet nofun
  | false => exact .of_alone quiet fun _ => unset

def Label.isInner : Label → Bool
  | .resetAttempts | .execute _ _ | .expire => false
  | _ => true

theorem requestStep_inner {label : Label} (inner : label.isInner = true) (s : State) :
    Tls.requestStep client s label = s.step client label := by
  cases label <;> first | rfl | cases inner

theorem Ready.step {label : Label} (ready : s.Ready) (inner : label.isInner = true)
    (stepped : s.step client label = some t) : t.Ready := by
  cases label with
  | resetAttempts | execute callback pooled | expire => cases inner
  | leave =>
      simp only [State.step, Option.ite_none_right_eq_some, Option.some.injEq] at stepped
      exact stepped.2 ▸ ⟨ready.alone, ready.few, ready.unset⟩
  | complete i outcome =>
      simp only [State.step, Bool.and_eq_true, Option.ite_none_right_eq_some, Option.map_eq_some_iff] at stepped
      obtain ⟨⟨free, -⟩, entry, found, rfl⟩ := stepped
      have unset := ready.unset
      rw [Thread.eq_idle free] at unset
      have first : i < s.ops.length := (List.getElem?_eq_some_iff.mp found).1
      have rest : s.ops.eraseIdx i = [] := by
        rw [← List.length_eq_zero_iff, List.length_eraseIdx_of_lt first]
        have := ready.few
        omega
      exact .of_alone rest fun resolve => unset entry (List.mem_of_getElem? found) resolve
  | advance pooled => exact ready.advance stepped
  | throw message response => exact ready.throwException stepped

theorem Ready.timer_eq_none {label : Label} {timeout : Timeout} {run : Bool} (ready : s.Ready)
    (inner : label.isInner = true) (starts : s.timerCall client label = some (.start timeout run)) :
    s.timer = none := by
  have unset := ready.unset
  cases label with
  | resetAttempts | execute callback pooled | expire => cases inner
  | leave | complete i outcome | throw message response => cases starts
  | advance pooled =>
      unfold timerCall at starts
      cases here : s.thread with
      | idle | checking call op outcome | starting call op | calling call => simp [here] at starts
      | entered call op outcome =>
          simp only [here] at starts
          split at starts <;> cases starts
      | failing call op code message => simp [here] at starts
      | closing call op code message =>
          rw [here] at unset
          exact unset
      | passed call op response =>
          rw [here] at unset
          cases op with
          | resolve => exact unset (.inl rfl)
          | connect => exact unset (.inr rfl)
          | handshake | write | read => simp [here] at starts

end State

/-! ## The machine -/

structure Clocked where
  request : State
  timer : Timer Timeout
  pending : Option State.Label

namespace Clocked

def initial (client : Client) (pooled : Bool) : Clocked :=
  if pooled then ⟨.fresh, { Timer.fresh with caller := .starting .request true }, some (.execute true pooled)⟩
  else ⟨State.fresh.execute client true pooled, .fresh, none⟩

inductive Label
  | request (label : State.Label)
  | timer (label : Timer.Label Timeout)

def requestStep (client : Client) (c : Clocked) (label : State.Label) : Option Clocked :=
  if c.pending.isSome || !label.isInner then none
  else
    match Tls.requestStep client c.request label, c.request.timerCall client label with
    | some request, none => some { c with request := request }
    | some _, some call => (c.timer.call call).map fun timer => { c with timer := timer, pending := some label }
    | none, _ => none

/-- The caller comes back from its call, and its step happens, or it is still inside. -/
def goOn (client : Client) (c : Clocked) (timer : Timer Timeout) : Option Clocked :=
  match timer.caller, c.pending with
  | .outside, some label =>
    (Tls.requestStep client c.request label).map fun request => ⟨request, timer, none⟩
  | _, _ => some { c with timer := timer }

def timerStep (client : Client) (c : Clocked) : Timer.Label Timeout → Option Clocked
  | .call _ => none
  | .goOn => c.timer.goOn.bind (c.goOn client)
  | .finish cleared =>
    match c.timer.thread with
    | some (.running timeout) =>
      -- `on_timeout` returns at once if the request has been canceled.
      if cleared = !c.request.canceled then
        (c.timer.step (.finish cleared)).map fun timer =>
          { c with request := c.request.onTimeout client timeout, timer := timer }
      else none
    | _ => none
  | label => (c.timer.step label).map fun timer => { c with timer := timer }

def step (client : Client) (c : Clocked) : Label → Option Clocked
  | .request label => c.requestStep client label
  | .timer label => c.timerStep client label

def Asks (client : Client) (pooled : Bool) (c : Clocked) (call : TimerCall Timeout) : Prop :=
  ∃ label, c.pending = some label ∧ c.request.timerCall client label = some call ∧
    (label.isInner = true ∨ label = .execute true pooled ∧ c.request = .fresh)

def Waits (client : Client) (pooled : Bool) (c : Clocked) : Caller Timeout → Prop
  | .outside => c.pending = none
  | .starting timeout run => c.Asks client pooled (.start timeout run)
  | .replacing =>
    TimerThread.isLive c.timer.thread = false ∧
      ∃ timeout run, c.timer.handler = some timeout ∧ c.Asks client pooled (.start timeout run)
  | .stopping | .joining => c.Asks client pooled .stop

def Follows (client : Client) (pooled : Bool) (c : Clocked) : Prop :=
  (c.request = .fresh ∧ c.pending = some (.execute true pooled)) ∨
    Reached (State.step client) (fun _ _ => True) (State.fresh.execute client true pooled) c.request

structure Linked (client : Client) (pooled : Bool) (c : Clocked) : Prop where
  follows : c.Follows client pooled
  ready : c.request.Ready
  sound : c.timer.Sound
  dormant : c.timer.stopped = true → c.timer.caller = .joining ∨ TimerThread.isLive c.timer.thread = false
  -- A thread that will call a handler will call the one the request waits for.
  armed : c.timer.stopped = false → TimerThread.isPending c.timer.thread = true →
    c.timer.handler.isSome = true ∧ c.request.timer = c.timer.handler
  running : ∀ timeout, c.timer.thread = some (.running timeout) → c.request.timer = some timeout
  waits : c.Waits client pooled c.timer.caller

variable {client : Client} {pooled : Bool} {c c' : Clocked}

theorem timerCall_onTimeout (client : Client) (s : State) (timeout : Timeout) (label : State.Label) :
    (s.onTimeout client timeout).timerCall client label = s.timerCall client label := by
  obtain ⟨thread, -, attempt, -⟩ := State.onTimeout_frame client timeout s
  cases label <;> simp only [State.timerCall, thread, attempt]

theorem timerCall_run {s : State} {label : State.Label} {timeout : Timeout} {run : Bool}
    (asks : s.timerCall client label = some (.start timeout run)) : run = true := by
  unfold State.timerCall at asks
  split at asks
  · split at asks <;> cases asks
    rfl
  · split at asks
    · split at asks <;> cases asks
    · cases asks
    · split at asks <;> cases asks
      rfl
    · cases asks
      rfl
    · cases asks
      rfl
    · cases asks
  · cases asks

theorem Linked.initial (client : Client) (pooled : Bool) : (initial client pooled).Linked client pooled := by
  cases pooled with
  | true =>
      refine ⟨.inl ⟨rfl, rfl⟩, .of_quiet rfl rfl, ?_, fun _ => .inr rfl, nofun, nofun, _, rfl, rfl, .inr ⟨rfl, rfl⟩⟩
      exact ⟨nofun, nofun, nofun, fun _ => .inr rfl, le_rfl⟩
  | false => exact ⟨.inr .start, .execute rfl rfl _ _, .fresh, fun _ => .inr rfl, nofun, nofun, rfl⟩

theorem Linked.follows_step {label : State.Label} {request : State} (linked : c.Linked client pooled)
    (inner : label.isInner = true) (only : c.pending = none ∨ c.pending = some label)
    (stepped : c.request.step client label = some request) :
    Reached (State.step client) (fun _ _ => True) (State.fresh.execute client true pooled) request := by
  rcases linked.follows with ⟨-, first⟩ | run
  · rcases only with only | only
    · rw [only] at first
      cases first
    · cases only.symm.trans first
      cases inner
  · exact .step run trivial stepped

theorem Linked.returned {call : TimerCall Timeout} {label : State.Label} {request : State}
    (linked : c.Linked client pooled) (asks : c.Asks client pooled call) (pending : c.pending = some label)
    (stepped : Tls.requestStep client c.request label = some request) (timer : Timer Timeout) :
    Follows client pooled ⟨request, timer, none⟩ ∧ request.Ready ∧
      request.timer = State.asked c.request.timer (some call) := by
  obtain ⟨asking, same, asked, kind⟩ := asks
  cases same.symm.trans pending
  rw [← asked]
  rcases kind with inner | ⟨rfl, unused⟩
  · have timer : request.timer = State.asked c.request.timer (c.request.timerCall client label) := by
      refine State.requestStep_timer ?_ stepped
      rintro rfl
      cases inner
    rw [State.requestStep_inner inner] at stepped
    exact ⟨.inr (linked.follows_step inner (.inr pending) stepped), linked.ready.step inner stepped, timer⟩
  · rw [unused] at stepped ⊢
    cases Option.some.inj stepped
    exact ⟨.inr .start, .execute rfl rfl true pooled, State.execute_timer client true pooled .fresh⟩

theorem Linked.caller_eq_outside (linked : c.Linked client pooled) (free : c.pending = none) :
    c.timer.caller = .outside := by
  have waits := linked.waits
  cases here : c.timer.caller with
  | outside => rfl
  | starting timeout run | stopping | joining =>
      rw [here] at waits
      obtain ⟨label, pending, -⟩ := waits
      cases free.symm.trans pending
  | replacing =>
      rw [here] at waits
      obtain ⟨-, timeout, run, -, label, pending, -⟩ := waits
      cases free.symm.trans pending

theorem Linked.requestStep {label : State.Label} (linked : c.Linked client pooled)
    (stepped : c.requestStep client label = some c') : c'.Linked client pooled := by
  simp only [Clocked.requestStep, Option.ite_none_left_eq_some, Bool.or_eq_true, not_or, Bool.not_eq_true,
    Option.isSome_eq_false_iff, Option.isNone_iff_eq_none, Bool.not_eq_false'] at stepped
  obtain ⟨⟨free, inner⟩, stepped⟩ := stepped
  have outside := linked.caller_eq_outside free
  split at stepped
  case h_1 request done silent =>
    cases stepped
    have timer : request.timer = State.asked c.request.timer none := by
      rw [← silent]
      refine State.requestStep_timer ?_ done
      rintro rfl
      cases inner
    rw [State.requestStep_inner inner] at done
    refine ⟨.inr (linked.follows_step inner (.inl free) done), linked.ready.step inner done, linked.sound,
      linked.dormant, ?_, ?_, ?_⟩
    · exact fun going live => ⟨(linked.armed going live).1, timer.trans (linked.armed going live).2⟩
    · exact fun timeout inside => timer.trans (linked.running timeout inside)
    · rw [outside]
      exact free
  case h_2 request call done asked =>
    obtain ⟨timer, called, rfl⟩ := Option.map_eq_some_iff.mp stepped
    have asks : Asks client pooled { c with timer := timer, pending := some label } call :=
      ⟨label, rfl, asked, .inl inner⟩
    have run : Reached (State.step client) (fun _ _ => True) (State.fresh.execute client true pooled) c.request := by
      rcases linked.follows with ⟨-, first⟩ | run
      · cases free.symm.trans first
      · exact run
    have moved : c.timer.step (.call call) = some timer := called
    have sound := linked.sound.step moved
    cases Timer.call_moved called with
    | callStart timeout start here =>
        refine ⟨.inr run, linked.ready, sound, fun stopped => ?_, linked.armed, linked.running, asks⟩
        exact .inr ((linked.dormant stopped).resolve_left (by simp [outside]))
    | callStop here =>
        refine ⟨.inr run, linked.ready, sound, fun stopped => ?_, linked.armed, linked.running, asks⟩
        exact .inr ((linked.dormant stopped).resolve_left (by simp [outside]))
  case h_3 => cases stepped

theorem Linked.dead_of_start {timeout : Timeout} {run : Bool} (linked : c.Linked client pooled)
    (here : c.timer.caller = .starting timeout run) (free : c.timer.isLocked = false) :
    TimerThread.isLive c.timer.thread = false := by
  have waits := linked.waits
  rw [here] at waits
  obtain ⟨label, -, asked, kind⟩ := waits
  have unset : c.request.timer = none := by
    rcases kind with inner | ⟨-, unused⟩
    · exact linked.ready.timer_eq_none inner asked
    · rw [unused]
      rfl
  cases stopped : c.timer.stopped with
  | true => exact (linked.dormant stopped).resolve_left (by simp [here])
  | false =>
      by_contra live
      rw [Bool.not_eq_false] at live
      rcases TimerThread.isPending_or_running live with pending | ⟨timeout', running⟩
      · obtain ⟨set, same⟩ := linked.armed stopped pending
        rw [← same, unset] at set
        cases set
      · exact (Timer.isLocked_eq_false free).2 timeout' running

theorem Linked.goOn_returned {call : TimerCall Timeout} {timer : Timer Timeout} (linked : c.Linked client pooled)
    (asks : c.Asks client pooled call) (outside : timer.caller = .outside) (stepped : c.goOn client timer = some c') :
    ∃ request, c' = ⟨request, timer, none⟩ ∧ c'.Follows client pooled ∧ request.Ready ∧
      request.timer = State.asked c.request.timer (some call) := by
  obtain ⟨label, pending, -⟩ := id asks
  simp only [Clocked.goOn, outside, pending, Option.map_eq_some_iff] at stepped
  obtain ⟨request, done, rfl⟩ := stepped
  exact ⟨request, rfl, linked.returned asks pending done timer⟩

theorem Linked.threadStep {timer : Timer Timeout} (linked : c.Linked client pooled)
    (live : TimerThread.isPending c.timer.thread = true) (sound : timer.Sound)
    (caller : timer.caller = c.timer.caller) (handler : timer.handler = c.timer.handler)
    (goes : (timer.stopped = c.timer.stopped ∧ TimerThread.isPending timer.thread = true) ∨
      (timer.stopped = true ∧ timer.thread = some .ended) ∨
      (c.timer.stopped = false ∧ timer.stopped = false ∧
        ∃ timeout, c.timer.handler = some timeout ∧ timer.thread = some (.running timeout))) :
    Linked client pooled { c with timer := timer } := by
  have alive : TimerThread.isLive c.timer.thread = true := by
    by_contra dead
    simp [TimerThread.isPending_of_dead (by simpa using dead)] at live
  have waits : Waits client pooled { c with timer := timer } timer.caller := by
    have waits := linked.waits
    rw [caller]
    cases here : c.timer.caller with
    | replacing =>
        rw [here] at waits
        exact absurd waits.1 (by simp [alive])
    | outside | starting timeout run | stopping | joining =>
        rw [here] at waits
        exact waits
  rcases goes with ⟨stopped, pending⟩ | ⟨stopped, ended⟩ | ⟨before, going, timeout, set, running⟩
  · refine ⟨linked.follows, linked.ready, sound, fun halted => .inl ?_, fun going _ => ?_, fun timeout inside => ?_, waits⟩
    · exact caller.trans ((linked.dormant (stopped.symm.trans halted)).resolve_right (by simp [alive]))
    · rw [handler]
      exact linked.armed (stopped.symm.trans going) live
    · have running : timer.thread = some (.running timeout) := inside
      simp [running, TimerThread.isPending] at pending
  · refine ⟨linked.follows, linked.ready, sound, fun _ => .inr ?_, fun going => ?_, fun timeout inside => ?_, waits⟩
    · rw [ended]
      rfl
    · simp [stopped] at going
    · simp [ended] at inside
  · refine ⟨linked.follows, linked.ready, sound, fun halted => ?_, fun _ pending => ?_, fun timeout' inside => ?_, waits⟩
    · simp [going] at halted
    · simp [running, TimerThread.isPending] at pending
    · rw [running, Option.some.injEq, TimerThread.running.injEq] at inside
      rw [(linked.armed before live).2, set, inside]

theorem Linked.goOn {timer : Timer Timeout} (linked : c.Linked client pooled) (went : c.timer.goOn = some timer)
    (stepped : c.goOn client timer = some c') : c'.Linked client pooled := by
  have moved : c.timer.step .goOn = some timer := went
  have sound := linked.sound.step moved
  have waits := linked.waits
  cases Timer.goOn_moved went with
  | @prepared timeout here free =>
      rw [here] at waits
      cases stepped
      have dead := linked.dead_of_start here free
      refine ⟨linked.follows, linked.ready, sound, nofun, fun _ live => ?_, linked.running, dead, timeout, true, rfl, waits⟩
      simp [TimerThread.isPending_of_dead dead] at live
  | @refrained timeout here free =>
      rw [here] at waits
      obtain ⟨label, -, asked, -⟩ := waits
      cases timerCall_run asked
  | spawned here dead =>
      rw [here] at waits
      obtain ⟨-, timeout, run, set, asks⟩ := waits
      obtain ⟨request, rfl, follows, ready, timer⟩ := linked.goOn_returned asks rfl stepped
      have going := linked.sound.replacing here
      refine ⟨follows, ready, sound, fun stopped => ?_, fun _ _ => ?_, nofun, rfl⟩
      · simp [going] at stopped
      · rw [timer]
        exact ⟨by simp [set], set.symm⟩
  | stoppedBefore here free stopped =>
      rw [here] at waits
      obtain ⟨request, rfl, follows, ready, timer⟩ := linked.goOn_returned waits rfl stepped
      refine ⟨follows, ready, sound, fun _ => .inr ?_, fun going => ?_, fun timeout inside => ?_, rfl⟩
      · exact (linked.dormant stopped).resolve_left (by simp [here])
      · simp [stopped] at going
      · exact absurd inside ((Timer.isLocked_eq_false free).2 timeout)
  | signalled here free going =>
      rw [here] at waits
      cases stepped
      refine ⟨linked.follows, linked.ready, sound, fun _ => .inl rfl, nofun, fun timeout inside => ?_, waits⟩
      exact absurd (TimerThread.running_of_notified inside) ((Timer.isLocked_eq_false free).2 timeout)
  | joined here dead =>
      rw [here] at waits
      obtain ⟨request, rfl, follows, ready, timer⟩ := linked.goOn_returned waits rfl stepped
      exact ⟨follows, ready, sound, fun _ => .inr rfl, fun _ => nofun, nofun, rfl⟩

theorem Linked.finish {cleared : Bool} {timeout : Timeout} {timer : Timer Timeout} (linked : c.Linked client pooled)
    (here : c.timer.thread = some (.running timeout)) (finished : c.timer.step (.finish cleared) = some timer) :
    Linked client pooled { c with request := c.request.onTimeout client timeout, timer := timer } := by
  have armed := linked.running timeout here
  have unlocked := (linked.sound.running timeout here).2
  have sound := linked.sound.step finished
  have waits := linked.waits
  have used : c.request ≠ .fresh := by
    intro unused
    rw [unused] at armed
    cases armed
  have run : Reached (State.step client) (fun _ _ => True) (State.fresh.execute client true pooled)
      (c.request.onTimeout client timeout) := by
    rcases linked.follows with ⟨unused, -⟩ | run
    · exact absurd unused used
    · have expired : c.request.step client .expire = some (c.request.onTimeout client timeout) := by
        simp [State.step, armed]
      exact .step run trivial expired
  have asks : ∀ call, c.Asks client pooled call →
      Asks client pooled { c with request := c.request.onTimeout client timeout, timer := timer } call := by
    rintro call ⟨label, pending, asked, inner | ⟨-, unused⟩⟩
    · exact ⟨label, pending, (timerCall_onTimeout client c.request timeout label).trans asked, .inl inner⟩
    · exact absurd unused used
  cases Timer.step_moved finished with
  | finished cleared =>
      refine ⟨.inr run, linked.ready.onTimeout timeout, sound, fun _ => .inr rfl, by simp, by simp, ?_⟩
      change Waits _ _ _ c.timer.caller
      cases inside : c.timer.caller with
      | replacing => exact absurd inside unlocked
      | outside =>
          rw [inside] at waits
          exact waits
      | starting _ _ | stopping | joining =>
          rw [inside] at waits
          exact asks _ waits

theorem Linked.timerStep {label : Timer.Label Timeout} (linked : c.Linked client pooled)
    (stepped : c.timerStep client label = some c') : c'.Linked client pooled := by
  cases label with
  | call call => cases stepped
  | goOn =>
      obtain ⟨timer, went, stepped⟩ := Option.bind_eq_some_iff.mp stepped
      exact linked.goOn went stepped
  | finish cleared =>
      simp only [Clocked.timerStep] at stepped
      split at stepped
      case h_1 timeout here =>
        simp only [Option.ite_none_right_eq_some, Option.map_eq_some_iff] at stepped
        obtain ⟨-, timer, finished, rfl⟩ := stepped
        exact linked.finish here finished
      case h_2 => cases stepped
  | enter =>
      obtain ⟨timer, entered, rfl⟩ := Option.map_eq_some_iff.mp stepped
      have sound := linked.sound.step entered
      cases Timer.step_moved entered with
      | entered here free => exact linked.threadStep (by rw [here]; rfl) sound rfl rfl (.inl ⟨rfl, rfl⟩)
  | wake timeout =>
      obtain ⟨timer, woken, rfl⟩ := Option.map_eq_some_iff.mp stepped
      have sound := linked.sound.step woken
      cases Timer.step_moved woken with
      | woken timeout here => exact linked.threadStep (by rw [here]; rfl) sound rfl rfl (.inl ⟨rfl, rfl⟩)
  | resume =>
      obtain ⟨timer, resumed, rfl⟩ := Option.map_eq_some_iff.mp stepped
      have sound := linked.sound.step resumed
      cases Timer.step_moved resumed with
      | resumed timeout here free =>
          have live : TimerThread.isPending c.timer.thread = true := by
            rw [here]
            rfl
          rcases Timer.resume_cases c.timer timeout with ⟨eq, -⟩ | ⟨going, eq⟩ | ⟨handler, going, -, set, eq⟩
          all_goals rw [eq] at sound ⊢
          · exact linked.threadStep live sound rfl rfl (.inr (.inl ⟨rfl, rfl⟩))
          · exact linked.threadStep live sound rfl rfl (.inl ⟨rfl, rfl⟩)
          · exact linked.threadStep live sound rfl rfl (.inr (.inr ⟨going, going, handler, set, rfl⟩))

theorem Linked.reached {allowed : Clocked → Label → Prop}
    (reached : Reached (step client) allowed (.initial client pooled) c) : c.Linked client pooled := by
  induction reached with
  | start => exact .initial client pooled
  | @step s s' label _ _ stepped ih =>
      cases label with
      | request label => exact ih.requestStep stepped
      | timer label => exact ih.timerStep stepped

theorem timed_request_refines (client : Client) (pooled : Bool) (c : Clocked)
    (reached : Reached (step client) (fun _ _ => True) (initial client pooled) c) :
    c.Follows client pooled ∧
      (client.ownsContext = false →
        c.request.invoked ≤ 1 ∧ c.request.attempt ≤ max 1 client.attemptsCount ∧
          (c.pending = none → c.request.thread = .idle → c.request.ops = [] → c.request.thrown = false →
            c.request.invoked = 1)) := by
  have linked := Linked.reached reached
  refine ⟨linked.follows, fun external => ?_⟩
  rcases linked.follows with ⟨unused, pending⟩ | run
  · rw [unused]
    exact ⟨Nat.zero_le _, Nat.zero_le _, fun free => absurd (pending.symm.trans free) (by simp)⟩
  · have sound := State.Sound.reached external run
    refine ⟨sound.invoked_le, sound.attempts, fun _ idle none clean => ?_⟩
    have handler := sound.handler
    rw [idle] at handler
    rcases handler with ⟨-, -, once | ⟨-, thrown⟩⟩ | ⟨⟨entry, single⟩, -⟩
    · exact once
    · rw [clean] at thrown
      cases thrown
    · rw [none] at single
      cases single

namespace Sample

def expired : List Label :=
  [.timer .goOn, .timer .goOn, .timer .enter, .timer (.wake true), .timer .resume, .timer (.finish true)]

def failing : List Label :=
  expired ++ [.request (.advance true), .request (.complete 0 State.Sample.aborted), .request (.advance true),
    .request (.advance true), .request (.advance true)]

end Sample

theorem timed_request_refines_after_timeout :
    ∃ c, Reached (step State.Sample.pair) (fun _ _ => True) (initial State.Sample.pair true) c ∧
      c.timer.called = [.request] ∧ c.request.rerun = true ∧ c.request.invoked ≤ 1 := by
  have ran : runAllowed (step State.Sample.pair) (fun _ _ => True) (initial State.Sample.pair true) Sample.expired =
      some _ := rfl
  have reached := Reached.run .start ran
  exact ⟨_, reached, rfl, rfl, ((timed_request_refines _ _ _ reached).2 rfl).1⟩

/-! ## The calls of the timer return -/

theorem Asks.enabled {call : TimerCall Timeout} (asks : c.Asks client pooled call) :
    ∃ label request, c.pending = some label ∧ Tls.requestStep client c.request label = some request := by
  obtain ⟨label, pending, asked, inner | ⟨rfl, unused⟩⟩ := asks
  · cases label with
    | resetAttempts | execute callback pooled | expire => cases inner
    | leave | complete i outcome | throw message response => cases asked
    | advance pooled =>
        have busy : c.request.thread ≠ .idle := by
          intro idle
          simp [State.timerCall, idle] at asked
        obtain ⟨request, advanced⟩ := State.advance_of_busy client pooled busy
        exact ⟨_, request, pending, advanced⟩
  · rw [unused]
    exact ⟨_, _, pending, rfl⟩

def Returns (client : Client) (bound : Nat) (c : Clocked) : Prop :=
  ∃ (labels : List (Timer.Label Timeout)) (c' : Clocked), labels.length ≤ bound ∧
    runAllowed (step client) (fun _ _ => True) c (labels.map .timer) = some c' ∧ c'.pending = none

theorem Returns.step {bound : Nat} {label : Timer.Label Timeout} (returns : c'.Returns client bound)
    (stepped : c.timerStep client label = some c') : c.Returns client (bound + 1) := by
  obtain ⟨labels, after, short, ran, free⟩ := returns
  refine ⟨label :: labels, after, Nat.succ_le_succ short, ?_, free⟩
  simp [runAllowed, Clocked.step, stepped, ran]

theorem Returns.mono {bound bound' : Nat} (returns : c.Returns client bound) (le : bound ≤ bound') :
    c.Returns client bound' := by
  obtain ⟨labels, after, short, rest⟩ := returns
  exact ⟨labels, after, short.trans le, rest⟩

theorem Asks.returns {call : TimerCall Timeout} {timer : Timer Timeout} (asks : c.Asks client pooled call)
    (went : c.timer.goOn = some timer) (outside : timer.caller = .outside) : c.Returns client 1 := by
  obtain ⟨label, request, pending, stepped⟩ := asks.enabled
  have base : Returns client 0 ⟨request, timer, none⟩ := ⟨[], _, le_rfl, rfl, rfl⟩
  have back : c.timerStep client .goOn = some ⟨request, timer, none⟩ := by
    simp [timerStep, went, goOn, outside, pending, stepped]
  exact base.step back

theorem timerStep_of_inside (client : Client) {timer : Timer Timeout} (went : c.timer.goOn = some timer)
    (inside : timer.caller ≠ .outside) :
    c.timerStep client .goOn = some { c with timer := timer } := by
  simp only [timerStep, went, Option.bind_some, goOn]
  split
  case h_1 here _ => exact absurd here inside
  case h_2 => rfl

theorem Linked.returns_replacing (linked : c.Linked client pooled) (here : c.timer.caller = .replacing) :
    c.Returns client 1 := by
  have waits := linked.waits
  rw [here] at waits
  obtain ⟨dead, timeout, run, -, asks⟩ := waits
  exact asks.returns (Timer.goOn_of_replacing here dead) rfl

theorem Linked.returns_joining (linked : c.Linked client pooled) (here : c.timer.caller = .joining) :
    c.Returns client 4 := by
  have asks := linked.waits
  have stopped := linked.sound.joining here
  have outside : c.timer.caller ≠ .replacing := by simp [here]
  rw [here] at asks
  -- What is left to do, from the last place of the thread to the first.
  let placed (thread : TimerThread Timeout) : Clocked := { c with timer := { c.timer with thread := some thread } }
  have ended : (placed .ended).Returns client 1 := by
    have asks : (placed .ended).Asks client pooled .stop := asks
    exact asks.returns (Timer.goOn_of_joining here rfl) rfl
  have woken : ∀ timeout, (placed (.woken timeout)).Returns client 2 := by
    intro timeout
    have free : (placed (.woken timeout)).timer.isLocked = false := Timer.isLocked_of_not outside (by simp [placed])
    have resumed : (placed (.woken timeout)).timerStep client .resume = some (placed .ended) := by
      simp [placed, Clocked.timerStep, Timer.step, Timer.resume, stopped] at free ⊢
      exact free
    exact ended.step resumed
  have waiting : (placed .waiting).Returns client 3 := by
    have notified : (placed .waiting).timerStep client (.wake true) = some (placed (.woken true)) := rfl
    exact (woken true).step notified
  cases thread : c.timer.thread with
  | none => exact (asks.returns (Timer.goOn_of_joining here (by rw [thread]; rfl)) rfl).mono (by decide)
  | some place =>
      have same : c = placed place := by simp [placed, ← thread]
      cases place with
      | created =>
          have free : (placed .created).timer.isLocked = false := Timer.isLocked_of_not outside (by simp [placed])
          have entered : (placed .created).timerStep client .enter = some (placed .waiting) := by
            simp [placed, Clocked.timerStep, Timer.step] at free ⊢
            exact free
          exact same ▸ waiting.step entered
      | waiting => exact same ▸ waiting.mono (by decide)
      | woken timeout => exact same ▸ (woken timeout).mono (by decide)
      | running timeout =>
          have going := (linked.sound.running timeout thread).1
          simp [stopped] at going
      | ended => exact same ▸ ended.mono (by decide)

theorem Linked.returns_starting {timeout : Timeout} {run : Bool} (linked : c.Linked client pooled)
    (here : c.timer.caller = .starting timeout run) : c.Returns client 2 := by
  have waits := linked.waits
  rw [here] at waits
  obtain ⟨label, -, asked, kind⟩ := id waits
  cases timerCall_run asked
  have free : c.timer.isLocked = false := by
    refine Timer.isLocked_of_not (by simp [here]) fun expired running => ?_
    have armed := linked.running expired running
    rcases kind with inner | ⟨-, unused⟩
    · simp [linked.ready.timer_eq_none inner asked] at armed
    · rw [unused] at armed
      cases armed
  have prepared := timerStep_of_inside client (Timer.goOn_of_starting here free) (by simp)
  exact ((linked.timerStep prepared).returns_replacing rfl).step prepared

theorem Linked.returns_stopping (linked : c.Linked client pooled) (here : c.timer.caller = .stopping) :
    c.Returns client 5 := by
  have waits := linked.waits
  rw [here] at waits
  by_cases running : ∃ timeout, c.timer.thread = some (.running timeout)
  · -- The handler runs to its end, and there is nothing to wait for.
    obtain ⟨timeout, running⟩ := running
    have finished : c.timerStep client (.finish !c.request.canceled) = some
        { c with
          request := c.request.onTimeout client timeout
          timer := { c.timer with
            stopped := true
            thread := some .ended
            handler := if !c.request.canceled then none else c.timer.handler } } := by
      simp [Clocked.timerStep, Timer.step, running]
    have asks := (linked.timerStep finished).waits
    rw [here] at asks
    refine Returns.mono (Returns.step (asks.returns (Timer.goOn_of_stopped here ?_ rfl) rfl) finished) (by decide)
    exact Timer.isLocked_of_not (by simp [here]) (by simp)
  · have free : c.timer.isLocked = false :=
      Timer.isLocked_of_not (by simp [here]) fun timeout inside => running ⟨timeout, inside⟩
    cases stopped : c.timer.stopped with
    | true => exact (waits.returns (Timer.goOn_of_stopped here free stopped) rfl).mono (by decide)
    | false =>
        have signalled := timerStep_of_inside client (Timer.goOn_of_stopping here free stopped) (by simp)
        exact ((linked.timerStep signalled).returns_joining rfl).step signalled

theorem timer_calls_return (client : Client) (_ : client.useSsl = false) (pooled : Bool) (c : Clocked)
    (reached : Reached (step client) (fun _ _ => True) (initial client pooled) c) : c.Returns client 5 := by
  have linked := Linked.reached reached
  cases here : c.timer.caller with
  | outside =>
      have waits := linked.waits
      rw [here] at waits
      exact ⟨[], c, Nat.zero_le _, rfl, waits⟩
  | starting timeout run => exact (linked.returns_starting here).mono (by decide)
  | replacing => exact (linked.returns_replacing here).mono (by decide)
  | stopping => exact linked.returns_stopping here
  | joining => exact (linked.returns_joining here).mono (by decide)

theorem stop_returns_after_timeout :
    ∃ c, Reached (step State.Sample.pair) (fun _ _ => True) (initial State.Sample.pair true) c ∧
      c.timer.caller = .stopping ∧ c.Returns State.Sample.pair 5 := by
  have ran : runAllowed (step State.Sample.pair) (fun _ _ => True) (initial State.Sample.pair true) Sample.failing =
      some _ := rfl
  have reached := Reached.run .start ran
  exact ⟨_, reached, rfl, timer_calls_return _ rfl _ _ reached⟩

end Clocked

end FullnodeClient.Net
