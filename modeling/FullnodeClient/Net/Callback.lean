import FullnodeClient.Net.Request

/-!
# Callbacks

A request on the `io_context` of a session, executed once: how often its callback is called, and how
often it is attempted.
-/

namespace FullnodeClient.Net
open FullnodeClient.Lib FullnodeClient.Text FullnodeClient.Rpc

namespace State

def Over (s : State) : Prop := s.invoked = 1 ∨ s.invoked = 0 ∧ s.thrown = true

def Calm (s : State) : Prop := s.timer = none ∨ s.canceled = true

def Waiting (s : State) : Prop := s.invoked = 0 ∧ s.callback = true

def Flagged (client : Client) (s : State) : Prop :=
  (s.rerun = false ∧ s.canceled = false ∧ s.Waiting) ∨
    (s.rerun = true ∧ s.canceled = true ∧ s.Waiting ∧ s.attempt < client.attemptsCount) ∨
    (s.rerun = false ∧ s.canceled = true ∧ s.Over)

def HandlerSound (client : Client) (s : State) : Thread → Prop
  | .idle => (s.ops = [] ∧ s.Calm ∧ s.Over) ∨ ((∃ entry, s.ops = [entry]) ∧ s.Flagged client)
  | .entered _ _ _ | .starting _ _ => s.ops = [] ∧ s.Flagged client
  | .checking _ op _ => s.ops = [] ∧ s.Flagged client ∧ (op = .read → s.timer = none)
  | .failing _ _ _ _ | .closing _ _ _ _ => s.ops = [] ∧ s.rerun = false ∧ s.canceled = true ∧ s.Waiting
  | .passed _ op _ => s.ops = [] ∧ s.Flagged client ∧ (op = .read → s.Calm ∧ s.invoked = 0)
  | .calling _ => s.ops = [] ∧ s.Calm ∧ s.invoked = 1

structure Sound (client : Client) (s : State) : Prop where
  attempts : s.attempt ≤ max 1 client.attemptsCount
  handler : s.HandlerSound client s.thread

variable {client : Client} {s t : State}

theorem Sound.start (pooled : Bool) : (fresh.execute client true pooled).Sound client := by
  cases pooled with
  | true => exact ⟨le_max_left _ _, rfl, .inl ⟨rfl, rfl, rfl, rfl⟩⟩
  | false => exact ⟨le_max_left _ _, rfl, .inl ⟨rfl, rfl, rfl, rfl⟩⟩

theorem Flagged.errorHandler (flagged : s.Flagged client) (attempts : s.attempt ≤ max 1 client.attemptsCount)
    (idle : s.ops = []) (call : Nat) (op : Op) (outcome : Outcome) (stopped : op = .read → s.timer = none) :
    (s.errorHandler call op outcome).Sound client := by
  unfold State.errorHandler
  rcases flagged with ⟨rerun, canceled, waiting⟩ | ⟨rerun, canceled, waiting, more⟩ | ⟨rerun, canceled, done⟩
  · rw [if_neg (by simp [rerun]), if_neg (by simp [canceled])]
    cases outcome with
    | failed code message => exact ⟨attempts, idle, rerun, rfl, waiting⟩
    | succeeded response =>
        exact ⟨attempts, idle, .inl ⟨rerun, canceled, waiting⟩, fun read => ⟨.inl (stopped read), waiting.1⟩⟩
  · rw [if_pos rerun]
    cases outcome with
    | failed code message => exact ⟨attempts, idle, rfl, rfl, waiting⟩
    | succeeded response => exact ⟨attempts, idle, rfl, rfl, waiting⟩
  · rw [if_neg (by simp [rerun]), if_pos canceled]
    exact ⟨attempts, .inl ⟨idle, .inr canceled, done⟩⟩

theorem attemptOnce_sound (idle : s.ops = []) (rerun : s.rerun = false) (waiting : s.Waiting)
    (more : s.attempt < client.attemptsCount) (call : Nat) (pooled : Bool) :
    (s.attemptOnce call pooled).Sound client := by
  have attempts : s.attempt + 1 ≤ max 1 client.attemptsCount := le_max_of_le_right more
  cases pooled with
  | true => exact ⟨attempts, idle, .inl ⟨rerun, rfl, waiting⟩⟩
  | false => exact ⟨attempts, idle, .inl ⟨rerun, rfl, waiting⟩⟩

theorem callBack_sound (attempts : s.attempt ≤ max 1 client.attemptsCount) (idle : s.ops = []) (calm : s.Calm)
    (silent : s.invoked = 0) (owed : s.callback = true ∨ s.thrown = true) (call : Nat) :
    (s.callBack client call).Sound client := by
  unfold callBack
  split
  case isTrue => exact ⟨attempts, idle, calm, by simp only [silent]⟩
  case isFalse unset =>
    have thrown : s.thrown = true := owed.resolve_left unset
    exact ⟨attempts, .inl ⟨idle, calm, .inr ⟨silent, thrown⟩⟩⟩

theorem Flagged.owed (flagged : s.Flagged client) (silent : s.invoked = 0) : s.callback = true ∨ s.thrown = true := by
  rcases flagged with ⟨-, -, waiting⟩ | ⟨-, -, waiting, -⟩ | ⟨-, -, called | ⟨-, thrown⟩⟩
  · exact .inl waiting.2
  · exact .inl waiting.2
  · rw [silent] at called
    cases called
  · exact .inr thrown

theorem Sound.advance {pooled : Bool} (sound : s.Sound client) (advanced : s.advance client pooled = some t) :
    t.Sound client := by
  obtain ⟨attempts, handler⟩ := sound
  unfold State.advance at advanced
  -- One case for each point of the handlers, with what the flags may be there.
  cases here : s.thread with
  | idle => simp [here] at advanced
  | entered call op outcome =>
      simp only [here, Option.some.injEq] at advanced handler
      obtain ⟨idle, flagged⟩ := handler
      subst advanced
      exact ⟨attempts, idle, flagged, fun read => by simp [read]⟩
  | checking call op outcome =>
      simp only [here, Option.some.injEq] at advanced handler
      obtain ⟨idle, flagged, stopped⟩ := handler
      exact advanced ▸ flagged.errorHandler attempts idle call op outcome stopped
  | failing call op code message =>
      simp only [here, Option.some.injEq] at advanced handler
      exact advanced ▸ ⟨attempts, handler⟩
  | closing call op code message =>
      simp only [here] at advanced handler
      obtain ⟨idle, rerun, canceled, waiting⟩ := handler
      by_cases more : s.attempt < client.attemptsCount
      · rw [if_pos more] at advanced
        cases Option.some.inj advanced
        refine attemptOnce_sound ?_ ?_ ?_ ?_ call pooled
        exacts [idle, rerun, waiting, more]
      · rw [if_neg more] at advanced
        cases Option.some.inj advanced
        refine callBack_sound ?_ ?_ (.inr ?_) ?_ (.inl ?_) call
        exacts [attempts, idle, canceled, waiting.1, waiting.2]
  | passed call op response =>
      simp only [here] at advanced handler
      obtain ⟨idle, flagged, reading⟩ := handler
      cases op with
      | read =>
          obtain ⟨calm, silent⟩ := reading rfl
          cases Option.some.inj advanced
          refine callBack_sound ?_ ?_ ?_ ?_ ?_ call
          exacts [attempts, idle, calm, silent, flagged.owed silent]
      | _ =>
          cases Option.some.inj advanced
          exact ⟨attempts, idle, flagged⟩
  | starting call op =>
      simp only [here, Option.some.injEq] at advanced handler
      obtain ⟨idle, flagged⟩ := handler
      subst advanced
      exact ⟨attempts, .inr ⟨⟨_, by rw [idle, List.nil_append]⟩, flagged⟩⟩
  | calling call =>
      simp only [here, Option.some.injEq] at advanced handler
      obtain ⟨idle, calm, once⟩ := handler
      subst advanced
      exact ⟨attempts, .inl ⟨idle, calm, .inl once⟩⟩

theorem Calm.onTimeout {timeout : Timeout} (calm : s.Calm) (armed : s.timer = some timeout) :
    s.onTimeout client timeout = { s with timer := none } := by
  rcases calm with unarmed | canceled
  · rw [armed] at unarmed
    cases unarmed
  · rw [State.onTimeout, if_pos canceled]

theorem Flagged.onTimeout (flagged : s.Flagged client) (timeout : Timeout) :
    (s.onTimeout client timeout).Flagged client := by
  unfold State.onTimeout
  rcases flagged with ⟨rerun, canceled, waiting⟩ | ⟨rerun, canceled, waiting, more⟩ | ⟨rerun, canceled, done⟩
  · simp only [canceled, Bool.false_eq_true, if_false]
    split
    case isTrue more => exact .inr (.inl ⟨rfl, rfl, waiting, more⟩)
    case isFalse =>
      refine .inr (.inr ⟨?_, ?_, .inl ?_⟩) <;> simp [stopContext, performCallback, waiting.1, waiting.2, rerun]
  · rw [if_pos canceled]
    exact .inr (.inl ⟨rerun, canceled, waiting, more⟩)
  · rw [if_pos canceled]
    exact .inr (.inr ⟨rerun, canceled, done⟩)

theorem Sound.onTimeout {timeout : Timeout} (sound : s.Sound client) (armed : s.timer = some timeout) :
    (s.onTimeout client timeout).Sound client := by
  obtain ⟨attempts, handler⟩ := sound
  obtain ⟨thread, ops, attempt, timer⟩ := onTimeout_frame client timeout s
  refine ⟨attempt ▸ attempts, ?_⟩
  rw [thread]
  cases here : s.thread with
  | idle =>
      simp only [here] at handler
      rcases handler with ⟨idle, calm, done⟩ | ⟨⟨entry, single⟩, flagged⟩
      · rw [calm.onTimeout armed]
        exact .inl ⟨idle, .inl rfl, done⟩
      · exact .inr ⟨⟨entry, ops.trans single⟩, flagged.onTimeout timeout⟩
  | entered call op outcome | starting call op =>
      simp only [here] at handler
      exact ⟨ops.trans handler.1, handler.2.onTimeout timeout⟩
  | checking call op outcome =>
      simp only [here] at handler
      exact ⟨ops.trans handler.1, handler.2.1.onTimeout timeout, fun _ => timer⟩
  | passed call op response =>
      simp only [here] at handler
      obtain ⟨idle, flagged, reading⟩ := handler
      refine ⟨ops.trans idle, flagged.onTimeout timeout, fun read => ?_⟩
      obtain ⟨calm, silent⟩ := reading read
      rw [calm.onTimeout armed]
      exact ⟨.inl rfl, silent⟩
  | failing call op code message | closing call op code message =>
      simp only [here] at handler
      have calm : s.Calm := .inr handler.2.2.1
      rw [calm.onTimeout armed]
      exact handler
  | calling call =>
      simp only [here] at handler
      obtain ⟨idle, calm, once⟩ := handler
      rw [calm.onTimeout armed]
      exact ⟨idle, .inl rfl, once⟩

theorem Flagged.over_of_thrown (flagged : s.Flagged client) (message : Bytes) : (s.catchException message).Over := by
  rcases flagged with ⟨-, -, waiting⟩ | ⟨-, -, waiting, -⟩ | ⟨-, -, called | ⟨silent, -⟩⟩
  · exact .inr ⟨waiting.1, rfl⟩
  · exact .inr ⟨waiting.1, rfl⟩
  · exact .inl called
  · exact .inr ⟨silent, rfl⟩

theorem Sound.throwException {message : Bytes} {response : Response} (sound : s.Sound client)
    (threw : s.throwException client message response = some t) : t.Sound client := by
  obtain ⟨attempts, handler⟩ := sound
  unfold State.throwException at threw
  cases here : s.thread with
  | idle | checking call op outcome => simp [here] at threw
  | entered call op outcome | starting call op =>
      simp only [here, Option.some.injEq] at threw handler
      subst threw
      exact ⟨attempts, .inl ⟨handler.1, .inr rfl, handler.2.over_of_thrown message⟩⟩
  | passed call op response =>
      simp only [here, Option.some.injEq] at threw handler
      subst threw
      exact ⟨attempts, .inl ⟨handler.1, .inr rfl, handler.2.1.over_of_thrown message⟩⟩
  | failing call op code text | closing call op code text =>
      simp only [here, Option.some.injEq] at threw handler
      obtain ⟨idle, rerun, canceled, waiting⟩ := handler
      subst threw
      exact ⟨attempts, idle, .inr (.inr ⟨rerun, rfl, .inr ⟨waiting.1, rfl⟩⟩), fun _ => ⟨.inr rfl, waiting.1⟩⟩
  | calling call =>
      simp only [here, Option.some.injEq] at threw handler
      subst threw
      exact ⟨attempts, .inl ⟨handler.1, .inr rfl, .inl handler.2.2⟩⟩

theorem Sound.complete {i : Nat} {outcome : Outcome} (sound : s.Sound client)
    (completed : s.step client (.complete i outcome) = some t) : t.Sound client := by
  simp only [State.step, Bool.and_eq_true, Option.ite_none_right_eq_some, Option.map_eq_some_iff] at completed
  obtain ⟨⟨free, -⟩, entry, found, rfl⟩ := completed
  have handler := sound.handler
  rw [Thread.eq_idle free] at handler
  rcases handler with ⟨none, -⟩ | ⟨⟨single, only⟩, flagged⟩
  · simp [none] at found
  · have first : i = 0 := by
      have := (List.getElem?_eq_some_iff.mp found).1
      simpa [only] using this
    subst first
    exact ⟨sound.attempts, by simp [only], flagged⟩

theorem Sound.step {label : Label} (external : client.ownsContext = false) (sound : s.Sound client)
    (stepped : s.step client label = some t) : t.Sound client := by
  cases label with
  | resetAttempts => simp [State.step, isOutside, external] at stepped
  | execute callback pooled => simp [State.step, isOutside, external] at stepped
  | leave =>
      simp only [State.step, Option.ite_none_right_eq_some, Option.some.injEq] at stepped
      exact stepped.2 ▸ ⟨sound.attempts, sound.handler⟩
  | complete i outcome => exact sound.complete stepped
  | advance pooled => exact sound.advance stepped
  | expire =>
      obtain ⟨timeout, armed, rfl⟩ := Option.map_eq_some_iff.mp stepped
      exact sound.onTimeout armed
  | throw message response => exact sound.throwException stepped

def Quiescent (s : State) : Prop := s.thread = .idle ∧ s.ops = [] ∧ s.timer = none

theorem Over.invoked_le (done : s.Over) : s.invoked ≤ 1 := by
  rcases done with once | ⟨silent, -⟩
  · exact once.le
  · exact silent.le.trans (Nat.zero_le 1)

theorem Flagged.invoked_le (flagged : s.Flagged client) : s.invoked ≤ 1 := by
  rcases flagged with ⟨-, -, waiting⟩ | ⟨-, -, waiting, -⟩ | ⟨-, -, done⟩
  · exact waiting.1.le.trans (Nat.zero_le 1)
  · exact waiting.1.le.trans (Nat.zero_le 1)
  · exact done.invoked_le

theorem Sound.invoked_le (sound : s.Sound client) : s.invoked ≤ 1 := by
  have handler := sound.handler
  cases here : s.thread with
  | idle =>
      simp only [here] at handler
      rcases handler with ⟨-, -, done⟩ | ⟨-, flagged⟩
      · exact done.invoked_le
      · exact flagged.invoked_le
  | entered call op outcome | starting call op =>
      simp only [here] at handler
      exact handler.2.invoked_le
  | checking call op outcome | passed call op response =>
      simp only [here] at handler
      exact handler.2.1.invoked_le
  | failing call op code message | closing call op code message =>
      simp only [here] at handler
      exact handler.2.2.2.1.le.trans (Nat.zero_le 1)
  | calling call =>
      simp only [here] at handler
      exact handler.2.2.le

theorem Sound.reached {pooled : Bool} (external : client.ownsContext = false)
    (reached : Reached (State.step client) (fun _ _ => True) (fresh.execute client true pooled) s) :
    s.Sound client := by
  induction reached with
  | start => exact .start pooled
  | step _ _ stepped ih => exact ih.step external stepped

theorem callback_invoked_once (client : Client) (external : client.ownsContext = false) (pooled : Bool) (s : State)
    (reached : Reached (step client) (fun _ _ => True) (fresh.execute client true pooled) s) :
    s.invoked ≤ 1 ∧ s.attempt ≤ max 1 client.attemptsCount ∧
      (s.Quiescent → s.thrown = false → s.invoked = 1) := by
  have sound := Sound.reached external reached
  refine ⟨sound.invoked_le, sound.attempts, ?_⟩
  rintro ⟨idle, none, -⟩ clean
  have handler := sound.handler
  rw [idle] at handler
  rcases handler with ⟨-, -, done⟩ | ⟨⟨entry, single⟩, -⟩
  · rcases done with once | ⟨-, thrown⟩
    · exact once
    · rw [clean] at thrown
      cases thrown
  · rw [none] at single
    cases single

namespace Sample

def pair : Client := ⟨2, 1000, 500, text "host", false, false, fun _ => some .null⟩

def timedOutOnce : List Label :=
  [.advance false, .complete 0 fine, .advance false, .advance false, .advance false, .expire, .advance false,
    .complete 0 aborted, .advance false, .advance false, .advance false, .advance true, .advance true,
    .complete 0 fine, .advance true, .advance true, .advance true, .advance true, .complete 0 fine,
    .advance true, .advance true, .advance true, .advance true]

end Sample

theorem callback_invoked_once_after_timeout :
    ∃ s, Reached (step Sample.pair) (fun _ _ => True) (fresh.execute Sample.pair true false) s ∧
      s.Quiescent ∧ s.thrown = false ∧ s.attempt = 2 ∧ s.invoked = 1 := by
  have ran : runAllowed (step Sample.pair) (fun _ _ => True) (fresh.execute Sample.pair true false)
      Sample.timedOutOnce = some _ := rfl
  have reached := Reached.run .start ran
  have once := (callback_invoked_once _ rfl _ _ reached).2.2 ⟨rfl, rfl, rfl⟩ rfl
  exact ⟨_, reached, ⟨rfl, rfl, rfl⟩, rfl, rfl, once⟩

end State

end FullnodeClient.Net
