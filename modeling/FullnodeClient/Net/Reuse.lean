import FullnodeClient.Net.Request

/-!
# Requests that are used again

A request with an `io_context` of its own, used for any sequence of `reset_attempts` and `execute`: what
a handler of an earlier call does to a later one.
-/

namespace FullnodeClient.Net
open FullnodeClient.Lib FullnodeClient.Text FullnodeClient.Rpc

namespace State

def Stale (s : State) : Label → Prop
  | .advance _ | .throw _ _ => ∃ call, s.thread.call = some call ∧ call < s.calls
  | .complete i _ => ∃ entry, s.ops[i]? = some entry ∧ entry.1 < s.calls
  | _ => False

structure Untouched (s t : State) : Prop where
  attempt : t.attempt = s.attempt
  canceled : t.canceled = s.canceled
  result : t.result = s.result
  connection : t.connection = s.connection

def Undisturbed (client : Client) (s : State) : Prop :=
  ∀ label t, s.step client label = some t → s.Stale label → Untouched s t

def Timely (client : Client) (s : State) : Label → Prop
  | .execute _ _ => s.attempt = 0
  | .expire => s.canceled = true ∨ s.attempt < client.attemptsCount
  | _ => True

instance (client : Client) (s : State) : (label : Label) → Decidable (Timely client s label)
  | .execute _ _ => inferInstanceAs (Decidable (_ = _))
  | .expire => inferInstanceAs (Decidable (_ ∨ _))
  | .resetAttempts | .leave | .complete _ _ | .advance _ | .throw _ _ => instDecidableTrue

structure Tidy (s : State) : Prop where
  alone : s.thread ≠ .idle → s.ops = []
  few : s.ops.length ≤ 1
  current : ∀ entry ∈ s.ops, entry.1 = s.calls
  handler : ∀ call, s.thread.call = some call → call = s.calls
  ended : s.stopped = true ∨ s.running = false → s.ops = [] ∧ s.thread = .idle

variable {client : Client} {s t : State}

theorem Tidy.undisturbed (tidy : s.Tidy) : s.Undisturbed client := by
  intro label t _ stale
  cases label with
  | advance pooled | throw message response =>
      obtain ⟨call, running, earlier⟩ := stale
      exact absurd (tidy.handler call running) earlier.ne
  | complete i outcome =>
      obtain ⟨entry, found, earlier⟩ := stale
      exact absurd (tidy.current entry (List.mem_of_getElem? found)) earlier.ne
  | resetAttempts | execute callback pooled | leave | expire => exact stale.elim

theorem Tidy.move (tidy : s.Tidy) (busy : s.thread ≠ .idle) (ops : t.ops = s.ops) (calls : t.calls = s.calls)
    (stopped : t.stopped = s.stopped) (running : t.running = s.running)
    (call : t.thread.call = s.thread.call) : t.Tidy := by
  have none := tidy.alone busy
  refine ⟨fun _ => ops.trans none, ?_, ?_, ?_, ?_⟩
  · simp [ops, none]
  · simp [ops, none]
  · rw [call, calls]
    exact tidy.handler
  · rw [stopped, running]
    exact fun ended => absurd (tidy.ended ended).2 busy

theorem Tidy.finish (tidy : s.Tidy) (busy : s.thread ≠ .idle) (ops : t.ops = s.ops) (idle : t.thread = .idle) :
    t.Tidy := by
  have none := ops.trans (tidy.alone busy)
  exact ⟨fun _ => none, by simp [none], by simp [none], by simp [idle, Thread.call], fun _ => ⟨none, idle⟩⟩

theorem Tidy.advance {pooled : Bool} (tidy : s.Tidy) (advanced : s.advance client pooled = some t) : t.Tidy := by
  obtain ⟨busy, calls, running, ⟨call, op, -, ops, idle, stopped⟩ | ⟨ops, idle | ⟨call, stopped⟩⟩⟩ :=
    advance_frame advanced
  · have none := tidy.alone busy
    rw [none, List.nil_append] at ops
    refine ⟨fun same => absurd idle same, by simp [ops], by simp [ops, calls], by simp [idle, Thread.call], ?_⟩
    rw [stopped, running]
    exact fun ended => absurd (tidy.ended ended).2 busy
  · exact tidy.finish busy ops idle
  · exact tidy.move busy ops calls stopped running call

theorem Tidy.throwException {message : Bytes} {response : Response} (tidy : s.Tidy)
    (threw : s.throwException client message response = some t) : t.Tidy := by
  have busy : s.thread ≠ .idle := by
    intro idle
    simp [State.throwException, idle] at threw
  unfold State.throwException at threw
  cases here : s.thread with
  | idle => exact absurd here busy
  | checking call op outcome => simp [here] at threw
  | failing call op code text | closing call op code text =>
      simp only [here, Option.some.injEq] at threw
      subst threw
      exact tidy.move busy rfl rfl rfl rfl (by rw [here]; rfl)
  | entered call op outcome | starting call op | passed call op response | calling call =>
      simp only [here, Option.some.injEq] at threw
      subst threw
      exact tidy.finish busy rfl rfl

theorem Tidy.complete {i : Nat} {outcome : Outcome} (own : client.ownsContext = true) (tidy : s.Tidy)
    (completed : s.step client (.complete i outcome) = some t) : t.Tidy := by
  simp only [State.step, own, Bool.and_eq_true, Bool.not_true, Bool.false_or, Bool.not_eq_true',
    Option.ite_none_right_eq_some, Option.map_eq_some_iff] at completed
  obtain ⟨⟨free, inside, going⟩, entry, found, rfl⟩ := completed
  have none : s.ops.eraseIdx i = [] := by
    have bound := (List.getElem?_eq_some_iff.mp found).1
    apply List.eq_nil_of_length_eq_zero
    have few := tidy.few
    rw [List.length_eraseIdx_of_lt bound]
    omega
  refine ⟨fun _ => none, by simp [none], by simp [none], ?_, ?_⟩
  · rintro call same
    cases Option.some.inj same
    exact tidy.current entry (List.mem_of_getElem? found)
  · simp [inside, going]

theorem Tidy.onTimeout {timeout : Timeout} (tidy : s.Tidy)
    (early : s.canceled = true ∨ s.attempt < client.attemptsCount) : (s.onTimeout client timeout).Tidy := by
  unfold State.onTimeout
  split
  · exact ⟨tidy.alone, tidy.few, tidy.current, tidy.handler, tidy.ended⟩
  case isFalse going =>
    rw [if_pos (early.resolve_left going)]
    exact ⟨tidy.alone, tidy.few, tidy.current, tidy.handler, tidy.ended⟩

theorem Tidy.execute {callback pooled : Bool} (own : client.ownsContext = true) (tidy : s.Tidy)
    (outside : s.running = false) (reset : s.attempt = 0) : (s.execute client callback pooled).Tidy := by
  have none := (tidy.ended (.inr outside)).1
  unfold State.execute attemptOnce
  cases pooled <;> exact ⟨fun _ => none, by simp [none], by simp [none],
    fun call same => (Option.some.inj same).symm, by simp [own, reset]⟩

theorem Tidy.step {label : Label} (own : client.ownsContext = true) (tidy : s.Tidy) (timely : s.Timely client label)
    (stepped : s.step client label = some t) : t.Tidy := by
  cases label with
  | resetAttempts =>
      simp only [State.step, Option.ite_none_right_eq_some, Option.some.injEq] at stepped
      exact stepped.2 ▸ ⟨tidy.alone, tidy.few, tidy.current, tidy.handler, tidy.ended⟩
  | execute callback pooled =>
      simp only [State.step, isOutside, Bool.and_eq_true, Bool.not_eq_true', Option.ite_none_right_eq_some,
        Option.some.injEq] at stepped
      obtain ⟨⟨⟨-, outside⟩, -⟩, rfl⟩ := stepped
      exact tidy.execute own outside timely
  | leave =>
      simp only [State.step, Bool.and_eq_true, Bool.or_eq_true, List.isEmpty_iff, Option.ite_none_right_eq_some,
        Option.some.injEq] at stepped
      obtain ⟨⟨⟨-, free⟩, done⟩, rfl⟩ := stepped
      have none : s.ops = [] := by
        rcases done with stopped | none
        · exact (tidy.ended (.inl stopped)).1
        · exact none
      exact ⟨tidy.alone, tidy.few, tidy.current, tidy.handler, fun _ => ⟨none, Thread.eq_idle free⟩⟩
  | complete i outcome => exact tidy.complete own stepped
  | advance pooled => exact tidy.advance stepped
  | expire =>
      obtain ⟨timeout, -, rfl⟩ := Option.map_eq_some_iff.mp stepped
      exact tidy.onTimeout timely
  | throw message response => exact tidy.throwException stepped

theorem reused_request_starts_clean (client : Client) (own : client.ownsContext = true) (s : State)
    (reached : Reached (step client) (Timely client) fresh s) : s.Undisturbed client := by
  have tidy : s.Tidy := by
    induction reached with
    | start => exact ⟨fun _ => rfl, Nat.zero_le 1, nofun, nofun, fun _ => ⟨rfl, rfl⟩⟩
    | step _ timely stepped ih => exact ih.step own timely stepped
  exact tidy.undisturbed

namespace Sample

def single : Client := ⟨1, 1000, 500, text "host", false, true, fun _ => some .null⟩

def answered : List Label :=
  [.resetAttempts, .execute true true, .advance true, .complete 0 fine, .advance true, .advance true, .advance true,
    .advance true, .complete 0 fine, .advance true, .advance true, .advance true, .advance true, .leave]

def timedOut : List Label :=
  [.resetAttempts, .execute true true, .advance true, .complete 0 fine, .advance true, .advance true, .advance true,
    .advance true, .expire, .leave, .resetAttempts, .execute true true, .advance true, .complete 0 aborted,
    .advance true]

end Sample

theorem reused_request_starts_clean_twice :
    ∃ s, Reached (step Sample.single) (Timely Sample.single) fresh s ∧ s.calls = 2 ∧ s.invoked = 2 ∧
      s.Undisturbed Sample.single := by
  have ran : runAllowed (step Sample.single) (Timely Sample.single) fresh
      (Sample.answered ++ Sample.answered) = some _ := rfl
  have reached := Reached.run .start ran
  exact ⟨_, reached, rfl, rfl, reused_request_starts_clean _ rfl _ reached⟩

theorem earlier_handler_cancels_later_call :
    ∃ s t, Reached (step Sample.single) (fun _ _ => True) fresh s ∧ s.Stale (.advance true) ∧
      s.step Sample.single (.advance true) = some t ∧ s.canceled = false ∧ t.canceled = true ∧
      ¬s.Undisturbed Sample.single := by
  have ran : runAllowed (step Sample.single) (fun _ _ => True) fresh Sample.timedOut = some _ := rfl
  refine ⟨_, _, Reached.run .start ran, ⟨1, rfl, by decide⟩, rfl, rfl, rfl, fun undisturbed => ?_⟩
  have kept := (undisturbed (.advance true) _ rfl ⟨1, rfl, by decide⟩).canceled
  cases kept

end State

end FullnodeClient.Net
