import FullnodeClient.Net.Callback

/-!
# How long a request takes

Every step of a request on the `io_context` of a session takes it nearer to its end: an attempt passes the
operations in one order, the timer expires once for each start, and the attempts are counted. What is
written to the host is written once in an attempt.
-/

namespace FullnodeClient.Net
open FullnodeClient.Lib FullnodeClient.Text FullnodeClient.Rpc

def Op.rank : Op → Nat
  | read => 0
  | write => 1
  | handshake => 2
  | connect => 3
  | resolve => 4

/-- What is left of an attempt at each place of a handler; eight steps at most are taken for an operation. -/
def Thread.price : Thread → Nat
  | idle => 0
  | calling _ => 1
  | passed _ op _ => 8 * op.rank + 3
  | closing _ op _ _ => 8 * op.rank + 4
  | failing _ op _ _ => 8 * op.rank + 5
  | checking _ op _ => 8 * op.rank + 6
  | entered _ op _ => 8 * op.rank + 7
  | starting _ op => 8 * op.rank + 9

namespace State

def opsPrice (ops : List (Nat × Op)) : Nat := (ops.map fun entry => 8 * entry.2.rank + 8).sum

def measure (client : Client) (s : State) : Nat :=
  48 * (client.attemptsCount - s.attempt) + s.thread.price + opsPrice s.ops + s.timer.isSome.toNat + s.running.toNat

variable {client : Client} {s t : State}

theorem opsPrice_eraseIdx {ops : List (Nat × Op)} {i : Nat} {entry : Nat × Op} (found : ops[i]? = some entry) :
    opsPrice (ops.eraseIdx i) + (8 * entry.2.rank + 8) = opsPrice ops := by
  induction ops generalizing i with
  | nil => simp at found
  | cons first ops ih =>
      cases i with
      | zero =>
          cases Option.some.inj found
          simp only [opsPrice, List.eraseIdx_cons_zero, List.map_cons, List.sum_cons]
          omega
      | succ i =>
          have rest := ih found
          simp only [opsPrice, List.eraseIdx_cons_succ, List.map_cons, List.sum_cons] at rest ⊢
          omega

theorem callBack_measure (client : Client) (call : Nat) (costly : 1 < s.thread.price) :
    (s.callBack client call).measure client < s.measure client := by
  have ended : Thread.idle.price = 0 := rfl
  have calling : (Thread.calling call).price = 1 := rfl
  unfold callBack
  split <;> simp only [measure, stopContext, ended, calling] <;> omega

theorem attemptOnce_measure (client : Client) (more : s.attempt < client.attemptsCount) (call : Nat) (pooled : Bool) :
    (s.attemptOnce call pooled).measure client < s.measure client := by
  have fewer : client.attemptsCount - (s.attempt + 1) + 1 = client.attemptsCount - s.attempt := by omega
  cases pooled with
  | true =>
      simp only [attemptOnce, measure, Thread.price, Op.rank, if_true, Option.isSome_some, Bool.toNat_true]
      omega
  | false =>
      simp only [attemptOnce, measure, Thread.price, Op.rank, Bool.false_eq_true, if_false]
      omega

theorem errorHandler_measure {call : Nat} {op : Op} {outcome : Outcome} (here : s.thread = .checking call op outcome) :
    (s.errorHandler call op outcome).measure client < s.measure client := by
  unfold errorHandler
  split
  · split <;> simp only [measure, here, Thread.price] <;> omega
  · split
    · simp only [measure, here, Thread.price]
      omega
    · split <;> simp only [measure, here, Thread.price] <;> omega

theorem advance_measure {pooled : Bool} (advanced : s.advance client pooled = some t) :
    t.measure client < s.measure client := by
  unfold State.advance at advanced
  cases here : s.thread with
  | idle => simp [here] at advanced
  | entered call op outcome =>
      simp only [here, Option.some.injEq] at advanced
      subst advanced
      have timer : (if op = .connect ∨ op = .read then none else s.timer).isSome.toNat ≤ s.timer.isSome.toNat := by
        split <;> simp
      simp only [measure, here, Thread.price]
      omega
  | checking call op outcome =>
      simp only [here, Option.some.injEq] at advanced
      exact advanced ▸ errorHandler_measure here
  | failing call op code message =>
      simp only [here, Option.some.injEq] at advanced
      subst advanced
      simp only [measure, here, Thread.price, Option.isSome_none, Bool.toNat_false]
      omega
  | closing call op code message =>
      simp only [here] at advanced
      split at advanced
      case isTrue more =>
        cases Option.some.inj advanced
        refine lt_of_lt_of_eq (attemptOnce_measure client ?_ call pooled) ?_
        exacts [more, by simp only [measure, here]]
      case isFalse =>
        cases Option.some.inj advanced
        refine lt_of_lt_of_eq (callBack_measure client call ?_) (by simp only [measure, here])
        simp only [Thread.price]
        omega
  | passed call op response =>
      simp only [here] at advanced
      cases op with
      | read =>
          cases Option.some.inj advanced
          refine lt_of_lt_of_eq (callBack_measure client call ?_) (by simp only [measure, here])
          simp only [Thread.price]
          omega
      | connect =>
          cases Option.some.inj advanced
          cases client.useSsl
          all_goals
            simp only [measure, here, Thread.price, Op.rank, Option.isSome_some, Bool.toNat_true,
              Bool.false_eq_true, if_true, if_false]
            omega
      | resolve | handshake | write =>
          cases Option.some.inj advanced
          simp only [measure, here, Thread.price, Op.rank, Option.isSome_some, Bool.toNat_true]
          omega
  | starting call op =>
      simp only [here, Option.some.injEq] at advanced
      subst advanced
      simp only [measure, here, Thread.price, opsPrice, List.map_append, List.map_cons, List.map_nil,
        List.sum_append, List.sum_cons, List.sum_nil]
      omega
  | calling call =>
      simp only [here, Option.some.injEq] at advanced
      subst advanced
      simp only [measure, here, Thread.price, stopContext]
      omega

theorem throwException_measure {message : Bytes} {response : Response}
    (threw : s.throwException client message response = some t) : t.measure client < s.measure client := by
  unfold State.throwException at threw
  cases here : s.thread with
  | idle | checking call op outcome => simp [here] at threw
  | entered call op outcome | passed call op response | starting call op | failing call op code text
  | closing call op code text | calling call =>
      simp only [here, Option.some.injEq] at threw
      subst threw
      simp only [measure, catchException, stopContext, here, Thread.price]
      omega

theorem onTimeout_measure {timeout : Timeout} (armed : s.timer = some timeout) :
    (s.onTimeout client timeout).measure client < s.measure client := by
  have running : (s.onTimeout client timeout).running = s.running := by
    simp only [State.onTimeout, performCallback, stopContext]
    repeat' split
    all_goals rfl
  simp [measure, running, armed]

theorem step_measure {label : Label} (external : client.ownsContext = false)
    (stepped : s.step client label = some t) : t.measure client < s.measure client := by
  cases label with
  | resetAttempts => simp [State.step, isOutside, external] at stepped
  | execute callback pooled => simp [State.step, isOutside, external] at stepped
  | leave =>
      simp only [State.step, Bool.and_eq_true, Option.ite_none_right_eq_some, Option.some.injEq] at stepped
      obtain ⟨⟨⟨running, -⟩, -⟩, rfl⟩ := stepped
      simp [measure, running]
  | complete i outcome =>
      simp only [State.step, Bool.and_eq_true, Option.ite_none_right_eq_some, Option.map_eq_some_iff] at stepped
      obtain ⟨⟨free, -⟩, entry, found, rfl⟩ := stepped
      have price := opsPrice_eraseIdx found
      simp only [measure, Thread.eq_idle free, Thread.price]
      omega
  | advance pooled => exact advance_measure stepped
  | expire =>
      obtain ⟨timeout, armed, rfl⟩ := Option.map_eq_some_iff.mp stepped
      exact onTimeout_measure armed
  | throw message response => exact throwException_measure stepped

theorem callBack_invoked {n : Nat} (client : Client) (call : Nat) (before : n ≤ s.invoked) :
    n ≤ (s.callBack client call).invoked := by
  unfold callBack
  split
  · exact before.trans (Nat.le_succ _)
  · exact before

theorem advance_invoked {pooled : Bool} (advanced : s.advance client pooled = some t) : s.invoked ≤ t.invoked := by
  unfold State.advance at advanced
  cases here : s.thread with
  | idle => simp [here] at advanced
  | checking call op outcome =>
      simp only [here, Option.some.injEq, errorHandler] at advanced
      subst advanced
      repeat' split
      all_goals exact le_rfl
  | closing call op code message =>
      simp only [here] at advanced
      split at advanced <;> cases Option.some.inj advanced
      · cases pooled <;> exact le_rfl
      · refine callBack_invoked client call ?_
        exact le_rfl
  | passed call op response =>
      simp only [here] at advanced
      cases op with
      | read =>
          cases Option.some.inj advanced
          refine callBack_invoked client call ?_
          exact le_rfl
      | _ =>
          cases Option.some.inj advanced
          exact le_rfl
  | _ =>
      simp only [here, Option.some.injEq] at advanced
      subst advanced
      exact le_rfl

theorem step_invoked {label : Label} (stepped : s.step client label = some t) : s.invoked ≤ t.invoked := by
  cases label with
  | resetAttempts | leave =>
      simp only [State.step, Option.ite_none_right_eq_some, Option.some.injEq] at stepped
      exact stepped.2 ▸ le_rfl
  | execute callback pooled =>
      simp only [State.step, Option.ite_none_right_eq_some, Option.some.injEq] at stepped
      cases pooled <;> exact stepped.2 ▸ le_rfl
  | complete i outcome =>
      simp only [State.step, Option.ite_none_right_eq_some, Option.map_eq_some_iff] at stepped
      obtain ⟨-, entry, -, rfl⟩ := stepped
      exact le_rfl
  | advance pooled => exact advance_invoked stepped
  | expire =>
      obtain ⟨timeout, -, rfl⟩ := Option.map_eq_some_iff.mp stepped
      simp only [State.onTimeout, performCallback, stopContext]
      repeat' split
      all_goals simp
  | throw message response =>
      simp only [State.step, State.throwException] at stepped
      split at stepped <;> cases stepped <;> exact le_rfl

theorem quiescent_of_stuck (external : client.ownsContext = false) (stuck : ∀ label, s.step client label = none) :
    s.Quiescent := by
  have idle : s.thread = .idle := by
    by_contra busy
    obtain ⟨t, advanced⟩ := advance_of_busy client false busy
    exact nomatch advanced.symm.trans (stuck (.advance false))
  refine ⟨idle, ?_, ?_⟩
  · have first := stuck (.complete 0 (.failed 0 []))
    simpa [State.step, idle, Thread.call, external] using first
  · simpa [State.step] using stuck .expire

theorem stuck_of_quiescent (external : client.ownsContext = false) (quiescent : s.Quiescent)
    (left : s.running = false) (label : Label) : s.step client label = none := by
  obtain ⟨idle, none, unset⟩ := quiescent
  cases label with
  | resetAttempts | execute callback pooled => simp [State.step, isOutside, external]
  | leave => simp [State.step, left]
  | complete i outcome => simp [State.step, none]
  | advance pooled => simp [State.step, State.advance, idle]
  | expire => simp [State.step, unset]
  | throw message response => simp [State.step, State.throwException, idle]

theorem execute_measure (client : Client) (external : client.ownsContext = false) (pooled : Bool) :
    (fresh.execute client true pooled).measure client ≤ 48 * max 1 client.attemptsCount := by
  cases pooled <;>
    simp [measure, execute, attemptOnce, fresh, external, Thread.price, Op.rank, opsPrice] <;> omega

theorem Sound.over_of_stuck (sound : s.Sound client) (external : client.ownsContext = false)
    (stuck : ∀ label, s.step client label = none) : s.Over := by
  obtain ⟨idle, none, -⟩ := quiescent_of_stuck external stuck
  have handler := sound.handler
  rw [idle] at handler
  rcases handler with ⟨-, -, ended⟩ | ⟨⟨entry, single⟩, -⟩
  · exact ended
  · rw [none] at single
    cases single

theorem request_terminates (client : Client) (external : client.ownsContext = false) (pooled : Bool)
    (labels : List Label) (s : State)
    (ran : runAllowed (step client) (fun _ _ => True) (fresh.execute client true pooled) labels = some s) :
    labels.length ≤ 48 * max 1 client.attemptsCount ∧
      (client.useSsl = false → (∀ label, s.step client label = none) →
        s.invoked = 1 ∨ s.invoked = 0 ∧ s.thrown = true) := by
  constructor
  · have bounded := length_le_of_decreases (measure client) (fun _ _ _ => step_measure external) ran
    have := execute_measure client external pooled
    omega
  · intro _ stuck
    exact (Sound.reached external (Reached.run .start ran)).over_of_stuck external stuck

theorem request_terminates_after_timeout :
    ∃ s, runAllowed (step Sample.pair) (fun _ _ => True) (fresh.execute Sample.pair true false) Sample.timedOutOnce =
      some s ∧ Sample.timedOutOnce.length ≤ 96 ∧ (∀ label, s.step Sample.pair label = none) ∧ s.invoked = 1 := by
  obtain ⟨s, ran, quiescent, left, clean⟩ : ∃ s, runAllowed (step Sample.pair) (fun _ _ => True)
      (fresh.execute Sample.pair true false) Sample.timedOutOnce = some s ∧ s.Quiescent ∧ s.running = false ∧
        s.thrown = false := ⟨_, rfl, ⟨rfl, rfl, rfl⟩, rfl, rfl⟩
  obtain ⟨bounded, ended⟩ := request_terminates _ rfl _ _ _ ran
  have stuck (label : Label) : s.step Sample.pair label = none := stuck_of_quiescent rfl quiescent left label
  refine ⟨s, ran, bounded, stuck, ?_⟩
  rcases ended rfl stuck with once | ⟨-, thrown⟩
  · exact once
  · rw [clean] at thrown
    cases thrown

/-! ## What is written -/

def isWriting (s : State) : Label → Bool
  | .advance _ =>
    match s.thread with
    | .starting _ .write => true
    | _ => false
  | _ => false

structure Writes where
  total : Nat
  attempt : Nat

def stepCounting (client : Client) (run : State × Writes) (label : Label) : Option (State × Writes) :=
  (run.1.step client label).map fun s =>
    let wrote := (run.1.isWriting label).toNat
    (s, ⟨run.2.total + wrote, if s.attempt = run.1.attempt then run.2.attempt + wrote else 0⟩)

def isAhead (s : State) : Bool :=
  match s.thread with
  | .idle => s.ops.any (1 < ·.2.rank)
  | .starting _ op => 0 < op.rank
  | .entered _ op _ | .checking _ op _ | .passed _ op _ | .failing _ op _ _ | .closing _ op _ _ => 1 < op.rank
  | .calling _ => false

def Accounts (s : State) (label : Label) (t : State) : Prop :=
  (s.isWriting label).toNat + t.isAhead.toNat + s.attempt ≤ s.isAhead.toNat + t.attempt

theorem Accounts.next {label : Label} (silent : s.isWriting label = false) (attempt : t.attempt = s.attempt + 1) :
    s.Accounts label t := by
  have := t.isAhead.toNat_le
  simp only [Accounts, silent, attempt, Bool.toNat_false]
  omega

theorem Accounts.behind {label : Label} (silent : s.isWriting label = false)
    (behind : t.isAhead = false ∧ t.attempt = s.attempt) : s.Accounts label t := by
  simp only [Accounts, silent, behind.1, behind.2, Bool.toNat_false]
  omega

theorem callBack_isAhead (client : Client) (call : Nat) (quiet : s.ops = []) :
    (s.callBack client call).isAhead = false ∧ (s.callBack client call).attempt = s.attempt := by
  unfold callBack
  split
  · exact ⟨rfl, rfl⟩
  · exact ⟨by simp [isAhead, stopContext, quiet], rfl⟩

theorem errorHandler_isAhead {call : Nat} {op : Op} {outcome : Outcome} (quiet : s.ops = [])
    (here : s.thread = .checking call op outcome) :
    (s.errorHandler call op outcome).isAhead.toNat ≤ s.isAhead.toNat ∧
      (s.errorHandler call op outcome).attempt = s.attempt := by
  unfold errorHandler
  split
  · split <;> exact ⟨by simp [isAhead, here], rfl⟩
  · split
    · exact ⟨by simp [isAhead, quiet], rfl⟩
    · split <;> exact ⟨by simp [isAhead, here], rfl⟩

theorem advance_accounts {pooled : Bool} (alone : s.thread ≠ .idle → s.ops = [])
    (advanced : s.advance client pooled = some t) : s.Accounts (.advance pooled) t := by
  have quiet := alone (advance_frame advanced).1
  unfold State.advance at advanced
  cases here : s.thread with
  | idle => simp [here] at advanced
  | entered call op outcome | failing call op code message =>
      simp only [here, Option.some.injEq] at advanced
      subst advanced
      simp [Accounts, isWriting, isAhead, here]
  | checking call op outcome =>
      simp only [here, Option.some.injEq] at advanced
      obtain ⟨ahead, attempt⟩ := errorHandler_isAhead quiet here
      rw [← advanced, Accounts, attempt]
      simp [isWriting, here, ahead]
  | closing call op code message =>
      simp only [here] at advanced
      split at advanced <;> cases Option.some.inj advanced
      · refine .next (by simp [isWriting, here]) ?_
        cases pooled <;> rfl
      · exact .behind (by simp [isWriting, here]) (callBack_isAhead client call quiet)
  | passed call op response =>
      simp only [here] at advanced
      cases op with
      | read =>
          cases Option.some.inj advanced
          exact .behind (by simp [isWriting, here]) (callBack_isAhead client call quiet)
      | connect =>
          cases Option.some.inj advanced
          cases ssl : client.useSsl <;> simp [Accounts, isWriting, isAhead, here, Op.rank]
      | resolve | handshake | write =>
          cases Option.some.inj advanced
          simp [Accounts, isWriting, isAhead, here, Op.rank]
  | starting call op =>
      simp only [here, Option.some.injEq] at advanced
      subst advanced
      cases op <;> simp [Accounts, isWriting, isAhead, here, quiet, Op.rank]
  | calling call =>
      simp only [here, Option.some.injEq] at advanced
      subst advanced
      simp [Accounts, isWriting, isAhead, here, quiet, stopContext]

theorem throwException_accounts {message : Bytes} {response : Response} (alone : s.thread ≠ .idle → s.ops = [])
    (threw : s.throwException client message response = some t) : s.Accounts (.throw message response) t := by
  unfold State.throwException at threw
  cases here : s.thread with
  | idle | checking call op outcome => simp [here] at threw
  | entered call op outcome | passed call op response | starting call op | calling call =>
      have quiet := alone (by simp [here])
      simp only [here, Option.some.injEq] at threw
      subst threw
      exact .behind rfl ⟨by simp [isAhead, catchException, stopContext, quiet], rfl⟩
  | failing call op code text | closing call op code text =>
      simp only [here, Option.some.injEq] at threw
      subst threw
      simp [Accounts, isWriting, isAhead, here, catchException]

theorem Sound.alone (sound : s.Sound client) (busy : s.thread ≠ .idle) : s.ops = [] := by
  have handler := sound.handler
  cases here : s.thread with
  | idle => exact absurd here busy
  | _ =>
      rw [here] at handler
      exact handler.1

theorem Sound.accounts {label : Label} (external : client.ownsContext = false) (sound : s.Sound client)
    (stepped : s.step client label = some t) : s.Accounts label t := by
  cases label with
  | resetAttempts => simp [State.step, isOutside, external] at stepped
  | execute callback pooled => simp [State.step, isOutside, external] at stepped
  | leave =>
      simp only [State.step, Option.ite_none_right_eq_some, Option.some.injEq] at stepped
      rw [← stepped.2]
      simp [Accounts, isWriting, isAhead]
  | complete i outcome =>
      simp only [State.step, Bool.and_eq_true, Option.ite_none_right_eq_some, Option.map_eq_some_iff] at stepped
      obtain ⟨⟨free, -⟩, entry, found, rfl⟩ := stepped
      have ahead : decide (1 < entry.2.rank) = true → s.isAhead = true := by
        intro early
        simp only [isAhead, Thread.eq_idle free, List.any_eq_true]
        exact ⟨entry, List.mem_of_getElem? found, early⟩
      have le := Bool.toNat_le_toNat ahead
      simp only [Accounts, isWriting, Bool.toNat_false]
      exact Nat.add_le_add_right ((Nat.zero_add _).le.trans le) _
  | advance pooled => exact advance_accounts sound.alone stepped
  | expire =>
      obtain ⟨timeout, armed, rfl⟩ := Option.map_eq_some_iff.mp stepped
      simp [Accounts, isWriting, isAhead]
  | throw message response => exact throwException_accounts sound.alone stepped

structure Paid (client : Client) (run : State × Writes) : Prop where
  sound : run.1.Sound client
  total : run.2.total + run.1.isAhead.toNat ≤ run.1.attempt
  attempt : run.2.attempt + run.1.isAhead.toNat ≤ 1

theorem Paid.step {run run' : State × Writes} {label : Label} (external : client.ownsContext = false)
    (paid : Paid client run) (stepped : stepCounting client run label = some run') : Paid client run' := by
  obtain ⟨t, moved, rfl⟩ := Option.map_eq_some_iff.mp stepped
  have accounts := paid.sound.accounts external moved
  have total := paid.total
  have attempt := paid.attempt
  have ahead := t.isAhead.toNat_le
  simp only [Accounts] at accounts
  refine ⟨paid.sound.step external moved, ?_, ?_⟩
  · dsimp only
    omega
  · dsimp only
    split <;> omega

theorem Paid.reached {pooled : Bool} {run : State × Writes} (external : client.ownsContext = false)
    (reached : Reached (stepCounting client) (fun _ _ => True) (fresh.execute client true pooled, ⟨0, 0⟩) run) :
    Paid client run := by
  induction reached with
  | start =>
      refine ⟨.start pooled, ?_, ?_⟩ <;> cases pooled <;> exact le_rfl
  | step _ _ stepped ih => exact ih.step external stepped

theorem request_written_once_per_attempt (client : Client) (external : client.ownsContext = false) (pooled : Bool)
    (s : State) (writes : Writes)
    (reached : Reached (stepCounting client) (fun _ _ => True) (fresh.execute client true pooled, ⟨0, 0⟩) (s, writes)) :
    writes.attempt ≤ 1 ∧ writes.total ≤ s.attempt ∧ s.attempt ≤ max 1 client.attemptsCount := by
  have paid := Paid.reached external reached
  exact ⟨Nat.le_of_add_right_le paid.attempt, Nat.le_of_add_right_le paid.total, paid.sound.attempts⟩

theorem request_written_after_timeout :
    ∃ s, Reached (stepCounting Sample.pair) (fun _ _ => True) (fresh.execute Sample.pair true false, ⟨0, 0⟩)
        (s, ⟨1, 1⟩) ∧
      s.attempt = 2 ∧ 1 ≤ s.attempt ∧ s.attempt ≤ 2 := by
  have ran : runAllowed (stepCounting Sample.pair) (fun _ _ => True) (fresh.execute Sample.pair true false, ⟨0, 0⟩)
      Sample.timedOutOnce = some (_, ⟨1, 1⟩) := rfl
  have reached := Reached.run .start ran
  exact ⟨_, reached, rfl, (request_written_once_per_attempt _ rfl _ _ _ reached).2⟩

end State

end FullnodeClient.Net
