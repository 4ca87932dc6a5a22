import FullnodeClient.Net.Connecting
import FullnodeClient.Net.Stock

/-!
# Handshakes

A request to an `https` host with the connections its `m_ssl_socket` gets: it opens them, or the pool has
them. `close` shuts the TLS session down but not the connection below it, which stays in `m_ssl_socket`
without the pool and goes to the pool with it. A connection is known by the number under which it was
opened, which stands for its handle.
-/

namespace FullnodeClient.Net
open FullnodeClient.Lib FullnodeClient.Text

structure Setup (κ : Type) where
  client : Client
  self : κ
  enabled : Bool
  settings : PoolSettings

structure Tls (κ : Type) where
  request : State
  pool : Pool κ
  -- The connection in the lowest layer of `m_ssl_socket`.
  holds : Option Int
  -- How many connections have been opened, by this request or others.
  opened : Nat
  -- The connections for which `on_handshake` has been called without an error.
  shaken : List Int
  -- What `m_ssl_socket` held when each of the operations of the request was started.
  targets : List (Option Int)

def PoolEvent.client {κ : Type} : PoolEvent κ → Option κ
  | .checkout client _ | .assign client _ | .checkin client _ => some client
  | .sweep _ => none

def PoolEvent.isOpened {κ : Type} (opened : Nat) : PoolEvent κ → Bool
  | .assign _ socket => socket < opened
  | _ => true

namespace Tls

variable {κ : Type} [DecidableEq κ]

def fresh : Tls κ := ⟨.fresh, .initial, none, 0, [], []⟩

def close (setup : Setup κ) (now : Int) (tls : Tls κ) : Tls κ :=
  if setup.enabled then
    let assigned := tls.pool.step setup.settings (.assign setup.self (tls.holds.getD (-1)))
    match assigned.bind (·.step setup.settings (.checkin setup.self now)) with
    | some pool => { tls with pool := pool, holds := none }
    | none => tls
  else tls

def checkout (setup : Setup κ) (tls : Tls κ) : Pool κ :=
  let (pool, object) := tls.pool.checkout setup.settings setup.client.host
  pool.hold setup.self object

def offered (setup : Setup κ) (tls : Tls κ) : Option Int := do
  let pool := tls.checkout setup
  let object ← pool.held setup.self
  let it ← pool.busy.find? (·.node = object)
  if it.socket = -1 then none else some it.socket

/-- What `execute` does about a connection. With `pooled` the pool has one and it can be used: nothing is in
`m_ssl_socket`, and the connection has a remote endpoint. -/
def take (setup : Setup κ) (pooled : Bool) (tls : Tls κ) : Option (Tls κ) :=
  if setup.enabled then
    match tls.offered setup, pooled with
    | some socket, true =>
      if tls.holds.isNone then some { tls with pool := tls.checkout setup, holds := some socket } else none
    | some _, false => some { tls with pool := tls.checkout setup, holds := none }
    | none, true => none
    | none, false => some { tls with pool := tls.checkout setup }
  else if pooled then none else some tls

/-- A step of the request. Also a request with an `io_context` of others is executed from outside. -/
def requestStep (client : Client) (s : State) : State.Label → Option State
  | .resetAttempts => if !s.running && s.thread.call.isNone then some { s with attempt := 0 } else none
  | .execute callback pooled =>
    if !s.running && s.thread.call.isNone then some (s.execute client callback pooled) else none
  | label => s.step client label

def socketStep (setup : Setup κ) (now : Int) (tls : Tls κ) : State.Label → Option (Tls κ)
  | .resetAttempts | .leave => some tls
  | .execute _ pooled => tls.take setup pooled
  | .complete i outcome =>
    let tls' := { tls with targets := tls.targets.eraseIdx i }
    match tls.request.ops[i]?, outcome with
    | some (_, .handshake), .succeeded _ => some { tls' with shaken := tls.shaken ++ (tls.targets.getD i none).toList }
    | _, _ => some tls'
  | .advance pooled =>
    match tls.request.thread with
    | .closing _ _ _ _ =>
      let tls := tls.close setup now
      if tls.request.attempt < setup.client.attemptsCount then tls.take setup pooled else some tls
    | .passed _ .read _ => some (tls.close setup now)
    -- `async_connect` closes what the socket holds and opens a new connection.
    | .starting _ .connect =>
      some { tls with
        holds := some tls.opened
        opened := tls.opened + 1
        targets := tls.targets ++ [some (tls.opened : Int)] }
    | .starting _ _ => some { tls with targets := tls.targets ++ [tls.holds] }
    | _ => some tls
  | .expire => some (if tls.request.canceled then tls else tls.close setup now)
  | .throw _ _ => some (tls.close setup now)

inductive Label (κ : Type)
  | request (label : State.Label) (now : Int)
  | other (event : PoolEvent κ)
  | opened

def step (setup : Setup κ) (tls : Tls κ) : Label κ → Option (Tls κ)
  | .request label now =>
    match requestStep setup.client tls.request label, tls.socketStep setup now label with
    | some request, some tls' => some { tls' with request := request }
    | _, _ => none
  | .other event =>
    if event.client = some setup.self || !event.isOpened tls.opened then none
    else (tls.pool.step setup.settings event).map fun pool => { tls with pool := pool }
  | .opened => some { tls with opened := tls.opened + 1 }

variable {setup : Setup κ} {tls tls' : Tls κ}

theorem step_cases {label : Label κ} (stepped : tls.step setup label = some tls') :
    (∃ move now request moved, label = .request move now ∧ requestStep setup.client tls.request move = some request ∧
      tls.socketStep setup now move = some moved ∧ tls' = { moved with request := request }) ∨
    (∃ event pool, label = .other event ∧ event.client ≠ some setup.self ∧
      tls.pool.step setup.settings event = some pool ∧ tls' = { tls with pool := pool }) ∨
    tls' = { tls with opened := tls.opened + 1 } := by
  cases label with
  | request move now =>
      simp only [step] at stepped
      split at stepped <;> cases stepped
      case h_1 request moved requested sockets => exact .inl ⟨move, now, request, moved, rfl, requested, sockets, rfl⟩
  | other event =>
      simp only [step, Bool.or_eq_true, decide_eq_true_eq] at stepped
      split at stepped
      · cases stepped
      case isFalse permitted =>
        obtain ⟨pool, next, rfl⟩ := Option.map_eq_some_iff.mp stepped
        exact .inr (.inl ⟨event, pool, rfl, fun same => permitted (.inl same), next, rfl⟩)
  | opened =>
      cases stepped
      exact .inr (.inr rfl)

/-- `on_handshake` has reported success for the connection that `m_ssl_socket` holds, if it holds one. -/
def Secured (tls : Tls κ) : Prop := ∀ c ∈ tls.holds, c ∈ tls.shaken

instance (tls : Tls κ) : Decidable tls.Secured := inferInstanceAs (Decidable (∀ c ∈ tls.holds, c ∈ tls.shaken))

def Safe (tls : Tls κ) : Prop := ∀ call, tls.request.thread = .starting call .write → tls.Secured

end Tls

def Thread.inErrorHandler : Thread → Bool
  | .failing _ _ _ _ | .closing _ _ _ _ => true
  | _ => false

namespace Tls

variable {κ : Type} [DecidableEq κ]

/-- The request is executed when nothing of it is outstanding, and no exception is thrown in `error_handler`. With the
pool, no other client uses the host, and while the request connects nothing fails, no timer expires and nothing is
thrown. -/
def Careful (setup : Setup κ) (tls : Tls κ) : Label κ → Prop
  | .request (.execute _ _) _ => tls.request.ops.isEmpty = true
  | .request (.complete i outcome) _ =>
    setup.enabled = true → (tls.request.ops[i]?).any (·.2.opens) = true → outcome.isSuccess = true
  | .request .expire _ => setup.enabled = true → tls.request.isConnecting = false
  | .request (.throw _ _) _ =>
    tls.request.thread.inErrorHandler = false ∧ (setup.enabled = true → tls.request.isConnecting = false)
  | .other (.checkout _ host) => setup.enabled = true → cStr host ≠ setup.client.host
  | _ => True

instance (setup : Setup κ) (tls : Tls κ) : (label : Label κ) → Decidable (tls.Careful setup label)
  | .request (.execute _ _) _ => inferInstanceAs (Decidable (tls.request.ops.isEmpty = true))
  | .request (.complete i outcome) _ =>
    inferInstanceAs (Decidable (_ → (tls.request.ops[i]?).any (·.2.opens) = true → outcome.isSuccess = true))
  | .request .expire _ => inferInstanceAs (Decidable (_ → tls.request.isConnecting = false))
  | .request (.throw _ _) _ => inferInstanceAs (Decidable (_ ∧ (_ → tls.request.isConnecting = false)))
  | .other (.checkout _ host) => inferInstanceAs (Decidable (_ → cStr host ≠ setup.client.host))
  | .request .resetAttempts _ | .request .leave _ | .request (.advance _) _ => instDecidableTrue
  | .other (.assign _ _) | .other (.checkin _ _) | .other (.sweep _) | .opened => instDecidableTrue

variable {setup : Setup κ} {tls tls' : Tls κ}

theorem close_frame (setup : Setup κ) (now : Int) (tls : Tls κ) :
    (tls.close setup now).request = tls.request ∧ (tls.close setup now).shaken = tls.shaken ∧
      (tls.close setup now).targets = tls.targets ∧
      ((tls.close setup now).holds = tls.holds ∨ (tls.close setup now).holds = none) := by
  unfold close
  split
  · dsimp only
    split
    · exact ⟨rfl, rfl, rfl, .inr rfl⟩
    · exact ⟨rfl, rfl, rfl, .inl rfl⟩
  · exact ⟨rfl, rfl, rfl, .inl rfl⟩

theorem take_frame {pooled : Bool} (taken : tls.take setup pooled = some tls') :
    tls'.request = tls.request ∧ tls'.shaken = tls.shaken ∧ tls'.targets = tls.targets ∧
      (setup.enabled = true ∧ (∀ c ∈ tls'.holds, c ∈ tls.offered setup) ∨
        pooled = false ∧ (tls'.holds = tls.holds ∨ tls'.holds = none)) := by
  unfold take at taken
  split at taken
  case isTrue enabled =>
    split at taken
    case h_1 socket offer =>
      split at taken <;> cases taken
      exact ⟨rfl, rfl, rfl, .inl ⟨enabled, fun c held => by rw [offer]; exact held⟩⟩
    case h_2 => cases taken; exact ⟨rfl, rfl, rfl, .inr ⟨rfl, .inr rfl⟩⟩
    case h_3 => cases taken
    case h_4 => cases taken; exact ⟨rfl, rfl, rfl, .inr ⟨rfl, .inl rfl⟩⟩
  case isFalse =>
    split at taken <;> cases taken
    case isFalse fresh => exact ⟨rfl, rfl, rfl, .inr ⟨Bool.eq_false_iff.mpr fresh, .inl rfl⟩⟩

def Known (setup : Setup κ) (tls : Tls κ) : Prop := setup.enabled = true → ∀ c ∈ tls.offered setup, c ∈ tls.shaken

theorem take_secured {pooled : Bool} (taken : tls.take setup pooled = some tls') (known : tls.Known setup)
    (secured : pooled = true ∨ tls.Secured) : tls'.Secured := by
  obtain ⟨-, shaken, -, ⟨enabled, offered⟩ | ⟨fresh, holds⟩⟩ := take_frame taken
  · intro c held
    rw [shaken]
    exact known enabled c (offered c held)
  · rcases secured with pooled | secured
    · rw [fresh] at pooled
      cases pooled
    · intro c held
      rw [shaken]
      rcases holds with same | none
      · exact secured c (same ▸ held)
      · rw [none] at held
        cases held

/-! ## The invariant -/

end Tls

def Thread.writes : Thread → Bool
  | .entered _ op outcome | .checking _ op outcome => op = .handshake && outcome.isSuccess
  | .passed _ op _ => op = .handshake
  | .starting _ op => op = .write
  | _ => false

theorem Thread.writes_entered {call : Nat} {op : Op} {outcome : Outcome}
    (writes : (entered call op outcome).writes = true) : op = .handshake ∧ ∃ response, outcome = .succeeded response := by
  simp only [Thread.writes, Bool.and_eq_true, decide_eq_true_eq] at writes
  refine ⟨writes.1, ?_⟩
  cases outcome with
  | succeeded response => exact ⟨response, rfl⟩
  | failed code message => cases writes.2

theorem State.errorHandler_writes {s : State} {call : Nat} {op : Op} {outcome : Outcome}
    (writes : (s.errorHandler call op outcome).thread.writes = true) :
    (Thread.checking call op outcome).writes = true := by
  unfold State.errorHandler at writes
  split at writes
  · split at writes <;> cases writes
  · split at writes
    · cases writes
    · split at writes
      · cases writes
      · simpa [Thread.writes, Outcome.isSuccess] using writes

theorem State.attemptOnce_writes {s : State} {call : Nat} {pooled : Bool}
    (writes : (s.attemptOnce call pooled).thread.writes = true) : pooled = true := by
  cases pooled with
  | false => cases writes
  | true => rfl

theorem State.callBack_writes (client : Client) (call : Nat) (s : State) :
    (s.callBack client call).thread.writes = false := by
  unfold State.callBack
  split <;> rfl

namespace Tls

variable {κ : Type} {tls tls' : Tls κ}

/-- At most one operation is outstanding, and none while a handler runs; a handshake is for the connection that
is held, and a handler that goes on to write holds one with a handshake. -/
structure Shaking (tls : Tls κ) : Prop where
  alone : tls.request.thread ≠ .idle → tls.request.ops = []
  few : tls.request.ops.length ≤ 1
  aligned : tls.targets.length = tls.request.ops.length
  pending : ∀ call, tls.request.ops = [(call, .handshake)] → tls.targets = [tls.holds] ∨ tls.holds = none
  ready : tls.request.thread.writes = true → tls.Secured

theorem Shaking.safe (shaking : tls.Shaking) : tls.Safe := by
  intro call here
  apply shaking.ready
  rw [here]
  rfl

theorem not_safe {call : Nat} {c : Int} (here : tls.request.thread = .starting call .write) (held : tls.holds = some c)
    (unknown : c ∉ tls.shaken) : ¬ tls.Safe := fun safe => unknown (safe call here c held)

theorem Shaking.fresh : (fresh : Tls κ).Shaking where
  alone := fun busy => absurd rfl busy
  few := Nat.zero_le _
  aligned := rfl
  pending := fun call only => by cases only
  ready := fun writes => absurd writes Bool.false_ne_true

theorem Shaking.of_quiet (quiet : tls.request.ops = []) (targets : tls.targets = [])
    (ready : tls.request.thread.writes = true → tls.Secured) : tls.Shaking where
  alone := fun _ => quiet
  few := by simp [quiet]
  aligned := by simp [quiet, targets]
  pending := by simp [quiet]
  ready := ready

theorem Shaking.targets_nil (shaking : tls.Shaking) (quiet : tls.request.ops = []) : tls.targets = [] := by
  rw [← List.length_eq_zero_iff, shaking.aligned, quiet, List.length_nil]

theorem Shaking.only {i : Nat} {entry : Nat × Op} (shaking : tls.Shaking)
    (found : tls.request.ops[i]? = some entry) : tls.request.ops = [entry] ∧ i = 0 := by
  have few := shaking.few
  have inside := (List.getElem?_eq_some_iff.mp found).1
  obtain rfl : i = 0 := by omega
  obtain ⟨only, ops⟩ := List.length_eq_one_iff.mp (show tls.request.ops.length = 1 by omega)
  rw [ops] at found ⊢
  exact ⟨by simpa using found, rfl⟩

theorem Shaking.move (shaking : tls.Shaking) (busy : tls.request.thread ≠ .idle)
    (ops : tls'.request.ops = tls.request.ops) (targets : tls'.targets = tls.targets)
    (ready : tls'.request.thread.writes = true → tls'.Secured) : tls'.Shaking := by
  have quiet := shaking.alone busy
  exact .of_quiet (ops.trans quiet) (targets.trans (shaking.targets_nil quiet)) ready

theorem Shaking.lose (shaking : tls.Shaking) (thread : tls'.request.thread = tls.request.thread)
    (ops : tls'.request.ops = tls.request.ops) (shaken : tls'.shaken = tls.shaken)
    (targets : tls'.targets = tls.targets) (holds : tls'.holds = tls.holds ∨ tls'.holds = none) : tls'.Shaking := by
  refine ⟨?_, ?_, ?_, ?_, ?_⟩
  · rw [thread, ops]
    exact shaking.alone
  · rw [ops]
    exact shaking.few
  · rw [ops, targets]
    exact shaking.aligned
  · rw [ops, targets]
    intro call outstanding
    obtain same | lost := holds
    · rw [same]
      exact shaking.pending call outstanding
    · exact .inr lost
  · rw [thread]
    intro writes c held
    obtain same | lost := holds
    · rw [shaken]
      exact shaking.ready writes c (same ▸ held)
    · rw [lost] at held
      cases held

theorem advance_ops {client : Client} {request : State} {pooled : Bool}
    (stepped : tls.request.advance client pooled = some request)
    (going : ∀ call op, tls.request.thread ≠ .starting call op) : request.ops = tls.request.ops := by
  obtain ⟨-, -, -, ⟨call, op, here, -⟩ | ⟨ops, -⟩⟩ := State.advance_frame stepped
  · exact absurd here (going call op)
  · exact ops

variable [DecidableEq κ] {setup : Setup κ} {request : State}

theorem Shaking.execute {pooled : Bool} (shaking : tls.Shaking) (quiet : tls.request.ops = [])
    (known : tls.Known setup) (callback : Bool) (taken : tls.take setup pooled = some tls') :
    ({ tls' with request := tls.request.execute setup.client callback pooled } : Tls κ).Shaking := by
  obtain ⟨-, -, targets, -⟩ := take_frame taken
  have ops : (tls.request.execute setup.client callback pooled).ops = tls.request.ops := by cases pooled <;> rfl
  refine .of_quiet (ops.trans quiet) (targets.trans (shaking.targets_nil quiet)) fun writes => ?_
  have secured : tls'.Secured := take_secured taken known (.inl (State.attemptOnce_writes writes))
  exact secured

theorem Shaking.complete {i : Nat} {outcome : Outcome} {now : Int} (shaking : tls.Shaking)
    (stepped : tls.request.step setup.client (.complete i outcome) = some request)
    (moved : tls.socketStep setup now (.complete i outcome) = some tls') :
    ({ tls' with request := request } : Tls κ).Shaking := by
  simp only [State.step] at stepped
  split at stepped
  case isFalse => cases stepped
  case isTrue =>
    obtain ⟨⟨call, op⟩, found, rfl⟩ := Option.map_eq_some_iff.mp stepped
    obtain ⟨ops, rfl⟩ := shaking.only found
    obtain ⟨target, targets⟩ : ∃ target, tls.targets = [target] := by
      rw [← List.length_eq_one_iff, shaking.aligned, ops, List.length_singleton]
    have quiet : tls.request.ops.eraseIdx 0 = [] := by rw [ops]; rfl
    have cleared : tls'.targets = [] := by
      simp only [socketStep] at moved
      split at moved <;> cases moved <;> simp [targets]
    refine Shaking.of_quiet quiet cleared ?_
    intro writes c held
    obtain ⟨rfl, response, rfl⟩ := Thread.writes_entered writes
    simp only [socketStep, ops, targets, List.getElem?_cons_zero, List.getD_cons_zero, Option.some.injEq] at moved
    subst moved
    obtain pending | lost := shaking.pending call ops
    · rw [targets] at pending
      apply List.mem_append_right
      rw [(List.cons.inj pending).1]
      exact Option.mem_toList.mpr held
    · change c ∈ tls.holds at held
      rw [lost] at held
      cases held

section
variable {pooled : Bool} {now : Int} {call : Nat} {op : Op}

theorem Shaking.closing {code : Nat} {message : Bytes} (shaking : tls.Shaking)
    (here : tls.request.thread = .closing call op code message)
    (known : tls.request.isConnecting = false → (tls.close setup now).Known setup)
    (stepped : tls.request.advance setup.client pooled = some request)
    (moved : tls.socketStep setup now (.advance pooled) = some tls') :
    ({ tls' with request := request } : Tls κ).Shaking := by
  have busy : tls.request.thread ≠ .idle := by simp [here]
  have ops := advance_ops stepped (by simp [here])
  obtain ⟨same, -, targets, -⟩ := close_frame setup now tls
  simp only [State.advance, here] at stepped
  simp only [socketStep, here, same] at moved
  split at stepped
  case isFalse last =>
    rw [if_neg last] at moved
    cases moved
    cases stepped
    refine shaking.move busy ops targets fun writes => ?_
    rw [State.callBack_writes] at writes
    cases writes
  case isTrue again =>
    rw [if_pos again] at moved
    cases stepped
    obtain ⟨-, -, targets', -⟩ := take_frame moved
    refine shaking.move busy ops (targets'.trans targets) fun writes => ?_
    have apart : tls.request.isConnecting = false := by
      simp [State.isConnecting, here, Thread.isConnecting, shaking.alone busy]
    have secured : tls'.Secured := take_secured moved (known apart) (.inl (State.attemptOnce_writes writes))
    exact secured

theorem Shaking.passed {response : Response} (ssl : setup.client.useSsl = true) (shaking : tls.Shaking)
    (here : tls.request.thread = .passed call op response)
    (stepped : tls.request.advance setup.client pooled = some request)
    (moved : tls.socketStep setup now (.advance pooled) = some tls') :
    ({ tls' with request := request } : Tls κ).Shaking := by
  have busy : tls.request.thread ≠ .idle := by simp [here]
  have ops := advance_ops stepped (by simp [here])
  have ready := shaking.ready
  simp only [State.advance, here] at stepped
  simp only [socketStep, here] at moved
  cases op with
  | read =>
      obtain ⟨-, -, targets, -⟩ := close_frame setup now tls
      cases stepped
      cases moved
      refine shaking.move busy ops targets fun writes => ?_
      rw [State.callBack_writes] at writes
      cases writes
  | handshake =>
      rw [here] at ready
      cases stepped
      cases moved
      exact shaking.move busy rfl rfl fun _ => ready rfl
  | resolve | connect | write =>
      simp only [ssl, Option.some.injEq] at stepped moved
      subst stepped moved
      exact shaking.move busy rfl rfl fun writes => absurd writes Bool.false_ne_true

theorem Shaking.starting (shaking : tls.Shaking) (here : tls.request.thread = .starting call op)
    (stepped : tls.request.advance setup.client pooled = some request)
    (moved : tls.socketStep setup now (.advance pooled) = some tls') :
    ({ tls' with request := request } : Tls κ).Shaking := by
  have quiet := shaking.alone (by simp [here])
  simp only [State.advance, here, Option.some.injEq, quiet] at stepped
  simp only [socketStep, here, shaking.targets_nil quiet] at moved
  subst stepped
  cases op with
  | connect =>
      cases moved
      refine ⟨fun busy => absurd rfl busy, le_rfl, rfl, fun _ only => ?_, fun writes => absurd writes Bool.false_ne_true⟩
      cases only
  | resolve | handshake | write | read =>
      cases moved
      exact ⟨fun busy => absurd rfl busy, le_rfl, rfl, fun _ _ => .inl rfl,
        fun writes => absurd writes Bool.false_ne_true⟩

theorem Shaking.advance (ssl : setup.client.useSsl = true) (shaking : tls.Shaking)
    (known : tls.request.isConnecting = false → (tls.close setup now).Known setup)
    (stepped : tls.request.advance setup.client pooled = some request)
    (moved : tls.socketStep setup now (.advance pooled) = some tls') :
    ({ tls' with request := request } : Tls κ).Shaking := by
  have ready := shaking.ready
  cases here : tls.request.thread with
  | idle => exact absurd here (State.advance_frame stepped).1
  | entered call op outcome =>
      simp only [State.advance, socketStep, here, Option.some.injEq] at stepped moved ready
      subst stepped moved
      exact shaking.move (by simp [here]) rfl rfl ready
  | checking call op outcome =>
      have ops := advance_ops stepped (by simp [here])
      simp only [State.advance, socketStep, here, Option.some.injEq] at stepped moved ready
      subst stepped moved
      exact shaking.move (by simp [here]) ops rfl fun writes => ready (State.errorHandler_writes writes)
  | failing call op code message | calling call =>
      simp only [State.advance, socketStep, here, Option.some.injEq] at stepped moved
      subst stepped moved
      exact shaking.move (by simp [here]) rfl rfl fun writes => absurd writes Bool.false_ne_true
  | closing call op code message => exact shaking.closing here known stepped moved
  | passed call op response => exact shaking.passed ssl here stepped moved
  | starting call op => exact shaking.starting here stepped moved

end

theorem Shaking.throw {message : Bytes} {response : Response} {now : Int} (shaking : tls.Shaking)
    (outside : tls.request.thread.inErrorHandler = false)
    (stepped : tls.request.throwException setup.client message response = some request) :
    ({ tls.close setup now with request := request } : Tls κ).Shaking := by
  obtain ⟨-, -, targets, -⟩ := close_frame setup now tls
  have busy : tls.request.thread ≠ .idle := by
    intro idle
    simp [State.throwException, idle] at stepped
  unfold State.throwException at stepped
  cases here : tls.request.thread with
  | idle => exact absurd here busy
  | checking call op outcome => simp [here] at stepped
  | entered call op outcome | passed call op response | starting call op | calling call =>
      simp only [here, Option.some.injEq] at stepped
      subst stepped
      exact shaking.move busy rfl targets fun writes => absurd writes Bool.false_ne_true
  | failing call op code message | closing call op code message =>
      rw [here] at outside
      cases outside

end Tls

namespace Tls

/-! ## With the pool -/

section
variable {κ : Type} {setup : Setup κ} {tls : Tls κ} {request : State}

structure Stocked (setup : Setup κ) (tls : Tls κ) : Prop where
  unbroken : tls.request.Unbroken
  settled : tls.request.isConnecting = false → tls.Secured
  keeps : tls.pool.Keeps setup.settings setup.client.host setup.self (· ∈ tls.shaken)

theorem Stocked.fresh : (fresh : Tls κ).Stocked setup where
  unbroken := .of_apart rfl rfl
  settled := fun _ c held => by cases held
  keeps := ⟨.initial, by simp [Tls.fresh, Pool.initial, Pool.entries], by simp [Tls.fresh, Pool.initial]⟩

theorem Stocked.kept (stocked : tls.Stocked setup) (unbroken : request.Unbroken)
    (connecting : tls.request.isConnecting = true → request.isConnecting = true) :
    ({ tls with request := request } : Tls κ).Stocked setup where
  unbroken := unbroken
  settled apart := by
    have secured : tls.Secured := by
      refine stocked.settled (Bool.eq_false_iff.mpr fun connects => ?_)
      rw [show request.isConnecting = false from apart] at connecting
      cases connecting connects
    exact secured
  keeps := stocked.keeps
end

variable {κ : Type} [DecidableEq κ] {setup : Setup κ} {tls tls' : Tls κ} {request : State}

theorem known_of_keeps (keeps : tls.pool.Keeps setup.settings setup.client.host setup.self (· ∈ tls.shaken)) :
    tls.Known setup := by
  intro _ c offer
  simp only [offered, checkout] at offer
  obtain ⟨object, held, offer⟩ := Option.bind_eq_some_iff.mp offer
  obtain ⟨found, first, offer⟩ := Option.bind_eq_some_iff.mp offer
  rcases keeps.sound.checkout_entry setup.client.host with ⟨refused, -⟩ | ⟨it, given, -, source, -, busy, -⟩
  · simp [Pool.hold, refused] at held
  · obtain rfl : it.node = object := by simpa [Pool.hold, given] using held
    obtain rfl : it = found := by simpa [Pool.hold, busy] using first
    split at offer
    · cases offer
    case isFalse opened =>
      cases offer
      rcases source with ⟨inside, ep⟩ | closed
      · exact (keeps.stock it (List.mem_append_left _ inside) ep).resolve_left opened
      · exact absurd closed opened

theorem close_keeps (secured : tls.Secured)
    (keeps : tls.pool.Keeps setup.settings setup.client.host setup.self (· ∈ tls.shaken)) (now : Int) :
    (tls.close setup now).pool.Keeps setup.settings setup.client.host setup.self (· ∈ tls.shaken) := by
  unfold close
  split
  · dsimp only
    split
    case h_1 pool closed =>
      obtain ⟨assigned, first, second⟩ := Option.bind_eq_some_iff.mp closed
      have fits : tls.holds.getD (-1) = -1 ∨ tls.holds.getD (-1) ∈ tls.shaken := by
        cases held : tls.holds with
        | none => exact .inl rfl
        | some c => exact .inr (secured c held)
      have assigns : (PoolEvent.assign setup.self (tls.holds.getD (-1))).Fits setup.client.host setup.self
          (· ∈ tls.shaken) := fun _ => fits
      have returns : (PoolEvent.checkin setup.self now).Fits setup.client.host setup.self (· ∈ tls.shaken) := trivial
      exact (keeps.step assigns first).step returns second
    case h_2 => exact keeps
  · exact keeps

theorem take_keeps {pooled : Bool} {known : Int → Prop} (taken : tls.take setup pooled = some tls')
    (keeps : tls.pool.Keeps setup.settings setup.client.host setup.self known) :
    tls'.pool.Keeps setup.settings setup.client.host setup.self known := by
  have own : setup.self = setup.self ∨ cStr setup.client.host ≠ setup.client.host := .inl rfl
  have checked := keeps.checkout own
  unfold take at taken
  split at taken
  · split at taken
    case h_1 => split at taken <;> cases taken; exact checked
    case h_2 | h_4 => cases taken; exact checked
    case h_3 => cases taken
  · split at taken <;> cases taken
    exact keeps

theorem close_secured (secured : tls.Secured) (now : Int) : (tls.close setup now).Secured := by
  obtain ⟨-, shaken, -, same | lost⟩ := close_frame setup now tls
  · intro c held
    rw [shaken]
    exact secured c (same ▸ held)
  · intro c held
    rw [lost] at held
    cases held

theorem Stocked.close_known (stocked : tls.Stocked setup) (apart : tls.request.isConnecting = false) (now : Int) :
    (tls.close setup now).Known setup := by
  refine known_of_keeps ?_
  rw [(close_frame setup now tls).2.1]
  exact close_keeps (stocked.settled apart) stocked.keeps now

theorem Stocked.closed (stocked : tls.Stocked setup) (apart : tls.request.isConnecting = false)
    (unbroken : request.Unbroken) (now : Int) : ({ tls.close setup now with request := request } : Tls κ).Stocked setup where
  unbroken := unbroken
  settled _ := by
    have secured : (tls.close setup now).Secured := close_secured (stocked.settled apart) now
    exact secured
  keeps := by
    dsimp only
    rw [(close_frame setup now tls).2.1]
    exact close_keeps (stocked.settled apart) stocked.keeps now

theorem Stocked.execute {pooled : Bool} (stocked : tls.Stocked setup) (apart : tls.request.isConnecting = false)
    (unbroken : request.Unbroken) (taken : tls.take setup pooled = some tls') :
    ({ tls' with request := request } : Tls κ).Stocked setup where
  unbroken := unbroken
  settled _ := by
    have secured : tls'.Secured := take_secured taken (known_of_keeps stocked.keeps) (.inr (stocked.settled apart))
    exact secured
  keeps := by
    dsimp only
    rw [(take_frame taken).2.1]
    exact take_keeps taken stocked.keeps

theorem Stocked.complete {i : Nat} {outcome : Outcome} {now : Int} (stocked : tls.Stocked setup)
    (shaking : tls.Shaking) (shaken : ({ tls' with request := request } : Tls κ).Shaking)
    (fine : (tls.request.ops[i]?).any (·.2.opens) = true → outcome.isSuccess = true)
    (stepped : tls.request.step setup.client (.complete i outcome) = some request)
    (moved : tls.socketStep setup now (.complete i outcome) = some tls') :
    ({ tls' with request := request } : Tls κ).Stocked setup := by
  simp only [State.step] at stepped
  split at stepped
  case isFalse => cases stepped
  case isTrue free =>
    obtain ⟨⟨call, op⟩, found, rfl⟩ := Option.map_eq_some_iff.mp stepped
    obtain ⟨ops, rfl⟩ := shaking.only found
    have idle : tls.request.thread = .idle := Thread.eq_idle (Bool.and_eq_true_iff.mp free).1
    have before : tls.request.isConnecting = op.opens := by
      simp [State.isConnecting, idle, ops, Thread.isConnecting]
    rw [found] at fine
    obtain ⟨pool, holds, more⟩ : tls'.pool = tls.pool ∧ tls'.holds = tls.holds ∧ ∀ c ∈ tls.shaken, c ∈ tls'.shaken := by
      simp only [socketStep] at moved
      split at moved <;> cases moved
      · exact ⟨rfl, rfl, fun c => List.mem_append_left _⟩
      · exact ⟨rfl, rfl, fun c => id⟩
    have after : ({ tls.request with thread := .entered call op outcome, ops := tls.request.ops.eraseIdx 0 } :
        State).isConnecting = (Thread.entered call op outcome).isConnecting := State.isConnecting_eq (by simp [ops])
    refine ⟨⟨fun connecting => ?_, ?_⟩, fun apart => ?_, ?_⟩
    · rw [after] at connecting
      refine stocked.unbroken.calm (before.trans ?_)
      cases op with
      | connect => rfl
      | _ => cases connecting
    · cases opens : op.opens with
      | false => simp [Thread.isBroken, opens]
      | true => simp [Thread.isBroken, fine opens]
    · rw [after] at apart
      cases op with
      | connect => cases apart
      | handshake => exact shaken.ready (by simp [Thread.writes, fine rfl])
      | resolve | write | read =>
          intro c held
          exact more c (stocked.settled before c (holds ▸ held))
    · dsimp only
      rw [pool]
      exact stocked.keeps.mono more

theorem Stocked.advance {pooled : Bool} {now : Int} (ssl : setup.client.useSsl = true) (stocked : tls.Stocked setup)
    (shaking : tls.Shaking) (stepped : tls.request.advance setup.client pooled = some request)
    (moved : tls.socketStep setup now (.advance pooled) = some tls') :
    ({ tls' with request := request } : Tls κ).Stocked setup := by
  have quiet := shaking.alone (State.advance_frame stepped).1
  obtain ⟨unbroken, connecting⟩ := stocked.unbroken.advance ssl quiet stepped
  have kept := stocked.kept unbroken connecting
  have apart (away : tls.request.thread.isConnecting = false) : tls.request.isConnecting = false :=
    (State.isConnecting_eq quiet).trans away
  simp only [socketStep] at moved
  split at moved
  case h_1 here =>
    replace apart := apart (by rw [here]; rfl)
    have same := (close_frame setup now tls).1
    have unbroken' : (tls.close setup now).request.Unbroken := by
      rw [same]
      exact stocked.unbroken
    have closed : (tls.close setup now).Stocked setup := stocked.closed apart unbroken' now
    rw [same] at moved
    split at moved
    · exact closed.execute (by rw [same]; exact apart) unbroken moved
    · cases moved
      exact stocked.closed apart unbroken now
  case h_2 here =>
    cases moved
    exact stocked.closed (apart (by rw [here]; rfl)) unbroken now
  case h_3 here =>
    cases moved
    refine ⟨unbroken, fun apart => ?_, kept.keeps⟩
    have before : tls.request.isConnecting = true := by simp [State.isConnecting, here, Thread.isConnecting]
    rw [show request.isConnecting = true from connecting before] at apart
    cases apart
  case h_4 | h_5 =>
    cases moved
    exact ⟨kept.unbroken, kept.settled, kept.keeps⟩

theorem Stocked.throw {message : Bytes} {response : Response} (stocked : tls.Stocked setup) (shaking : tls.Shaking)
    (outside : tls.request.thread.inErrorHandler = false) (apart : tls.request.isConnecting = false)
    (stepped : tls.request.throwException setup.client message response = some request) (now : Int) :
    ({ tls.close setup now with request := request } : Tls κ).Stocked setup := by
  have busy : tls.request.thread ≠ .idle := by
    intro idle
    simp [State.throwException, idle] at stepped
  have quiet := shaking.alone busy
  refine stocked.closed apart ?_ now
  unfold State.throwException at stepped
  cases here : tls.request.thread with
  | idle => exact absurd here busy
  | checking call op outcome => simp [here] at stepped
  | entered call op outcome | passed call op response | starting call op | calling call =>
      simp only [here, Option.some.injEq] at stepped
      subst stepped
      exact .of_apart (State.isConnecting_eq quiet) rfl
  | failing call op code message | closing call op code message =>
      rw [here] at outside
      cases outside

structure Steady (setup : Setup κ) (tls : Tls κ) : Prop where
  shaking : tls.Shaking
  stocked : setup.enabled = true → tls.Stocked setup

theorem Steady.known (steady : tls.Steady setup) : tls.Known setup := fun enabled =>
  known_of_keeps (steady.stocked enabled).keeps enabled

theorem Steady.requested {label : State.Label} {now : Int} (ssl : setup.client.useSsl = true)
    (steady : tls.Steady setup) (careful : tls.Careful setup (.request label now))
    (stepped : requestStep setup.client tls.request label = some request)
    (moved : tls.socketStep setup now label = some tls') :
    ({ tls' with request := request } : Tls κ).Steady setup := by
  have known := steady.known
  obtain ⟨shaking, stocked⟩ := steady
  cases label with
  | resetAttempts =>
      simp only [requestStep] at stepped
      split at stepped <;> cases stepped
      cases moved
      exact ⟨shaking.lose rfl rfl rfl rfl (.inl rfl),
        fun enabled => (stocked enabled).kept ⟨(stocked enabled).unbroken.calm, (stocked enabled).unbroken.clean⟩ id⟩
  | execute callback pooled =>
      simp only [requestStep] at stepped
      split at stepped
      case isFalse => cases stepped
      case isTrue free =>
        cases stepped
        have quiet : tls.request.ops = [] := List.isEmpty_iff.mp careful
        have idle : tls.request.thread = .idle := Thread.eq_idle (Bool.and_eq_true_iff.mp free).2
        refine ⟨shaking.execute quiet known callback moved, fun enabled => ?_⟩
        refine (stocked enabled).execute (by rw [State.isConnecting_eq quiet, idle]; rfl) ?_ moved
        cases pooled <;> exact .of_apart (State.isConnecting_eq quiet) rfl
  | leave =>
      simp only [requestStep, State.step] at stepped
      split at stepped <;> cases stepped
      cases moved
      exact ⟨shaking.lose rfl rfl rfl rfl (.inl rfl),
        fun enabled => (stocked enabled).kept ⟨(stocked enabled).unbroken.calm, (stocked enabled).unbroken.clean⟩ id⟩
  | complete i outcome =>
      have shaken := shaking.complete stepped moved
      exact ⟨shaken, fun enabled => (stocked enabled).complete shaking shaken (careful enabled) stepped moved⟩
  | advance pooled =>
      exact ⟨shaking.advance ssl (fun apart enabled => (stocked enabled).close_known apart now enabled) stepped moved,
        fun enabled => (stocked enabled).advance ssl shaking stepped moved⟩
  | expire =>
      obtain ⟨timeout, -, rfl⟩ := Option.map_eq_some_iff.mp stepped
      obtain ⟨thread, ops, -⟩ := State.onTimeout_frame setup.client timeout tls.request
      obtain ⟨-, shaken, targets, holds⟩ := close_frame setup now tls
      have unbroken (enabled : setup.enabled = true) : (tls.request.onTimeout setup.client timeout).Unbroken := by
        refine .of_apart ?_ (thread ▸ (stocked enabled).unbroken.clean)
        rw [State.isConnecting, thread, ops]
        exact careful enabled
      simp only [socketStep, Option.some.injEq] at moved
      subst moved
      split
      · refine ⟨shaking.lose thread ops rfl rfl (.inl rfl), fun enabled => (stocked enabled).kept (unbroken enabled) ?_⟩
        rw [careful enabled]
        exact fun connecting => absurd connecting Bool.false_ne_true
      · exact ⟨shaking.lose thread ops shaken targets holds,
          fun enabled => (stocked enabled).closed (careful enabled) (unbroken enabled) now⟩
  | throw message response =>
      cases moved
      exact ⟨shaking.throw careful.1 stepped,
        fun enabled => (stocked enabled).throw shaking careful.1 (careful.2 enabled) stepped now⟩

theorem Steady.step {label : Label κ} (ssl : setup.client.useSsl = true) (steady : tls.Steady setup)
    (careful : tls.Careful setup label) (stepped : tls.step setup label = some tls') : tls'.Steady setup := by
  obtain ⟨move, now, request, moved, rfl, requested, sockets, rfl⟩ | ⟨event, pool, rfl, other, next, rfl⟩ | rfl :=
    step_cases stepped
  · exact steady.requested ssl careful requested sockets
  · refine ⟨steady.shaking.lose rfl rfl rfl rfl (.inl rfl), fun enabled => ?_⟩
    obtain ⟨unbroken, settled, keeps⟩ := steady.stocked enabled
    refine ⟨unbroken, settled, keeps.step ?_ next⟩
    cases event with
    | checkout client host => exact .inr (careful enabled)
    | assign client socket => exact fun same => absurd (congrArg some same) other
    | checkin client now | sweep now => trivial
  · refine ⟨steady.shaking.lose rfl rfl rfl rfl (.inl rfl), fun enabled => ?_⟩
    obtain ⟨unbroken, settled, keeps⟩ := steady.stocked enabled
    exact ⟨unbroken, settled, keeps⟩

theorem Steady.reached (ssl : setup.client.useSsl = true)
    (reached : Reached (Tls.step setup) (Careful setup) Tls.fresh tls) : tls.Steady setup := by
  induction reached with
  | start => exact ⟨.fresh, fun _ => .fresh⟩
  | step _ careful stepped ih => exact ih.step ssl careful stepped

theorem write_after_handshake (setup : Setup κ) (ssl : setup.client.useSsl = true) (tls : Tls κ)
    (reached : Reached (step setup) (Careful setup) fresh tls) : tls.Safe :=
  (Steady.reached ssl reached).shaking.safe

namespace Sample

def https (enabled : Bool) (attemptsCount : Nat) : Setup Unit where
  client := ⟨attemptsCount, 5000, 1000, text "https://a", true, true, fun _ => none⟩
  self := ()
  enabled := enabled
  settings := ⟨1, 60⟩

def go : Label Unit := .request (.advance false) 0

def done (i : Nat) : Label Unit := .request (.complete i State.Sample.fine) 0

def failed : Label Unit := .request (.complete 0 State.Sample.aborted) 0

def connected : List (Label Unit) :=
  [.request (.execute true false) 0, go] ++ [done 0, go, go, go, go] ++ [done 0, go, go, go, go]

def reused : List (Label Unit) :=
  connected ++ [done 0, go, go, go, go] ++ [done 0, go, go, go, go] ++ [done 0, go, go, go, go] ++
    [.request .leave 0, .request .resetAttempts 0, .request (.execute true true) 0]

def pooled : List (Label Unit) := connected ++ [failed, go, go, go, .request (.advance true) 0]

def thrown : List (Label Unit) := connected ++ [failed, go, go, .request (.throw [] ⟨0, []⟩) 0, go]

def stale : List (Label Unit) :=
  connected ++ [.request .expire 0, .request .leave 0, .request .resetAttempts 0] ++
    [.request (.execute true false) 0, go, done 1, go, go, go, go, done 0, go, go, go]

end Sample

theorem reused_after_handshake :
    ∃ tls, Reached (step (Sample.https true 1)) (Careful (Sample.https true 1)) fresh tls ∧
      tls.request.thread = .starting 2 .write ∧ tls.holds = some 0 ∧ tls.Safe := by
  have ran : runAllowed (step (Sample.https true 1)) (Careful (Sample.https true 1)) fresh Sample.reused = some _ := rfl
  have reached := Reached.run .start ran
  exact ⟨_, reached, rfl, rfl, write_after_handshake (Sample.https true 1) rfl _ reached⟩

/-- By way of the pool, of an exception, and of an operation that an earlier call left. -/
theorem write_without_handshake :
    (∃ tls, Reached (step (Sample.https true 2)) (fun _ _ => True) fresh tls ∧ tls.holds = some 0 ∧ tls.shaken = [] ∧
      ¬ tls.Safe) ∧
    (∃ tls, Reached (step (Sample.https false 1)) (fun _ _ => True) fresh tls ∧ tls.holds = some 0 ∧ tls.shaken = [] ∧
      ¬ tls.Safe) ∧
    ∃ tls, Reached (step (Sample.https false 1)) (fun _ _ => True) fresh tls ∧ tls.holds = some 1 ∧ tls.shaken = [0] ∧
      ¬ tls.Safe := by
  have pooled : runAllowed (step (Sample.https true 2)) (fun _ _ => True) fresh Sample.pooled = some _ := rfl
  have thrown : runAllowed (step (Sample.https false 1)) (fun _ _ => True) fresh Sample.thrown = some _ := rfl
  have stale : runAllowed (step (Sample.https false 1)) (fun _ _ => True) fresh Sample.stale = some _ := rfl
  refine ⟨⟨_, Reached.run .start pooled, rfl, rfl, ?_⟩, ⟨_, Reached.run .start thrown, rfl, rfl, ?_⟩,
    ⟨_, Reached.run .start stale, rfl, rfl, ?_⟩⟩
  · exact not_safe (c := 0) rfl rfl (by decide)
  · exact not_safe (c := 0) rfl rfl (by decide)
  · exact not_safe (c := 1) rfl rfl (by decide)

end Tls

end FullnodeClient.Net
