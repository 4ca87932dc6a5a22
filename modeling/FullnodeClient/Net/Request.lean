import FullnodeClient.Lib.Log
import FullnodeClient.Rpc.Json

/-!
# Requests to other hosts

`http_json_rpc_request.cpp`. The handlers of the I/O operations run one after the other, cut here at
the points where the timer can come between; `on_timeout` runs under the lock in one step, and
`Timer::stop` waits for it. Every operation and every handler is kept with the number of the call of
`execute` that started it.
-/

namespace FullnodeClient.Net
open FullnodeClient.Lib FullnodeClient.Text FullnodeClient.Rpc

inductive Op
  | resolve
  | connect
  | handshake
  | write
  | read
deriving DecidableEq

def Op.handler : Op → Bytes
  | resolve => text "on_resolve"
  | connect => text "on_connect"
  | handshake => text "on_handshake"
  | write => text "on_write"
  | read => text "on_read"

inductive Timeout
  | request
  | connection
deriving DecidableEq

inductive Connection
  | closed
  | connecting
  | connected
deriving DecidableEq

structure Response where
  status : Nat
  body : Bytes

inductive Outcome
  | failed (code : Nat) (message : Bytes)
  | succeeded (response : Response)

structure Client where
  attemptsCount : Nat
  timeout : Nat
  connTimeout : Nat
  host : Bytes
  useSsl : Bool
  ownsContext : Bool
  parse : Bytes → Option Json

inductive Thread
  | idle
  | entered (call : Nat) (op : Op) (outcome : Outcome)
  | checking (call : Nat) (op : Op) (outcome : Outcome)
  -- `error_handler` has unlocked and has to stop the timer, and then to close the connection.
  | failing (call : Nat) (op : Op) (code : Nat) (message : Bytes)
  | closing (call : Nat) (op : Op) (code : Nat) (message : Bytes)
  | passed (call : Nat) (op : Op) (response : Response)
  | starting (call : Nat) (op : Op)
  -- The callback has been called, and `m_callback` is still set.
  | calling (call : Nat)

def Thread.call : Thread → Option Nat
  | idle => none
  | entered call _ _ | checking call _ _ | failing call _ _ _ | closing call _ _ _ | passed call _ _
  | starting call _ | calling call => some call

theorem Thread.eq_idle {thread : Thread} (free : thread.call.isNone = true) : thread = .idle := by
  cases thread with
  | idle => rfl
  | _ => cases free

structure State where
  attempt : Nat
  canceled : Bool
  rerun : Bool
  callback : Bool
  result : Json
  connection : Connection
  timer : Option Timeout
  thread : Thread
  -- The operations that are outstanding or have their handlers queued.
  ops : List (Nat × Op)
  stopped : Bool
  running : Bool
  calls : Nat
  invoked : Nat
  thrown : Bool

namespace State

def fresh : State :=
  ⟨0, false, false, false, Writer.initial, .closed, none, .idle, [], false, false, 0, 0, false⟩

/-! ## Steps -/

def stopContext (client : Client) (s : State) : State := { s with stopped := s.stopped || client.ownsContext }

def performCallback (s : State) : State :=
  if s.callback then { s with invoked := s.invoked + 1, callback := false } else s

/-- `execute` up to the start of its first operation. With `pooled` the pool has a connection. -/
def attemptOnce (call : Nat) (pooled : Bool) (s : State) : State :=
  let s := { s with attempt := s.attempt + 1, canceled := false, result := Writer.reset s.result }
  if pooled then { s with timer := some .request, connection := .connected, thread := .starting call .write }
  else { s with thread := .starting call .resolve }

def execute (client : Client) (callback pooled : Bool) (s : State) : State :=
  let first := client.ownsContext && s.attempt == 0
  { attemptOnce (s.calls + 1) pooled s with
    callback := callback || s.callback
    calls := s.calls + 1
    stopped := !first && s.stopped
    running := first || s.running }

def timeoutMessage (client : Client) : Timeout → Bytes
  | .request => text "Json-rpc timeout " ++ decimal client.timeout ++ text " ms"
  | .connection => text "Json-rpc connection timeout " ++ decimal client.connTimeout ++ text " ms"

-- `close(true)` comes back here. With an `https` host it waits for the peer to end its session.
def onTimeout (client : Client) (timeout : Timeout) (s : State) : State :=
  if s.canceled then { s with timer := none }
  else
    let s := { s with timer := none, canceled := true, connection := .closed }
    if s.attempt < client.attemptsCount then { s with rerun := true }
    else
      let error := Writer.setError (-32603) (timeoutMessage client timeout) s.result
      ({ s with result := Writer.addErrorData (text "host") (.str client.host) error }.performCallback).stopContext client

/-- `perform_callback` in a handler, which is not under the lock. -/
def callBack (client : Client) (call : Nat) (s : State) : State :=
  if s.callback then { s with invoked := s.invoked + 1, thread := .calling call }
  else { s.stopContext client with thread := .idle }

def errorHandler (call : Nat) (op : Op) (outcome : Outcome) (s : State) : State :=
  if s.rerun then
    match outcome with
    | .failed code message =>
      { s with rerun := false, canceled := true, thread := .failing call op code message }
    | .succeeded _ => { s with rerun := false, canceled := true, thread := .failing call op 0 (text "Success") }
  else if s.canceled then { s with thread := .idle }
  else match outcome with
    | .failed code message => { s with canceled := true, thread := .failing call op code message }
    | .succeeded response => { s with thread := .passed call op response }

def failed (client : Client) (op : Op) (code : Nat) (message : Bytes) (result : Json) : Json :=
  Writer.addErrorData (text "host") (.str client.host) (Writer.addErrorData (text "where") (.str op.handler)
    (Writer.setError (-32603) (text "Json-rpc error " ++ decimal code ++ text " : " ++ message) result))

def received (client : Client) (response : Response) (result : Json) : Json :=
  match client.parse response.body with
  | some doc => doc
  -- A body that does not parse leaves the document as it was.
  | none =>
    if response.status = 200 then result
    else Writer.setError (-32603) (text "Incorrect response http status: " ++ decimal response.status) result

def advance (client : Client) (pooled : Bool) (s : State) : Option State :=
  match s.thread with
  | .idle => none
  | .entered call op outcome =>
    some { s with
      timer := if op = .connect ∨ op = .read then none else s.timer
      thread := .checking call op outcome }
  | .checking call op outcome => some (s.errorHandler call op outcome)
  | .failing call op code message => some { s with timer := none, thread := .closing call op code message }
  | .closing call op code message =>
    let s := { s with connection := .closed }
    if s.attempt < client.attemptsCount then some (s.attemptOnce call pooled)
    else some ({ s with result := failed client op code message s.result }.callBack client call)
  | .passed call .resolve _ => some { s with timer := some .connection, thread := .starting call .connect }
  | .passed call .connect _ =>
    some { s with
      connection := .connected
      timer := some .request
      thread := .starting call (if client.useSsl then .handshake else .write) }
  | .passed call .handshake _ => some { s with thread := .starting call .write }
  | .passed call .write _ => some { s with thread := .starting call .read }
  | .passed call .read response =>
    some ({ s with connection := .closed, result := received client response s.result }.callBack client call)
  | .starting _ op =>
    some { s with
      ops := s.ops ++ [(s.calls, op)]
      connection := if op = .connect then .connecting else s.connection
      thread := .idle }
  | .calling _ => some { s.stopContext client with callback := false, thread := .idle }

def catchException (message : Bytes) (s : State) : State :=
  { s with
    canceled := true
    connection := .closed
    result := Writer.setError (-32603) message s.result
    thrown := true }

/-- An exception in the handler that runs, and the `JRPC_END` it comes to. -/
def throwException (client : Client) (message : Bytes) (response : Response) (s : State) : Option State :=
  match s.thread with
  | .idle | .checking _ _ _ => none
  | .entered _ _ _ | .passed _ _ _ | .starting _ _ => some { s.catchException message with thread := .idle }
  -- `error_handler` returns `false`, and the handler goes on.
  | .failing call op _ _ | .closing call op _ _ =>
    some { s.catchException message with thread := .passed call op response }
  -- An exception of the callback ends in `perform_callback`, before `m_callback` is cleared.
  | .calling _ => some { (s.catchException message).stopContext client with thread := .idle }

inductive Label
  | resetAttempts
  | execute (callback pooled : Bool)
  | leave
  | complete (i : Nat) (outcome : Outcome)
  | advance (pooled : Bool)
  | expire
  | throw (message : Bytes) (response : Response)

def isOutside (client : Client) (s : State) : Bool :=
  client.ownsContext && !s.running && s.thread.call.isNone

def step (client : Client) (s : State) : Label → Option State
  | .resetAttempts => if s.isOutside client then some { s with attempt := 0 } else none
  | .execute callback pooled => if s.isOutside client then some (s.execute client callback pooled) else none
  | .leave =>
    if s.running && s.thread.call.isNone && (s.stopped || s.ops.isEmpty) then
      some { s with running := false, stopped := true }
    else none
  | .complete i outcome =>
    if s.thread.call.isNone && (!client.ownsContext || s.running && !s.stopped) then
      (s.ops[i]?).map fun entry => { s with thread := .entered entry.1 entry.2 outcome, ops := s.ops.eraseIdx i }
    else none
  | .advance pooled => s.advance client pooled
  | .expire => s.timer.map fun timeout => s.onTimeout client timeout
  | .throw message response => s.throwException client message response

variable {client : Client} {s t : State}

@[simp] theorem onTimeout_frame (client : Client) (timeout : Timeout) (s : State) :
    (s.onTimeout client timeout).thread = s.thread ∧ (s.onTimeout client timeout).ops = s.ops ∧
      (s.onTimeout client timeout).attempt = s.attempt ∧ (s.onTimeout client timeout).timer = none := by
  unfold State.onTimeout
  split
  · simp
  · dsimp only
    split
    · simp
    · simp only [stopContext, performCallback]
      split <;> simp

theorem callBack_frame (client : Client) (call : Nat) (s : State) :
    (s.callBack client call).ops = s.ops ∧ (s.callBack client call).calls = s.calls ∧
      (s.callBack client call).running = s.running ∧
      ((s.callBack client call).thread = .idle ∨
        (s.callBack client call).thread.call = some call ∧ (s.callBack client call).stopped = s.stopped) := by
  unfold callBack
  split
  · exact ⟨rfl, rfl, rfl, .inr ⟨rfl, rfl⟩⟩
  · exact ⟨rfl, rfl, rfl, .inl rfl⟩

theorem advance_frame {pooled : Bool} (advanced : s.advance client pooled = some t) :
    s.thread ≠ .idle ∧ t.calls = s.calls ∧ t.running = s.running ∧
      ((∃ call op, s.thread = .starting call op ∧ t.ops = s.ops ++ [(s.calls, op)] ∧ t.thread = .idle ∧
          t.stopped = s.stopped) ∨
        t.ops = s.ops ∧ (t.thread = .idle ∨ t.thread.call = s.thread.call ∧ t.stopped = s.stopped)) := by
  unfold State.advance at advanced
  cases here : s.thread with
  | idle => simp [here] at advanced
  | entered call op outcome | failing call op code message =>
      simp only [here, Option.some.injEq] at advanced
      subst advanced
      exact ⟨nofun, rfl, rfl, .inr ⟨rfl, .inr ⟨rfl, rfl⟩⟩⟩
  | checking call op outcome =>
      simp only [here, Option.some.injEq, errorHandler] at advanced
      subst advanced
      split
      · split <;> exact ⟨nofun, rfl, rfl, .inr ⟨rfl, .inr ⟨rfl, rfl⟩⟩⟩
      · split
        · exact ⟨nofun, rfl, rfl, .inr ⟨rfl, .inl rfl⟩⟩
        · split <;> exact ⟨nofun, rfl, rfl, .inr ⟨rfl, .inr ⟨rfl, rfl⟩⟩⟩
  | closing call op code message =>
      simp only [here] at advanced
      split at advanced <;> cases Option.some.inj advanced
      · cases pooled <;> exact ⟨nofun, rfl, rfl, .inr ⟨rfl, .inr ⟨rfl, rfl⟩⟩⟩
      · obtain ⟨ops, calls, running, ended⟩ := callBack_frame client call _
        exact ⟨nofun, calls, running, .inr ⟨ops, ended⟩⟩
  | passed call op response =>
      simp only [here] at advanced
      cases op with
      | read =>
          cases Option.some.inj advanced
          obtain ⟨ops, calls, running, ended⟩ := callBack_frame client call _
          exact ⟨nofun, calls, running, .inr ⟨ops, ended⟩⟩
      | _ =>
          cases Option.some.inj advanced
          exact ⟨nofun, rfl, rfl, .inr ⟨rfl, .inr ⟨rfl, rfl⟩⟩⟩
  | starting call op =>
      simp only [here, Option.some.injEq] at advanced
      subst advanced
      exact ⟨nofun, rfl, rfl, .inl ⟨call, op, rfl, rfl, rfl, rfl⟩⟩
  | calling call =>
      simp only [here, Option.some.injEq] at advanced
      subst advanced
      exact ⟨nofun, rfl, rfl, .inr ⟨rfl, .inl rfl⟩⟩

theorem advance_of_busy (client : Client) (pooled : Bool) (busy : s.thread ≠ .idle) :
    ∃ t, s.advance client pooled = some t := by
  unfold State.advance
  cases here : s.thread with
  | idle => exact absurd here busy
  | closing call op code message =>
      dsimp only
      split <;> exact ⟨_, rfl⟩
  | passed call op response => cases op <;> exact ⟨_, rfl⟩
  | _ => exact ⟨_, rfl⟩

namespace Sample

def fine : Outcome := .succeeded ⟨200, []⟩

def aborted : Outcome := .failed 125 (text "Operation canceled")

end Sample

end State

end FullnodeClient.Net
