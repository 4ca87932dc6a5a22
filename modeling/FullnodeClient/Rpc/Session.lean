import FullnodeClient.Rpc.Request

/-!
# Sessions

A connection of `http_session.cpp`: `run` reads the next request as soon as `process_request` has
returned, and `send_response` writes with the version and the keep-alive flag that the session has by
then. A response is kept with the position of the request it answers.
-/

namespace FullnodeClient.Rpc
open FullnodeClient.Lib FullnodeClient.Text

structure Gateway extends Server where
  keepAlive : Bool
  authEnable : Bool
  authKey : Bytes

inductive Verb
  | post
  | get
  | other

structure Request where
  verb : Verb
  target : Bytes
  version : Nat
  connection : Option Bytes
  -- What `keep_alive` of beast answers for it.
  keepAlive : Bool
  authKey : Option Bytes
  body : Bytes

structure Response where
  request : Nat
  body : Body
  connection : Option Bytes

structure Session where
  httpVer : Nat
  httpKeepAlive : Bool
  isOpen : Bool
  reading : Bool
  received : List Request
  exchanges : List Exchange
  written : List Response
  -- The responses to be written after the socket had been closed.
  dropped : List Response

inductive Event
  | receive (request : Request) (results : Nat → HandlerResult)
  | complete (i : Nat) (completion : Nat × Bytes)

namespace Session

def initial : Session := ⟨11, false, true, true, [], [], [], []⟩

def keepsAlive (gateway : Gateway) (session : Session) : Bool := gateway.keepAlive && session.httpKeepAlive

def connectionField (gateway : Gateway) (session : Session) : Option Bytes :=
  if gateway.keepAlive then
    if session.httpVer = 10 then some (if session.httpKeepAlive then text "Keep-Alive" else text "close")
    else if session.httpKeepAlive then none else some (text "close")
  else some (text "close")

def sendResponse (gateway : Gateway) (session : Session) (i : Nat) (body : Body) : Session :=
  let response : Response := ⟨i, body, session.connectionField gateway⟩
  let session :=
    if session.isOpen then { session with written := session.written ++ [response] }
    else { session with dropped := session.dropped ++ [response] }
  if session.keepsAlive gateway then session else { session with isOpen := false }

def sendAll (gateway : Gateway) (i : Nat) (bodies : List Body) (session : Session) : Session :=
  bodies.foldl (fun session body => session.sendResponse gateway i body) session

def checkAuth (gateway : Gateway) (request : Request) : Bool :=
  !gateway.authEnable || request.authKey == some gateway.authKey

def requestKeepsAlive (request : Request) : Bool :=
  if request.connection = some (text "close") then false
  else if request.version = 11 then true
  else request.keepAlive

def processRequest (gateway : Gateway) (results : Nat → HandlerResult) (session : Session) (request : Request) :
    Session × Exchange :=
  if checkAuth gateway request then
    ({ session with httpVer := request.version, httpKeepAlive := requestKeepsAlive request },
      match request.verb with
      | .post => gateway.processPostRequest results request.target request.body
      | .get => Server.processGetRequest results request.target
      | .other => .answered (.bad 400 (text "Incorrect HTTP method")))
  else ({ session with httpKeepAlive := false }, .answered (.bad 401 (text "Access Denied")))

def step (gateway : Gateway) (session : Session) : Event → Option Session
  | .receive request results =>
    if session.reading && session.isOpen then
      let (begun, exchange) := session.processRequest gateway results request
      let ended := begun.sendAll gateway session.received.length exchange.responses
      some { ended with
        reading := ended.keepsAlive gateway
        received := session.received ++ [request]
        exchanges := session.exchanges ++ [exchange] }
    else none
  | .complete i completion => do
    let exchange ← session.exchanges[i]?
    let after ← exchange.complete gateway.toService completion
    let fresh := after.responses.drop exchange.responses.length
    some { session.sendAll gateway i fresh with exchanges := session.exchanges.set i after }

def isNotification (gateway : Gateway) (request : Request) : Bool :=
  match request.verb, gateway.parse request.body with
  | .post, .ok doc =>
    checkAuth gateway request && request.target == text "/" && (gateway.rejection doc).isNone && doc.isNotification
  | _, _ => false

def expected (gateway : Gateway) (requests : List Request) : List Nat :=
  (requests.zipIdx.filter fun entry => !isNotification gateway entry.1).map Prod.snd

structure InOrder (gateway : Gateway) (session : Session) : Prop where
  written : session.written.map Response.request <+: expected gateway session.received
  dropped : session.dropped = []

def Waits (gateway : Gateway) (session : Session) : Event → Prop
  | .receive _ _ => ∀ i ∈ expected gateway session.received, i ∈ session.written.map Response.request
  | .complete _ _ => True

instance (gateway : Gateway) (session : Session) : (event : Event) → Decidable (Waits gateway session event)
  | .receive _ _ => inferInstanceAs (Decidable (∀ i ∈ _, i ∈ _))
  | .complete _ _ => instDecidableTrue

end Session

/-! ## Exchanges that are over -/

namespace Exchange

variable {service : Service} {exchange after : Exchange} {completion : Nat × Bytes}

def Spent (exchange : Exchange) : Prop := exchange.Owes exchange.responses.length

def Untouched (exchange : Exchange) : Prop := exchange.responses = [] ∧ ∃ n ≤ 1, exchange.Owes n

theorem complete_responses (called : exchange.complete service completion = some after) :
    exchange.responses <+: after.responses := by
  cases exchange with
  | silent => simp [complete] at called
  | answered body => simp [complete] at called
  | waiting => exact List.nil_prefix
  | batch b =>
      obtain ⟨next, received, rfl⟩ := Option.map_eq_some_iff.mp called
      obtain ⟨-, doc, rfl⟩ := Batch.sendJson_eq_some received
      refine List.IsPrefix.map _ ?_
      unfold Batch.sendIfComplete
      split
      · exact List.prefix_append _ _
      · exact List.prefix_rfl

theorem Spent.complete (spent : exchange.Spent) (called : exchange.complete service completion = some after) :
    after.Spent ∧ after.responses.drop exchange.responses.length = [] := by
  have owes := Owes.complete spent called
  have same : after.responses.length = exchange.responses.length :=
    le_antisymm owes.responses_le (complete_responses called).length_le
  refine ⟨?_, List.drop_eq_nil_of_le same.le⟩
  rwa [Spent, same]

theorem spent_or_untouched {n : Nat} (owes : exchange.Owes n) (once : n ≤ 1) :
    exchange.Untouched ∨ ∃ body, exchange.responses = [body] ∧ exchange.Spent := by
  have few := owes.responses_le
  match written : exchange.responses with
  | [] => exact .inl ⟨written, n, once, owes⟩
  | [body] =>
      have one : n = 1 := by
        rw [written, List.length_singleton] at few
        omega
      refine .inr ⟨body, rfl, ?_⟩
      rwa [Spent, written, List.length_singleton, ← one]
  | _ :: _ :: _ =>
      rw [written] at few
      simp only [List.length_cons] at few
      omega

end Exchange

namespace Session

variable {gateway : Gateway} {session after : Session} {request : Request} {results : Nat → HandlerResult}
  {earlier : List Request}

theorem processRequest_owes (gateway : Gateway) (results : Nat → HandlerResult) (session : Session) (request : Request) :
    ∃ n ≤ 1, (session.processRequest gateway results request).2.Owes n := by
  unfold processRequest
  split
  · rcases request with ⟨_ | _ | _⟩
    · exact Server.processPostRequest_owes _ _ _ _
    · exact ⟨1, le_rfl, Server.processGetRequest_owes _ _⟩
    · exact ⟨1, le_rfl, .answered _⟩
  · exact ⟨1, le_rfl, .answered _⟩

theorem processRequest_notification (notification : isNotification gateway request = true) :
    (session.processRequest gateway results request).2 = .silent := by
  unfold isNotification at notification
  split at notification
  case h_1 verb parsed =>
    simp only [Bool.and_eq_true, beq_iff_eq, Option.isNone_iff_eq_none] at notification
    obtain ⟨⟨⟨authorized, root⟩, valid⟩, silent⟩ := notification
    simp only [processRequest, authorized, if_true, verb, root]
    exact Server.processPostRequest_notified results parsed valid silent
  case h_2 => cases notification

theorem processRequest_session (gateway : Gateway) (results : Nat → HandlerResult) (session : Session)
    (request : Request) : ∃ version keepAlive, (session.processRequest gateway results request).1 =
      { session with httpVer := version, httpKeepAlive := keepAlive } := by
  unfold processRequest
  split
  · exact ⟨_, _, rfl⟩
  · exact ⟨_, _, rfl⟩

theorem expected_append : expected gateway (earlier ++ [request]) =
    expected gateway earlier ++ if isNotification gateway request = true then [] else [earlier.length] := by
  cases notification : isNotification gateway request <;>
    simp [expected, List.zipIdx_append, notification]

theorem lt_of_mem_expected {i : Nat} (inside : i ∈ expected gateway earlier) : i < earlier.length := by
  obtain ⟨⟨r, j⟩, kept, rfl⟩ := List.mem_map.mp inside
  obtain ⟨-, bound, -⟩ := List.mem_zipIdx (List.mem_of_mem_filter kept)
  simpa using bound

theorem sendAll_frame (gateway : Gateway) (i : Nat) (bodies : List Body) (session : Session) :
    ∃ written dropped isOpen, session.sendAll gateway i bodies =
        { session with written := written, dropped := dropped, isOpen := isOpen } ∧
      (isOpen = true → session.isOpen = true ∧ dropped = session.dropped) := by
  induction bodies generalizing session with
  | nil => exact ⟨_, _, _, rfl, fun still => ⟨still, rfl⟩⟩
  | cons body bodies ih =>
      obtain ⟨written, dropped, isOpen, sent, lost⟩ := ih (session.sendResponse gateway i body)
      refine ⟨written, dropped, isOpen, sent.trans ?_, fun still => ?_⟩
      · unfold sendResponse
        split <;> dsimp only <;> split <;> rfl
      · obtain ⟨before, same⟩ := lost still
        revert before same
        unfold sendResponse
        split <;> dsimp only <;> split <;> simp_all

theorem sendAll_one (isOpen : session.isOpen = true) (i : Nat) (body : Body) :
    ((session.sendAll gateway i [body]).written.map Response.request = session.written.map Response.request ++ [i]) ∧
      (session.sendAll gateway i [body]).dropped = session.dropped ∧
      (session.sendAll gateway i [body]).received = session.received := by
  simp only [sendAll, List.foldl_cons, List.foldl_nil, sendResponse, isOpen, if_true]
  split <;> simp

structure Settled (gateway : Gateway) (session : Session) : Prop where
  count : session.exchanges.length = session.received.length
  written : session.written.map Response.request = expected gateway session.received
  dropped : session.dropped = []
  spent : ∀ exchange ∈ session.exchanges, exchange.Spent

structure Busy (gateway : Gateway) (earlier : List Request) (request : Request) (session : Session) : Prop where
  received : session.received = earlier ++ [request]
  owed : isNotification gateway request = false
  isOpen : session.isOpen = true
  written : session.written.map Response.request = expected gateway earlier
  dropped : session.dropped = []
  exchanges : ∃ past last, session.exchanges = past ++ [last] ∧ past.length = earlier.length ∧
    (∀ exchange ∈ past, exchange.Spent) ∧ last.Untouched

def Orderly (gateway : Gateway) (session : Session) : Prop :=
  session.Settled gateway ∨ ∃ earlier request, session.Busy gateway earlier request

theorem Orderly.inOrder (orderly : session.Orderly gateway) : session.InOrder gateway := by
  rcases orderly with settled | ⟨earlier, request, busy⟩
  · exact ⟨settled.written ▸ List.prefix_rfl, settled.dropped⟩
  · refine ⟨?_, busy.dropped⟩
    rw [busy.written, busy.received, expected_append]
    exact List.prefix_append _ _

theorem Settled.spent_concat (settled : session.Settled gateway) {last : Exchange} (spent : last.Spent) :
    ∀ exchange ∈ session.exchanges ++ [last], exchange.Spent :=
  List.forall_mem_append.mpr ⟨settled.spent, List.forall_mem_singleton.mpr spent⟩

theorem Settled.receive (settled : session.Settled gateway)
    (received : session.step gateway (.receive request results) = some after) : after.Orderly gateway := by
  simp only [step, Bool.and_eq_true, Option.ite_none_right_eq_some, Option.some.injEq] at received
  obtain ⟨⟨-, isOpen⟩, rfl⟩ := received
  obtain ⟨n, once, owes⟩ := processRequest_owes gateway results session request
  obtain ⟨version, keepAlive, flags⟩ := processRequest_session gateway results session request
  have notified := @processRequest_notification gateway session request results
  rcases processed : session.processRequest gateway results request with ⟨begun, exchange⟩
  simp only [processed] at owes flags notified ⊢
  subst flags
  have count : (session.exchanges ++ [exchange]).length = (session.received ++ [request]).length := by
    simp [settled.count]
  rcases exchange.spent_or_untouched owes once with untouched | ⟨body, answer, spent⟩
  · rw [untouched.1]
    cases notification : isNotification gateway request with
    | true =>
        have spent : exchange.Spent := by
          rw [notified notification]
          exact .silent
        refine .inl ⟨count, ?_, settled.dropped, settled.spent_concat spent⟩
        rw [expected_append, if_pos notification, List.append_nil]
        exact settled.written
    | false =>
        exact .inr ⟨session.received, request, ⟨rfl, notification, isOpen, settled.written, settled.dropped,
          session.exchanges, exchange, rfl, settled.count, settled.spent, untouched⟩⟩
  · have owed : isNotification gateway request = false := by
      cases notification : isNotification gateway request with
      | false => rfl
      | true =>
          rw [notified notification] at answer
          cases answer
    rw [answer]
    obtain ⟨written, dropped, -⟩ := @sendAll_one gateway
      { session with httpVer := version, httpKeepAlive := keepAlive } isOpen session.received.length body
    refine .inl ⟨count, ?_, dropped.trans settled.dropped, settled.spent_concat spent⟩
    rw [expected_append, owed, if_neg (by decide), ← settled.written]
    exact written

theorem step_complete {i : Nat} {completion : Nat × Bytes}
    (completed : session.step gateway (.complete i completion) = some after) :
    ∃ exchange next, session.exchanges[i]? = some exchange ∧
      exchange.complete gateway.toService completion = some next ∧
      after = { session.sendAll gateway i (next.responses.drop exchange.responses.length) with
        exchanges := session.exchanges.set i next } := by
  obtain ⟨exchange, found, rest⟩ := Option.bind_eq_some_iff.mp completed
  obtain ⟨next, called, same⟩ := Option.bind_eq_some_iff.mp rest
  exact ⟨exchange, next, found, called, (Option.some.inj same).symm⟩

theorem Settled.complete {i : Nat} {completion : Nat × Bytes} (settled : session.Settled gateway)
    (completed : session.step gateway (.complete i completion) = some after) : after.Settled gateway := by
  obtain ⟨exchange, next, found, called, rfl⟩ := step_complete completed
  obtain ⟨spent, none⟩ := (settled.spent exchange (List.mem_of_getElem? found)).complete called
  rw [none]
  refine ⟨by simpa [sendAll] using settled.count, settled.written, settled.dropped, fun e member => ?_⟩
  rcases List.mem_or_eq_of_mem_set member with before | rfl
  · exact settled.spent e before
  · exact spent

theorem Busy.complete {i : Nat} {completion : Nat × Bytes} (busy : session.Busy gateway earlier request)
    (completed : session.step gateway (.complete i completion) = some after) : after.Orderly gateway := by
  obtain ⟨exchange, next, found, called, rfl⟩ := step_complete completed
  obtain ⟨past, last, exchanges, length, spent, untouched⟩ := busy.exchanges
  rw [exchanges] at found ⊢
  rcases lt_or_ge i past.length with inside | behind
  · rw [List.getElem?_append_left inside] at found
    obtain ⟨still, none⟩ := (spent exchange (List.mem_of_getElem? found)).complete called
    rw [none, List.set_append_left _ _ inside]
    refine .inr ⟨earlier, request, ⟨busy.received, busy.owed, busy.isOpen, busy.written, busy.dropped, past.set i next,
      last, rfl, List.length_set.trans length, fun e member => ?_, untouched⟩⟩
    rcases List.mem_or_eq_of_mem_set member with before | rfl
    · exact spent e before
    · exact still
  · obtain ⟨here, rfl⟩ : i - past.length = 0 ∧ last = exchange := by
      rw [List.getElem?_append_right behind, List.getElem?_singleton] at found
      split at found
      · exact ⟨‹_›, Option.some.inj found⟩
      · cases found
    obtain rfl : i = earlier.length := by omega
    rw [List.set_append_right _ _ behind, here, List.set_cons_zero]
    obtain ⟨silent, n, once, owes⟩ := untouched
    rw [silent, List.length_nil, List.drop_zero]
    rcases next.spent_or_untouched (owes.complete called) once with untouched | ⟨body, answer, answered⟩
    · rw [untouched.1]
      exact .inr ⟨earlier, request, ⟨busy.received, busy.owed, busy.isOpen, busy.written, busy.dropped, past, next, rfl,
        length, spent, untouched⟩⟩
    · rw [answer]
      obtain ⟨written, dropped, received⟩ := @sendAll_one gateway session busy.isOpen earlier.length body
      refine .inl ⟨?_, ?_, dropped.trans busy.dropped,
        List.forall_mem_append.mpr ⟨spent, List.forall_mem_singleton.mpr answered⟩⟩
      · simp [received, busy.received, length]
      · rw [received, busy.received, expected_append, busy.owed, if_neg (by decide), ← busy.written]
        exact written

theorem Busy.not_waits (busy : session.Busy gateway earlier request) (next : Request)
    (results : Nat → HandlerResult) : ¬session.Waits gateway (.receive next results) := by
  intro waits
  have last : earlier.length ∈ expected gateway session.received := by
    simp [busy.received, expected_append, busy.owed]
  have answered := waits _ last
  rw [busy.written] at answered
  exact lt_irrefl _ (lt_of_mem_expected answered)

theorem Orderly.step {event : Event} (orderly : session.Orderly gateway) (waits : session.Waits gateway event)
    (stepped : session.step gateway event = some after) : after.Orderly gateway := by
  rcases orderly with settled | ⟨earlier, request, busy⟩
  · cases event with
    | receive request results => exact settled.receive stepped
    | complete i completion => exact .inl (settled.complete stepped)
  · cases event with
    | receive next results => exact absurd waits (busy.not_waits next results)
    | complete i completion => exact busy.complete stepped

theorem responses_in_order (gateway : Gateway) (session : Session)
    (reached : Reached (step gateway) (Waits gateway) initial session) : session.InOrder gateway := by
  have orderly : session.Orderly gateway := by
    induction reached with
    | start => exact .inl ⟨rfl, rfl, rfl, nofun⟩
    | step _ waits stepped ih => exact ih.step waits stepped
  exact orderly.inOrder

namespace Sample

def alive : Gateway :=
  { Server.Sample.plain with
    keepAlive := true
    authEnable := false
    authKey := [] }

def post (connection : Option Bytes) (body : Bytes) : Request := ⟨.post, text "/", 11, connection, true, none, body⟩

def lastTxs : Event := .receive (post none Batch.Sample.lastTxs) fun _ => .pending

def last : Event := .receive (post (some (text "close")) (text "?")) fun _ => .pending

def noTxs : Event := .complete 0 (0, Batch.Sample.noTxs)

theorem answered_runs : (runAllowed (step alive) (Waits alive) initial [lastTxs, noTxs, last]).map
    (fun session => session.written.map Response.request) = some [0, 1] := by decide +kernel

theorem overtaken_runs : (runAllowed (step alive) (fun _ _ => True) initial [lastTxs, last, noTxs]).map
    (fun session => (expected alive session.received, session.written.map Response.request,
      session.dropped.map Response.request)) = some ([0, 1], [1], [0]) := by decide +kernel

end Sample

theorem responses_in_order_when_answered :
    ∃ session, Reached (step Sample.alive) (Waits Sample.alive) initial session ∧
      session.written.map Response.request = [0, 1] ∧ session.InOrder Sample.alive := by
  obtain ⟨session, ran, written⟩ := Option.map_eq_some_iff.mp Sample.answered_runs
  have reached := Reached.run .start ran
  exact ⟨session, reached, written, responses_in_order _ _ reached⟩

theorem response_overtaken_and_dropped :
    ∃ session, Reached (step Sample.alive) (fun _ _ => True) initial session ∧
      expected Sample.alive session.received = [0, 1] ∧ session.written.map Response.request = [1] ∧
      session.dropped.map Response.request = [0] ∧ ¬session.InOrder Sample.alive := by
  obtain ⟨session, ran, outcome⟩ := Option.map_eq_some_iff.mp Sample.overtaken_runs
  obtain ⟨owed, written, dropped⟩ := Prod.mk.inj outcome |>.imp_right Prod.mk.inj
  refine ⟨session, Reached.run .start ran, owed, written, dropped, fun ordered => ?_⟩
  rw [ordered.dropped] at dropped
  cases dropped

end Session

end FullnodeClient.Rpc
