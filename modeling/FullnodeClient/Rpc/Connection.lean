import FullnodeClient.Rpc.Gather
import FullnodeClient.Rpc.Session

/-!
# Connections

A session together with the handlers that it waits for. In `Session` a handler completes at any moment with any
text; here it completes when its requests to other hosts do, with what it makes of their answers.
-/

namespace FullnodeClient.Rpc
open FullnodeClient.Lib FullnodeClient.Text

def Exchange.pending : Exchange → List Nat
  | waiting => [0]
  | batch b => b.pending
  | silent | answered _ => []

structure Connection where
  session : Session
  /-- The handlers that had not completed in `perform`, with the position of the request and, in it, of the element. -/
  courses : List ((Nat × Nat) × Course)

namespace Connection

inductive Label
  | receive (request : Request) (flows : Nat → Flow) (pooled : Nat → Bool)
  | move (which : Nat) (label : Course.Label)

def initial : Connection := ⟨Session.initial, []⟩

section

variable (gateway : Gateway) (stringify : Json → Bytes)

def step (c : Connection) : Label → Option Connection
  | .receive request flows pooled =>
      let results i := (flows i).result stringify
      let exchange := (c.session.processRequest gateway results request).2
      (c.session.step gateway (.receive request results)).map fun session =>
        ⟨session, c.courses ++ exchange.pending.map fun i =>
          ((c.session.received.length, i), (flows i).start (pooled i))⟩
  | .move which label =>
      (c.courses[which]?).bind fun (key, course) =>
        (course.step label).bind fun course' =>
          let courses := c.courses.set which (key, course')
          match course'.replies.drop course.replies.length with
          | [] => some { c with courses := courses }
          | doc :: _ =>
              (c.session.step gateway (.complete key.1 (key.2, stringify doc))).map fun session => ⟨session, courses⟩

end

end Connection

namespace Exchange

variable {service : Service} {exchange after : Exchange} {i : Nat} {data : Bytes}

theorem idle_iff : exchange.Idle ↔ exchange.pending = [] := by
  cases exchange <;> simp [Idle, pending]

theorem complete_of_mem (waits : i ∈ exchange.pending) (service : Service) (data : Bytes) :
    ∃ after, exchange.complete service (i, data) = some after := by
  cases exchange with
  | silent | answered => cases waits
  | waiting =>
      cases List.mem_singleton.mp waits
      exact ⟨_, rfl⟩
  | batch b =>
      obtain ⟨next, sent⟩ : ∃ next, b.sendJson service (i, data) = some next := ⟨_, if_pos waits⟩
      exact ⟨.batch next, by rw [complete, sent, Option.map_some]⟩

theorem complete_pending (called : exchange.complete service (i, data) = some after) :
    after.pending = exchange.pending.erase i := by
  cases exchange with
  | silent | answered => cases called
  | waiting =>
      cases i with
      | zero =>
          cases called
          rfl
      | succ i => cases called
  | batch b =>
      obtain ⟨next, received, rfl⟩ := Option.map_eq_some_iff.mp called
      obtain ⟨-, doc, rfl⟩ := Batch.sendJson_eq_some received
      exact Batch.sendIfComplete_pending _

theorem handled_pending {result : HandlerResult} (waits : i ∈ (Server.handled result).pending) :
    i = 0 ∧ result = .pending := by
  cases result with
  | complete => cases waits
  | pending => exact ⟨List.mem_singleton.mp waits, rfl⟩

theorem refuse_pending (doc : Json) (code : Int) (message : Bytes) (finish : Json → Json) :
    (Server.refuse doc code message finish).pending = [] := by
  unfold Server.refuse
  split <;> rfl

theorem processSingleRequest_pending {server : Server} {results : Nat → HandlerResult} {doc : Json}
    (waits : i ∈ (server.processSingleRequest results doc).pending) : results i = .pending := by
  unfold Server.processSingleRequest at waits
  split at waits
  case h_1 =>
    rw [refuse_pending] at waits
    cases waits
  case h_2 =>
    split at waits
    case isTrue => cases waits
    case isFalse =>
      split at waits
      case isTrue =>
        rw [refuse_pending] at waits
        cases waits
      case isFalse =>
        obtain ⟨rfl, pending⟩ := handled_pending waits
        exact pending

theorem processPostRequest_pending {server : Server} {results : Nat → HandlerResult} {target body : Bytes}
    (waits : i ∈ (server.processPostRequest results target body).pending) : results i = .pending := by
  unfold Server.processPostRequest at waits
  split at waits
  case isTrue => cases waits
  case isFalse =>
    split at waits
    case h_1 => cases waits
    case h_2 =>
      split at waits
      case h_1 =>
        rw [refuse_pending] at waits
        cases waits
      case h_2 =>
        split at waits
        case h_1 => exact processSingleRequest_pending waits
        case h_2 => exact Batch.process_pending results i waits
        case h_3 =>
          rw [refuse_pending] at waits
          cases waits

theorem processGetRequest_pending {results : Nat → HandlerResult} {target : Bytes}
    (waits : i ∈ (Server.processGetRequest results target).pending) : results i = .pending := by
  unfold Server.processGetRequest at waits
  split at waits
  case isTrue => cases waits
  case isFalse =>
    dsimp only at waits
    split at waits
    case isTrue =>
      obtain ⟨rfl, pending⟩ := handled_pending waits
      exact pending
    case isFalse => cases waits

end Exchange

namespace Session

variable {gateway : Gateway} {session after : Session} {request : Request} {results : Nat → HandlerResult} {i j : Nat}

theorem processRequest_pending (waits : i ∈ (session.processRequest gateway results request).2.pending) :
    results i = .pending := by
  unfold processRequest at waits
  split at waits
  case isTrue =>
    rcases request with ⟨_ | _ | _⟩
    · exact Exchange.processPostRequest_pending waits
    · exact Exchange.processGetRequest_pending waits
    · cases waits
  case isFalse => cases waits

def Expects (gateway : Gateway) (request : Request) : Prop :=
  checkAuth gateway request = true ∧ request.verb = .post ∧ request.target = text "/" →
    ¬gateway.Notified request.body ∧ gateway.Answerable request.body

theorem processRequest_owes_one (results : Nat → HandlerResult) (session : Session)
    (expects : Expects gateway request) : (session.processRequest gateway results request).2.Owes 1 := by
  unfold processRequest
  split
  case isFalse => exact .answered _
  case isTrue known =>
    cases verb : request.verb with
    | other => exact .answered _
    | get => exact Server.processGetRequest_owes _ _
    | post =>
        by_cases root : request.target = text "/"
        · obtain ⟨request', answerable⟩ := expects ⟨known, verb, root⟩
          dsimp only
          rw [root]
          rcases Server.processPostRequest_owesIf results request' with ⟨-, one⟩ | ⟨not, -⟩
          · exact one
          · exact absurd answerable not
        · dsimp only
          rw [Server.processPostRequest, if_pos root]
          exact .answered _

def writtenTo (session : Session) (i : Nat) : Nat := session.written.countP (·.request = i)

def lostFor (session : Session) (i : Nat) : Nat := session.dropped.countP (·.request = i)

def answers (session : Session) (i : Nat) : Nat := session.writtenTo i + session.lostFor i

theorem sendResponse_answers (gateway : Gateway) (session : Session) (j : Nat) (body : Body) (i : Nat) :
    (session.sendResponse gateway j body).answers i = session.answers i + if j = i then 1 else 0 := by
  unfold sendResponse answers writtenTo lostFor
  dsimp only
  split <;> split <;> by_cases same : j = i <;> simp [same] <;> omega

theorem sendAll_answers (gateway : Gateway) (session : Session) (j : Nat) (bodies : List Body) (i : Nat) :
    (session.sendAll gateway j bodies).answers i = session.answers i + if j = i then bodies.length else 0 := by
  unfold sendAll
  induction bodies generalizing session with
  | nil => simp
  | cons body rest ih =>
      rw [List.foldl_cons, ih, sendResponse_answers, List.length_cons]
      split <;> omega

theorem step_receive (received : session.step gateway (.receive request results) = some after) :
    after.received = session.received ++ [request] ∧
      after.exchanges = session.exchanges ++ [(session.processRequest gateway results request).2] ∧
      (after.isOpen = true → session.isOpen = true ∧ after.dropped = session.dropped) ∧
      ∀ i, after.answers i = session.answers i +
        if session.received.length = i then (session.processRequest gateway results request).2.responses.length else 0 := by
  simp only [step] at received
  split at received
  case isFalse => cases received
  case isTrue =>
    cases received
    obtain ⟨version, keepAlive, begun⟩ := processRequest_session gateway results session request
    rw [begun]
    refine ⟨rfl, rfl, ?_, sendAll_answers gateway _ _ _⟩
    obtain ⟨written, dropped, isOpen, sent, before⟩ := sendAll_frame gateway session.received.length
      (session.processRequest gateway results request).2.responses
      { session with httpVer := version, httpKeepAlive := keepAlive }
    rw [sent]
    exact before

theorem step_complete_answers {completion : Nat × Bytes}
    (completed : session.step gateway (.complete j completion) = some after) :
    ∃ exchange next, session.exchanges[j]? = some exchange ∧
      exchange.complete gateway.toService completion = some next ∧ after.received = session.received ∧
      after.exchanges = session.exchanges.set j next ∧
      (after.isOpen = true → session.isOpen = true ∧ after.dropped = session.dropped) ∧
      ∀ i, after.answers i = session.answers i +
        if j = i then next.responses.length - exchange.responses.length else 0 := by
  obtain ⟨exchange, next, found, called, rfl⟩ := step_complete completed
  have answers := sendAll_answers gateway session j (next.responses.drop exchange.responses.length)
  obtain ⟨written, dropped, isOpen, sent, before⟩ :=
    session.sendAll_frame gateway j (next.responses.drop exchange.responses.length)
  rw [sent] at answers ⊢
  refine ⟨exchange, next, found, called, rfl, rfl, before, fun i => ?_⟩
  rw [← List.length_drop]
  exact answers i

/-! ## The session -/

structure Accounts (gateway : Gateway) (session : Session) : Prop where
  length : session.exchanges.length = session.received.length
  owes : ∀ (i : Nat) (request : Request) (exchange : Exchange), session.received[i]? = some request →
    session.exchanges[i]? = some exchange → (∃ n ≤ 1, exchange.Owes n) ∧ (Expects gateway request → exchange.Owes 1)
  answers : ∀ i, session.answers i = (session.exchanges[i]?).elim 0 fun exchange => exchange.responses.length
  closed : session.isOpen = true → session.dropped = []

variable {gateway : Gateway} {session after : Session} {request : Request} {results : Nat → HandlerResult} {i j : Nat}
  {completion : Nat × Bytes}

theorem Accounts.initial (gateway : Gateway) : Session.initial.Accounts gateway where
  length := rfl
  owes i _ _ found := by simp [Session.initial] at found
  answers i := by simp [Session.initial, Session.answers, writtenTo, lostFor]
  closed _ := rfl

theorem Accounts.exchange_receive (accounts : session.Accounts gateway) {exchange : Exchange}
    (received : session.step gateway (.receive request results) = some after)
    (found : after.exchanges[i]? = some exchange) :
    i < session.received.length ∧ session.exchanges[i]? = some exchange ∧ after.received[i]? = session.received[i]? ∨
      i = session.received.length ∧ exchange = (session.processRequest gateway results request).2 ∧
        after.received[i]? = some request := by
  obtain ⟨requests, exchanges, -⟩ := step_receive received
  rw [exchanges] at found
  rw [requests]
  rcases lt_trichotomy i session.received.length with before | rfl | behind
  · rw [List.getElem?_append_left (accounts.length ▸ before)] at found
    exact .inl ⟨before, found, List.getElem?_append_left before⟩
  · rw [← accounts.length, List.getElem?_concat_length] at found
    exact .inr ⟨rfl, (Option.some.inj found).symm, List.getElem?_concat_length⟩
  · rw [List.getElem?_eq_none] at found
    · cases found
    · rw [List.length_append, List.length_singleton, accounts.length]
      exact behind

theorem Accounts.receive (accounts : session.Accounts gateway)
    (received : session.step gateway (.receive request results) = some after) : after.Accounts gateway := by
  obtain ⟨requests, exchanges, still, answers⟩ := step_receive received
  refine ⟨?_, ?_, ?_, fun isOpen => (still isOpen).2.trans (accounts.closed (still isOpen).1)⟩
  · rw [exchanges, requests, List.length_append, List.length_append, accounts.length]
    rfl
  · intro i r e asked found
    rcases accounts.exchange_receive received found with ⟨-, before, same⟩ | ⟨rfl, rfl, same⟩
    · exact accounts.owes i r e (same ▸ asked) before
    · cases Option.some.inj (same.symm.trans asked)
      exact ⟨processRequest_owes gateway _ _ _, processRequest_owes_one _ _⟩
  · intro i
    rw [answers, accounts.answers, exchanges]
    rcases lt_trichotomy i session.received.length with before | rfl | behind
    · rw [List.getElem?_append_left (accounts.length ▸ before), if_neg before.ne', Nat.add_zero]
    · rw [if_pos rfl, ← accounts.length, List.getElem?_concat_length, List.getElem?_eq_none le_rfl, Option.elim_none,
        Option.elim_some, Nat.zero_add]
    · rw [if_neg behind.ne, Nat.add_zero, List.getElem?_eq_none (accounts.length ▸ behind.le), List.getElem?_eq_none]
      rw [List.length_append, List.length_singleton, accounts.length]
      exact behind

theorem Accounts.complete (accounts : session.Accounts gateway)
    (completed : session.step gateway (.complete j completion) = some after) : after.Accounts gateway := by
  obtain ⟨exchange, next, found, called, requests, exchanges, still, answers⟩ := step_complete_answers completed
  refine ⟨?_, ?_, ?_, fun isOpen => (still isOpen).2.trans (accounts.closed (still isOpen).1)⟩
  · rw [exchanges, requests, List.length_set]
    exact accounts.length
  · intro i r e asked located
    rw [requests] at asked
    rw [exchanges] at located
    by_cases same : j = i
    · subst same
      rw [List.getElem?_set_self (List.getElem?_eq_some_iff.mp found).1] at located
      cases located
      obtain ⟨⟨m, few, owes⟩, one⟩ := accounts.owes _ r exchange asked found
      exact ⟨⟨m, few, owes.complete called⟩, fun expects => (one expects).complete called⟩
    · rw [List.getElem?_set_ne same] at located
      exact accounts.owes i r e asked located
  · intro i
    rw [answers, exchanges, accounts.answers]
    by_cases same : j = i
    · subst same
      have grown := (Exchange.complete_responses called).length_le
      rw [if_pos rfl, found, List.getElem?_set_self (List.getElem?_eq_some_iff.mp found).1, Option.elim_some,
        Option.elim_some]
      omega
    · rw [if_neg same, List.getElem?_set_ne same, Nat.add_zero]

theorem Accounts.answers_le (accounts : session.Accounts gateway) (i : Nat) : session.answers i ≤ 1 := by
  rw [accounts.answers]
  cases found : session.exchanges[i]? with
  | none => exact Nat.zero_le 1
  | some exchange =>
      have bound := (List.getElem?_eq_some_iff.mp found).1
      have asked := List.getElem?_eq_getElem (accounts.length ▸ bound)
      obtain ⟨⟨n, few, owes⟩, -⟩ := accounts.owes i _ exchange asked found
      exact owes.responses_le.trans few

theorem Accounts.written_or_lost (accounts : session.Accounts gateway) (once : session.answers i = 1) :
    session.writtenTo i = 1 ∨ session.isOpen = false ∧ session.lostFor i = 1 := by
  rw [Session.answers] at once
  cases isOpen : session.isOpen with
  | true =>
      have none : session.lostFor i = 0 := by simp [lostFor, accounts.closed isOpen]
      omega
  | false =>
      simp only [true_and]
      omega

end Session

theorem Funded.append {courses more : List Course} {n m : Nat} (funded : Funded courses n) (later : Funded more m) :
    Funded (courses ++ more) (n + m) := by
  induction funded with
  | nil n => exact later.mono (Nat.le_add_left m n)
  | @cons flow course rest k l n traced _ fits ih => exact .cons traced ih (by omega)

namespace Connection

structure Sound (gateway : Gateway) (n : Nat) (c : Connection) : Prop where
  accounts : c.session.Accounts gateway
  placed : ∀ key ∈ unanswered c.courses, key.1 < c.session.received.length
  waiting : ∀ (i : Nat) (exchange : Exchange), c.session.exchanges[i]? = some exchange →
    exchange.pending.Perm (((unanswered c.courses).filter (·.1 = i)).map Prod.snd)
  funded : Funded (c.courses.map Prod.snd) n

section

variable {gateway : Gateway} {stringify : Json → Bytes} {c c' : Connection} {n k which : Nat} {key : Nat × Nat}
  {course course' : Course} {label : Course.Label} {request : Request} {flows : Nat → Flow} {pooled : Nat → Bool}

theorem Sound.initial (gateway : Gateway) : Connection.initial.Sound gateway 0 where
  accounts := .initial gateway
  placed _ inside := absurd inside List.not_mem_nil
  waiting i _ found := by simp [Connection.initial, Session.initial] at found
  funded := .nil 0

theorem Sound.receive (sound : c.Sound gateway n) (bounded : ∀ i, (flows i).Bounded k)
    (stepped : c.step gateway stringify (.receive request flows pooled) = some c') :
    ∃ m, c'.Sound gateway m ∧ m + k * c.courses.length = n + k * c'.courses.length := by
  obtain ⟨session, received, rfl⟩ := Option.map_eq_some_iff.mp stepped
  have earlierOrLast (i : Nat) (e : Exchange) (found : session.exchanges[i]? = some e) :=
    sound.accounts.exchange_receive received found
  generalize begun : (c.session.processRequest gateway (fun i => (flows i).result stringify) request).2 = exchange
    at earlierOrLast
  have silent : ∀ i ∈ exchange.pending, (flows i).result stringify = .pending := by
    rw [← begun]
    exact fun i => Session.processRequest_pending
  have joined : unanswered (c.courses ++ exchange.pending.map fun i =>
      ((c.session.received.length, i), (flows i).start (pooled i))) =
      unanswered c.courses ++ exchange.pending.map fun i => (c.session.received.length, i) := by
    rw [← unanswered_start (fun i => (c.session.received.length, i)) pooled silent]
    simp [unanswered]
  refine ⟨n + k * exchange.pending.length, ⟨sound.accounts.receive received, ?_, ?_, ?_⟩, ?_⟩
  · intro key inside
    dsimp only at inside ⊢
    rw [(Session.step_receive received).1, List.length_append, List.length_singleton]
    rw [joined, List.mem_append, List.mem_map] at inside
    rcases inside with inside | ⟨i, -, rfl⟩
    · exact (sound.placed key inside).trans (Nat.lt_succ_self _)
    · exact Nat.lt_succ_self _
  · intro i e found
    dsimp only at found ⊢
    rw [joined, List.filter_append, List.map_append]
    rcases earlierOrLast i e found with ⟨before, found, -⟩ | ⟨rfl, rfl, -⟩
    · have other : (exchange.pending.map fun i => (c.session.received.length, i)).filter (·.1 = i) = [] := by
        simp [List.filter_eq_nil_iff, before.ne']
      rw [other, List.map_nil, List.append_nil]
      exact sound.waiting i e found
    · have none : (unanswered c.courses).filter (·.1 = c.session.received.length) = [] := by
        refine List.filter_eq_nil_iff.mpr fun key inside same => ?_
        exact (sound.placed key inside).ne (of_decide_eq_true same)
      rw [none, List.filter_eq_self.mpr (by simp), List.map_map]
      simp [Function.comp_def]
  · dsimp only
    rw [List.map_append, List.map_map]
    exact sound.funded.append (Funded.start bounded pooled _)
  · dsimp only
    rw [List.length_append, List.length_map, Nat.mul_add]
    omega

theorem Sound.waits (sound : c.Sound gateway n) (here : c.courses[which]? = some (key, course))
    (silent : course.replies = []) :
    ∃ exchange, c.session.exchanges[key.1]? = some exchange ∧ key.2 ∈ exchange.pending := by
  have inside : key ∈ unanswered c.courses := by
    refine List.mem_map.mpr ⟨(key, course), List.mem_filter.mpr ⟨List.mem_of_getElem? here, ?_⟩, rfl⟩
    exact List.isEmpty_iff.mpr silent
  have found := List.getElem?_eq_getElem (sound.accounts.length ▸ sound.placed key inside)
  refine ⟨_, found, (sound.waiting _ _ found).mem_iff.mpr ?_⟩
  exact List.mem_map.mpr ⟨key, List.mem_filter.mpr ⟨inside, decide_eq_true rfl⟩, rfl⟩

theorem Sound.step_course (sound : c.Sound gateway n) (here : c.courses[which]? = some (key, course))
    (moved : course.step label = some course') : ∃ c', c.step gateway stringify (.move which label) = some c' := by
  simp only [Connection.step, here, moved, Option.bind_some]
  rcases replies_step sound.funded (courses_getElem? here) moved with same | ⟨silent, doc, answered⟩
  · simp [same]
  · obtain ⟨exchange, found, waits⟩ := sound.waits here silent
    obtain ⟨after, called⟩ := exchange.complete_of_mem waits gateway.toService (stringify doc)
    simp [silent, answered, Session.step, found, called]

theorem Sound.move (sound : c.Sound gateway n) (stepped : c.step gateway stringify (.move which label) = some c') :
    0 < n ∧ c'.Sound gateway (n - 1) ∧ c'.courses.length = c.courses.length := by
  simp only [Connection.step, Option.bind_eq_some_iff] at stepped
  obtain ⟨⟨key, course⟩, here, course', moved, stepped⟩ := stepped
  obtain ⟨positive, funded⟩ := sound.funded.step (courses_getElem? here) moved
  rw [← List.map_set (f := Prod.snd) (a := (key, course'))] at funded
  refine ⟨positive, ?_⟩
  rcases replies_step sound.funded (courses_getElem? here) moved with same | ⟨silent, doc, answered⟩
  · simp only [same, List.drop_length, Option.some.injEq] at stepped
    subst stepped
    have kept := unanswered_set here same
    exact ⟨⟨sound.accounts, kept.symm ▸ sound.placed, kept.symm ▸ sound.waiting, funded⟩, List.length_set⟩
  · simp only [silent, answered, List.length_nil, List.drop_zero, Option.map_eq_some_iff] at stepped
    obtain ⟨session, completed, rfl⟩ := stepped
    obtain ⟨exchange, next, found, called, requests, exchanges, -⟩ := Session.step_complete_answers completed
    have spoken : course'.replies ≠ [] := by simp [answered]
    have fewer := unanswered_perm here silent spoken
    refine ⟨⟨sound.accounts.complete completed, ?_, ?_, funded⟩, List.length_set⟩
    · intro other inside
      dsimp only
      rw [requests]
      exact sound.placed other (fewer.mem_iff.mpr (List.mem_cons_of_mem _ inside))
    · intro i e located
      have waits := (fewer.filter (·.1 = i)).map Prod.snd
      dsimp only at located ⊢
      rw [exchanges] at located
      by_cases same : key.1 = i
      · subst same
        rw [List.getElem?_set_self (List.getElem?_eq_some_iff.mp found).1] at located
        cases located
        rw [List.filter_cons_of_pos (by simp), List.map_cons] at waits
        have erased := ((sound.waiting _ _ found).trans waits).erase key.2
        rw [List.erase_cons_head] at erased
        rw [Exchange.complete_pending called]
        exact erased
      · rw [List.getElem?_set_ne same] at located
        rw [List.filter_cons_of_neg (by simpa using same)] at waits
        exact (sound.waiting i e located).trans waits

end

def moves : List Label → Nat
  | [] => 0
  | .receive _ _ _ :: labels => moves labels
  | .move _ _ :: labels => moves labels + 1

def Label.Bounded (k : Nat) : Label → Prop
  | .receive _ flows _ => ∀ i, (flows i).Bounded k
  | .move _ _ => True

section

variable {gateway : Gateway} {stringify : Json → Bytes} {c c' : Connection} {n k : Nat} {labels : List Label}

theorem Sound.run (sound : c.Sound gateway n) (bounded : ∀ l ∈ labels, l.Bounded k)
    (ran : runAllowed (Connection.step gateway stringify) (fun _ _ => True) c labels = some c') :
    ∃ m, c'.Sound gateway m ∧ moves labels + m + k * c.courses.length = n + k * c'.courses.length := by
  induction labels generalizing n c with
  | nil =>
      cases ran
      exact ⟨n, sound, by rw [moves, Nat.zero_add]⟩
  | cons l labels ih =>
      simp only [runAllowed, if_true, Option.bind_eq_some_iff] at ran
      obtain ⟨next, stepped, ran⟩ := ran
      have later : ∀ l ∈ labels, l.Bounded k := fun l inside => bounded l (List.mem_cons_of_mem _ inside)
      cases l with
      | receive request flows pooled =>
          obtain ⟨m, sound, spent⟩ := sound.receive (bounded _ List.mem_cons_self) stepped
          obtain ⟨m', sound, rest⟩ := ih sound later ran
          exact ⟨m', sound, by rw [moves]; omega⟩
      | move which label =>
          obtain ⟨positive, sound, same⟩ := sound.move stepped
          obtain ⟨m', sound, rest⟩ := ih sound later ran
          rw [same] at rest
          exact ⟨m', sound, by rw [moves]; omega⟩

theorem step_session {l : Label} (stepped : c.step gateway stringify l = some c') :
    Reached (Session.step gateway) (fun _ _ => True) c.session c'.session := by
  cases l with
  | receive request flows pooled =>
      obtain ⟨session, received, rfl⟩ := Option.map_eq_some_iff.mp stepped
      exact .step .start trivial received
  | move which label =>
      simp only [Connection.step, Option.bind_eq_some_iff] at stepped
      obtain ⟨⟨key, course⟩, -, course', -, stepped⟩ := stepped
      split at stepped
      case h_1 =>
        cases stepped
        exact .start
      case h_2 =>
        obtain ⟨session, completed, rfl⟩ := Option.map_eq_some_iff.mp stepped
        exact .step .start trivial completed

theorem Sound.of_stuck (sound : c.Sound gateway n)
    (stuck : ∀ which label, c.step gateway stringify (.move which label) = none) {i : Nat} {request : Request}
    (asked : c.session.received[i]? = some request) (expects : Session.Expects gateway request) :
    c.session.answers i = 1 ∨ ∃ entry ∈ c.courses, entry.1.1 = i ∧
      (entry.2.undefined = true ∨ ∃ ask ∈ entry.2.asked, ask.request.thrown = true) := by
  obtain ⟨exchange, found⟩ : ∃ exchange, c.session.exchanges[i]? = some exchange :=
    ⟨_, List.getElem?_eq_getElem (sound.accounts.length ▸ (List.getElem?_eq_some_iff.mp asked).1)⟩
  have owes := (sound.accounts.owes i request exchange asked found).2 expects
  by_cases idle : exchange.pending = []
  · left
    rw [sound.accounts.answers, found, Option.elim_some]
    exact owes.responses_eq (Exchange.idle_iff.mpr idle)
  · right
    obtain ⟨element, waits⟩ := List.exists_mem_of_ne_nil _ idle
    obtain ⟨key, inside, -⟩ := List.mem_map.mp ((sound.waiting i _ found).mem_iff.mp waits)
    obtain ⟨inside, same⟩ := List.mem_filter.mp inside
    obtain ⟨entry, kept, rfl⟩ := List.mem_map.mp inside
    obtain ⟨member, silent⟩ := List.mem_filter.mp kept
    obtain ⟨which, bound, here⟩ := List.getElem_of_mem member
    have still : ∀ label, entry.2.step label = none := by
      intro label
      by_contra moves
      obtain ⟨course', moved⟩ := Option.ne_none_iff_exists'.mp moves
      have here : c.courses[which]? = some (entry.1, entry.2) := by rw [List.getElem?_eq_getElem bound, here]
      obtain ⟨c', stepped⟩ : ∃ c', c.step gateway stringify (.move which label) = some c' := sound.step_course here moved
      cases stepped.symm.trans (stuck which label)
    refine ⟨entry, member, of_decide_eq_true same, ?_⟩
    rcases sound.funded.of_stuck (List.mem_map_of_mem member) still with spoken | wrong
    · exact absurd (List.isEmpty_iff.mp silent) spoken
    · exact wrong

theorem connection_answers_once (gateway : Gateway) (stringify : Json → Bytes) (k : Nat) (labels : List Label)
    (c : Connection) (bounded : ∀ l ∈ labels, l.Bounded k)
    (ran : runAllowed (step gateway stringify) (fun _ _ => True) initial labels = some c) :
    Reached (Session.step gateway) (fun _ _ => True) Session.initial c.session ∧
      moves labels ≤ k * c.courses.length ∧ (∀ i, c.session.writtenTo i + c.session.lostFor i ≤ 1) ∧
      (∀ which key course label course', c.courses[which]? = some (key, course) → course.step label = some course' →
        ∃ c', c.step gateway stringify (.move which label) = some c') ∧
      ((∀ entry ∈ c.courses, ∀ ask ∈ entry.2.asked, ask.client.useSsl = false) →
        (∀ which label, c.step gateway stringify (.move which label) = none) →
        ∀ i request, c.session.received[i]? = some request → Session.Expects gateway request →
          c.session.writtenTo i = 1 ∨ (c.session.isOpen = false ∧ c.session.lostFor i = 1) ∨
            ∃ entry ∈ c.courses, entry.1.1 = i ∧
              (entry.2.undefined = true ∨ ∃ ask ∈ entry.2.asked, ask.request.thrown = true)) := by
  obtain ⟨m, sound, spent⟩ := (Sound.initial gateway).run bounded ran
  have reached : Reached (step gateway stringify) (fun _ _ => True) initial c := .run .start ran
  refine ⟨reached.simulate session fun _ _ _ => step_session, ?_, sound.accounts.answers_le,
    fun which key course label course' => sound.step_course, fun _ stuck i request asked expects => ?_⟩
  · simp only [initial, List.length_nil, Nat.mul_zero] at spent
    omega
  · rcases sound.of_stuck stuck asked expects with once | wrong
    · exact or_assoc.mp (.inl (sound.accounts.written_or_lost once))
    · exact .inr (.inr wrong)

end

namespace Sample

open NetworkHandler NetworkHandler.Sample

def gateway : Gateway :=
  { relay.toService with
    validateRequest := false
    requestSchema := none
    keepAlive := true
    authEnable := false
    authKey := [] }

def flow : Flow := (getLastTxs host).perform relay Batch.Sample.lastTxs

theorem flow_bounded : flow.Bounded 96 := perform_bounded rfl _

def lastTxs : Label := .receive (Session.Sample.post none Batch.Sample.lastTxs) (fun _ => flow) fun _ => false

def crossed : List Label :=
  [lastTxs, lastTxs] ++ timedOutOnce.map (fun l => .move 1 ⟨0, l, true⟩) ++
    timedOutOnce.map (fun l => .move 0 ⟨0, l, true⟩)

theorem crossed_bounded : ∀ l ∈ crossed, l.Bounded 96 := by
  simp only [crossed, List.mem_append, List.mem_cons, List.not_mem_nil, or_false, List.mem_map]
  rintro l (((rfl | rfl) | ⟨_, -, rfl⟩) | ⟨_, -, rfl⟩)
  · exact fun _ => flow_bounded
  · exact fun _ => flow_bounded
  · trivial
  · trivial

theorem crossed_runs :
    (runAllowed (step gateway relay.stringify) (fun _ _ => True) initial crossed).map
      (fun c => (c.session.written.map Response.request, c.session.writtenTo 0, c.session.writtenTo 1)) =
        some ([1, 0], 1, 1) := by decide +kernel

end Sample

theorem connection_answers_crossed_requests :
    ∃ c, runAllowed (step Sample.gateway NetworkHandler.Sample.relay.stringify) (fun _ _ => True) initial Sample.crossed =
        some c ∧
      c.session.written.map Response.request = [1, 0] ∧ c.session.writtenTo 0 = 1 ∧ c.session.writtenTo 1 = 1 ∧
      ∀ i, c.session.writtenTo i + c.session.lostFor i ≤ 1 := by
  obtain ⟨c, ran, outcome⟩ := Option.map_eq_some_iff.mp Sample.crossed_runs
  obtain ⟨order, first, second⟩ := Prod.mk.inj outcome |>.imp_right Prod.mk.inj
  obtain ⟨-, -, once, -⟩ := connection_answers_once _ _ 96 _ c Sample.crossed_bounded ran
  exact ⟨c, ran, order, first, second, once⟩

end Connection

end FullnodeClient.Rpc
