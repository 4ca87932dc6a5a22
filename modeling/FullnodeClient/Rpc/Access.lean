import FullnodeClient.Rpc.Session
import FullnodeClient.Security.Manager

/-!
# Who is served

`http_server.cpp` with the sessions of its connections and the `security_manager` they share. An address is
checked when a connection is accepted, and a key when a request is processed; the sessions take turns in any
order.
-/

namespace FullnodeClient.Rpc
open FullnodeClient.Lib FullnodeClient.Text FullnodeClient.SecurityManager

variable {α : Type} [DecidableEq α]

structure Listener (α : Type) extends Gateway where
  anyConns : Bool
  access : List Bytes
  isLoopback : α → Bool
  addressText : α → Bytes
  -- The address of a session that could not get its remote endpoint.
  unspecified : α

structure Peer (α : Type) where
  addr : α
  session : Session

structure HttpServer (α : Type) where
  info : Info α
  peers : List (Peer α)
  -- The addresses `mark_failed` was called with.
  failed : List α

namespace HttpServer

def initial : HttpServer α := ⟨fun _ => none, [], []⟩

def checkAccess (listener : Listener α) (info : Info α) (addr : α) (time : Int) : Bool × Info α :=
  let (granted, info) := if listener.authEnable then check info addr time else (true, info)
  (granted && (listener.anyConns || listener.isLoopback addr || listener.access.contains (listener.addressText addr)),
    info)

/-- The calls of the `security_manager` in `process_request`. -/
def authenticate (listener : Listener α) (addr : α) (time : Int) (s : HttpServer α) (request : Request) : HttpServer α :=
  if Session.checkAuth listener.toGateway request then
    if listener.authEnable then { s with info := tryReset s.info addr } else s
  else { s with info := markFailed s.info addr time, failed := addr :: s.failed }

inductive Label (α : Type)
  -- With `lost` the session cannot get the remote endpoint that `accept` has got.
  | accept (addr : α) (lost : Bool) (time : Int)
  | session (i : Nat) (event : Event) (time : Int)

def step (listener : Listener α) (s : HttpServer α) : Label α → Option (HttpServer α)
  | .accept addr lost time =>
    let (accepted, info) := checkAccess listener s.info addr time
    let peer : Peer α := ⟨if lost then listener.unspecified else addr, .initial⟩
    some { s with info := info, peers := if accepted then s.peers ++ [peer] else s.peers }
  | .session i event time => do
    let peer ← s.peers[i]?
    let session ← peer.session.step listener.toGateway event
    let s := { s with peers := s.peers.set i { peer with session := session } }
    match event with
    | .receive request _ => some (s.authenticate listener peer.addr time request)
    | .complete _ _ => some s

structure Guarded (gateway : Gateway) (session : Session) : Prop where
  count : session.exchanges.length = session.received.length
  denied : ∀ (i : Nat) (request : Request), session.received[i]? = some request → Session.checkAuth gateway request = false →
    session.exchanges[i]? = some (.answered (.bad 401 (text "Access Denied"))) ∧
      i + 1 = session.received.length ∧ session.reading = false ∧ session.isOpen = false

variable {gateway : Gateway} {session after : Session}

theorem Guarded.initial : Guarded gateway .initial := ⟨rfl, fun i request found => by simp [Session.initial] at found⟩

theorem sendResponse_closes (gateway : Gateway) (i : Nat) (body : Body) (session : Session)
    (last : session.httpKeepAlive = false) :
    (session.sendResponse gateway i body).isOpen = false ∧
      (session.sendResponse gateway i body).keepsAlive gateway = false := by
  unfold Session.sendResponse
  split <;> simp [Session.keepsAlive, last]

theorem Guarded.receive {request : Request} {results : Nat → HandlerResult} (guarded : Guarded gateway session)
    (received : session.step gateway (.receive request results) = some after) : Guarded gateway after := by
  simp only [Session.step, Bool.and_eq_true, Option.ite_none_right_eq_some, Option.some.injEq] at received
  obtain ⟨⟨reading, -⟩, rfl⟩ := received
  refine ⟨by simp [guarded.count], fun i asked found unauthorized => ?_⟩
  rcases lt_trichotomy i session.received.length with before | rfl | beyond
  · -- The session would have stopped to read.
    rw [List.getElem?_append_left before] at found
    have stopped := (guarded.denied i asked found unauthorized).2.2.1
    rw [reading] at stopped
    cases stopped
  · rw [List.getElem?_concat_length] at found
    cases found
    have denied : session.processRequest gateway results request =
        ({ session with httpKeepAlive := false }, .answered (.bad 401 (text "Access Denied"))) := by
      simp [Session.processRequest, unauthorized]
    obtain ⟨closed, ended⟩ :=
      sendResponse_closes gateway session.received.length (.bad 401 (text "Access Denied"))
        { session with httpKeepAlive := false } rfl
    simp only [denied]
    exact ⟨by rw [← guarded.count, List.getElem?_concat_length], by simp, ended, closed⟩
  · rw [List.getElem?_eq_none (by simpa using beyond)] at found
    cases found

theorem Guarded.complete {i : Nat} {completion : Nat × Bytes} (guarded : Guarded gateway session)
    (completed : session.step gateway (.complete i completion) = some after) : Guarded gateway after := by
  obtain ⟨exchange, next, found, called, rfl⟩ := Session.step_complete completed
  obtain ⟨written, dropped, isOpen, sent, before⟩ :=
    session.sendAll_frame gateway i (next.responses.drop exchange.responses.length)
  rw [sent]
  refine ⟨List.length_set.trans guarded.count, fun j request asked unauthorized => ?_⟩
  obtain ⟨answered, last, stopped, shut⟩ := guarded.denied j request asked unauthorized
  have closed : isOpen = false := by
    by_contra still
    rw [(before (Bool.of_not_eq_false still)).1] at shut
    cases shut
  refine ⟨?_, last, stopped, closed⟩
  by_cases same : i = j
  · subst same
    cases answered.symm.trans found
    cases called
  · rw [List.getElem?_set_ne same]
    exact answered

theorem Guarded.step {event : Event} (guarded : Guarded gateway session)
    (stepped : session.step gateway event = some after) : Guarded gateway after := by
  cases event with
  | receive request results => exact guarded.receive stepped
  | complete i completion => exact guarded.complete stepped

/-! ## Failures are bounded by connections -/

def isDenied (gateway : Gateway) (session : Session) : Bool :=
  session.received.any fun request => !Session.checkAuth gateway request

theorem Guarded.not_denied (guarded : Guarded gateway session) (reading : session.reading = true) :
    isDenied gateway session = false := by
  by_contra denied
  simp only [isDenied, Bool.not_eq_false, List.any_eq_true, Bool.not_eq_true'] at denied
  obtain ⟨request, member, unauthorized⟩ := denied
  obtain ⟨i, found⟩ := List.getElem?_of_mem member
  have stopped := (guarded.denied i request found unauthorized).2.2.1
  rw [reading] at stopped
  cases stopped

theorem isDenied_receive {request : Request} {results : Nat → HandlerResult} (guarded : Guarded gateway session)
    (received : session.step gateway (.receive request results) = some after) :
    isDenied gateway session = false ∧ isDenied gateway after = !Session.checkAuth gateway request := by
  simp only [Session.step, Bool.and_eq_true, Option.ite_none_right_eq_some, Option.some.injEq] at received
  obtain ⟨⟨reading, -⟩, rfl⟩ := received
  have before := guarded.not_denied reading
  refine ⟨before, ?_⟩
  rw [isDenied] at before
  simp [isDenied, List.any_append, before]

theorem isDenied_complete {i : Nat} {completion : Nat × Bytes}
    (completed : session.step gateway (.complete i completion) = some after) :
    isDenied gateway after = isDenied gateway session := by
  obtain ⟨exchange, next, -, -, rfl⟩ := Session.step_complete completed
  obtain ⟨written, dropped, isOpen, sent, -⟩ :=
    session.sendAll_frame gateway i (next.responses.drop exchange.responses.length)
  rw [sent]
  rfl

def deniedAt (gateway : Gateway) (addr : α) (peer : Peer α) : Bool := peer.addr = addr && isDenied gateway peer.session

structure Sound (listener : Listener α) (s : HttpServer α) : Prop where
  guarded : ∀ peer ∈ s.peers, Guarded listener.toGateway peer.session
  failed : ∀ addr, s.failed.count addr = s.peers.countP (deniedAt listener.toGateway addr)
  attempts : ∀ addr entry, s.info addr = some entry → entry.attempt.toNat ≤ s.failed.count addr

variable {listener : Listener α} {s t : HttpServer α}

theorem Sound.initial : (initial : HttpServer α).Sound listener :=
  ⟨nofun, fun _ => rfl, nofun⟩

theorem step_accept {addr : α} {lost : Bool} {time : Int}
    (accepted : s.step listener (.accept addr lost time) = some t) :
    t.info = (if listener.authEnable then (check s.info addr time).2 else s.info) ∧ t.failed = s.failed ∧
      (t.peers = s.peers ∨ (listener.authEnable = true → (check s.info addr time).1 = true) ∧
        ∃ peer, t.peers = s.peers ++ [⟨peer, .initial⟩]) := by
  simp only [step, Option.some.injEq] at accepted
  subst accepted
  cases enabled : listener.authEnable with
  | false =>
      simp only [checkAccess, enabled, Bool.false_eq_true, if_false, true_and]
      split
      · exact .inr ⟨nofun, _, rfl⟩
      · exact .inl rfl
  | true =>
      simp only [checkAccess, enabled, if_true, true_and]
      split
      case isTrue granted => exact .inr ⟨fun _ => (Bool.and_eq_true_iff.mp granted).1, _, rfl⟩
      case isFalse => exact .inl rfl

theorem Sound.accept {addr : α} {lost : Bool} {time : Int} (sound : s.Sound listener)
    (accepted : s.step listener (.accept addr lost time) = some t) : t.Sound listener := by
  obtain ⟨info, failed, peers⟩ := step_accept accepted
  refine ⟨fun peer member => ?_, fun other => ?_, fun other entry recorded => ?_⟩
  · rcases peers with same | ⟨-, addr, more⟩
    · exact sound.guarded peer (same ▸ member)
    · rw [more] at member
      rcases List.mem_append.mp member with before | last
      · exact sound.guarded peer before
      · cases List.mem_singleton.mp last
        exact .initial
  · rw [failed, sound.failed other]
    rcases peers with same | ⟨-, addr, more⟩
    · rw [same]
    · simp [more, List.countP_append, deniedAt, isDenied, Session.initial]
  · rw [failed]
    rw [info] at recorded
    split at recorded
    · obtain ⟨before, found, same, -⟩ := check_entry recorded
      rw [same]
      exact sound.attempts other before found
    · exact sound.attempts other entry recorded

theorem step_session {i : Nat} {event : Event} {time : Int}
    (moved : s.step listener (.session i event time) = some t) :
    ∃ peer after, s.peers[i]? = some peer ∧ peer.session.step listener.toGateway event = some after ∧
      t.peers = s.peers.set i { peer with session := after } ∧
      match event with
      | .receive request _ =>
        if Session.checkAuth listener.toGateway request then
          t.failed = s.failed ∧ t.info = if listener.authEnable then tryReset s.info peer.addr else s.info
        else t.failed = peer.addr :: s.failed ∧ t.info = markFailed s.info peer.addr time
      | .complete _ _ => t.failed = s.failed ∧ t.info = s.info := by
  obtain ⟨peer, found, rest⟩ := Option.bind_eq_some_iff.mp moved
  obtain ⟨after, stepped, eq⟩ := Option.bind_eq_some_iff.mp rest
  refine ⟨peer, after, found, stepped, ?_⟩
  cases event with
  | receive request results =>
      cases eq
      simp only [authenticate]
      split
      · split <;> exact ⟨rfl, rfl, rfl⟩
      · exact ⟨rfl, rfl, rfl⟩
  | complete j completion =>
      cases eq
      exact ⟨rfl, rfl, rfl⟩

theorem markFailed_attempt {info : Info α} {addr other : α} {time : Int} {entry : AddrInfo} {failed : List α}
    (attempts : ∀ other entry, info other = some entry → entry.attempt.toNat ≤ failed.count other)
    (recorded : markFailed info addr time other = some entry) :
    entry.attempt.toNat ≤ (addr :: failed).count other := by
  by_cases here : other = addr
  · subst here
    rw [List.count_cons_self]
    rcases markFailed_entry recorded with ⟨-, rfl⟩ | ⟨before, found, rfl⟩
    · exact Nat.le_add_left 1 _
    · have wraps : (before.attempt + 1).toNat ≤ before.attempt.toNat + 1 := by
        rw [UInt32.toNat_add]
        exact Nat.mod_le _ _
      exact wraps.trans (Nat.add_le_add_right (attempts other before found) 1)
  · rw [List.count_cons_of_ne (Ne.symm here)]
    exact attempts other entry ((markFailed_other here).symm.trans recorded)

theorem countP_set_peer {addr : α} {i : Nat} {peer : Peer α} {after : Session} (found : s.peers[i]? = some peer)
    (before : isDenied listener.toGateway peer.session = false) :
    (s.peers.set i { peer with session := after }).countP (deniedAt listener.toGateway addr) =
      s.peers.countP (deniedAt listener.toGateway addr) +
        if peer.addr = addr ∧ isDenied listener.toGateway after = true then 1 else 0 := by
  obtain ⟨inside, rfl⟩ := List.getElem?_eq_some_iff.mp found
  rw [List.countP_set inside]
  simp [deniedAt, before]

theorem countP_set_same {addr : α} {i : Nat} {peer : Peer α} {after : Session} (found : s.peers[i]? = some peer)
    (same : isDenied listener.toGateway after = isDenied listener.toGateway peer.session) :
    (s.peers.set i { peer with session := after }).countP (deniedAt listener.toGateway addr) =
      s.peers.countP (deniedAt listener.toGateway addr) := by
  obtain ⟨inside, rfl⟩ := List.getElem?_eq_some_iff.mp found
  have kept : deniedAt listener.toGateway addr { s.peers[i] with session := after } =
      deniedAt listener.toGateway addr s.peers[i] := by
    simp only [deniedAt, same]
  rw [List.countP_set inside, kept]
  cases counted : deniedAt listener.toGateway addr s.peers[i] with
  | false => rfl
  | true =>
      have positive := List.countP_pos_iff.mpr ⟨s.peers[i], List.getElem_mem inside, counted⟩
      exact Nat.sub_add_cancel positive

theorem Sound.sessionStep {i : Nat} {event : Event} {time : Int} (sound : s.Sound listener)
    (moved : s.step listener (.session i event time) = some t) : t.Sound listener := by
  obtain ⟨peer, after, found, stepped, peers, rest⟩ := step_session moved
  have guarded := sound.guarded peer (List.mem_of_getElem? found)
  have guardedAll : ∀ other ∈ t.peers, Guarded listener.toGateway other.session := by
    rw [peers]
    intro other member
    rcases List.mem_or_eq_of_mem_set member with old | rfl
    · exact sound.guarded other old
    · exact guarded.step stepped
  cases event with
  | receive request results =>
      obtain ⟨fresh, denied⟩ := isDenied_receive guarded stepped
      dsimp only at rest
      split at rest
      case isTrue authorized =>
        obtain ⟨failed, info⟩ := rest
        refine ⟨guardedAll, fun addr => ?_, fun addr entry recorded => ?_⟩
        · rw [failed, peers, countP_set_peer found fresh, sound.failed addr, denied, authorized]
          simp
        · rw [failed]
          rw [info] at recorded
          split at recorded
          · exact sound.attempts addr entry (tryReset_entry recorded)
          · exact sound.attempts addr entry recorded
      case isFalse unauthorized =>
        obtain ⟨failed, info⟩ := rest
        refine ⟨guardedAll, fun addr => ?_, fun addr entry recorded => ?_⟩
        · rw [failed, peers, countP_set_peer found fresh, List.count_cons, sound.failed addr, denied]
          simp [unauthorized]
        · rw [info] at recorded
          rw [failed]
          exact markFailed_attempt sound.attempts recorded
  | complete j completion =>
      obtain ⟨failed, info⟩ := rest
      refine ⟨guardedAll, fun addr => ?_, fun addr entry recorded => ?_⟩
      · rw [failed, peers, sound.failed addr, countP_set_same found (isDenied_complete stepped)]
      · rw [failed]
        exact sound.attempts addr entry (info ▸ recorded)

theorem Sound.step {label : Label α} (sound : s.Sound listener) (stepped : s.step listener label = some t) :
    t.Sound listener := by
  cases label with
  | accept addr lost time => exact sound.accept stepped
  | session i event time => exact sound.sessionStep stepped

theorem Sound.reached {allowed : HttpServer α → Label α → Prop}
    (reached : Reached (HttpServer.step listener) allowed .initial s) : s.Sound listener := by
  induction reached with
  | start => exact .initial
  | step _ _ stepped ih => exact ih.step stepped

theorem failures_le_connections (listener : Listener α) (s : HttpServer α)
    (reached : Reached (step listener) (fun _ _ => True) initial s) :
    (∀ addr, s.failed.count addr ≤ s.peers.countP (·.addr = addr)) ∧
      ∀ peer ∈ s.peers, ∀ (i : Nat) (request : Request), peer.session.received[i]? = some request →
        Session.checkAuth listener.toGateway request = false →
          peer.session.exchanges[i]? = some (.answered (.bad 401 (text "Access Denied"))) ∧
            i + 1 = peer.session.received.length ∧ peer.session.reading = false ∧ peer.session.isOpen = false := by
  have sound := Sound.reached reached
  refine ⟨fun addr => ?_, fun peer member => (sound.guarded peer member).denied⟩
  rw [sound.failed addr]
  refine List.countP_mono_left fun peer _ denied => ?_
  simp only [deniedAt, Bool.and_eq_true] at denied
  exact denied.1

namespace Sample

def guarded : Listener Nat :=
  { Session.Sample.alive with
    authEnable := true
    authKey := text "key"
    anyConns := true
    access := []
    isLoopback := fun _ => false
    addressText := fun _ => []
    unspecified := 0 }

def guess (key : String) : Event :=
  .receive ⟨.post, text "/", 11, none, true, some (text key), Batch.Sample.lastTxs⟩ fun _ => .pending

theorem guesses_run : (runAllowed (step guarded) (fun _ _ => True) initial
    [.accept 7 false 100, .accept 7 false 101, .session 0 (guess "k") 102, .session 1 (guess "key") 103]).map
      (fun s => (s.failed, s.peers.map (·.session.isOpen))) = some ([7], [false, true]) := by decide +kernel

end Sample

theorem failures_le_connections_of_guesses :
    ∃ s, Reached (step Sample.guarded) (fun _ _ => True) initial s ∧
      s.failed = [7] ∧ s.peers.map (·.session.isOpen) = [false, true] ∧
      s.failed.count 7 ≤ s.peers.countP (·.addr = 7) := by
  obtain ⟨s, ran, outcome⟩ := Option.map_eq_some_iff.mp Sample.guesses_run
  obtain ⟨failed, closed⟩ := Prod.mk.inj outcome
  have reached := Reached.run .start ran
  exact ⟨s, reached, failed, closed, (failures_le_connections Sample.guarded s reached).1 7⟩

/-! ## Connections of an address that has failed too often -/

def Refuses (listener : Listener α) (addr : α) (s : HttpServer α) : Label α → Prop
  | .accept _ _ time => time ≠ -1
  | .session i (.receive request _) _ =>
    ∀ peer, s.peers[i]? = some peer → peer.addr = addr → Session.checkAuth listener.toGateway request = false
  | .session _ (.complete _ _) _ => True

def Held (addr : α) (attempt : Nat) (time : Int) (s : HttpServer α) : Prop :=
  ∃ entry, s.info addr = some entry ∧ attempt ≤ entry.attempt.toNat ∧ time ≤ entry.last

theorem check_keeps {info : Info α} {addr other : α} {entry : AddrInfo} (recorded : info other = some entry) (time : Int) :
    ∃ after, (check info addr time).2 other = some after ∧ after.attempt = entry.attempt ∧ entry.last ≤ after.last := by
  cases kept : (check info addr time).2 other with
  | some after =>
      obtain ⟨before, found, same, later⟩ := check_entry kept
      cases recorded.symm.trans found
      exact ⟨after, rfl, same, later⟩
  | none =>
      unfold check at kept
      split at kept
      · simp [recorded] at kept
      · split_ifs at kept
        · simp [recorded] at kept
        · simp [recorded] at kept
        · by_cases here : other = addr
          · simp [here] at kept
          · simp [Function.update_of_ne here, recorded] at kept
        · simp [recorded] at kept

theorem tryReset_other {info : Info α} {addr other : α} (elsewhere : other ≠ addr) :
    tryReset info addr other = info other := by
  cases found : info addr <;> simp only [tryReset, found, Function.update_of_ne elsewhere]

theorem check_stamps {info : Info α} {addr : α} {entry : AddrInfo} {time : Int} (recorded : info addr = some entry)
    (exceeds : maxAttempts < entry.attempt) (clock : time ≠ -1) (granted : (check info addr time).1 = true) :
    (check info addr time).2 addr = some { entry with last := time } := by
  unfold check at granted ⊢
  simp only [recorded, exceeds, if_true, clock, if_false] at granted ⊢
  split at granted
  · cases granted
  · rename_i passed
    rw [if_neg passed]
    exact Function.update_self ..

-- The highest count of attempts whose penalty an `unsigned int` can hold.
def maxCounted : Nat := 14316561

theorem wait_eq {attempt : UInt32} (exceeds : maxAttempts < attempt) (few : attempt.toNat ≤ maxCounted) :
    (wait attempt : Int) = (attempt.toNat - 4) * 300 := by
  have four : 4 < attempt.toNat := UInt32.lt_iff_toNat_lt.mp exceeds
  have difference : (attempt - maxAttempts).toNat = attempt.toNat - 4 :=
    UInt32.toNat_sub_of_le _ _ (UInt32.le_iff_toNat_le.mpr four.le)
  have small : (attempt.toNat - 4) * 300 < 2 ^ 32 := by
    simp only [maxCounted] at few
    omega
  rw [wait, UInt32.toNat_mul, difference, show (300 : UInt32).toNat = 300 from rfl, Nat.mod_eq_of_lt small]
  omega

theorem Held.accept {addr other : α} {attempt : Nat} {since time : Int} {lost : Bool} (held : s.Held addr attempt since)
    (accepted : s.step listener (.accept other lost time) = some t) : t.Held addr attempt since := by
  obtain ⟨entry, recorded, attempts, last⟩ := held
  obtain ⟨info, -⟩ := step_accept accepted
  unfold Held
  rw [info]
  split
  · obtain ⟨after, kept, same, later⟩ := check_keeps recorded time
    exact ⟨after, kept, same ▸ attempts, last.trans later⟩
  · exact ⟨entry, recorded, attempts, last⟩

theorem Held.failed {addr other : α} {attempt : Nat} {since time : Int} (held : s.Held addr attempt since)
    (sound : s.Sound listener) (few : s.failed.length ≤ maxCounted) (info : t.info = markFailed s.info other time) :
    t.Held addr attempt since := by
  obtain ⟨entry, recorded, attempts, last⟩ := held
  unfold Held
  rw [info]
  by_cases here : addr = other
  · subst here
    have counted := (sound.attempts addr entry recorded).trans List.count_le_length
    have unwrapped : (entry.attempt + 1).toNat = entry.attempt.toNat + 1 := by
      rw [UInt32.toNat_add]
      exact Nat.mod_eq_of_lt (by simp only [maxCounted] at few; simp; omega)
    refine ⟨{ entry with attempt := entry.attempt + 1 }, by simp [markFailed, recorded], ?_, last⟩
    rw [unwrapped]
    omega
  · exact ⟨entry, (markFailed_other here).trans recorded, attempts, last⟩

theorem Held.step {addr : α} {attempt : Nat} {since : Int} {label : Label α} (held : s.Held addr attempt since)
    (sound : s.Sound listener) (few : s.failed.length ≤ maxCounted) (refuses : Refuses listener addr s label)
    (stepped : s.step listener label = some t) : t.Held addr attempt since := by
  cases label with
  | accept other lost time => exact held.accept stepped
  | session i event time =>
      obtain ⟨peer, after, found, -, -, rest⟩ := step_session stepped
      cases event with
      | receive request results =>
          dsimp only at rest
          split at rest
          case isTrue authorized =>
            obtain ⟨-, info⟩ := rest
            obtain ⟨entry, recorded, bounds⟩ := held
            have elsewhere : peer.addr ≠ addr := by
              intro here
              rw [refuses peer found here] at authorized
              cases authorized
            refine ⟨entry, ?_, bounds⟩
            rw [info]
            split
            · rw [tryReset_other (Ne.symm elsewhere)]
              exact recorded
            · exact recorded
          case isFalse => exact held.failed sound few rest.2
      | complete j completion =>
          obtain ⟨entry, recorded, bounds⟩ := held
          exact ⟨entry, rest.2 ▸ recorded, bounds⟩

theorem failed_length_le {label : Label α} (stepped : s.step listener label = some t) :
    s.failed.length ≤ t.failed.length := by
  cases label with
  | accept addr lost time => rw [(step_accept stepped).2.1]
  | session i event time =>
      obtain ⟨peer, after, -, -, -, rest⟩ := step_session stepped
      cases event with
      | receive request results =>
          dsimp only at rest
          split at rest
          · rw [rest.1]
          · rw [rest.1]
            exact Nat.le_succ _
      | complete j completion => rw [rest.1]

theorem Held.reached {addr : α} {attempt : Nat} {since : Int} (held : s.Held addr attempt since)
    (sound : s.Sound listener) (later : Reached (HttpServer.step listener) (Refuses listener addr) s t)
    (few : t.failed.length ≤ maxCounted) : t.Held addr attempt since ∧ t.Sound listener := by
  induction later with
  | start => exact ⟨held, sound⟩
  | step _ refuses stepped ih =>
      have before := (failed_length_le stepped).trans few
      obtain ⟨held, sound⟩ := ih before
      exact ⟨held.step sound before refuses stepped, sound.step stepped⟩

theorem accepted_connections_spaced (listener : Listener α) (enabled : listener.authEnable = true)
    (s t u v : HttpServer α) (addr : α) (lost lost' : Bool) (time time' : Int) (entry : AddrInfo)
    (reached : Reached (step listener) (fun _ _ => True) initial s) (recorded : s.info addr = some entry)
    (exceeds : maxAttempts < entry.attempt)
    (first : s.step listener (.accept addr lost time) = some t) (accepted : s.peers.length < t.peers.length)
    (clock : time ≠ -1) (between : Reached (step listener) (Refuses listener addr) t u)
    (few : u.failed.length ≤ maxCounted) (second : u.step listener (.accept addr lost' time') = some v)
    (accepted' : u.peers.length < v.peers.length) (clock' : time' ≠ -1) :
    ((entry.attempt.toNat : Int) - 4) * 300 < time' - time := by
  have granted {s t : HttpServer α} {lost : Bool} {time : Int}
      (stepped : s.step listener (.accept addr lost time) = some t) (more : s.peers.length < t.peers.length) :
      (check s.info addr time).1 = true := by
    rcases (step_accept stepped).2.2 with same | ⟨granted, -⟩
    · rw [same] at more
      exact absurd more (lt_irrefl _)
    · exact granted enabled
  have stamped : t.Held addr entry.attempt.toNat time := by
    refine ⟨{ entry with last := time }, ?_, le_rfl, le_rfl⟩
    rw [(step_accept first).1, if_pos enabled]
    exact check_stamps recorded exceeds clock (granted first accepted)
  obtain ⟨⟨entry', recorded', attempts, last⟩, sound⟩ :=
    stamped.reached ((Sound.reached reached).step first) between few
  have exceeds' : maxAttempts < entry'.attempt :=
    UInt32.lt_iff_toNat_lt.mpr ((UInt32.lt_iff_toNat_lt.mp exceeds).trans_le attempts)
  have counted := ((sound.attempts addr entry' recorded').trans List.count_le_length).trans few
  rcases (check_granted recorded' exceeds' time').mp (granted second accepted') with failed | passed
  · exact absurd failed clock'
  · rw [wait_eq exceeds' counted] at passed
    omega

namespace Sample

def burst : List (Label Nat) :=
  List.replicate 5 (.accept 7 false 100) ++ (List.range 5).map fun i => .session i (guess "k") 100

end Sample

theorem accepted_connections_spaced_after_burst :
    ∃ s t u v : HttpServer Nat, Reached (step Sample.guarded) (fun _ _ => True) initial s ∧
      s.step Sample.guarded (.accept 7 false 500) = some t ∧
      Reached (step Sample.guarded) (Refuses Sample.guarded 7) t u ∧ u.failed.length = 6 ∧
      u.step Sample.guarded (.accept 7 false 1102) = some v ∧ v.peers.length = 7 ∧ (5 - 4) * 300 < (1102 : Int) - 500 := by
  obtain ⟨s, t, u, v, ran, first, guessed, second, facts⟩ : ∃ s t u v : HttpServer Nat,
      runAllowed (step Sample.guarded) (fun _ _ => True) initial Sample.burst = some s ∧
      s.step Sample.guarded (.accept 7 false 500) = some t ∧
      t.step Sample.guarded (.session 5 (Sample.guess "k") 501) = some u ∧
      u.step Sample.guarded (.accept 7 false 1102) = some v ∧
      s.info 7 = some ⟨100, 5⟩ ∧ s.peers.length = 5 ∧ t.peers.length = 6 ∧ u.peers.length = 6 ∧
      u.failed.length = 6 ∧ v.peers.length = 7 := ⟨_, _, _, _, rfl, rfl, rfl, rfl, by decide +kernel⟩
  obtain ⟨recorded, five, six, same, failures, seven⟩ := facts
  have reached := Reached.run .start ran
  have refuses : Refuses Sample.guarded 7 t (.session 5 (Sample.guess "k") 501) := fun _ _ _ => by decide +kernel
  have between := Reached.step .start refuses guessed
  have spaced := accepted_connections_spaced Sample.guarded rfl s t u v 7 false false 500 1102 ⟨100, 5⟩ reached recorded
    (by decide) first (by omega) (by decide) between (by rw [failures]; decide) second (by omega) (by decide)
  exact ⟨s, t, u, v, reached, first, between, failures, second, seven, spaced⟩

end HttpServer

end FullnodeClient.Rpc
