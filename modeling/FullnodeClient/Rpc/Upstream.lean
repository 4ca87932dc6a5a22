import FullnodeClient.Net.Result
import FullnodeClient.Rpc.Handler

/-!
# Handlers that ask other hosts

`base_network_handler` and what is derived from it, up to the document that goes to the client. A handler
that asks another host goes on in the callback of its request, where it may ask again, while the requests it made
before may still be taking steps.
-/

namespace FullnodeClient.Rpc
open FullnodeClient.Lib FullnodeClient.Text FullnodeClient.Net

/-- What a handler has before it: the document it answers with, or a request and what the callback of the
request does with its result. -/
inductive Flow
  | reply (doc : Json)
  | ask (client : Client) (path : Bytes) (body : Json) (next : Json → Flow)
  -- The code goes on in a way that the language leaves open, or never returns.
  | undefined

structure Asked where
  client : Client
  path : Bytes
  body : Json
  next : Json → Flow
  request : Net.State

structure Course where
  asked : List Asked
  -- The documents handed to the session, by `perform` or by `send_json`.
  replies : List Json
  undefined : Bool

def Flow.start (pooled : Bool) : Flow → Course
  | reply doc => ⟨[], [doc], false⟩
  | ask client path body next => ⟨[⟨client, path, body, next, Net.State.fresh.execute client true pooled⟩], [], false⟩
  | undefined => ⟨[], [], true⟩

namespace Course

def append (c d : Course) : Course := ⟨c.asked ++ d.asked, c.replies ++ d.replies, c.undefined || d.undefined⟩

structure Label where
  which : Nat
  label : Net.State.Label
  pooled : Bool

/-- One of the requests takes a step; if that calls its callback, the handler goes on. -/
def step (c : Course) (l : Label) : Option Course :=
  (c.asked[l.which]?).bind fun ask =>
    (ask.request.step ask.client l.label).map fun request =>
      let c' := { c with asked := c.asked.set l.which { ask with request := request } }
      if ask.request.invoked < request.invoked then c'.append ((ask.next request.result).start l.pooled) else c'

def writes (k : Nat) (c : Course) : List Label → Nat
  | [] => 0
  | l :: labels =>
    (l.which == k && (c.asked[k]?).any (·.request.isWriting l.label)).toNat + (c.step l).elim 0 (writes k · labels)

end Course

/-- All requests are on the `io_context` of the session, and they take `n` steps at most. -/
inductive Flow.Bounded : Flow → Nat → Prop
  | reply (doc : Json) (n : Nat) : Bounded (.reply doc) n
  | undefined (n : Nat) : Bounded .undefined n
  | ask {client : Client} {path : Bytes} {body : Json} {next : Json → Flow} {n m : Nat}
      (external : client.ownsContext = false) (fits : 48 * max 1 client.attemptsCount + m ≤ n)
      (later : ∀ result, (next result).Bounded m) : Bounded (.ask client path body next) n

/-- The requests are made one after the other along one branch of the flow, each in the callback of the one
before, and the handler has answered if the branch has come to its end. `n` bounds the steps that are left. -/
inductive Traced : Nat → Flow → List Asked → List Json → Bool → Prop
  | replied (n : Nat) (doc : Json) : Traced n (.reply doc) [] [doc] false
  | undefined (n : Nat) : Traced n .undefined [] [] true
  | waiting {n m : Nat} {client : Client} {path : Bytes} {body : Json} {next : Json → Flow} {request : Net.State}
      (external : client.ownsContext = false) (sound : request.Sound client) (paid : request.measure client + m ≤ n)
      (silent : request.invoked = 0) (unread : request.Unread) (later : ∀ result, (next result).Bounded m) :
      Traced n (.ask client path body next) [⟨client, path, body, next, request⟩] [] false
  | called {n m : Nat} {client : Client} {path : Bytes} {body : Json} {next : Json → Flow} {request : Net.State}
      {result : Json} {rest : List Asked} {replies : List Json} {undefined : Bool}
      (external : client.ownsContext = false) (sound : request.Sound client) (paid : request.measure client + m ≤ n)
      (once : request.invoked = 1) (handed : Net.State.Handed client result)
      (later : Traced m (next result) rest replies undefined) :
      Traced n (.ask client path body next) (⟨client, path, body, next, request⟩ :: rest) replies undefined

section
variable {flow : Flow} {n : Nat} {asked : List Asked} {replies : List Json} {undefined : Bool} {c c' : Course}
  {l : Course.Label}

theorem Flow.Bounded.mono {m : Nat} (bounded : flow.Bounded n) (le : n ≤ m) : flow.Bounded m := by
  cases bounded with
  | reply doc => exact .reply doc m
  | undefined => exact .undefined m
  | ask external fits later => exact .ask external (fits.trans le) later

theorem Flow.Bounded.start (bounded : flow.Bounded n) (pooled : Bool) :
    Traced n flow (flow.start pooled).asked (flow.start pooled).replies (flow.start pooled).undefined := by
  cases bounded with
  | reply doc => exact .replied n doc
  | undefined => exact .undefined n
  | @ask client path body next _ m external fits later =>
      have measure := Net.State.execute_measure client external pooled
      refine .waiting external (.start pooled) ((Nat.add_le_add_right measure m).trans fits) ?_ (.start _ pooled) later
      cases pooled <;> rfl

theorem Course.step_eq_some : c.step l = some c' ↔
    ∃ ask request, c.asked[l.which]? = some ask ∧ ask.request.step ask.client l.label = some request ∧
      c' = if ask.request.invoked < request.invoked
        then Course.append { c with asked := c.asked.set l.which { ask with request := request } }
          ((ask.next request.result).start l.pooled)
        else { c with asked := c.asked.set l.which { ask with request := request } } := by
  simp only [step, Option.bind_eq_some_iff, Option.map_eq_some_iff]
  constructor
  · rintro ⟨ask, found, request, stepped, rfl⟩
    exact ⟨ask, request, found, stepped, rfl⟩
  · rintro ⟨ask, request, found, stepped, rfl⟩
    exact ⟨ask, found, request, stepped, rfl⟩

theorem Course.step_first {client : Client} {path : Bytes} {body : Json} {next : Json → Flow} {request : Net.State}
    (here : l.which = 0)
    (stepped : Course.step ⟨⟨client, path, body, next, request⟩ :: asked, replies, undefined⟩ l = some c') :
    ∃ request', request.step client l.label = some request' ∧
      c' = if request.invoked < request'.invoked
        then Course.append ⟨⟨client, path, body, next, request'⟩ :: asked, replies, undefined⟩
          ((next request'.result).start l.pooled)
        else ⟨⟨client, path, body, next, request'⟩ :: asked, replies, undefined⟩ := by
  obtain ⟨ask, request', found, moved, rfl⟩ := step_eq_some.mp stepped
  simp only [here, List.getElem?_cons_zero, Option.some.injEq] at found
  subst found
  exact ⟨request', moved, by simp only [here, List.set_cons_zero]⟩

theorem Course.step_later {ask : Asked} {which : Nat} (here : l.which = which + 1)
    (stepped : Course.step ⟨ask :: asked, replies, undefined⟩ l = some c') :
    ∃ d, Course.step ⟨asked, replies, undefined⟩ { l with which := which } = some d ∧
      c' = { d with asked := ask :: d.asked } := by
  obtain ⟨other, request, found, moved, rfl⟩ := step_eq_some.mp stepped
  simp only [here, List.getElem?_cons_succ, List.set_cons_succ] at found ⊢
  refine ⟨_, step_eq_some.mpr ⟨other, request, found, moved, rfl⟩, ?_⟩
  split <;> rfl

theorem Traced.step (traced : Traced n flow asked replies undefined)
    (stepped : Course.step ⟨asked, replies, undefined⟩ l = some c') :
    0 < n ∧ Traced (n - 1) flow c'.asked c'.replies c'.undefined := by
  induction traced generalizing l c' with
  | replied n doc => simp [Course.step] at stepped
  | undefined n => simp [Course.step] at stepped
  | @waiting n m client path body next request external sound paid silent unread later =>
      cases here : l.which with
      | succ which =>
          obtain ⟨d, moved, -⟩ := Course.step_later here stepped
          simp [Course.step] at moved
      | zero =>
          obtain ⟨request', moved, rfl⟩ := Course.step_first here stepped
          have drops := Net.State.step_measure external moved
          have sound' := sound.step external moved
          obtain ⟨unread', handed⟩ := unread.step external moved sound'.invoked_le
          refine ⟨by omega, ?_⟩
          split
          case isFalse same =>
            have silent' : request'.invoked = 0 := by omega
            exact .waiting external sound' (m := m) (by omega) silent' unread' later
          case isTrue more =>
            have once : request'.invoked = 1 := by
              have := sound'.invoked_le
              omega
            exact .called external sound' (m := m) (by omega) once (handed more) ((later request'.result).start l.pooled)
  | @called n m client path body next request result rest replies undefined external sound paid once handed later ih =>
      cases here : l.which with
      | zero =>
          obtain ⟨request', moved, rfl⟩ := Course.step_first here stepped
          have drops := Net.State.step_measure external moved
          have sound' := sound.step external moved
          have once' : request'.invoked = 1 := by
            have := sound'.invoked_le
            have := Net.State.step_invoked moved
            omega
          rw [if_neg (by omega)]
          exact ⟨by omega, .called external sound' (m := m) (by omega) once' handed later⟩
      | succ which =>
          obtain ⟨d, moved, rfl⟩ := Course.step_later here stepped
          obtain ⟨positive, later⟩ := ih moved
          exact ⟨by omega, .called external sound (by omega) once handed later⟩

theorem Traced.run {labels : List Course.Label} (traced : Traced n flow c.asked c.replies c.undefined)
    (ran : runAllowed Course.step (fun _ _ => True) c labels = some c') :
    labels.length ≤ n ∧ Traced (n - labels.length) flow c'.asked c'.replies c'.undefined := by
  induction labels generalizing n c with
  | nil =>
      cases Option.some.inj ran
      exact ⟨Nat.zero_le _, traced⟩
  | cons l labels ih =>
      simp only [runAllowed, if_true] at ran
      obtain ⟨next, stepped, rest⟩ := Option.bind_eq_some_iff.mp ran
      obtain ⟨positive, traced⟩ := traced.step stepped
      obtain ⟨bounded, traced⟩ := ih traced rest
      rw [List.length_cons, Nat.add_comm, ← Nat.sub_sub]
      exact ⟨by omega, traced⟩

theorem Traced.replies_le (traced : Traced n flow asked replies undefined) : replies.length ≤ 1 := by
  induction traced with
  | replied | undefined | waiting => simp
  | called _ _ _ _ _ _ ih => exact ih

theorem Traced.sound (traced : Traced n flow asked replies undefined) :
    ∀ ask ∈ asked, ask.client.ownsContext = false ∧ ask.request.Sound ask.client := by
  induction traced with
  | replied | undefined => exact fun ask inside => absurd inside List.not_mem_nil
  | waiting external sound => exact fun ask inside => List.mem_singleton.mp inside ▸ ⟨external, sound⟩
  | called external sound _ _ _ _ ih => exact List.forall_mem_cons.mpr ⟨⟨external, sound⟩, ih⟩

def Course.spent (k : Nat) (c : Course) : Int :=
  (c.asked[k]?).elim 0 fun ask => ask.request.attempt - ask.request.isAhead.toNat

theorem Flow.start_spent (k : Nat) (pooled : Bool) : (flow.start pooled).spent k = 0 := by
  cases flow with
  | reply | undefined => rfl
  | ask client path body next =>
      cases k with
      | zero => cases pooled <;> rfl
      | succ k => rfl

theorem Course.append_spent (k : Nat) (d : Course) :
    (c.append d).spent k = if k < c.asked.length then c.spent k else d.spent (k - c.asked.length) := by
  unfold Course.spent Course.append
  split
  case isTrue inside => rw [List.getElem?_append_left inside]
  case isFalse outside => rw [List.getElem?_append_right (not_lt.mp outside)]

theorem Traced.step_spent (traced : Traced n flow c.asked c.replies c.undefined) (stepped : c.step l = some c')
    (k : Nat) :
    ((l.which == k && (c.asked[k]?).any (·.request.isWriting l.label)).toNat : Int) + c.spent k ≤ c'.spent k := by
  obtain ⟨ask, request, found, moved, rfl⟩ := Course.step_eq_some.mp stepped
  obtain ⟨external, sound⟩ := traced.sound ask (List.mem_of_getElem? found)
  have inside := (List.getElem?_eq_some_iff.mp found).1
  have accounts := sound.accounts external moved
  have set : ((l.which == k && (c.asked[k]?).any (·.request.isWriting l.label)).toNat : Int) + c.spent k ≤
      Course.spent k { c with asked := c.asked.set l.which { ask with request := request } } := by
    by_cases here : l.which = k
    · subst here
      simp only [Net.State.Accounts] at accounts
      simp only [Course.spent, found, List.getElem?_set_self inside, Option.elim_some, Option.any_some, beq_self_eq_true,
        Bool.true_and]
      omega
    · simp [Course.spent, List.getElem?_set_ne here, here]
  split
  case isFalse => exact set
  case isTrue =>
    rw [Course.append_spent]
    split
    case isTrue => exact set
    case isFalse outside =>
      rw [Flow.start_spent]
      have none : c.asked[k]? = none := List.getElem?_eq_none (by simpa using outside)
      simp [Course.spent, none]

theorem Traced.run_spent {labels : List Course.Label} (traced : Traced n flow c.asked c.replies c.undefined)
    (ran : runAllowed Course.step (fun _ _ => True) c labels = some c') (k : Nat) :
    (c.writes k labels : Int) + c.spent k ≤ c'.spent k := by
  induction labels generalizing n c with
  | nil =>
      cases Option.some.inj ran
      simp [Course.writes]
  | cons l labels ih =>
      simp only [runAllowed, if_true] at ran
      obtain ⟨next, stepped, rest⟩ := Option.bind_eq_some_iff.mp ran
      have first := traced.step_spent stepped k
      have later := ih (traced.step stepped).2 rest
      rw [Course.writes, stepped, Option.elim_some]
      omega

theorem Flow.Bounded.writes_le {pooled : Bool} {labels : List Course.Label} (bounded : flow.Bounded n)
    (ran : runAllowed Course.step (fun _ _ => True) (flow.start pooled) labels = some c') {k : Nat} {ask : Asked}
    (found : c'.asked[k]? = some ask) : (flow.start pooled).writes k labels ≤ max 1 ask.client.attemptsCount := by
  have traced := bounded.start pooled
  have attempts := ((traced.run ran).2.sound ask (List.mem_of_getElem? found)).2.attempts
  have spent := traced.run_spent ran k
  rw [Flow.start_spent] at spent
  simp only [Course.spent, found, Option.elim_some] at spent
  omega

theorem Traced.of_stuck (traced : Traced n flow asked replies undefined)
    (stuck : ∀ ask ∈ asked, ∀ label, ask.request.step ask.client label = none) :
    replies.length = 1 ∨ undefined = true ∨ ∃ ask ∈ asked, ask.request.thrown = true := by
  induction traced with
  | replied n doc => exact .inl rfl
  | undefined n => exact .inr (.inl rfl)
  | waiting external sound _ silent _ _ =>
      rcases sound.over_of_stuck external (stuck _ List.mem_cons_self) with once | ⟨-, thrown⟩
      · rw [silent] at once
        cases once
      · exact .inr (.inr ⟨_, List.mem_cons_self, thrown⟩)
  | called _ _ _ _ _ _ ih =>
      rcases ih fun ask inside => stuck ask (List.mem_cons_of_mem _ inside) with one | unclear | ⟨ask, inside, thrown⟩
      · exact .inl one
      · exact .inr (.inl unclear)
      · exact .inr (.inr ⟨ask, List.mem_cons_of_mem _ inside, thrown⟩)

theorem Course.stuck_requests (stuck : ∀ l, c.step l = none) :
    ∀ ask ∈ c.asked, ∀ label, ask.request.step ask.client label = none := by
  intro ask inside label
  obtain ⟨which, bound, found⟩ := List.getElem_of_mem inside
  have placed : c.asked[which]? = some ask := by rw [List.getElem?_eq_getElem bound, found]
  simpa [Course.step, placed] using stuck ⟨which, label, false⟩

end

/-! ## `base_network_handler` -/

structure Wire extends Backend where
  stringify : Json → Bytes

/-- The host that a class derived from `base_network_handler` asks, and its `process_response` on a response with a
result or an error, which is undefined where it is `none`. -/
structure Relay where
  client : Client
  processResponse : Json → Json → Option Json

/-- A class whose `prepare_params` asks no host: its edits, and what it returns. -/
structure NetworkHandler extends Relay where
  prepareParams : Json → Nat → List Edit × Except Thrown Bool

/-- `set_path` with the name of the method, which is a null pointer if there is none. -/
def targetOf : Option Bytes → Bytes
  | none => text "/"
  | some method => if (cStr method).head? = some 47 then cStr method else 47 :: cStr method

namespace Relay

def onComplete (wire : Wire) (relay : Relay) (writer result : Json) : Option Json :=
  let writer := Writer.reset writer
  match wire.parse (wire.stringify result) with
  | .error (code, message) =>
    some (endTry writer (.param (-32602)
      (text "Invalid response json, parse error (" ++ decimal code ++ text "): " ++ message)))
  | .ok doc =>
    if Backend.hasOutcome doc then relay.processResponse doc writer
    else some (endTry writer (invalidParam "No occur result or error"))

def answer (wire : Wire) (relay : Relay) (writer result : Json) : Flow :=
  match relay.onComplete wire writer result with
  | some doc => .reply doc
  | none => .undefined

def execute (wire : Wire) (relay : Relay) (method : Option Bytes) (writer : Json) : Flow :=
  .ask relay.client (targetOf method) writer (relay.answer wire writer)

variable {wire : Wire} {relay : Relay} {method : Option Bytes} {writer : Json}

theorem execute_bounded (external : relay.client.ownsContext = false) (method : Option Bytes) (writer : Json) :
    (relay.execute wire method writer).Bounded (48 * max 1 relay.client.attemptsCount) := by
  refine .ask external (m := 0) le_rfl fun result => ?_
  unfold answer
  cases relay.onComplete wire writer result with
  | some doc => exact .reply doc 0
  | none => exact .undefined 0

theorem onComplete_defined (relay : Relay) (defined : ∀ doc writer, (relay.processResponse doc writer).isSome = true)
    (wire : Wire) (writer result : Json) : (relay.onComplete wire writer result).isSome = true := by
  unfold onComplete
  dsimp only
  split
  · rfl
  · split
    · exact defined _ _
    · rfl

theorem execute_traced {n : Nat} {asked : List Asked} {replies : List Json} {undefined : Bool}
    (traced : Traced n (relay.execute wire method writer) asked replies undefined) :
    (∃ request, asked = [⟨relay.client, targetOf method, writer, relay.answer wire writer, request⟩]) ∧
      (∀ doc ∈ replies, ∃ result, Net.State.Handed relay.client result ∧ relay.onComplete wire writer result = some doc) ∧
      (undefined = true → ∃ result, relay.onComplete wire writer result = none) := by
  cases traced with
  | waiting => exact ⟨⟨_, rfl⟩, by simp, by simp⟩
  | @called _ _ _ _ _ _ _ result _ _ _ _ _ _ _ handed later =>
      unfold answer at later
      cases completed : relay.onComplete wire writer result with
      | some doc =>
          rw [completed] at later
          cases later with
          | replied => exact ⟨⟨_, rfl⟩, fun doc inside => ⟨result, handed, by simp_all⟩, by simp⟩
      | none =>
          rw [completed] at later
          cases later with
          | undefined => exact ⟨⟨_, rfl⟩, by simp, fun _ => ⟨result, completed⟩⟩

end Relay

namespace NetworkHandler

def toHandler (handler : NetworkHandler) : Handler where
  prepareParams doc id :=
    let (edits, ended) := handler.prepareParams doc id
    ⟨edits, ended.map fun complete => (complete, false)⟩
  execute _ := ⟨[], none⟩

def perform (wire : Wire) (handler : NetworkHandler) (params : Bytes) : Flow :=
  let (writer, complete) := wire.prepare handler.toHandler params
  if complete then handler.execute wire ((wire.parse params).toOption.bind Reader.getMethod) writer else .reply writer

theorem perform_bounded {wire : Wire} {handler : NetworkHandler} (external : handler.client.ownsContext = false)
    (params : Bytes) : (handler.perform wire params).Bounded (48 * max 1 handler.client.attemptsCount) := by
  unfold perform
  rcases wire.prepare handler.toHandler params with ⟨writer, complete⟩
  cases complete with
  | true => exact Relay.execute_bounded external _ writer
  | false => exact .reply writer _

theorem network_handler_answers_once (wire : Wire) (handler : NetworkHandler)
    (external : handler.client.ownsContext = false)
    (defined : ∀ doc writer, (handler.processResponse doc writer).isSome = true) (params : Bytes) (pooled : Bool)
    (labels : List Course.Label) (c : Course)
    (ran : runAllowed Course.step (fun _ _ => True) ((handler.perform wire params).start pooled) labels = some c) :
    labels.length ≤ 48 * max 1 handler.client.attemptsCount ∧ c.asked.length ≤ 1 ∧ c.replies.length ≤ 1 ∧
      (∀ doc ∈ c.replies,
        let writer := (wire.prepare handler.toHandler params).1
        c.asked = [] ∧ doc = writer ∨
          ∃ result, Net.State.Handed handler.client result ∧ handler.onComplete wire writer result = some doc) ∧
      (∀ k ask, c.asked[k]? = some ask →
        ((handler.perform wire params).start pooled).writes k labels ≤ max 1 ask.client.attemptsCount) ∧
      (handler.client.useSsl = false → (∀ l, c.step l = none) →
        c.replies.length = 1 ∨ ∃ ask ∈ c.asked, ask.request.thrown = true) := by
  obtain ⟨bounded, traced⟩ := ((perform_bounded external params).start pooled).run ran
  have written (k : Nat) (ask : Asked) (found : c.asked[k]? = some ask) :=
    (perform_bounded external params).writes_le ran found
  have few := traced.replies_le
  have ended := fun stuck => traced.of_stuck (Course.stuck_requests (c := c) stuck)
  rcases c with ⟨asked, replies, undefined⟩
  unfold perform at traced
  rcases prepared : wire.prepare handler.toHandler params with ⟨writer, complete⟩
  rw [prepared] at traced
  cases complete with
  | false =>
      cases traced with
      | replied _ doc =>
          refine ⟨bounded, Nat.zero_le 1, few, fun doc inside => .inl ⟨rfl, ?_⟩, written, fun _ _ => .inl rfl⟩
          exact List.mem_singleton.mp inside
  | true =>
      obtain ⟨⟨request, rfl⟩, answers, unclear⟩ := Relay.execute_traced traced
      refine ⟨bounded, le_rfl, few, fun doc inside => .inr (answers doc inside), written, fun _ stuck => ?_⟩
      rcases ended stuck with one | yes | thrown
      · exact .inl one
      · obtain ⟨result, none⟩ := unclear yes
        have some := handler.onComplete_defined defined wire writer result
        rw [none] at some
        cases some
      · exact .inr thrown

/-- `base_network_handler::process_response`. -/
def copyResponse : Json → Json → Option Json
  | .obj members, writer => some (Backend.processResponse members writer)
  | _, writer => some writer

/-- `get-last-txs`, of which `prepare_params` only looks at the id. -/
def getLastTxs (client : Client) : NetworkHandler where
  client := client
  prepareParams _ id :=
    ([], if id = 0 then .error (invalidRequest "id field not found") else .ok true)
  processResponse := copyResponse

theorem copyResponse_defined (doc writer : Json) : (copyResponse doc writer).isSome = true := by
  cases doc <;> rfl

namespace Sample

open Batch.Sample (lastTxs noTxs)

def relay : Wire where
  parse := readPlain
  useLocalDatabase := false
  validateMethods := false
  methodsSchema := none
  stringify := writePlain

def host : Client := { Net.State.Sample.pair with parse := fun body => (readPlain body).toOption }

def answering (body : Bytes) : Net.State.Label → Net.State.Label
  | .complete i (.succeeded _) => .complete i (.succeeded ⟨200, body⟩)
  | label => label

def timedOutOnce : List Net.State.Label := Net.State.Sample.timedOutOnce.map (answering noTxs)

theorem lastTxs_runs :
    (runAllowed Course.step (fun _ _ => True) (((getLastTxs host).perform relay lastTxs).start false)
      (timedOutOnce.map (⟨0, ·, true⟩))).map (fun c => (c.replies, c.asked.map Asked.path)) =
        some ([resultReply (.int 7) (.arr [])], [text "/get-last-txs"]) := by
  decide +kernel

end Sample

theorem get_last_txs_answered_after_timeout :
    ∃ c, runAllowed Course.step (fun _ _ => True)
        (((getLastTxs Sample.host).perform Sample.relay Batch.Sample.lastTxs).start false)
        (Sample.timedOutOnce.map (⟨0, ·, true⟩)) = some c ∧
      c.replies = [resultReply (.int 7) (.arr [])] ∧ c.asked.map Asked.path = [text "/get-last-txs"] ∧
      ∀ k ask, c.asked[k]? = some ask →
        (((getLastTxs Sample.host).perform Sample.relay Batch.Sample.lastTxs).start false).writes k
          (Sample.timedOutOnce.map (⟨0, ·, true⟩)) ≤ max 1 ask.client.attemptsCount := by
  obtain ⟨c, ran, ended⟩ := Option.map_eq_some_iff.mp Sample.lastTxs_runs
  obtain ⟨replies, paths⟩ := Prod.mk.inj ended
  have once := network_handler_answers_once Sample.relay (getLastTxs Sample.host) rfl copyResponse_defined
    Batch.Sample.lastTxs false _ c ran
  exact ⟨c, ran, replies, paths, once.2.2.2.2.1⟩

end NetworkHandler

end FullnodeClient.Rpc
