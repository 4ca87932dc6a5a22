import FullnodeClient.Rpc.Batch

/-!
# Requests to the service

How `http_session.cpp` serves one request: `process_post_request`, `process_single_request`,
`process_batch_request` and `process_get_request`. An exception ends the function it is thrown in
and is only logged.
-/

namespace FullnodeClient.Rpc
open FullnodeClient.Lib FullnodeClient.Text

structure Server extends Service where
  validateRequest : Bool
  /-- The validator of the request schema, if it is loaded: the error it reports on a document. -/
  requestSchema : Option (Json → Option Json)

inductive Body
  | document (doc : Json)
  | reply (reply : Bytes)
  | batch (sent : Sent)
  | bad (status : Nat) (message : Bytes)

inductive Exchange
  | silent
  | answered (body : Body)
  | waiting
  | batch (batch : Batch)

namespace Exchange

def responses : Exchange → List Body
  | silent => []
  | answered body => [body]
  | waiting => []
  | batch b => b.sent.map .batch

def complete (service : Service) : Exchange → Nat × Bytes → Option Exchange
  | waiting, (0, data) => some (answered (.reply data))
  | batch b, completion => (b.sendJson service completion).map batch
  | _, _ => none

def Idle : Exchange → Prop
  | waiting => False
  | batch b => b.pending = []
  | _ => True

end Exchange

def Json.typeNumber : Json → Nat
  | .null => 0
  | .bool false => 1
  | .bool true => 2
  | .obj _ => 3
  | .arr _ => 4
  | .str _ => 5
  | .int _ => 6
  | .double _ => 6

namespace Server

def rejection (server : Server) (doc : Json) : Option Json :=
  if server.validateRequest then server.requestSchema.bind (· doc) else none

def refuse (doc : Json) (code : Int) (message : Bytes) (finish : Json → Json) : Exchange :=
  match Reader.getId doc with
  -- The exception is caught at the end of the calling function, behind its `send_json`.
  | none => .silent
  | some id => .answered (.document (finish (Writer.setError code message (Writer.setId id Writer.initial))))

def handled : HandlerResult → Exchange
  | .complete reply => .answered (.reply reply)
  | .pending => .waiting

def processSingleRequest (server : Server) (results : Nat → HandlerResult) (doc : Json) : Exchange :=
  match Reader.getMethod doc with
  | none => refuse doc (-32600) (text "Json method is not provided") id
  | some method =>
    if Reader.hasId doc = false then .silent
    else if server.handles method = false then refuse doc (-32601) (noSuchMethod method) id
    else handled (results 0)

def processPostRequest (server : Server) (results : Nat → HandlerResult) (target body : Bytes) : Exchange :=
  if target ≠ text "/" then .answered (.bad 400 (text "Incorrect Path"))
  else match server.parse body with
    | .error (code, message) =>
      .answered (.document (Writer.setError (-32700)
        (text "Parse json error " ++ decimal code ++ text ": " ++ message) Writer.initial))
    | .ok doc =>
      match server.rejection doc with
      | some error =>
        refuse doc (-32600) (text "Common request json validation error") (Writer.setErrorData error)
      | none =>
        match doc with
        | .obj _ => server.processSingleRequest results doc
        | .arr elements => .batch (Batch.process server.toService results elements)
        | _ => refuse doc (-32600) (text "Unrecognized json type " ++ decimal doc.typeNumber) id

def getHandlers : List Bytes := [text "status"]

def processGetRequest (results : Nat → HandlerResult) (target : Bytes) : Exchange :=
  if target.length < 2 then .answered (.bad 400 (text "Incorrect Path"))
  else
    let method := (target.takeWhile (· ≠ 63)).drop 1
    if getHandlers.contains method then handled (results 0)
    else .answered (.document (Writer.setError (-32601) (noSuchMethod method) (Writer.setId 1 Writer.initial)))

end Server

/-! ## What is owed -/

/-- The number of responses that will have been written when the handlers have completed. -/
inductive Exchange.Owes : Exchange → Nat → Prop
  | silent : Owes .silent 0
  | answered (body : Body) : Owes (.answered body) 1
  | waiting : Owes .waiting 1
  | batch {batch : Batch} {array : List Json} {n : Nat} : Batch.Fate array batch n → Owes (.batch batch) n

namespace Exchange

variable {service : Service} {exchange after : Exchange} {completion : Nat × Bytes} {n : Nat}

theorem Owes.complete (owes : exchange.Owes n) (called : exchange.complete service completion = some after) :
    after.Owes n := by
  cases owes with
  | silent => simp [Exchange.complete] at called
  | answered body => simp [Exchange.complete] at called
  | waiting =>
      rcases completion with ⟨_ | i, data⟩ <;> simp only [Exchange.complete] at called
      · exact Option.some.inj called ▸ .answered _
      · cases called
  | batch fate =>
      obtain ⟨next, received, rfl⟩ := Option.map_eq_some_iff.mp called
      exact .batch (fate.step received)

theorem Owes.responses_le (owes : exchange.Owes n) : exchange.responses.length ≤ n := by
  cases owes with
  | silent => exact le_rfl
  | answered body => exact le_rfl
  | waiting => exact Nat.zero_le 1
  | batch fate =>
      rw [responses, List.length_map]
      exact fate.sent_le

theorem Owes.responses_eq (owes : exchange.Owes n) (idle : exchange.Idle) : exchange.responses.length = n := by
  cases owes with
  | silent => rfl
  | answered body => rfl
  | waiting => exact idle.elim
  | batch fate =>
      rw [responses, List.length_map]
      exact fate.sent_eq idle

def OwesIf (condition : Prop) (exchange : Exchange) : Prop :=
  condition ∧ exchange.Owes 1 ∨ ¬condition ∧ exchange.Owes 0

theorem OwesIf.congr {condition condition' : Prop} (same : condition ↔ condition')
    (owes : exchange.OwesIf condition) : exchange.OwesIf condition' := by
  simpa only [OwesIf, same] using owes

theorem OwesIf.complete {condition : Prop} (owes : exchange.OwesIf condition)
    (called : exchange.complete service completion = some after) : after.OwesIf condition :=
  owes.imp (.imp_right fun one => one.complete called) (.imp_right fun zero => zero.complete called)

theorem OwesIf.owes {condition : Prop} (owes : exchange.OwesIf condition) :
    ∃ n ≤ 1, exchange.Owes n := by
  rcases owes with ⟨-, one⟩ | ⟨-, zero⟩
  · exact ⟨1, le_rfl, one⟩
  · exact ⟨0, Nat.zero_le 1, zero⟩

theorem OwesIf.one_iff {condition : Prop} (owes : exchange.OwesIf condition) (idle : exchange.Idle) :
    exchange.responses.length = 1 ↔ condition := by
  rcases owes with ⟨held, one⟩ | ⟨failed, zero⟩
  · simp [held, one.responses_eq idle]
  · simp [failed, zero.responses_eq idle]

end Exchange

namespace Server

variable {server : Server} {results : Nat → HandlerResult} {doc : Json}

def Refused (server : Server) (doc : Json) : Prop :=
  (server.rejection doc).isSome = true ∨
    doc.isObject = true ∧ ∀ method, Reader.getMethod doc = some method → server.handles method = false

def Answerable (server : Server) (body : Bytes) : Prop :=
  ∀ doc, server.parse body = .ok doc →
    (server.Refused doc → Reader.getId doc ≠ none) ∧
      ∀ elements, doc = .arr elements → server.rejection doc = none →
        ∀ v ∈ elements, ¬Batch.Throws server.toService v

def Notified (server : Server) (body : Bytes) : Prop :=
  ∃ doc, server.parse body = .ok doc ∧ doc.isNotification = true

theorem handled_owes (result : HandlerResult) : (handled result).Owes 1 := by
  cases result with
  | complete reply => exact .answered _
  | pending => exact .waiting

theorem refuse_owesIf (doc : Json) (code : Int) (message : Bytes) (finish : Json → Json) :
    (refuse doc code message finish).OwesIf (Reader.getId doc ≠ none) := by
  unfold refuse
  cases Reader.getId doc with
  | none => exact .inr ⟨by simp, .silent⟩
  | some id => exact .inl ⟨by simp, .answered _⟩

theorem processSingleRequest_owesIf (results : Nat → HandlerResult) (object : doc.isObject = true)
    (request : doc.isNotification = false) (valid : server.rejection doc = none) :
    (server.processSingleRequest results doc).OwesIf (server.Refused doc → Reader.getId doc ≠ none) := by
  have refused : server.Refused doc ↔
      ∀ method, Reader.getMethod doc = some method → server.handles method = false := by
    simp [Refused, valid, object]
  unfold processSingleRequest
  cases method : Reader.getMethod doc with
  | none => exact (refuse_owesIf _ _ _ _).congr (by simp [refused, method])
  | some name =>
      have identified : Reader.hasId doc = true := by simpa [Json.isNotification, method] using request
      simp only [identified, Bool.true_eq_false, if_false]
      cases known : server.handles name with
      | false =>
          rw [if_pos rfl]
          exact (refuse_owesIf _ _ _ _).congr (by simp [refused, method, known])
      | true =>
          rw [if_neg (by decide)]
          exact .inl ⟨by simp [refused, method, known], handled_owes _⟩

theorem process_owesIf (service : Service) (results : Nat → HandlerResult) (elements : List Json) :
    (Exchange.batch (Batch.process service results elements)).OwesIf
      (∀ v ∈ elements, ¬Batch.Throws service v) := by
  by_cases fatal : ∃ v ∈ elements, Batch.Throws service v
  · have fate : Batch.Fate elements (Batch.process service results elements) 0 :=
      .abandoned (Batch.process_abandoned results fatal)
    refine .inr ⟨?_, .batch fate⟩
    obtain ⟨v, inside, throws⟩ := fatal
    exact fun sound => sound v inside throws
  · have sound : ∀ v ∈ elements, ¬Batch.Throws service v := fun v inside throws => fatal ⟨v, inside, throws⟩
    exact .inl ⟨sound, .batch (Batch.process_fate results sound)⟩

theorem answerable_iff {body : Bytes} (parsed : server.parse body = .ok doc) :
    server.Answerable body ↔ (server.Refused doc → Reader.getId doc ≠ none) ∧
      ∀ elements, doc = .arr elements → server.rejection doc = none →
        ∀ v ∈ elements, ¬Batch.Throws server.toService v := by
  constructor
  · exact fun answerable => answerable doc parsed
  · intro sound doc' parsed'
    obtain rfl : doc = doc' := Except.ok.inj (parsed.symm.trans parsed')
    exact sound

theorem processPostRequest_owesIf (results : Nat → HandlerResult) {body : Bytes}
    (request : ¬server.Notified body) :
    (server.processPostRequest results (text "/") body).OwesIf (server.Answerable body) := by
  simp only [processPostRequest, ne_eq, not_true_eq_false, if_false]
  cases parsed : server.parse body with
  | error failure => exact .inl ⟨fun doc other => by simp [parsed] at other, .answered _⟩
  | ok doc =>
      have single : doc.isNotification = false := by
        simpa [Notified, parsed] using request
      cases rejected : server.rejection doc with
      | some error =>
          simp only [rejected]
          refine (refuse_owesIf _ _ _ _).congr ?_
          simp [answerable_iff parsed, Refused, rejected]
      | none =>
          cases doc with
          | obj members =>
              simp only [rejected]
              refine (processSingleRequest_owesIf results rfl single rejected).congr ?_
              simp [answerable_iff parsed]
          | arr elements =>
              simp only [rejected]
              refine (process_owesIf _ _ _).congr ?_
              simp [answerable_iff parsed, rejected, Reader.getId, Json.get]
          | _ =>
              simp only [rejected]
              refine (refuse_owesIf _ _ _ _).congr ?_
              simp [answerable_iff parsed, Reader.getId, Json.get]

theorem processPostRequest_notified {server : Server} {body : Bytes} {doc : Json} (results : Nat → HandlerResult)
    (parsed : server.parse body = .ok doc) (valid : server.rejection doc = none)
    (notification : doc.isNotification = true) :
    server.processPostRequest results (text "/") body = .silent := by
  obtain ⟨method, anonymous⟩ : (Reader.getMethod doc).isSome = true ∧ Reader.hasId doc = false := by
    simpa [Json.isNotification] using notification
  obtain ⟨name, found⟩ := Option.isSome_iff_exists.mp method
  cases doc with
  | obj members => simp [processPostRequest, parsed, valid, processSingleRequest, found, anonymous]
  | _ => cases found

theorem processPostRequest_owes (server : Server) (results : Nat → HandlerResult) (target body : Bytes) :
    ∃ n ≤ 1, (server.processPostRequest results target body).Owes n := by
  by_cases root : target = text "/"
  · subst root
    by_cases notified : server.Notified body
    · obtain ⟨doc, parsed, notification⟩ := notified
      cases valid : server.rejection doc with
      | none =>
          rw [processPostRequest_notified results parsed valid notification]
          exact ⟨0, Nat.zero_le 1, .silent⟩
      | some error =>
          simp only [processPostRequest, ne_eq, not_true_eq_false, if_false, parsed, valid]
          exact Exchange.OwesIf.owes (refuse_owesIf _ _ _ _)
    · exact Exchange.OwesIf.owes (processPostRequest_owesIf results notified)
  · refine ⟨1, le_rfl, ?_⟩
    rw [processPostRequest, if_pos root]
    exact .answered _

theorem processGetRequest_owes (results : Nat → HandlerResult) (target : Bytes) :
    (processGetRequest results target).Owes 1 := by
  unfold processGetRequest
  split
  · exact .answered _
  · dsimp only
    split
    · exact handled_owes _
    · exact .answered _

theorem request_answered_iff (server : Server) (results : Nat → HandlerResult) (body : Bytes)
    (request : ¬server.Notified body) (exchange : Exchange)
    (reached : Reached (Exchange.complete server.toService) (fun _ _ => True)
      (server.processPostRequest results (text "/") body) exchange)
    (idle : exchange.Idle) : exchange.responses.length = 1 ↔ server.Answerable body := by
  have owes : exchange.OwesIf (server.Answerable body) := by
    clear idle
    induction reached with
    | start => exact processPostRequest_owesIf results request
    | step _ _ called ih => exact ih.complete called
  exact owes.one_iff idle

namespace Sample

def plain : Server where
  parse := readPlain
  useLocalDatabase := false
  validateRequest := false
  requestSchema := none

def nosuch : Bytes := text "\x7b\"jsonrpc\":\"2.0\",\"id\":\"abc\",\"method\":\"nosuch\"\x7d"

theorem read_nosuch : plain.parse nosuch = .ok (Batch.Sample.identified (.str (text "abc")) "nosuch") := by
  decide +kernel

def batched : Bytes := writePlain (.arr Batch.Sample.requests)

theorem read_batched : plain.parse batched = .ok (.arr Batch.Sample.requests) := by decide +kernel

end Sample

theorem request_answered_out_of_order :
    ∃ exchange, Reached (Exchange.complete Sample.plain.toService) (fun _ _ => True)
        (Sample.plain.processPostRequest (fun _ => .pending) (text "/") Sample.batched) exchange ∧
      exchange.Idle ∧ exchange.responses.length = 1 ∧ Sample.plain.Answerable Sample.batched := by
  have request : ¬Sample.plain.Notified Sample.batched := by
    rintro ⟨doc, parsed, notified⟩
    cases Sample.read_batched.symm.trans parsed
    cases notified
  have begun : Sample.plain.processPostRequest (fun _ => .pending) (text "/") Sample.batched =
      .batch (Batch.process Sample.plain.toService (fun _ => .pending) Batch.Sample.requests) := by
    simp only [processPostRequest, Sample.read_batched]
    rfl
  have ran : runAllowed (Exchange.complete Sample.plain.toService) (fun _ _ => True)
      (.batch (Batch.process Sample.plain.toService (fun _ => .pending) Batch.Sample.requests))
      [(3, Batch.Sample.noTxs), (0, Batch.Sample.noTxs)] = some _ := rfl
  have reached := begun ▸ Reached.run .start ran
  have one := request_answered_iff _ _ _ request _ reached rfl
  exact ⟨_, reached, rfl, rfl, one.mp rfl⟩

theorem request_with_text_id_unanswered :
    ¬Sample.plain.Notified Sample.nosuch ∧
    ∃ exchange, Reached (Exchange.complete Sample.plain.toService) (fun _ _ => True)
        (Sample.plain.processPostRequest (fun _ => .pending) (text "/") Sample.nosuch) exchange ∧
      exchange.Idle ∧ exchange.responses = [] := by
  refine ⟨?_, .silent, ?_, trivial, rfl⟩
  · rintro ⟨doc, parsed, notified⟩
    cases Sample.read_nosuch.symm.trans parsed
    cases notified
  · have begun : Sample.plain.processPostRequest (fun _ => .pending) (text "/") Sample.nosuch = .silent := by
      simp only [processPostRequest, Sample.read_nosuch]
      rfl
    rw [begun]
    exact .start

end Server

end FullnodeClient.Rpc
