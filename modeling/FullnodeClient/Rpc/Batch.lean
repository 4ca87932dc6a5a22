import FullnodeClient.Lib.Log
import FullnodeClient.Rpc.Json
import Mathlib.Data.List.Perm.Basic

/-!
# Batch requests

`batch_json_request` of `json_batch_request.cpp`. `process` holds the lock until its loop has ended, so
every completion of an asynchronous handler comes after it. An entry of the result is kept with the
position of the element it was pushed for.
-/

namespace FullnodeClient.Rpc
open FullnodeClient.Lib FullnodeClient.Text

/-- The parser of rapidjson, which fails with a code and its text, and the settings of the service. -/
structure Service where
  parse : Bytes → Except (Nat × Bytes) Json
  useLocalDatabase : Bool

inductive HandlerResult
  | complete (reply : Bytes)
  | pending

def postHandlers : List (Bytes × Bool) :=
  [text "generate", text "create-tx", text "create-tx2", text "send-tx", text "get-count-blocks",
    text "get-last-txs", text "get-block-by-hash", text "get-block-by-number", text "get-blocks",
    text "get-dump-block-by-number", text "get-dump-block-by-hash", text "get-tx", text "fetch-balance",
    text "fetch-balances", text "fetch-history", text "fetch-history-filter", text "status",
    text "fetch-transaction", text "validate"].map (·, false) ++
  [text "generate", text "create-tx", text "create-tx2", text "fetch-balance", text "fetch-balances",
    text "fetch-history", text "send-tx", text "get-count-blocks", text "get-last-txs",
    text "get-block-by-hash", text "get-block-by-number", text "get-blocks", text "get-tx",
    text "get-dump-block-by-hash", text "get-dump-block-by-number", text "status", text "fetch-transaction",
    text "validate"].map (·, true)

def Service.handles (service : Service) (method : Bytes) : Bool :=
  postHandlers.contains (cStr method, service.useLocalDatabase)

def noSuchMethod (method : Bytes) : Bytes := text "Method '" ++ method ++ text "' does not exist"

def Json.isNotification (v : Json) : Bool := (Reader.getMethod v).isSome && !Reader.hasId v

inductive Sent
  | invalid (doc : Json)
  | array (entries : List (Nat × Json))

structure Batch where
  size : Nat
  result : List (Nat × Json)
  pending : List Nat
  sent : List Sent

namespace Batch

def push (batch : Batch) (i : Nat) (doc : Json) : Batch := { batch with result := batch.result ++ [(i, doc)] }

def refuse (batch : Batch) (writer : Json) (i id : Nat) (code : Int) (message : Bytes) : Batch × Json :=
  let writer := Writer.setError code message (Writer.setId id (Writer.reset writer))
  (batch.push i writer, writer)

/-- One round of the loop of `process`, with the document of its writer. -/
def element (service : Service) (results : Nat → HandlerResult) (i : Nat) (v : Json) (batch : Batch)
    (writer : Json) : Option (Batch × Json) :=
  if v.isObject = false then some (batch.refuse writer i 0 (-32600) (text "Invalid request"))
  else match Reader.getMethod v with
    | none => some (batch.refuse writer i 0 (-32600) (text "JSON method is not provided"))
    | some method =>
      if Reader.hasId v = false then some ({ batch with size := batch.size - 1 }, writer)
      else if service.handles method = false then
        -- Where `get_id` throws, the exception ends the loop.
        (Reader.getId v).map fun id => batch.refuse writer i id (-32601) (noSuchMethod method)
      else match results i with
        | .complete reply =>
          -- A text that does not parse leaves the document as it was.
          let writer := (service.parse reply).toOption.getD writer
          some (batch.push i writer, writer)
        | .pending => some ({ batch with pending := batch.pending ++ [i] }, writer)

/-- The loop of `process` from position `i`, and whether it came to its end. -/
def elements (service : Service) (results : Nat → HandlerResult) : Nat → List Json → Batch → Json → Batch × Bool
  | _, [], batch, _ => (batch, true)
  | i, v :: rest, batch, writer =>
    match element service results i v batch writer with
    | none => (batch, false)
    | some (batch, writer) => elements service results (i + 1) rest batch writer

def sendResponse (batch : Batch) : Batch := { batch with sent := batch.sent ++ [.array batch.result] }

def sendIfComplete (batch : Batch) : Batch :=
  if batch.size = batch.result.length then batch.sendResponse else batch

def process (service : Service) (results : Nat → HandlerResult) (array : List Json) : Batch :=
  if array.length = 0 then
    ⟨0, [], [], [.invalid (Writer.setError (-32600) (text "Invalid batch request") (Writer.setId 0 Writer.initial))]⟩
  else match elements service results 0 array ⟨array.length, [], [], []⟩ Writer.initial with
    | (batch, true) => batch.sendIfComplete
    | (batch, false) => batch

def parseFailure : Json :=
  Writer.setError (-32603) (text "Could not parse json response") (Writer.setId 0 (Writer.reset Writer.initial))

def sendJson (service : Service) (batch : Batch) (completion : Nat × Bytes) : Option Batch :=
  if completion.1 ∈ batch.pending then
    some (({ batch with pending := batch.pending.erase completion.1 }.push completion.1
      ((service.parse completion.2).toOption.getD parseFailure)).sendIfComplete)
  else none

/-! ## Accounts -/

def expected (i : Nat) (array : List Json) : List Nat :=
  ((array.zipIdx i).filter fun entry => !entry.1.isNotification).map Prod.snd

def Throws (service : Service) (v : Json) : Prop :=
  v.isObject = true ∧ Reader.hasId v = true ∧ Reader.getId v = none ∧
    ∃ method, Reader.getMethod v = some method ∧ service.handles method = false

def claimed (batch : Batch) : List Nat := batch.result.map Prod.fst ++ batch.pending

variable {service : Service} {results : Nat → HandlerResult} {i : Nat} {v : Json} {array : List Json}
  {batch after : Batch} {writer writer' : Json} {finished : Bool}

theorem claimed_push (doc : Json) : (batch.push i doc).claimed.Perm (i :: batch.claimed) := by
  simp [claimed, push]

theorem claimed_length : batch.claimed.length = batch.result.length + batch.pending.length := by
  simp [claimed]

theorem getMethod_of_not_object (scalar : v.isObject = false) : Reader.getMethod v = none := by
  cases v <;> simp_all [Json.isObject, Reader.getMethod, Json.get]

theorem element_eq_none : element service results i v batch writer = none ↔ Throws service v := by
  unfold element Throws
  cases object : v.isObject with
  | false => simp
  | true =>
      cases method : Reader.getMethod v with
      | none => simp
      | some name =>
          cases id : Reader.hasId v <;> cases handled : service.handles name <;>
            cases results i <;> simp [handled]

theorem element_eq_some (round : element service results i v batch writer = some (after, writer')) :
    after.sent = batch.sent ∧
      (v.isNotification = true ∧ after.size = batch.size - 1 ∧ after.claimed = batch.claimed ∨
        v.isNotification = false ∧ after.size = batch.size ∧ after.claimed.Perm (i :: batch.claimed)) := by
  unfold element at round
  cases object : v.isObject with
  | false =>
      have none := getMethod_of_not_object object
      simp only [object, if_true, Option.some.injEq, refuse, Prod.mk.injEq] at round
      obtain ⟨rfl, -⟩ := round
      exact ⟨rfl, .inr ⟨by simp [Json.isNotification, none], rfl, claimed_push _⟩⟩
  | true =>
      simp only [object, Bool.true_eq_false, if_false] at round
      cases method : Reader.getMethod v with
      | none =>
          simp only [method, Option.some.injEq, refuse, Prod.mk.injEq] at round
          obtain ⟨rfl, -⟩ := round
          exact ⟨rfl, .inr ⟨by simp [Json.isNotification, method], rfl, claimed_push _⟩⟩
      | some name =>
          simp only [method] at round
          cases id : Reader.hasId v with
          | false =>
              simp only [id, if_true, Option.some.injEq, Prod.mk.injEq] at round
              obtain ⟨rfl, -⟩ := round
              exact ⟨rfl, .inl ⟨by simp [Json.isNotification, method, id], rfl, rfl⟩⟩
          | true =>
              have answered : v.isNotification = false := by simp [Json.isNotification, id]
              simp only [id, Bool.true_eq_false, if_false] at round
              split at round
              · obtain ⟨number, -, pushed⟩ := Option.map_eq_some_iff.mp round
                simp only [refuse, Prod.mk.injEq] at pushed
                obtain ⟨rfl, -⟩ := pushed
                exact ⟨rfl, .inr ⟨answered, rfl, claimed_push _⟩⟩
              · split at round <;> simp only [Option.some.injEq, Prod.mk.injEq] at round <;>
                  obtain ⟨rfl, -⟩ := round
                · exact ⟨rfl, .inr ⟨answered, rfl, claimed_push _⟩⟩
                · exact ⟨rfl, .inr ⟨answered, rfl, by simp [claimed, ← List.append_assoc]⟩⟩

theorem expected_cons : expected i (v :: array) =
    if v.isNotification = true then expected (i + 1) array else i :: expected (i + 1) array := by
  cases notification : v.isNotification <;> simp [expected, List.zipIdx_cons, notification]

theorem elements_finished (sound : ∀ v ∈ array, ¬Throws service v)
    (looped : elements service results i array batch writer = (after, finished)) (room : array.length ≤ batch.size) :
    finished = true ∧ after.sent = batch.sent ∧
      after.size + array.length = batch.size + (expected i array).length ∧
      after.claimed.Perm (batch.claimed ++ expected i array) := by
  induction array generalizing i batch writer with
  | nil =>
      cases looped
      simp [expected]
  | cons v rest ih =>
      have safe := sound v List.mem_cons_self
      simp only [elements] at looped
      cases round : element service results i v batch writer with
      | none => exact absurd (element_eq_none.mp round) safe
      | some next =>
          obtain ⟨next, writer'⟩ := next
          simp only [round] at looped
          obtain ⟨sent, effect⟩ := element_eq_some round
          simp only [List.length_cons] at room ⊢
          rw [expected_cons]
          rcases effect with ⟨notification, size, same⟩ | ⟨notification, size, grown⟩
          · obtain ⟨ended, sent', counted, perm⟩ := ih (fun w inside => sound w (.tail _ inside)) looped (by omega)
            rw [if_pos notification, ← same]
            exact ⟨ended, sent'.trans sent, by omega, perm⟩
          · obtain ⟨ended, sent', counted, perm⟩ := ih (fun w inside => sound w (.tail _ inside)) looped (by omega)
            rw [if_neg (by simp [notification])]
            refine ⟨ended, sent'.trans sent, by simp only [List.length_cons]; omega, perm.trans ?_⟩
            exact (grown.append_right _).trans List.perm_middle.symm

theorem elements_abandoned (fatal : ∃ v ∈ array, Throws service v)
    (looped : elements service results i array batch writer = (after, finished))
    (room : batch.claimed.length + array.length ≤ batch.size) :
    finished = false ∧ after.sent = batch.sent ∧ after.claimed.length < after.size := by
  induction array generalizing i batch writer with
  | nil => simp at fatal
  | cons v rest ih =>
      simp only [elements] at looped
      simp only [List.length_cons] at room
      cases round : element service results i v batch writer with
      | none =>
          simp only [round, Prod.mk.injEq] at looped
          obtain ⟨rfl, rfl⟩ := looped
          exact ⟨rfl, rfl, by omega⟩
      | some next =>
          obtain ⟨next, writer'⟩ := next
          simp only [round] at looped
          have later : ∃ w ∈ rest, Throws service w := by
            obtain ⟨w, inside, throws⟩ := fatal
            rcases List.mem_cons.mp inside with rfl | inside
            · rw [element_eq_none.mpr throws] at round
              cases round
            · exact ⟨w, inside, throws⟩
          obtain ⟨sent, effect⟩ := element_eq_some round
          have room' : next.claimed.length + rest.length ≤ next.size := by
            rcases effect with ⟨-, size, same⟩ | ⟨-, size, grown⟩
            · rw [same]
              omega
            · rw [grown.length_eq, List.length_cons]
              omega
          obtain ⟨ended, sent', short⟩ := ih later looped room'
          exact ⟨ended, sent'.trans sent, short⟩

structure Accounted (array : List Json) (batch : Batch) : Prop where
  size : batch.size = (expected 0 array).length
  claimed : batch.claimed.Perm (expected 0 array)
  sent : batch.sent = if batch.pending = [] then [.array batch.result] else []

structure Abandoned (batch : Batch) : Prop where
  sent : batch.sent = []
  short : batch.claimed.length < batch.size

theorem sendIfComplete_accounted (size : batch.size = (expected 0 array).length)
    (claimed : batch.claimed.Perm (expected 0 array)) (silent : batch.sent = []) :
    Accounted array batch.sendIfComplete := by
  have counted : batch.result.length + batch.pending.length = batch.size := by
    rw [← claimed_length, claimed.length_eq, size]
  unfold sendIfComplete
  split
  case isTrue full =>
    have none : batch.pending = [] := List.eq_nil_of_length_eq_zero (by omega)
    exact ⟨size, claimed, by simp [sendResponse, silent, none]⟩
  case isFalse partly =>
    have some : batch.pending ≠ [] := by
      intro none
      rw [none, List.length_nil] at counted
      omega
    exact ⟨size, claimed, by simp [silent, some]⟩

theorem process_accounted (results : Nat → HandlerResult) (inhabited : array ≠ [])
    (sound : ∀ v ∈ array, ¬Throws service v) : Accounted array (process service results array) := by
  unfold process
  rw [if_neg (by simpa using inhabited)]
  rcases looped : elements service results 0 array ⟨array.length, [], [], []⟩ Writer.initial with ⟨batch, finished⟩
  obtain ⟨rfl, silent, size, claimed⟩ := elements_finished sound looped le_rfl
  exact sendIfComplete_accounted (by simpa using Nat.add_right_cancel (size.trans (Nat.add_comm _ _))) claimed silent

theorem process_abandoned (results : Nat → HandlerResult) (fatal : ∃ v ∈ array, Throws service v) :
    Abandoned (process service results array) := by
  have inhabited : array.length ≠ 0 := by
    obtain ⟨v, inside, -⟩ := fatal
    exact (List.length_pos_of_mem inside).ne'
  unfold process
  rw [if_neg inhabited]
  rcases looped : elements service results 0 array ⟨array.length, [], [], []⟩ Writer.initial with ⟨batch, finished⟩
  obtain ⟨rfl, silent, short⟩ := elements_abandoned fatal looped (by simp [claimed])
  exact ⟨silent, short⟩

theorem sendJson_eq_some {completion : Nat × Bytes} (called : sendJson service batch completion = some after) :
    completion.1 ∈ batch.pending ∧ ∃ doc, after =
      ({ batch with pending := batch.pending.erase completion.1 }.push completion.1 doc).sendIfComplete := by
  unfold sendJson at called
  split at called
  case isTrue waiting => exact ⟨waiting, _, (Option.some.inj called).symm⟩
  case isFalse => cases called

theorem claimed_completed (waiting : i ∈ batch.pending) (doc : Json) :
    ({ batch with pending := batch.pending.erase i }.push i doc).claimed.Perm batch.claimed := by
  refine (claimed_push doc).trans ?_
  simp only [claimed]
  exact List.perm_middle.symm.trans ((List.perm_cons_erase waiting).symm.append_left _)

theorem Accounted.step {completion : Nat × Bytes} (accounted : Accounted array batch)
    (called : sendJson service batch completion = some after) : Accounted array after := by
  obtain ⟨waiting, doc, rfl⟩ := sendJson_eq_some called
  have open_ : batch.pending ≠ [] := List.ne_nil_of_mem waiting
  have silent : batch.sent = [] := by rw [accounted.sent, if_neg open_]
  exact sendIfComplete_accounted accounted.size ((claimed_completed waiting doc).trans accounted.claimed) silent

theorem Abandoned.step {completion : Nat × Bytes} (abandoned : Abandoned batch)
    (called : sendJson service batch completion = some after) : Abandoned after := by
  obtain ⟨waiting, doc, rfl⟩ := sendJson_eq_some called
  have short : ({ batch with pending := batch.pending.erase completion.1 }.push completion.1 doc).claimed.length <
      batch.size := by
    rw [(claimed_completed waiting doc).length_eq]
    exact abandoned.short
  unfold sendIfComplete
  rw [if_neg]
  · exact ⟨abandoned.sent, short⟩
  · rw [claimed_length] at short
    simp only [push] at short ⊢
    omega

inductive Fate (array : List Json) (batch : Batch) : Nat → Prop
  | rejected (doc : Json) : batch.pending = [] → batch.sent = [.invalid doc] → Fate array batch 1
  | accounted : Accounted array batch → Fate array batch 1
  | abandoned : Abandoned batch → Fate array batch 0

section
variable {n : Nat}

theorem Fate.step {completion : Nat × Bytes} (fate : Fate array batch n)
    (called : sendJson service batch completion = some after) : Fate array after n := by
  cases fate with
  | rejected doc idle _ =>
      have := (sendJson_eq_some called).1
      simp [idle] at this
  | accounted accounted => exact .accounted (accounted.step called)
  | abandoned abandoned => exact .abandoned (abandoned.step called)

theorem Fate.sent_le (fate : Fate array batch n) : batch.sent.length ≤ n := by
  cases fate with
  | rejected doc _ sent => simp [sent]
  | accounted accounted =>
      rw [accounted.sent]
      split <;> simp
  | abandoned abandoned => simp [abandoned.sent]

theorem Fate.sent_eq (fate : Fate array batch n) (idle : batch.pending = []) : batch.sent.length = n := by
  cases fate with
  | rejected doc _ sent => simp [sent]
  | accounted accounted => simp [accounted.sent, idle]
  | abandoned abandoned => simp [abandoned.sent]

theorem Fate.entries_perm {entries : List (Nat × Json)} (fate : Fate array batch n)
    (inside : .array entries ∈ batch.sent) : (entries.map Prod.fst).Perm (expected 0 array) := by
  cases fate with
  | rejected doc _ sent => simp [sent] at inside
  | accounted accounted =>
      rw [accounted.sent] at inside
      split at inside
      case isTrue none =>
        cases List.mem_singleton.mp inside
        simpa [claimed, none] using accounted.claimed
      case isFalse => simp at inside
  | abandoned abandoned => simp [abandoned.sent] at inside

end

theorem process_fate (results : Nat → HandlerResult) (sound : ∀ v ∈ array, ¬Throws service v) :
    Fate array (process service results array) 1 := by
  by_cases empty : array = []
  · subst empty
    exact .rejected _ rfl rfl
  · exact .accounted (process_accounted results empty sound)

theorem batch_reply_complete (service : Service) (results : Nat → HandlerResult) (array : List Json) (batch : Batch)
    (reached : Reached (sendJson service) (fun _ _ => True) (process service results array) batch) :
    batch.sent.length ≤ 1 ∧
      ∀ entries, .array entries ∈ batch.sent → (entries.map Prod.fst).Perm (expected 0 array) := by
  obtain ⟨n, few, fate⟩ : ∃ n ≤ 1, Fate array batch n := by
    induction reached with
    | start =>
        by_cases fatal : ∃ v ∈ array, Throws service v
        · exact ⟨0, Nat.zero_le 1, .abandoned (process_abandoned results fatal)⟩
        · exact ⟨1, le_rfl, process_fate results fun v inside throws => fatal ⟨v, inside, throws⟩⟩
    | step _ _ called ih =>
        obtain ⟨n, few, fate⟩ := ih
        exact ⟨n, few, fate.step called⟩
  exact ⟨fate.sent_le.trans few, fun entries => fate.entries_perm⟩

namespace Sample

def request (id : List (Bytes × Json)) (method : String) : Json :=
  .obj ((text "jsonrpc", .str (text "2.0")) :: id ++ [(text "method", .str (text method))])

def identified (id : Json) (method : String) : Json := request [(text "id", id)] method

def plain : Service := ⟨readPlain, false⟩

def requests : List Json :=
  [identified (.int 1) "get-last-txs", .int 17, request [] "get-last-txs", identified (.int 2) "get-last-txs"]

def lastTxs : Bytes := text "\x7b\"jsonrpc\":\"2.0\",\"id\":7,\"method\":\"get-last-txs\"\x7d"

def noTxs : Bytes := text "\x7b\"jsonrpc\":\"2.0\",\"id\":1,\"result\":[]\x7d"

end Sample

theorem batch_reply_complete_in_reverse :
    ∃ batch entries, Reached (sendJson Sample.plain) (fun _ _ => True)
        (process Sample.plain (fun _ => .pending) Sample.requests) batch ∧
      batch.sent = [.array entries] ∧ entries.map Prod.fst = [1, 3, 0] ∧
      expected 0 Sample.requests = [0, 1, 3] ∧ (entries.map Prod.fst).Perm (expected 0 Sample.requests) := by
  have ran : runAllowed (sendJson Sample.plain) (fun _ _ => True)
      (process Sample.plain (fun _ => .pending) Sample.requests) [(3, Sample.noTxs), (0, Sample.noTxs)] = some _ := rfl
  have reached := Reached.run .start ran
  refine ⟨_, _, reached, rfl, by decide +kernel, by decide +kernel, ?_⟩
  exact (batch_reply_complete _ _ _ _ reached).2 _ List.mem_cons_self

end Batch

end FullnodeClient.Rpc
