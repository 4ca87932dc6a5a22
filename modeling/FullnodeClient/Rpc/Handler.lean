import FullnodeClient.Rpc.Batch

/-!
# Handlers and the ids of their replies

`base_handler.cpp` and `network_handler.cpp`. A handler is what it does to its writer: the edits of
`prepare_params` and of `execute`, and what happens when its requests to other hosts complete.
-/

namespace FullnodeClient.Rpc
open FullnodeClient.Lib FullnodeClient.Text

namespace Writer

def addIn (field name : Bytes) (value doc : Json) : Json :=
  doc.set field (((doc.get field).getD (.obj [])).addMember name value)

def setMethod (value : Bytes) (doc : Json) : Json := doc.set (text "method") (.str ((cStr value).take 30))

def setResult (value doc : Json) : Json := doc.set (text "result") value

def setErrorValue (value doc : Json) : Json := doc.set (text "error") value

def addResult (name : Bytes) (value doc : Json) : Json := setIn (text "result") (cStr name) value doc

def addParam (name : Bytes) (value doc : Json) : Json := setIn (text "params") (cStr name) value doc

def addValue (name : Bytes) (value doc : Json) : Json := doc.set (cStr name) value

def isError (doc : Json) : Bool := (doc.get (text "error")).isSome

end Writer

inductive Edit
  | reset
  | setMethod (value : Bytes)
  | setError (code : Int) (message : Bytes)
  | setErrorValue (value : Json)
  | setErrorData (value : Json)
  | setResult (value : Json)
  | addResult (name : Bytes) (value : Json)
  | addParam (name : Bytes) (value : Json)
  | addParamMember (name : Bytes) (value : Json)
  | addResultMember (name : Bytes) (value : Json)
  -- The functions of `generate_json.cpp`, which take the document itself.
  | addErrorToDoc (value : Json)
  | addResultToDoc (value : Json)
  | pushResult (value : Json)

def Json.push (value : Json) : Json → Json
  | .arr elements => .arr (elements ++ [value])
  | json => json

def Edit.apply (doc : Json) : Edit → Json
  | reset => Writer.reset doc
  | setMethod value => Writer.setMethod value doc
  | setError code message => Writer.setError code message doc
  | setErrorValue value => Writer.setErrorValue value doc
  | setErrorData value => Writer.setErrorData value doc
  | setResult value => Writer.setResult value doc
  | addResult name value => Writer.addResult name value doc
  | addParam name value => Writer.addParam name value doc
  | addParamMember name value => Writer.addIn (text "params") name value doc
  | addResultMember name value => Writer.addIn (text "result") name value doc
  | addErrorToDoc value => doc.addMember (text "error") value
  | addResultToDoc value => doc.addMember (text "result") value
  | pushResult value => doc.set (text "result") (((doc.get (text "result")).getD (.arr [])).push value)

/-- The body of a `BGN_TRY`: its edits, and the exception that ends it. -/
structure Program where
  edits : List Edit
  thrown : Option Thrown

def Program.run (program : Program) (doc : Json) : Json :=
  let doc := program.edits.foldl Edit.apply doc
  match program.thrown with
  | none => doc
  | some thrown => endTry doc thrown

structure Backend extends Service where
  validateMethods : Bool
  methodsSchema : Option (Json → Option Json)

structure Prepared where
  edits : List Edit
  -- Whether the request is complete, and whether it goes on asynchronously.
  ended : Except Thrown (Bool × Bool)

structure Handler where
  prepareParams : Json → Nat → Prepared
  execute : Json → Program

/-- What happens to a handler after `perform`: a request to another host completes, in `on_complete` of
the base class with the text of the response, or in a function of the handler's own. -/
inductive Completion
  | response (response : Bytes)
  | program (program : Program)

namespace Backend

def prepareParams (handler : Handler) (doc : Json) (id : Nat) (writer : Json) : Json × Bool :=
  let prepared := handler.prepareParams doc id
  let writer := prepared.edits.foldl Edit.apply writer
  match prepared.ended with
  | .error thrown => (endTry writer thrown, false)
  | .ok (complete, async) =>
    (if complete || async || Writer.isError writer then writer
      else Writer.setError (-32602) (text "Invalid params") (Writer.reset writer), complete)

/-- `prepare`: the document of the writer, and whether to execute the handler. -/
def prepare (backend : Backend) (handler : Handler) (params : Bytes) : Json × Bool :=
  match backend.parse params with
  | .error (code, message) =>
    (endTry Writer.initial (.param (-32700) (text "Parse json error " ++ decimal code ++ text ": " ++ message)), false)
  | .ok doc =>
    match Reader.getId doc with
    | none => (endTry Writer.initial (.std (text "stoi")), false)
    | some id =>
      let writer := Writer.setId id Writer.initial
      if backend.validateMethods then
        match backend.methodsSchema with
        | none => (endTry writer (invalidRequest "Could not load validation schema"), false)
        | some schema =>
          match schema doc with
          | some error =>
            (Writer.setErrorData error (Writer.setError (-32600)
              (text "Json validation error for method " ++ (Reader.getMethod doc).getD []) writer), false)
          | none => prepareParams handler doc id writer
      else prepareParams handler doc id writer

def serviceFields : List Bytes := [text "id", text "version", text "result", text "error"]

def isServiceField (name : Bytes) : Bool :=
  serviceFields.any fun field => field.length = name.length && field = cStr name

def copyMember (writer : Json) (member : Bytes × Json) : Json :=
  if isServiceField member.1 then writer else Writer.addValue member.1 member.2 writer

def processResponse (members : List (Bytes × Json)) (writer : Json) : Json :=
  let writer := match (Json.obj members).get (text "error"), (Json.obj members).get (text "result") with
    | some error, _ => Writer.setErrorValue error writer
    | none, some result => Writer.setResult result writer
    | none, none => writer
  members.foldl copyMember writer

def hasOutcome (doc : Json) : Bool := (doc.get (text "error")).isSome || (doc.get (text "result")).isSome

def onComplete (backend : Backend) (response : Bytes) (writer : Json) : Json :=
  let writer := Writer.reset writer
  match backend.parse response with
  | .error (code, message) =>
    endTry writer (.param (-32602)
      (text "Invalid response json, parse error (" ++ decimal code ++ text "): " ++ message))
  | .ok (.obj members) =>
    if hasOutcome (.obj members) then processResponse members writer
    else endTry writer (invalidParam "No occur result or error")
  | .ok _ => endTry writer (invalidParam "No occur result or error")

def completed (backend : Backend) (writer : Json) : Completion → Json
  | .response response => backend.onComplete response writer
  | .program program => program.run writer

/-- The document of the writer after `perform` and what completes later. -/
def reply (backend : Backend) (handler : Handler) (params : Bytes) (later : List Completion) : Json :=
  let (writer, complete) := backend.prepare handler params
  let writer := if complete then (handler.execute writer).run writer else writer
  later.foldl backend.completed writer

def written (name : Bytes) (members : List (Bytes × Json)) : List Json :=
  (members.filter fun member => cStr member.1 = name && !isServiceField member.1).map Prod.snd

section
variable {name : Bytes} {writer : Json} {member : Bytes × Json} {members : List (Bytes × Json)}

theorem written_cons : written name (member :: members) =
    if cStr member.1 = name ∧ isServiceField member.1 = false then member.2 :: written name members
    else written name members := by
  cases skipped : isServiceField member.1 <;> by_cases named : cStr member.1 = name <;>
    simp [written, skipped, named]

theorem isObject_copyMember (object : writer.isObject = true) : (copyMember writer member).isObject = true := by
  unfold copyMember
  split
  case isTrue => exact object
  case isFalse =>
    cases writer with
    | obj ms => rfl
    | _ => cases object

theorem isObject_copyMembers (object : writer.isObject = true) : (members.foldl copyMember writer).isObject = true :=
  List.foldlRecOn (motive := fun doc => doc.isObject = true) members copyMember object
    fun _ object _ _ => isObject_copyMember object

theorem copyMember_get (object : writer.isObject = true) :
    (copyMember writer member).get name =
      if cStr member.1 = name ∧ isServiceField member.1 = false then some member.2 else writer.get name := by
  unfold copyMember
  cases isServiceField member.1 with
  | true => simp
  | false =>
      by_cases named : cStr member.1 = name
      · simp [Writer.addValue, named]
      · cases writer with
        | obj ms => simpa [Writer.addValue, named] using Json.get_set_of_ne named
        | _ => cases object

theorem copyMembers_get (object : writer.isObject = true) :
    (members.foldl copyMember writer).get name = (written name members).getLast?.or (writer.get name) := by
  induction members generalizing writer with
  | nil => rfl
  | cons member members ih =>
      rw [List.foldl_cons, ih (isObject_copyMember object), copyMember_get object, written_cons]
      split
      case isTrue =>
        rw [List.getLast?_cons]
        cases (written name members).getLast? <;> rfl
      case isFalse => rfl

end

end Backend

/-! ## Ids -/

def HasId (id doc : Json) : Prop := doc.isObject = true ∧ doc.get (text "id") = some id

namespace HasId

variable {id doc value : Json} {name : Bytes}

theorem set (has : HasId id doc) (other : name ≠ text "id") : HasId id (doc.set name value) := by
  cases doc with
  | obj members => exact ⟨rfl, (Json.get_set_of_ne other).trans has.2⟩
  | _ => cases has.1

theorem setSelf (has : doc.isObject = true) : HasId value (doc.set (text "id") value) := by
  cases doc with
  | obj members => exact ⟨rfl, Json.get_set_self _⟩
  | _ => cases has

theorem addMember (has : HasId id doc) : HasId id (doc.addMember name value) := by
  cases doc with
  | obj members =>
      refine ⟨rfl, ?_⟩
      have found := has.2
      simp only [Json.get, Json.addMember, List.find?_append] at found ⊢
      obtain ⟨member, located, -⟩ := Option.map_eq_some_iff.mp found
      rw [located] at found ⊢
      exact found
  | _ => cases has.1

theorem reset (has : HasId id doc) : HasId id (Writer.reset doc) := by
  refine ⟨rfl, ?_⟩
  rw [Writer.reset_get_id, has.2, Option.getD_some]

theorem endTry (has : HasId id doc) (thrown : Thrown) : HasId id (endTry doc thrown) := by
  exact (has.reset).set (by decide)

theorem edit (has : HasId id doc) (edit : Edit) : HasId id (edit.apply doc) := by
  cases edit with
  | reset => exact has.reset
  | addErrorToDoc value => exact has.addMember
  | addResultToDoc value => exact has.addMember
  | _ => exact has.set (by decide)

theorem edits (has : HasId id doc) (edits : List Edit) : HasId id (edits.foldl Edit.apply doc) := by
  induction edits generalizing doc with
  | nil => exact has
  | cons first rest ih => exact ih (has.edit first)

theorem program (has : HasId id doc) (program : Program) : HasId id (program.run doc) := by
  unfold Program.run
  cases program.thrown with
  | none => exact has.edits _
  | some thrown => exact (has.edits _).endTry thrown

end HasId

namespace Backend

variable {backend : Backend} {id writer : Json} {members : List (Bytes × Json)}

def overridesIn (backend : Backend) : Completion → List Json
  | .response response =>
    match backend.parse response with
    | .ok (.obj members) => if hasOutcome (.obj members) then written (text "id") members else []
    | _ => []
  | .program _ => []

def overrides (backend : Backend) (later : List Completion) : List Json := later.flatMap backend.overridesIn

def preparedId (doc : Json) : Json :=
  match Reader.getId doc with
  | none => .null
  | some id => if id = 0 then .null else .int id

theorem copyMembers_hasId (has : HasId id writer) :
    HasId ((written (text "id") members).getLastD id) (members.foldl copyMember writer) := by
  refine ⟨isObject_copyMembers has.1, ?_⟩
  rw [copyMembers_get has.1, has.2, List.getLastD_eq_getLast?]
  cases (written (text "id") members).getLast? <;> rfl

theorem processResponse_hasId (has : HasId id writer) :
    HasId ((written (text "id") members).getLastD id) (processResponse members writer) := by
  refine copyMembers_hasId ?_
  split
  · exact has.set (by decide)
  · exact has.set (by decide)
  · exact has

theorem completed_hasId (has : HasId id writer) (completion : Completion) :
    HasId ((backend.overridesIn completion).getLastD id) (backend.completed writer completion) := by
  cases completion with
  | program program => exact has.program program
  | response response =>
      simp only [completed, onComplete, overridesIn]
      cases backend.parse response with
      | error failure => exact has.reset.endTry _
      | ok doc =>
          cases doc with
          | obj members =>
              dsimp only
              split
              · exact processResponse_hasId has.reset
              · exact has.reset.endTry _
          | _ => exact has.reset.endTry _

theorem getLastD_append (before after : List Json) (id : Json) :
    (before ++ after).getLastD id = after.getLastD (before.getLastD id) := by
  induction before generalizing id with
  | nil => rfl
  | cons value rest ih => simp only [List.cons_append, List.getLastD_cons, ih]

theorem completions_hasId (has : HasId id writer) (later : List Completion) :
    HasId ((backend.overrides later).getLastD id) (later.foldl backend.completed writer) := by
  induction later generalizing id writer with
  | nil => exact has
  | cons completion rest ih =>
      rw [overrides, List.flatMap_cons, getLastD_append]
      exact ih (completed_hasId has completion)

theorem prepareParams_hasId (has : HasId id writer) (handler : Handler) (doc : Json) (number : Nat) :
    HasId id (prepareParams handler doc number writer).1 := by
  have edited := has.edits (handler.prepareParams doc number).edits
  unfold prepareParams
  dsimp only
  split
  · exact edited.endTry _
  · dsimp only
    split
    · exact edited
    · exact edited.reset.set (by decide)

theorem initial_hasId : HasId .null Writer.initial := ⟨rfl, Writer.reset_get_id _⟩

theorem prepare_hasId (handler : Handler) {params : Bytes} {doc : Json} (parsed : backend.parse params = .ok doc) :
    HasId (preparedId doc) (backend.prepare handler params).1 := by
  simp only [prepare, parsed, preparedId]
  cases Reader.getId doc with
  | none => exact initial_hasId.endTry _
  | some number =>
      have has : HasId (if number = 0 then .null else .int number) (Writer.setId number Writer.initial) :=
        .setSelf rfl
      dsimp only
      generalize (if number = 0 then Json.null else Json.int number) = id at has ⊢
      split
      · split
        · exact has.endTry _
        · split
          · exact (has.set (by decide)).set (by decide)
          · exact prepareParams_hasId has handler doc number
      · exact prepareParams_hasId has handler doc number

theorem reply_hasId (handler : Handler) {params : Bytes} {doc : Json} (parsed : backend.parse params = .ok doc)
    (later : List Completion) :
    HasId ((backend.overrides later).getLastD (preparedId doc)) (backend.reply handler params later) := by
  have has := prepare_hasId handler parsed
  unfold reply
  rcases prepared : backend.prepare handler params with ⟨writer, complete⟩
  rw [prepared] at has
  refine completions_hasId ?_ later
  cases complete with
  | true => exact has.program _
  | false => exact has

inductive Admitted : Json → Prop
  | digits {s : Bytes} : 1 ≤ s.length → s.length ≤ 19 → (∀ c ∈ s, isDigit c = true) → Admitted (.str s)
  | integer {n : Int} : 1 ≤ n → n ≤ 2 ^ 63 - 2 → Admitted (.int n)

def KeepsId (backend : Backend) (later : List Completion) (id : Json) : Prop :=
  (backend.overrides later = [] ∧ ∃ n, id = .int n ∧ n < 2 ^ 32) ∨ (backend.overrides later).getLast? = some id

theorem preparedId_eq_self_iff {doc id : Json} (named : doc.get (text "id") = some id) :
    preparedId doc = id ↔ id = .null ∨ ∃ n, id = .int n ∧ 0 < n ∧ n < 2 ^ 32 := by
  simp only [preparedId, Reader.getId, named]
  cases id with
  | int n =>
      simp only [reduceCtorEq, false_or, Json.int.injEq, exists_eq_left']
      by_cases range : -2 ^ 31 ≤ n ∧ n < 2 ^ 32
      · have value : (Reader.uint32 n : Int) = n % 2 ^ 32 := Int.toNat_of_nonneg (Int.emod_nonneg _ (by norm_num))
        rw [if_pos range]
        split
        case isTrue zero =>
          simp only [reduceCtorEq, false_iff]
          omega
        case isFalse some =>
          rw [Json.int.injEq, value]
          omega
      · rw [if_neg range, if_pos rfl]
        simp only [reduceCtorEq, false_iff]
        omega
  | str s =>
      simp only [reduceCtorEq, false_and, exists_false, or_self, iff_false]
      cases Reader.stoi s with
      | none => simp
      | some value =>
          simp only [Option.map_some]
          split <;> simp
  | null => simp
  | _ => simp

theorem preparedId_eq_iff {doc : Json} (named : doc.get (text "id") = some id) (admitted : Admitted id) :
    preparedId doc = id ↔ ∃ n, id = .int n ∧ n < 2 ^ 32 := by
  rw [preparedId_eq_self_iff named]
  cases admitted with
  | digits _ _ _ => simp
  | integer low high =>
      simp only [reduceCtorEq, false_or, Json.int.injEq, exists_eq_left']
      exact and_iff_right (by omega)

theorem reply_keeps_id_iff (backend : Backend) (handler : Handler) (params : Bytes) (later : List Completion)
    (doc id : Json) (parsed : backend.parse params = .ok doc) (named : doc.get (text "id") = some id)
    (admitted : Admitted id) :
    (backend.reply handler params later).get (text "id") = some id ↔ backend.KeepsId later id := by
  rw [(reply_hasId handler parsed later).2, Option.some.injEq, KeepsId, ← preparedId_eq_iff named admitted]
  cases written : backend.overrides later with
  | nil => simp
  | cons value rest => simp [List.getLastD_eq_getLast?, List.getLast?_cons]

namespace Sample

def plain : Backend where
  parse := readPlain
  useLocalDatabase := false
  validateMethods := false
  methodsSchema := none

def askStatus (id : String) : Bytes :=
  text "\x7b\"jsonrpc\":\"2.0\",\"id\":" ++ text id ++ text ",\"method\":\"status\"\x7d"

def status : Handler where
  prepareParams _ _ := ⟨[], .ok (true, false)⟩
  execute _ := ⟨[.addResult (text "version") (.str (text "1.0"))], none⟩

end Sample

theorem reply_keeps_small_integer_id :
    (Sample.plain.reply Sample.status (Sample.askStatus "7") []).get (text "id") = some (.int 7) := by
  have read : Sample.plain.parse (Sample.askStatus "7") = .ok (Batch.Sample.identified (.int 7) "status") := by
    decide +kernel
  have admitted : Admitted (.int 7) := .integer (by decide) (by decide)
  exact (reply_keeps_id_iff Sample.plain Sample.status _ [] _ (.int 7) read rfl admitted).mpr
    (.inl ⟨rfl, 7, rfl, by decide⟩)

theorem reply_turns_text_id_into_number :
    Admitted (.str (text "7")) ∧
      Sample.plain.parse (Sample.askStatus "\"7\"") = .ok (Batch.Sample.identified (.str (text "7")) "status") ∧
      (Sample.plain.reply Sample.status (Sample.askStatus "\"7\"") []).get (text "id") = some (.int 7) ∧
      (Sample.plain.reply Sample.status (Sample.askStatus "\"7\"") []).get (text "id") ≠ some (.str (text "7")) := by
  have number : (Sample.plain.reply Sample.status (Sample.askStatus "\"7\"") []).get (text "id") = some (.int 7) := by
    decide +kernel
  refine ⟨.digits (by decide) (by decide) (by decide +kernel), by decide +kernel, number, ?_⟩
  rw [number]
  simp

end Backend

end FullnodeClient.Rpc
