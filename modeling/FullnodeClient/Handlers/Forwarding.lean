import FullnodeClient.Handlers.StateBlocks
import FullnodeClient.Rpc.Upstream
import FullnodeClient.Tx.Address

/-!
# Requests that are passed on

The handlers that check the parameters of a request and pass it on to the torrent, as they are without the local
database; those for dumps ask the block cache instead while it runs. Each of them knows some fields: how `get_value`
reads one, which `CHK_PRM` follow, and what `add_param` stores.
-/

namespace FullnodeClient.Handlers
open FullnodeClient.Lib FullnodeClient.Text FullnodeClient.Rpc
open FullnodeClient.Cache (Log)

structure Field where
  name : String
  read : Json → Option Json
  /-- What is thrown where there is nothing to read, if anything is. -/
  missing : Option Thrown
  checks : List ((Json → Bool) × Thrown)
  stored : Json → Json

namespace Field

def value (field : Field) (params : Json) : Option Json := (params.get (text field.name)).bind field.read

def take (field : Field) (params : Json) : Except Thrown (List (Bytes × Json)) :=
  match field.value params with
  | none => field.missing.elim (.ok []) .error
  | some value =>
      match field.checks.find? fun check => !check.1 value with
      | some check => .error check.2
      | none => .ok [(text field.name, field.stored value)]

end Field

def uint64 (json : Json) : Option Json := (Reader.uint64 json).map fun n => .int n

def string : Json → Option Json
  | .str s => some (.str s)
  | _ => none

def nonempty : Json → Bool
  | .str s => s ≠ []
  | _ => true

def cString : Json → Json
  | .str s => .str (cStr s)
  | json => json

def count64 (name : String) (missing : Option Thrown) : Field := ⟨name, uint64, missing, [], id⟩

def plainString (name : String) (missing : Option Thrown) : Field := ⟨name, string, missing, [], id⟩

section
variable (sha256 : Bytes → Bytes)

def validAddress : Json → Bool
  | .str s => Tx.validateAddress sha256 s
  | _ => false

def address : Field where
  name := "address"
  read := string
  missing := some (invalidParam "address field not found")
  checks := [(nonempty, invalidParam "address is empty"), (validAddress sha256, invalidParam "address is invalid")]
  stored := cString

/-- The loop of `fetch_balances_handler::prepare_params`. -/
def addrs : Json → List Json
  | .arr addresses => addresses.filter fun v => nonempty v && validAddress sha256 v
  | _ => []

def isArray : Json → Bool
  | .arr _ => true
  | _ => false

def addresses : Field where
  name := "addresses"
  read := some
  missing := some (invalidParam "addresess field not found")
  checks := [(isArray, invalidParam "addresses field must be array"),
    (fun json => addrs sha256 json ≠ [], invalidParam "addresses has not valid values")]
  stored json := .arr (addrs sha256 json)

end

def keyStr : List Bytes :=
  [text "isInput", text "isOutput", text "isSuccess", text "isForging", text "isTest", text "isDelegate"]

/-- The loop of `fetch_history_filter_handler::prepare_params`. -/
def recognized : Json → List (Bytes × Json)
  | .obj members => members.filter fun member => keyStr.any fun v => v = member.1
  | _ => []

def filters : Field where
  name := "filters"
  read := some
  missing := some (invalidParam "filters field not found")
  checks := [(fun json => recognized json ≠ [], invalidParam "filters is not recognized")]
  stored json := .obj (recognized json)

structure Form where
  fields : List Field
  fixed : List (Bytes × Json)

namespace Form

def collect (params : Json) : List Field → Except Thrown (List (Bytes × Json))
  | [] => .ok []
  | field :: fields => do
      let added ← field.take params
      let more ← collect params fields
      return added ++ more

def prepareParams (form : Form) (doc : Json) (id : Nat) : Except Thrown (List (Bytes × Json)) := do
  let params ← getParams doc id
  let added ← collect params form.fields
  return added ++ form.fixed

/-- What an exception leaves in the writer is gone with its `reset`, and `AddMember` of a name that is not there does
what `add_param` does. -/
def toHandler (form : Form) (client : Net.Client) : NetworkHandler where
  client := client
  prepareParams doc id :=
    match form.prepareParams doc id with
    | .ok added => (added.map fun param => .addParam param.1 param.2, .ok true)
    | .error thrown => ([], .error thrown)
  processResponse := NetworkHandler.copyResponse

end Form

inductive Forwarded
  | getBlocks
  | getTx
  | fetchBalance
  | fetchBalances
  | fetchHistory
  | fetchHistoryFilter
  | getDumpBlockByNumber
  | getDumpBlockByHash

def getBlocks : Form where
  fields :=
    [count64 "countBlocks" (some (invalidParam "'countBlocks' field not found")),
      count64 "beginBlock" (some (invalidParam "'beginBlock' field not found")), plainString "type" none,
      plainString "direction" none]
  fixed := []

def getTx : Form where
  fields :=
    [⟨"hash", string, some (invalidParam "hash field not found"), [(nonempty, invalidParam "hash is empty")], cString⟩]
  fixed := []

def fetchBalance (sha256 : Bytes → Bytes) : Form := ⟨[address sha256], []⟩

def fetchBalances (sha256 : Bytes → Bytes) : Form := ⟨[addresses sha256], []⟩

def fetchHistory (sha256 : Bytes → Bytes) : Form := ⟨[address sha256, count64 "countTxs" none, count64 "beginTx" none], []⟩

def fetchHistoryFilter (sha256 : Bytes → Bytes) : Form := ⟨[address sha256, filters], []⟩

-- `fromByte` and `toByte` are read and passed on to nobody.
def getDumpBlockByNumber : Form where
  fields := [count64 "number" (some (invalidParam "number field not found"))]
  fixed := [(text "isHex", .bool true)]

def getDumpBlockByHash : Form where
  fields := [plainString "hash" (some (invalidParam "hash field not found"))]
  fixed := [(text "isHex", .bool true)]

/-- `set_block_id` of the handlers for dumps. -/
def setDumpId (params : Json) : Method → Except Thrown BlockId
  | .byHash =>
      match params.get (text "hash") with
      | some (.str hash) => .ok (.hash hash)
      | _ => .error (invalidParam "hash field not found")
  | .byNumber =>
      match (params.get (text "number")).bind Reader.uint64 with
      | some number => .ok (.number number)
      | none => .error (invalidParam "number field not found")

def genBlockDumpJson (blockDump : Bytes) (doc : Json) : Json :=
  doc.addMember (text "result") (.obj [(text "dump", .str blockDump)])

/-- `execute` of the handlers for dumps while the cache runs. What was added for the torrent goes with the reset. -/
def executeDump (found : Option Bytes) (writer : Json) : Except Thrown Json :=
  match found with
  | some dump => .ok (genBlockDumpJson (StringUtils.bin2hex dump) (Writer.reset writer))
  | none => .error (invalidParam "The block does not exists or has not signed yet")

/-- A node that does not use the local database. -/
structure Remote extends Wire where
  cache : Option Log
  verify : Bool
  sha256 : Bytes → Bytes
  remote : useLocalDatabase = false

namespace Forwarded

def dumps : Forwarded → Option Method
  | getDumpBlockByNumber => some .byNumber
  | getDumpBlockByHash => some .byHash
  | _ => none

def cached (node : Remote) (doc : Json) (id : Nat) (method : Forwarded) : Option Json := do
  let log ← node.cache
  let dumps ← method.dumps
  let params ← (getParams doc id).toOption
  let block ← (setDumpId params dumps).toOption
  let writer := Writer.setId id Writer.initial
  return caught writer (executeDump (block.lookup log node.verify) writer)

def form (sha256 : Bytes → Bytes) : Forwarded → Form
  | getBlocks => Handlers.getBlocks
  | getTx => Handlers.getTx
  | fetchBalance => Handlers.fetchBalance sha256
  | fetchBalances => Handlers.fetchBalances sha256
  | fetchHistory => Handlers.fetchHistory sha256
  | fetchHistoryFilter => Handlers.fetchHistoryFilter sha256
  | getDumpBlockByNumber => Handlers.getDumpBlockByNumber
  | getDumpBlockByHash => Handlers.getDumpBlockByHash

/-- `MemberBegin` of filters that are no object. -/
def undefined (sha256 : Bytes → Bytes) (doc : Json) (id : Nat) : Forwarded → Bool
  | fetchHistoryFilter =>
      match getParams doc id with
      | .error _ => false
      | .ok params =>
          match (address sha256).take params, params.get (text "filters") with
          | .ok _, some filters => !filters.isObject
          | _, _ => false
  | _ => false

def perform (node : Remote) (client : Net.Client) (method : Forwarded) (params : Bytes) : Flow :=
  let flow := ((method.form node.sha256).toHandler client).perform node.toWire params
  match accept node.toBackend params with
  | .ok (doc, id) =>
      if method.undefined node.sha256 doc id then .undefined
      else ((method.cached node doc id).map .reply).getD flow
  | .error _ => flow

end Forwarded

/-! ## What is accepted -/

namespace Field

variable {field : Field} {params : Json} {pairs : List (Bytes × Json)}

def Passes (field : Field) (params : Json) : Prop :=
  (field.value params).elim (field.missing = none) fun value => ∀ check ∈ field.checks, check.1 value = true

def pair (field : Field) (params : Json) : Option (Bytes × Json) :=
  (field.value params).map fun value => (text field.name, field.stored value)

theorem Passes.value (passes : field.Passes params) (wanted : field.missing ≠ none) :
    ∃ value, field.value params = some value := by
  cases found : field.value params with
  | some value => exact ⟨value, rfl⟩
  | none =>
      rw [Passes, found] at passes
      exact absurd passes wanted

theorem take_eq_ok : field.take params = .ok pairs ↔ field.Passes params ∧ (field.pair params).toList = pairs := by
  unfold take Passes pair
  cases field.value params with
  | none => cases field.missing <;> simp
  | some value =>
      dsimp only
      cases failed : field.checks.find? fun check => !check.1 value with
      | some check =>
          have inside := List.mem_of_find?_eq_some failed
          have wrong := List.find?_some failed
          simp only [reduceCtorEq, false_iff, not_and]
          intro all
          have right := all check inside
          simp [right] at wrong
      | none =>
          have all : ∀ check ∈ field.checks, check.1 value = true := by simpa [List.find?_eq_none] using failed
          simp only [Except.ok.injEq]
          exact ⟨fun same => ⟨all, same⟩, And.right⟩

end Field

namespace Form

variable {form : Form} {params doc : Json} {id : Nat} {fields : List Field} {pairs : List (Bytes × Json)}

def Accepts (form : Form) (params : Json) : Prop := ∀ field ∈ form.fields, field.Passes params

def forwarded (form : Form) (params : Json) : List (Bytes × Json) := form.fields.filterMap (·.pair params) ++ form.fixed

theorem collect_eq_ok :
    collect params fields = .ok pairs ↔
      (∀ field ∈ fields, field.Passes params) ∧ fields.filterMap (·.pair params) = pairs := by
  induction fields generalizing pairs with
  | nil => simp [collect]
  | cons field fields ih =>
      have joined : (field :: fields).filterMap (·.pair params) =
          (field.pair params).toList ++ fields.filterMap (·.pair params) := by
        cases here : field.pair params <;> simp [here]
      simp only [collect, bind_eq_ok, Field.take_eq_ok, ih, pure, Except.pure, Except.ok.injEq, List.forall_mem_cons,
        joined]
      constructor
      · rintro ⟨_, ⟨here, rfl⟩, _, ⟨others, rfl⟩, rfl⟩
        exact ⟨⟨here, others⟩, rfl⟩
      · rintro ⟨⟨here, others⟩, rfl⟩
        exact ⟨_, ⟨here, rfl⟩, _, ⟨others, rfl⟩, rfl⟩

theorem getParams_eq_ok : getParams doc id = .ok params ↔ id ≠ 0 ∧ doc.get (text "params") = some params := by
  unfold getParams
  by_cases zero : id = 0
  · simp [zero]
  · cases found : doc.get (text "params") <;> simp [zero]

theorem prepareParams_eq_ok :
    form.prepareParams doc id = .ok pairs ↔
      id ≠ 0 ∧ ∃ params, doc.get (text "params") = some params ∧ form.Accepts params ∧ form.forwarded params = pairs := by
  simp only [prepareParams, bind_eq_ok, getParams_eq_ok, collect_eq_ok, pure, Except.pure, Except.ok.injEq]
  constructor
  · rintro ⟨params, ⟨some, found⟩, _, ⟨accepted, rfl⟩, rfl⟩
    exact ⟨some, params, found, accepted, rfl⟩
  · rintro ⟨some, params, found, accepted, rfl⟩
    exact ⟨params, ⟨some, found⟩, _, ⟨accepted, rfl⟩, rfl⟩

end Form

theorem setId_id {id : Nat} (some : id ≠ 0) :
    ((Writer.setId id Writer.initial).get (text "id")).getD .null = .int id := by
  rw [Writer.setId, Json.get_set_self, Option.getD_some, if_neg some]

def requestOf (id : Nat) (params : List (Bytes × Json)) : Json :=
  .obj [(text "jsonrpc", .str (text "2.0")), (text "id", .int id), (text "params", .obj params)]

theorem addParam_requestOf {id : Nat} {params : List (Bytes × Json)} {name : Bytes} {value : Json}
    (fresh : name ∉ params.map Prod.fst) (whole : cStr name = name) :
    Writer.addParam name value (requestOf id params) = requestOf id (params ++ [(name, value)]) := by
  have appended : Json.assign name value params = params ++ [(name, value)] := by
    induction params with
    | nil => rfl
    | cons param params ih =>
        rw [List.map_cons, List.mem_cons, not_or] at fresh
        rw [Json.assign, if_neg (Ne.symm fresh.1), ih fresh.2, List.cons_append]
  have distinct : text "jsonrpc" ≠ text "params" ∧ text "id" ≠ text "params" := by decide
  simp [Writer.addParam, Writer.setIn, requestOf, Json.get, Json.set, Json.assign, distinct, whole, appended]

theorem addParams_requestOf {id : Nat} {params more : List (Bytes × Json)}
    (distinct : ((params ++ more).map Prod.fst).Nodup) (whole : ∀ name ∈ more.map Prod.fst, cStr name = name) :
    (more.map fun param => Edit.addParam param.1 param.2).foldl Edit.apply (requestOf id params) =
      requestOf id (params ++ more) := by
  induction more generalizing params with
  | nil => rw [List.map_nil, List.foldl_nil, List.append_nil]
  | cons param more ih =>
      rw [List.map_cons, List.forall_mem_cons] at whole
      have fresh : param.1 ∉ params.map Prod.fst := by
        rw [List.map_append, List.map_cons] at distinct
        exact fun inside => (List.nodup_append.mp distinct).2.2 _ inside _ List.mem_cons_self rfl
      rw [List.append_cons] at distinct ⊢
      rw [← ih distinct whole.2, List.map_cons, List.foldl_cons, Edit.apply, addParam_requestOf fresh whole.1]

theorem addParams_initial {id : Nat} (some : id ≠ 0) {params : List (Bytes × Json)} (inhabited : params ≠ [])
    (distinct : (params.map Prod.fst).Nodup) (whole : ∀ name ∈ params.map Prod.fst, cStr name = name) :
    (params.map fun param => Edit.addParam param.1 param.2).foldl Edit.apply (Writer.setId id Writer.initial) =
      requestOf id params := by
  obtain ⟨param, more, rfl⟩ := List.exists_cons_of_ne_nil inhabited
  have names : text "jsonrpc" ≠ text "id" ∧ text "jsonrpc" ≠ text "params" ∧ text "id" ≠ text "params" := by decide
  have first : Edit.apply (Writer.setId id Writer.initial) (.addParam param.1 param.2) = requestOf id [param] := by
    have name := whole param.1 (List.mem_map_of_mem List.mem_cons_self)
    simp [Edit.apply, Writer.addParam, Writer.setIn, Writer.setId, Writer.initial, Writer.reset, requestOf, Json.get,
      Json.set, Json.assign, names, name, some]
  rw [List.map_cons, List.foldl_cons, first]
  rw [List.map_cons, List.forall_mem_cons] at whole
  exact addParams_requestOf distinct whole.2

def Form.names (form : Form) : List Bytes := form.fields.map (text ·.name) ++ form.fixed.map Prod.fst

structure Form.Proper (form : Form) : Prop where
  distinct : form.names.Nodup
  whole : ∀ name ∈ form.names, cStr name = name
  inhabited : form.fixed ≠ [] ∨ ∃ field ∈ form.fields, field.missing ≠ none

theorem Form.Proper.of_missing {form : Form} {field : Field} {fields : List Field} (names : List Bytes)
    (first : form.fields = field :: fields) (wanted : field.missing ≠ none) (same : form.names = names)
    (right : names.Nodup ∧ ∀ name ∈ names, cStr name = name) : form.Proper :=
  ⟨same ▸ right.1, same ▸ right.2, .inr ⟨field, first ▸ List.mem_cons_self, wanted⟩⟩

theorem Forwarded.form_proper (sha256 : Bytes → Bytes) (method : Forwarded) : (method.form sha256).Proper := by
  cases method with
  | getBlocks =>
      exact .of_missing [text "countBlocks", text "beginBlock", text "type", text "direction"] rfl (Option.some_ne_none _)
        rfl (by decide)
  | getTx => exact .of_missing [text "hash"] rfl (Option.some_ne_none _) rfl (by decide)
  | fetchBalance => exact .of_missing [text "address"] rfl (Option.some_ne_none _) rfl (by decide)
  | fetchBalances => exact .of_missing [text "addresses"] rfl (Option.some_ne_none _) rfl (by decide)
  | fetchHistory =>
      exact .of_missing [text "address", text "countTxs", text "beginTx"] rfl (Option.some_ne_none _) rfl (by decide)
  | fetchHistoryFilter =>
      exact .of_missing [text "address", text "filters"] rfl (Option.some_ne_none _) rfl (by decide)
  | getDumpBlockByNumber =>
      exact .of_missing [text "number", text "isHex"] rfl (Option.some_ne_none _) rfl (by decide)
  | getDumpBlockByHash => exact .of_missing [text "hash", text "isHex"] rfl (Option.some_ne_none _) rfl (by decide)

section
variable {form : Form} {params : Json}

theorem Form.forwarded_names (form : Form) (params : Json) :
    List.Sublist ((form.forwarded params).map Prod.fst) form.names := by
  rw [forwarded, names, List.map_append]
  refine List.Sublist.append_right ?_ _
  induction form.fields with
  | nil => exact .slnil
  | cons field fields ih =>
      rw [List.filterMap_cons, List.map_cons]
      cases pair : field.pair params with
      | none => exact ih.cons _
      | some entry =>
          obtain ⟨value, -, rfl⟩ := Option.map_eq_some_iff.mp pair
          exact ih.cons_cons _

theorem Form.Proper.forwarded_ne_nil (proper : form.Proper) (accepts : form.Accepts params) :
    form.forwarded params ≠ [] := by
  rw [Form.forwarded, Ne, List.append_eq_nil_iff, not_and_or]
  rcases proper.inhabited with fixed | ⟨field, inside, wanted⟩
  · exact .inr fixed
  · refine .inl fun none => ?_
    obtain ⟨value, found⟩ := (accepts field inside).value wanted
    have absent := List.filterMap_eq_nil_iff.mp none field inside
    rw [Field.pair, found] at absent
    cases absent

theorem Form.Proper.body (proper : form.Proper) (accepts : form.Accepts params) {id : Nat} (some : id ≠ 0) :
    ((form.forwarded params).map fun param => Edit.addParam param.1 param.2).foldl Edit.apply
      (Writer.setId id Writer.initial) = requestOf id (form.forwarded params) := by
  have sublist := form.forwarded_names params
  exact addParams_initial some (proper.forwarded_ne_nil accepts) (proper.distinct.sublist sublist)
    fun name inside => proper.whole name (sublist.subset inside)

end

section
variable {wire : Wire} {sha256 : Bytes → Bytes} {client : Net.Client} {method : Forwarded} {params : Bytes}
  {doc given : Json} {id : Nat}

theorem accept_parse {backend : Backend} (accepted : accept backend params = .ok (doc, id)) :
    backend.parse params = .ok doc := by
  unfold accept at accepted
  split at accepted
  case h_1 => cases accepted
  case h_2 doc' parsed =>
    split at accepted
    case h_1 => cases accepted
    case h_2 =>
      dsimp only at accepted
      split at accepted
      case isFalse =>
        cases accepted
        exact parsed
      case isTrue =>
        split at accepted
        case h_1 => cases accepted
        case h_2 =>
          split at accepted
          case h_1 => cases accepted
          case h_2 =>
            cases accepted
            exact parsed

structure Passed (wire : Wire) (form : Form) (params : Bytes) (doc : Json) (id : Nat) (given : Json) : Prop where
  accepted : accept wire.toBackend params = .ok (doc, id)
  identified : id ≠ 0
  found : doc.get (text "params") = some given
  accepts : form.Accepts given

theorem Passed.toHandler_perform (proper : (method.form sha256).Proper)
    (passed : Passed wire (method.form sha256) params doc id given) :
    ((method.form sha256).toHandler client).perform wire params =
      ((method.form sha256).toHandler client).toRelay.execute wire (Reader.getMethod doc)
        (requestOf id ((method.form sha256).forwarded given)) := by
  have prepared := Form.prepareParams_eq_ok.mpr ⟨passed.identified, given, passed.found, passed.accepts, rfl⟩
  unfold NetworkHandler.perform
  rw [prepare_eq_accept, passed.accepted]
  simp only [Backend.prepareParams, NetworkHandler.toHandler, Form.toHandler, prepared, Except.map,
    proper.body passed.accepts passed.identified, Bool.true_or, if_true, accept_parse passed.accepted, Except.toOption,
    Option.bind_some]

theorem toHandler_perform_refused (refused : ¬∃ doc id given, Passed wire (method.form sha256) params doc id given) :
    ∃ reply, ((method.form sha256).toHandler client).perform wire params = .reply reply := by
  unfold NetworkHandler.perform
  rw [prepare_eq_accept]
  cases accepted : accept wire.toBackend params with
  | error refusal => exact ⟨refusal, rfl⟩
  | ok request =>
      rcases request with ⟨doc, id⟩
      cases prepared : (method.form sha256).prepareParams doc id with
      | ok pairs =>
          obtain ⟨identified, given, found, accepts, -⟩ := Form.prepareParams_eq_ok.mp prepared
          exact absurd ⟨doc, id, given, accepted, identified, found, accepts⟩ refused
      | error thrown =>
          simp only [Backend.prepareParams, NetworkHandler.toHandler, Form.toHandler, prepared, Except.map]
          exact ⟨_, rfl⟩

theorem Passed.not_undefined (passed : Passed wire (method.form sha256) params doc id given) :
    method.undefined sha256 doc id = false := by
  cases method with
  | fetchHistoryFilter =>
      have found : getParams doc id = .ok given := Form.getParams_eq_ok.mpr ⟨passed.identified, passed.found⟩
      have passes : filters.Passes given := passed.accepts filters (by simp [Forwarded.form, fetchHistoryFilter])
      simp only [Forwarded.undefined, found]
      split
      case h_1 filters' _ there =>
        have value : filters.value given = some filters' := by
          change (given.get (text "filters")).bind some = some filters'
          rw [there, Option.bind_some]
        rw [Field.Passes, value] at passes
        have recognized := passes _ List.mem_cons_self
        cases filters' with
        | obj members => rfl
        | _ => simp [Handlers.recognized] at recognized
      case h_2 => rfl
  | _ => rfl

end

section
variable {node : Remote} {client : Net.Client} {method : Forwarded} {params : Bytes} {doc given : Json} {id : Nat}

def Forwarded.Leaves (method : Forwarded) (node : Remote) : Prop := node.cache = none ∨ method.dumps = none

theorem Forwarded.Leaves.cached (leaves : method.Leaves node) (doc : Json) (id : Nat) :
    method.cached node doc id = none := by
  unfold Forwarded.cached
  rcases leaves with none | none
  · rw [none]
    rfl
  · cases node.cache with
    | none => rfl
    | some log =>
        rw [none]
        rfl

theorem Passed.setDumpId (passed : Passed node.toWire (method.form node.sha256) params doc id given) {dumps : Method}
    (asks : method.dumps = some dumps) : ∃ block, Handlers.setDumpId given dumps = .ok block := by
  cases method with
  | getDumpBlockByNumber =>
      cases asks
      obtain ⟨value, found⟩ := (passed.accepts _ List.mem_cons_self).value (Option.some_ne_none _)
      obtain ⟨json, there, read⟩ := Option.bind_eq_some_iff.mp found
      have there : given.get (text "number") = some json := there
      cases number : Reader.uint64 json with
      | some n => exact ⟨.number n, by simp only [Handlers.setDumpId, there, Option.bind_some, number]⟩
      | none => simp [count64, uint64, number] at read
  | getDumpBlockByHash =>
      cases asks
      obtain ⟨value, found⟩ := (passed.accepts _ List.mem_cons_self).value (Option.some_ne_none _)
      obtain ⟨json, there, read⟩ := Option.bind_eq_some_iff.mp found
      have there : given.get (text "hash") = some json := there
      cases json with
      | str hash => exact ⟨.hash hash, by simp only [Handlers.setDumpId, there]⟩
      | _ => cases read
  | _ => cases asks

theorem Passed.cached (passed : Passed node.toWire (method.form node.sha256) params doc id given)
    (stays : ¬method.Leaves node) : ∃ reply, method.cached node doc id = some reply := by
  obtain ⟨running, asks⟩ := not_or.mp stays
  obtain ⟨log, running⟩ := Option.ne_none_iff_exists'.mp running
  obtain ⟨dumps, asks⟩ := Option.ne_none_iff_exists'.mp asks
  obtain ⟨block, identified⟩ := passed.setDumpId asks
  have fields : getParams doc id = .ok given := Form.getParams_eq_ok.mpr ⟨passed.identified, passed.found⟩
  unfold Forwarded.cached
  rw [running, asks, fields]
  simp only [Except.toOption, identified, bind, Option.bind]
  exact ⟨_, rfl⟩

theorem Passed.perform (passed : Passed node.toWire (method.form node.sha256) params doc id given)
    (leaves : method.Leaves node) :
    method.perform node client params = ((method.form node.sha256).toHandler client).perform node.toWire params := by
  simp only [Forwarded.perform, passed.accepted, passed.not_undefined, Bool.false_eq_true, if_false, leaves.cached,
    Option.map_none, Option.getD_none]

theorem perform_stays (stays : ¬(method.Leaves node ∧
      ∃ doc id given, Passed node.toWire (method.form node.sha256) params doc id given)) :
    (∃ reply, method.perform node client params = .reply reply) ∨ method.perform node client params = .undefined := by
  by_cases passed : ∃ doc id given, Passed node.toWire (method.form node.sha256) params doc id given
  · obtain ⟨doc, id, given, passed⟩ := passed
    obtain ⟨reply, cached⟩ := passed.cached fun leaves => stays ⟨leaves, doc, id, given, passed⟩
    refine .inl ⟨reply, ?_⟩
    simp only [Forwarded.perform, passed.accepted, passed.not_undefined, Bool.false_eq_true, if_false, cached,
      Option.map_some, Option.getD_some]
  · obtain ⟨reply, replied⟩ := @toHandler_perform_refused node.toWire node.sha256 client method params passed
    unfold Forwarded.perform
    split
    case h_1 doc id _ =>
      split
      case isTrue => exact .inr rfl
      case isFalse =>
        cases method.cached node doc id with
        | some cached => exact .inl ⟨cached, rfl⟩
        | none => exact .inl ⟨reply, replied⟩
    case h_2 => exact .inl ⟨reply, replied⟩

end

theorem forwards_what_it_accepts (node : Remote) (client : Net.Client) (method : Forwarded)
    (external : client.ownsContext = false) (params : Bytes) (pooled : Bool) (labels : List Course.Label) (c : Course)
    (ran : runAllowed Course.step (fun _ _ => True) ((method.perform node client params).start pooled) labels = some c) :
    (c.asked ≠ [] ↔ (node.cache = none ∨ method.dumps = none) ∧
        ∃ doc id given, Passed node.toWire (method.form node.sha256) params doc id given) ∧
      ∀ ask ∈ c.asked, ∃ doc id given, Passed node.toWire (method.form node.sha256) params doc id given ∧
        ask.client = client ∧ ask.path = targetOf (Reader.getMethod doc) ∧
        ask.body = requestOf id ((method.form node.sha256).forwarded given) := by
  have bounded := @NetworkHandler.perform_bounded node.toWire ((method.form node.sha256).toHandler client) external params
  by_cases goes : method.Leaves node ∧ ∃ doc id given, Passed node.toWire (method.form node.sha256) params doc id given
  · obtain ⟨leaves, doc, id, given, passed⟩ := goes
    rw [passed.perform leaves] at ran
    obtain ⟨-, traced⟩ := (bounded.start pooled).run ran
    rw [passed.toHandler_perform (method.form_proper node.sha256)] at traced
    obtain ⟨⟨request, asked⟩, -, -⟩ := Relay.execute_traced traced
    rw [asked]
    refine ⟨iff_of_true (List.cons_ne_nil _ _) ⟨leaves, doc, id, given, passed⟩, fun ask inside => ?_⟩
    cases List.mem_singleton.mp inside
    exact ⟨doc, id, given, passed, rfl, rfl, rfl⟩
  · have none : c.asked = [] := by
      rcases c with ⟨asked, replies, undefined⟩
      rcases @perform_stays node client method params goes with ⟨reply, performed⟩ | performed
      · rw [performed] at ran
        obtain ⟨-, traced⟩ := ((Flow.Bounded.reply reply 0).start pooled).run ran
        cases traced
        rfl
      · rw [performed] at ran
        obtain ⟨-, traced⟩ := ((Flow.Bounded.undefined 0).start pooled).run ran
        cases traced
        rfl
    rw [none]
    exact ⟨iff_of_false (fun some => some rfl) goes, fun ask inside => absurd inside List.not_mem_nil⟩

namespace Sample

def blocks : Json :=
  .obj [(text "jsonrpc", .str (text "2.0")), (text "id", .int 7), (text "method", .str (text "get-blocks")),
    (text "params", .obj [(text "pretty", .bool true), (text "beginBlock", .int 5), (text "direction", .str (text "back")),
      (text "countBlocks", .int 2)])]

def relay : Remote where
  toBackend := Backend.Sample.plain
  stringify := writePlain
  cache := none
  verify := true
  sha256 := id
  remote := rfl

theorem accept_blocks : accept relay.toBackend (writePlain blocks) = .ok (blocks, 7) := by decide +kernel

def asked : List Course.Label := Net.State.Sample.timedOutOnce.map (⟨0, ·, true⟩)

end Sample

theorem forwards_known_fields :
    ∃ c, runAllowed Course.step (fun _ _ => True)
        ((Forwarded.getBlocks.perform Sample.relay Net.State.Sample.pair (writePlain Sample.blocks)).start false)
        Sample.asked = some c ∧
      ∃ ask ∈ c.asked, ask.path = text "/get-blocks" ∧
        ask.body = requestOf 7
          [(text "countBlocks", .int 2), (text "beginBlock", .int 5), (text "direction", .str (text "back"))] := by
  have ran : ((runAllowed Course.step (fun _ _ => True)
      ((Forwarded.getBlocks.perform Sample.relay Net.State.Sample.pair (writePlain Sample.blocks)).start false)
      Sample.asked).map (·.asked.isEmpty)) = some false := by
    decide +kernel
  obtain ⟨c, ran, asks⟩ := Option.map_eq_some_iff.mp ran
  obtain ⟨ask, inside⟩ := List.exists_mem_of_ne_nil _ (List.isEmpty_eq_false_iff.mp asks)
  obtain ⟨doc, number, given, passed, -, path, body⟩ :=
    (forwards_what_it_accepts Sample.relay Net.State.Sample.pair .getBlocks rfl _ false Sample.asked c ran).2 ask inside
  cases Sample.accept_blocks.symm.trans passed.accepted
  cases passed.found
  exact ⟨c, ran, ask, inside, path, body⟩

end FullnodeClient.Handlers
