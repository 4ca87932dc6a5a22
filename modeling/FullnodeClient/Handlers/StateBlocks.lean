import FullnodeClient.Handlers.GetBlock
import FullnodeClient.Rpc.Envelope

/-!
# State blocks

`get-block-by-hash` and `get-block-by-number` with each back end: the cache, the local database in
`get_block_base` and in the `_sync` handlers, and the network. Each of them has its own filter for state
blocks.
-/

namespace FullnodeClient.Handlers
open FullnodeClient.Lib FullnodeClient.Text FullnodeClient.Rpc
open FullnodeClient.Cache (Log)

inductive Method
  | byHash
  | byNumber

structure BlockRequest where
  id : BlockId
  type : Nat
  countTxs : Nat
  beginTx : Nat

def getParams (doc : Json) (id : Nat) : Except Thrown Json :=
  if id = 0 then .error (invalidRequest "id field not found")
  else
    match doc.get (text "params") with
    | some params => .ok params
    | none => .error (invalidRequest "params field not found")

def getHash (params : Json) : Except Thrown Bytes :=
  match params.get (text "hash") with
  | some (.str hash) => if hash = [] then .error (invalidParam "hash is empty") else .ok hash
  | _ => .error (invalidParam "hash field not found")

def setBlockId (params : Json) : Method → Except Thrown (BlockId × List (Bytes × Json))
  | .byHash => (getHash params).map fun hash => (.hash hash, [(text "hash", .str hash)])
  | .byNumber =>
      match (params.get (text "number")).bind Reader.uint64 with
      | some number => .ok (.number number, [(text "number", .int number)])
      | none => .error (invalidParam "number field not found")

def count (params : Json) (name : String) : Nat × List (Bytes × Json) :=
  match (params.get (text name)).bind Reader.uint64 with
  | some n => (n, [(text name, .int n)])
  | none => (0, [])

def blockType (params : Json) : Nat × List (Bytes × Json) :=
  match params.get (text "type") with
  | some (.str type) => (0, [(text "type", .str (cStr type))])
  | some (.int n) => if 0 ≤ n ∧ n < 2 ^ 32 then (n.toNat, [(text "type", .int n)]) else (0, [])
  | _ => (0, [])

def prepareParams (method : Method) (doc : Json) (id : Nat) : Except Thrown (BlockRequest × List (Bytes × Json)) := do
  let params ← getParams doc id
  let (blockId, idParams) ← setBlockId params method
  let (countTxs, countParams) := count params "countTxs"
  let (beginTx, beginParams) := count params "beginTx"
  let (type, typeParams) := blockType params
  return (⟨blockId, type, countTxs, beginTx⟩, idParams ++ countParams ++ beginParams ++ typeParams)

def int64 : Json → Option Int
  | .int n => if -2 ^ 63 ≤ n ∧ n < 2 ^ 63 then some n else none
  | _ => none

def cast (bits : Nat) (n : Int) : Nat := (n % 2 ^ bits).toNat

def syncNumber (params : Json) (name : String) (bits : Nat) : Nat :=
  (((params.get (text name)).bind int64).map (cast bits)).getD 0

/-- `prepare_params` of the `_sync` handlers. `HasMember` of a value that is no object stops the process. -/
def prepareParamsSync (method : Method) (doc : Json) (id : Nat) : Option (Except Thrown BlockRequest) :=
  match getParams doc id with
  | .error thrown => some (.error thrown)
  | .ok params =>
      let request (blockId : BlockId) : BlockRequest :=
        ⟨blockId, syncNumber params "type" 32, syncNumber params "countTxs" 64, syncNumber params "beginTx" 64⟩
      match method with
      | .byHash => some ((getHash params).map fun hash => request (.hash hash))
      | .byNumber =>
          if params.isObject then
            match (params.get (text "number")).bind int64 with
            | some number => some (.ok (request (.number (cast 64 number))))
            | none => some (.error (invalidParam "number field not found"))
          else none

/-- `torrent_node_lib::Sync`. The header of a block that is not there has no number. -/
structure Sync where
  getBlock : BlockId → Except Thrown BlockHeader
  getFullBlock : BlockHeader → Nat → Nat → Except Thrown Block
  getBlockSignatures : Block → List Transaction

-- The handlers look at the header of `getBlock` and write the one of `getFullBlock`.
def Sync.KeepsType (sync : Sync) : Prop :=
  ∀ bh beginTx countTxs bi, sync.getFullBlock bh beginTx countTxs = .ok bi → bi.header.blockType = bh.blockType

structure Node where
  lib : Library
  settings : Settings
  backend : Backend
  cache : Option Log
  sync : Option Sync

section
variable (node : Node)

def signaturesOf (sync : Sync) (number : Nat) : Except Thrown AnyTxInfo := do
  let nextBh ← sync.getBlock (.number ((number + 1) % 2 ^ 64))
  if nextBh.blockNumber.isSome then
    return .transactions (sync.getBlockSignatures (← sync.getFullBlock nextBh 0 10))
  else return .transactions []

def databaseReply (sync : Sync) (request : BlockRequest) (bh : BlockHeader) (number : Nat) (doc : Json) :
    Except Thrown Json := do
  let signs ← signaturesOf sync number
  if request.type = 0 ∨ request.type = 4 then blockHeaderToJson node.lib bh signs .V1 doc
  else
    let bi ← sync.getFullBlock bh request.beginTx request.countTxs
    blockInfoToJson node.lib bi signs request.type .V1 doc

def blockMessage (id : BlockId) (message : String) : Bytes := text "block " ++ id.getBlockId ++ text message

def getSync : Except Thrown Sync :=
  match node.sync with
  | some sync => .ok sync
  | none => .error (invalidParam "Sync not set")

def ignores (bh : BlockHeader) : Bool := !node.settings.allowStateBlocks && node.lib.isStateBlock bh.blockType

/-- `get_block_base::execute` with the local database, which asks for the state block first. -/
def executeDatabase (request : BlockRequest) (doc : Json) : Except Thrown Json := do
  let sync ← getSync node
  let bh ← sync.getBlock request.id
  if ignores node bh then
    return genErrorResponse (-32603) (blockMessage request.id " is a state block and was ignored") doc
  else
    match bh.blockNumber with
    | none => return genErrorResponse (-32603) (blockMessage request.id " has not found") doc
    | some number => databaseReply node sync request bh number doc

/-- `executeImpl` of the `_sync` handlers. -/
def executeSync (request : BlockRequest) (doc : Json) : Except Thrown Json := do
  let sync ← getSync node
  let bh ← sync.getBlock request.id
  match bh.blockNumber with
  | none => return genErrorResponse (-32603) (blockMessage request.id " has not found") doc
  | some number =>
      if ignores node bh then
        return genErrorResponse (-32603) (blockMessage request.id " is state block and has been ignored") doc
      else databaseReply node sync request bh number doc

def describesState (result : Json) : Bool :=
  match result.get (text "type") with
  | some (.str type) => type = text "state"
  | _ => false

/-- `on_complete` with `process_response` of `get_block_base`, which looks at the result of the upstream
document after its members have been copied. -/
def onComplete (response : Bytes) (writer : Json) : Json :=
  match node.backend.parse response with
  | .ok (.obj members) =>
      if Backend.hasOutcome (.obj members) && !node.settings.allowStateBlocks &&
          ((Json.obj members).get (text "result")).any describesState then
        endTry (Backend.processResponse members (Writer.reset writer))
          (invalidParam "block is state-block and has been ignored")
      else node.backend.onComplete response writer
  | _ => node.backend.onComplete response writer

end

inductive HandlerClass
  | getBlockBase
  | sync

def addParams (params : List (Bytes × Json)) (writer : Json) : Json :=
  params.foldl (fun writer param => Writer.addParam param.1 param.2 writer) writer

def executeBase (node : Node) (request : BlockRequest) (params : List (Bytes × Json)) (writer : Json) (response : Bytes) :
    Json :=
  let prepared := if node.backend.useLocalDatabase then writer else addParams params writer
  match node.cache with
  | some log => execute node.lib node.settings log request.type prepared request.id
  | none =>
      if node.backend.useLocalDatabase then caught prepared (executeDatabase node request prepared)
      else onComplete node response prepared

/-- `base_handler::prepare` up to the parameters: the document and its id, or the document of the refusal. -/
def accept (backend : Backend) (params : Bytes) : Except Json (Json × Nat) :=
  match backend.parse params with
  | .error (code, message) =>
      .error (endTry Writer.initial
        (.param (-32700) (text "Parse json error " ++ decimal code ++ text ": " ++ message)))
  | .ok doc =>
      match Reader.getId doc with
      | none => .error (endTry Writer.initial (.std (text "stoi")))
      | some id =>
          let writer := Writer.setId id Writer.initial
          if backend.validateMethods then
            match backend.methodsSchema with
            | none => .error (endTry writer (invalidRequest "Could not load validation schema"))
            | some schema =>
                match schema doc with
                | some error =>
                    .error (Writer.setErrorData error (Writer.setError (-32600)
                      (text "Json validation error for method " ++ (Reader.getMethod doc).getD []) writer))
                | none => .ok (doc, id)
          else .ok (doc, id)

/-- The reply to a request; `response` is what the network answers, if it is asked. -/
def reply (node : Node) (handler : HandlerClass) (method : Method) (params response : Bytes) : Option Json :=
  match accept node.backend params with
  | .error refusal => some refusal
  | .ok (doc, id) =>
      let writer := Writer.setId id Writer.initial
      match handler with
      | .getBlockBase =>
          match prepareParams method doc id with
          | .error thrown => some (endTry writer thrown)
          | .ok (request, added) => some (executeBase node request added writer response)
      | .sync =>
          (prepareParamsSync method doc id).map fun
            | .error thrown => endTry writer thrown
            | .ok request => caught writer (executeSync node request writer)

-- `accept` is the part of `Backend.prepare` that no handler changes.
theorem prepare_eq_accept (backend : Backend) (handler : Handler) (params : Bytes) :
    backend.prepare handler params =
      match accept backend params with
      | .error refusal => (refusal, false)
      | .ok (doc, id) => Backend.prepareParams handler doc id (Writer.setId id Writer.initial) := by
  unfold Backend.prepare accept
  cases backend.parse params with
  | error failure => rfl
  | ok doc =>
      dsimp only
      cases Reader.getId doc with
      | none => rfl
      | some id =>
          dsimp only
          cases backend.validateMethods with
          | false => rfl
          | true =>
              cases backend.methodsSchema with
              | none => rfl
              | some schema => cases checked : schema doc <;> simp [checked]

/-! ## What a reply shows -/

def ShowsState (reply : Json) : Prop := (reply.get (text "result")).any describesState = true

instance (reply : Json) : Decidable (ShowsState reply) := inferInstanceAs (Decidable (_ = true))

theorem not_showsState_of_none {doc : Json} (empty : doc.get (text "result") = none) : ¬ShowsState doc := by
  simp [ShowsState, empty]

theorem endTry_hides (doc : Json) (thrown : Thrown) : ¬ShowsState (endTry doc thrown) := by
  rw [endTry_eq]
  exact not_showsState_of_none rfl

theorem accept_hides {backend : Backend} {params : Bytes} {refusal : Json}
    (refused : accept backend params = .error refusal) : ¬ShowsState refusal := by
  unfold accept at refused
  split at refused
  case h_1 => cases refused; exact endTry_hides _ _
  case h_2 =>
    split at refused
    case h_1 => cases refused; exact endTry_hides _ _
    case h_2 =>
      dsimp only at refused
      split at refused
      case isFalse => cases refused
      case isTrue =>
        split at refused
        case h_1 => cases refused; exact endTry_hides _ _
        case h_2 =>
          split at refused
          case h_1 => cases refused; exact not_showsState_of_none rfl
          case h_2 => cases refused

theorem caught_hides {doc : Json} {body : Except Thrown Json} (hides : ∀ reply, body = .ok reply → ¬ShowsState reply) :
    ¬ShowsState (caught doc body) := by
  cases body with
  | error thrown => exact endTry_hides doc thrown
  | ok reply => exact hides reply rfl

section
variable {lib : Library} {bh : BlockHeader} {bi : Block} {signs : AnyTxInfo} {doc shown : Json}

theorem addMember_get (members : List (Bytes × Json)) (name other : Bytes) (value : Json) :
    ((Json.obj members).addMember name value).get other =
      ((Json.obj members).get other).or (if name = other then some value else none) := by
  simp only [Json.addMember, Json.get, List.find?_append, Option.map_or]
  by_cases same : name = other <;> simp [same]

theorem genErrorResponse_hides (empty : doc.get (text "result") = none) (code : Int) (message : Bytes) :
    ¬ShowsState (genErrorResponse code message doc) := by
  refine not_showsState_of_none ?_
  cases doc with
  | obj members => rw [genErrorResponse, addMember_get, empty, if_neg (by decide)]; rfl
  | _ => rfl

theorem headerMembers_type {members : List (Bytes × Json)} (header : headerMembers lib bh signs .V1 = .ok members) :
    ∃ name, lib.getBlockType bh.blockType = .ok name ∧
      ∀ more, (Json.obj (members ++ more)).get (text "type") = some (.str name) := by
  unfold headerMembers at header
  split at header
  case h_1 => cases header
  case h_2 =>
    obtain ⟨name, known, header⟩ := bind_eq_ok.mp header
    obtain ⟨shownSigns, -, header⟩ := bind_eq_ok.mp header
    cases header
    exact ⟨name, known, fun more => rfl⟩

theorem addResult_hides {members : List (Bytes × Json)} (empty : doc.get (text "result") = none)
    (header : headerMembers lib bh signs .V1 = .ok members) (other : lib.getBlockType bh.blockType ≠ .ok (text "state"))
    (more : List (Bytes × Json)) : ¬ShowsState (doc.addMember (text "result") (.obj (members ++ more))) := by
  cases doc with
  | obj fields =>
      obtain ⟨name, known, type⟩ := headerMembers_type header
      have other : name ≠ text "state" := fun same => other (same ▸ known)
      rw [ShowsState, addMember_get, empty, if_pos rfl]
      simp [describesState, type, other]
  | _ => exact not_showsState_of_none rfl

theorem blockHeaderToJson_hides (empty : doc.get (text "result") = none)
    (other : lib.getBlockType bh.blockType ≠ .ok (text "state"))
    (built : blockHeaderToJson lib bh signs .V1 doc = .ok shown) : ¬ShowsState shown := by
  unfold blockHeaderToJson at built
  split at built
  case isTrue => cases built; exact genErrorResponse_hides empty _ _
  case isFalse =>
    cases header : headerMembers lib bh signs .V1 with
    | error thrown => rw [header] at built; cases built
    | ok members =>
        rw [header] at built
        cases built
        simpa using addResult_hides empty header other []

theorem blockInfoToJson_hides {type : Nat} (empty : doc.get (text "result") = none)
    (other : lib.getBlockType bi.header.blockType ≠ .ok (text "state"))
    (built : blockInfoToJson lib bi signs type .V1 doc = .ok shown) : ¬ShowsState shown := by
  unfold blockInfoToJson at built
  split at built
  case isTrue => cases built; exact genErrorResponse_hides empty _ _
  case isFalse =>
    obtain ⟨members, header, built⟩ := bind_eq_ok.mp built
    obtain ⟨txs, -, built⟩ := bind_eq_ok.mp built
    cases built
    exact addResult_hides empty header other _

end

section
variable {node : Node} {request : BlockRequest} {doc shown : Json}

def StateTypes (lib : Library) : Prop :=
  ∀ type, lib.getBlockType type = .ok (text "state") ↔ lib.isStateBlock type = true

theorem StateTypes.ne {lib : Library} (types : StateTypes lib) {type : Nat} (other : lib.isStateBlock type = false) :
    lib.getBlockType type ≠ .ok (text "state") := by
  rw [Ne, types, other]
  exact Bool.false_ne_true

theorem execute_hides {lib : Library} {settings : Settings} (types : StateTypes lib)
    (hidden : settings.allowStateBlocks = false) (log : Log) (type : Nat) (doc : Json) (id : BlockId) :
    ¬ShowsState (execute lib settings log type doc id) := by
  have empty := (Backend.reset_get_outcome doc).2
  refine caught_hides fun shown body => ?_
  unfold executeBody at body
  split at body
  case h_1 => cases body
  case h_2 =>
    obtain ⟨block, -, body⟩ := bind_eq_ok.mp body
    cases block with
    | signBlock prevHash txs => cases body
    | rejectedTxs => cases body
    | block b =>
        simp only [hidden, Bool.not_false, Bool.true_and] at body
        split at body
        case isTrue => cases body; exact genErrorResponse_hides empty _ _
        case isFalse visible =>
          have other : lib.getBlockType (numbered b id.blockNumber).header.blockType ≠ .ok (text "state") :=
            types.ne (Bool.eq_false_iff.mpr visible)
          obtain ⟨signs, -, body⟩ := bind_eq_ok.mp body
          split at body
          · exact blockHeaderToJson_hides empty other body
          · exact blockInfoToJson_hides empty other body

theorem databaseReply_hides {sync : Sync} {bh : BlockHeader} {number : Nat} (types : StateTypes node.lib)
    (keeps : sync.KeepsType) (empty : doc.get (text "result") = none) (other : node.lib.isStateBlock bh.blockType = false)
    (built : databaseReply node sync request bh number doc = .ok shown) : ¬ShowsState shown := by
  obtain ⟨signs, -, built⟩ := bind_eq_ok.mp built
  split at built
  · exact blockHeaderToJson_hides empty (types.ne other) built
  · obtain ⟨bi, full, built⟩ := bind_eq_ok.mp built
    exact blockInfoToJson_hides empty (types.ne (keeps _ _ _ _ full ▸ other)) built

theorem ignores_eq (hidden : node.settings.allowStateBlocks = false) (bh : BlockHeader) :
    ignores node bh = node.lib.isStateBlock bh.blockType := by
  rw [ignores, hidden]
  rfl

theorem getSync_eq_ok {sync : Sync} (set : getSync node = .ok sync) : node.sync = some sync := by
  unfold getSync at set
  split at set
  · next present => cases set; exact present
  · cases set

theorem executeDatabase_hides (types : StateTypes node.lib) (keeps : ∀ sync ∈ node.sync, sync.KeepsType)
    (hidden : node.settings.allowStateBlocks = false) (empty : doc.get (text "result") = none) :
    ¬ShowsState (caught doc (executeDatabase node request doc)) := by
  refine caught_hides fun shown body => ?_
  obtain ⟨sync, set, body⟩ := bind_eq_ok.mp body
  obtain ⟨bh, -, body⟩ := bind_eq_ok.mp body
  rw [ignores_eq hidden] at body
  split at body
  case isTrue => cases body; exact genErrorResponse_hides empty _ _
  case isFalse visible =>
    split at body
    · cases body; exact genErrorResponse_hides empty _ _
    · exact databaseReply_hides types (keeps sync (getSync_eq_ok set)) empty (Bool.eq_false_iff.mpr visible) body

theorem executeSync_hides (types : StateTypes node.lib) (keeps : ∀ sync ∈ node.sync, sync.KeepsType)
    (hidden : node.settings.allowStateBlocks = false) (empty : doc.get (text "result") = none) :
    ¬ShowsState (caught doc (executeSync node request doc)) := by
  refine caught_hides fun shown body => ?_
  obtain ⟨sync, set, body⟩ := bind_eq_ok.mp body
  obtain ⟨bh, -, body⟩ := bind_eq_ok.mp body
  split at body
  · cases body; exact genErrorResponse_hides empty _ _
  · rw [ignores_eq hidden] at body
    split at body
    case isTrue => cases body; exact genErrorResponse_hides empty _ _
    case isFalse visible =>
      exact databaseReply_hides types (keeps sync (getSync_eq_ok set)) empty (Bool.eq_false_iff.mpr visible) body

def Smuggles (backend : Backend) (response : Bytes) : Prop :=
  ∃ members, backend.parse response = .ok (.obj members) ∧ Backend.hasOutcome (.obj members) = true ∧
    ((Json.obj members).get (text "result")).any describesState = false ∧
    (Backend.written (text "result") members).getLast?.any describesState = true

theorem onComplete_shows_iff (hidden : node.settings.allowStateBlocks = false) (response : Bytes) (writer : Json) :
    ShowsState (onComplete node response writer) ↔ Smuggles node.backend response := by
  unfold onComplete Backend.onComplete Smuggles
  cases parsed : node.backend.parse response with
  | error failure => simp [endTry_hides]
  | ok upstream =>
      cases upstream with
      | obj members =>
          simp only [hidden, Except.ok.injEq, Json.obj.injEq, exists_eq_left', Bool.not_false, Bool.and_true]
          cases outcome : Backend.hasOutcome (.obj members) with
          | false => simp [endTry_hides]
          | true =>
              cases own : ((Json.obj members).get (text "result")).any describesState with
              | true => simp [endTry_hides]
              | false =>
                  simp only [Bool.and_false, Bool.false_eq_true, if_false, if_true, true_and, ShowsState]
                  rw [Backend.processResponse_reset_get, Backend.withOutcome_reset, if_neg (by decide), if_pos rfl]
                  cases (Backend.written (text "result") members).getLast? with
                  | some value => rfl
                  | none =>
                      simp only [Option.none_or, Option.any_none, Bool.false_eq_true, iff_false, Bool.not_eq_true]
                      split
                      · rfl
                      · exact own
      | _ => simp [endTry_hides]

end

def AsksNetwork (node : Node) (method : Method) (params : Bytes) : Prop :=
  node.cache = none ∧ node.backend.useLocalDatabase = false ∧
    ∃ doc id asked, accept node.backend params = .ok (doc, id) ∧ prepareParams method doc id = .ok asked

theorem executeBase_shows_iff {node : Node} (types : StateTypes node.lib) (keeps : ∀ sync ∈ node.sync, sync.KeepsType)
    (hidden : node.settings.allowStateBlocks = false) (request : BlockRequest) (added : List (Bytes × Json)) (id : Nat)
    (response : Bytes) :
    ShowsState (executeBase node request added (Writer.setId id Writer.initial) response) ↔
      node.cache = none ∧ node.backend.useLocalDatabase = false ∧ Smuggles node.backend response := by
  unfold executeBase
  cases node.cache with
  | some log => simp [execute_hides types hidden]
  | none =>
      cases node.backend.useLocalDatabase with
      | true => simpa using executeDatabase_hides types keeps hidden rfl
      | false => simpa using onComplete_shows_iff hidden response _

theorem state_blocks_hidden_iff (node : Node) (hidden : node.settings.allowStateBlocks = false)
    (types : StateTypes node.lib) (keeps : ∀ sync ∈ node.sync, sync.KeepsType) (handler : HandlerClass) (method : Method)
    (params response : Bytes) :
    (∀ shown ∈ reply node handler method params response, ¬ShowsState shown) ↔
      ¬(handler = .getBlockBase ∧ AsksNetwork node method params ∧ Smuggles node.backend response) := by
  unfold reply AsksNetwork
  cases accepted : accept node.backend params with
  | error refusal => simp [accept_hides accepted]
  | ok asked =>
      obtain ⟨doc, id⟩ := asked
      cases handler with
      | sync =>
          simp only [Option.mem_def, Option.map_eq_some_iff, reduceCtorEq, false_and, not_false_iff, iff_true]
          rintro shown ⟨prepared, -, rfl⟩
          cases prepared with
          | error thrown => exact endTry_hides _ _
          | ok request => exact executeSync_hides types keeps hidden rfl
      | getBlockBase =>
          cases prepared : prepareParams method doc id with
          | error thrown => simp [endTry_hides, prepared]
          | ok asked =>
              obtain ⟨request, added⟩ := asked
              simp [prepared, executeBase_shows_iff types keeps hidden, and_assoc]

namespace Sample

def blockRequest (number : Nat) : Json :=
  .obj [(text "jsonrpc", .str (text "2.0")), (text "id", .int 7), (text "method", .str (text "get-block-by-number")),
    (text "params", .obj [(text "number", .int number), (text "type", .int 2)])]

def blockOf (type : String) : Json := .obj [(text "type", .str (text type))]

def stateResult : Json := .obj [(text "id", .int 7), (text "result", blockOf "state")]

def doubleResult : Bytes :=
  text "\x7b\"result\":\x7b\"type\":\"block\"\x7d,\"result\\u0000\":\x7b\"type\":\"state\"\x7d\x7d"

-- The text with the escape is read as JSON texts are.
def relaying : Node where
  lib := library []
  settings := settings
  backend := { Backend.Sample.plain with
    parse := fun body =>
      if body = doubleResult then .ok (.obj [(text "result", blockOf "block"), (text "result" ++ [0], blockOf "state")])
      else readPlain body }
  cache := none
  sync := none

def header (blockType number : Nat) : BlockHeader := ⟨0, 1, blockType, [number.toUInt8], [], [], [], 1, [], some number⟩

def database : Sync where
  getBlock
    | .number 5 => .ok (header 1 5)
    | .number 6 => .ok (header 2 6)
    | _ => .ok { header 0 0 with blockNumber := none }
  getFullBlock bh _ _ := .ok ⟨bh, [transfer]⟩
  getBlockSignatures _ := []

def stored : Node := { relaying with backend := { relaying.backend with useLocalDatabase := true }, sync := some database }

theorem library_types (blocks : List AnyBlock) : StateTypes (library blocks) := by
  intro type
  have distinct : text "block" ≠ text "state" := by decide
  by_cases state : type = 1
  · simp [library, state]
  · by_cases block : type = 2 <;> simp [library, state, block, distinct]

theorem database_keepsType : database.KeepsType := by
  intro bh beginTx countTxs bi full
  cases full
  rfl

end Sample

theorem state_blocks_stay_hidden :
    (∃ shown ∈ reply Sample.relaying .getBlockBase .byNumber (writePlain (Sample.blockRequest 5))
      (writePlain Sample.stateResult), ¬ShowsState shown) ∧
    ∀ handler, ∃ shown ∈ reply Sample.stored handler .byNumber (writePlain (Sample.blockRequest 6)) [],
      (shown.get (text "result")).isSome = true ∧ ¬ShowsState shown := by
  constructor
  · have replied : (reply Sample.relaying .getBlockBase .byNumber (writePlain (Sample.blockRequest 5))
        (writePlain Sample.stateResult)).isSome = true := by
      decide +kernel
    obtain ⟨shown, replied⟩ := Option.isSome_iff_exists.mp replied
    refine ⟨shown, replied, (state_blocks_hidden_iff Sample.relaying rfl (Sample.library_types []) (by rintro _ ⟨⟩)
      .getBlockBase .byNumber _ _).mpr ?_ shown replied⟩
    rintro ⟨-, -, members, parsed, -, own, -⟩
    have read : Sample.relaying.backend.parse (writePlain Sample.stateResult) = .ok Sample.stateResult := by
      decide +kernel
    rw [read] at parsed
    cases parsed
    exact Bool.noConfusion own
  · intro handler
    have answered : ((reply Sample.stored handler .byNumber (writePlain (Sample.blockRequest 6)) []).any
        fun shown => (shown.get (text "result")).isSome) = true := by
      cases handler <;> decide +kernel
    obtain ⟨shown, replied, answered⟩ := (Option.any_eq_true _ _).mp answered
    have keeps : ∀ sync ∈ Sample.stored.sync, sync.KeepsType := by
      rintro _ ⟨⟩
      exact Sample.database_keepsType
    refine ⟨shown, replied, answered, (state_blocks_hidden_iff Sample.stored rfl (Sample.library_types []) keeps
      handler .byNumber _ _).mpr ?_ shown replied⟩
    rintro ⟨-, ⟨-, away, -⟩, -⟩
    exact Bool.noConfusion away

-- The filter sees the member `result`; the one behind it has a zero byte in its name and is written as `result`.
theorem upstream_state_block_shown :
    Sample.relaying.settings.allowStateBlocks = false ∧ StateTypes Sample.relaying.lib ∧
      ∃ shown ∈ reply Sample.relaying .getBlockBase .byNumber (writePlain (Sample.blockRequest 5)) Sample.doubleResult,
        ShowsState shown := by
  have shows : ((reply Sample.relaying .getBlockBase .byNumber (writePlain (Sample.blockRequest 5))
      Sample.doubleResult).any fun shown => decide (ShowsState shown)) = true := by
    decide +kernel
  obtain ⟨shown, replied, shows⟩ := (Option.any_eq_true _ _).mp shows
  exact ⟨rfl, Sample.library_types [], shown, replied, of_decide_eq_true shows⟩

end FullnodeClient.Handlers
